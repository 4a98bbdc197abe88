import ToolAccess.Proofs.TurnTaint

/-!
# The audit trail

What the audit log holds of a run is one block of entries after another, one block for each call, in
the order of the calls. A block is told from what is seen of its call from outside (`CallTrail`):
what the policy decided, how the call ended, and whether the taint of the turn rose in it.

## What the proof rests on

* **Attempts.** Which entries a call attempts to write does not depend on the log. A log after a
  call is the log before with the attempts made on it (`AuditLog.recordAll`), whatever its sink does
  with them, and a sink that takes everything has them all in the end
  (`AuditLog.Works.entries_recordAll`).
* **One call.** The attempts of the three places that write, the guard, the request for a
  confirmation and the giving up of such a request, put together in the order in which the call
  comes to them (`Guard.execute_trail`).
* **A run.** The blocks one after the other (`Session.exists_trail`).
* **Rises.** What a turn can rise to in a call is the top level only
  (`Turn.observe_taint_of_lt`), and from there it cannot rise again. So a turn is written to have
  risen at most once (`Session.Trail.countP_rises_le`).

The main result is `Session.trail_is_exact`.
-/

namespace ToolAccess

variable {σ : Type}

/-! ### Attempts to write -/

namespace AuditLog

/-- The log after attempts to write entries one after the other. -/
def recordAll (log : AuditLog) (entries : List AuditEntry) : AuditLog :=
  entries.foldl (fun log e ↦ (log.record e).1) log

theorem recordAll_append (log : AuditLog) (es es' : List AuditEntry) :
    log.recordAll (es ++ es') = (log.recordAll es).recordAll es' :=
  List.foldl_append

/-- Without attempts, a log stays as it is. -/
theorem map_recordAll_nil (audit : Option AuditLog) : audit.map (·.recordAll []) = audit := by
  cases audit <;> rfl

/-- Attempts come one after the other. -/
theorem map_recordAll_append (audit : Option AuditLog) (es es' : List AuditEntry) :
    (audit.map (·.recordAll es)).map (·.recordAll es') = audit.map (·.recordAll (es ++ es')) := by
  rw [Option.map_map]
  exact congrArg (fun f ↦ audit.map f) (funext fun log ↦ (log.recordAll_append es es').symm)

/-- The sink takes everything. -/
def Works (log : AuditLog) : Prop := ∀ n, log.failure n = none

theorem Works.record {log : AuditLog} (h : log.Works) (e : AuditEntry) :
    (log.record e).1.Works ∧ (log.record e).1.entries = log.entries ++ [e] := by
  rw [AuditLog.record, h log.attempts]
  exact ⟨h, rfl⟩

/-- A sink that takes everything has all entries in the order of the attempts. -/
theorem Works.entries_recordAll {log : AuditLog} (h : log.Works) (es : List AuditEntry) :
    (log.recordAll es).entries = log.entries ++ es := by
  induction es generalizing log with
  | nil => exact (List.append_nil _).symm
  | cons e es ih =>
    obtain ⟨hworks, hentries⟩ := h.record e
    rw [show log.recordAll (e :: es) = (log.record e).1.recordAll es from rfl, ih hworks, hentries,
      List.append_assoc]
    rfl

end AuditLog

/-- The log of the second trace is that of the first one after attempts to write entries. -/
def Trace.Adds (t t' : Trace σ) (entries : List AuditEntry) : Prop :=
  t'.audit = t.audit.map (·.recordAll entries)

namespace Trace.Adds

variable {t t' t'' : Trace σ} {es es' : List AuditEntry}

theorem of_audit_eq (h : t'.audit = t.audit) : t.Adds t' [] := by
  rw [Trace.Adds, h, AuditLog.map_recordAll_nil]

theorem record (t : Trace σ) (e : AuditEntry) (failed : String → Event) :
    t.Adds (t.record e failed) [e] :=
  t.record_audit e failed

theorem trans (h : t.Adds t' es) (h' : t'.Adds t'' es') : t.Adds t'' (es ++ es') := by
  rw [Trace.Adds] at h h' ⊢
  rw [h', h, AuditLog.map_recordAll_append]

end Trace.Adds

/-! ### The trail of a call -/

/-- The entry about a confirmation in a call that went through: there is one if and only if the
policy asked for a confirmation. -/
def approvalEvents (decision : Option Decision) : List AuditEvent :=
  if decision = some .confirm then [.confirmation .approved] else []

/-- The entry about a rise of the taint: there is one if and only if the taint rose. -/
def riseEvents (before after : TaintLevel) : List AuditEvent :=
  if before < after then [.escalated after] else []

theorem riseEvents_self (level : TaintLevel) : riseEvents level level = [] :=
  if_neg (Nat.lt_irrefl _)

/-- What the log says of a call, from what was decided about the tool, the taint of the turn before
and after, and how the call ended. -/
inductive CallTrail (tool : String) (decision : Option Decision) (before after : TaintLevel) :
    CallEnd → List AuditEvent → Prop
  | refused {reason : String} (hdecision : decision = none ∨ decision = some .deny) :
    CallTrail tool decision before after (.outcome (.denied tool reason)) [.denied reason]
  | notConfirmed {outcome : ConfirmOutcome} (hdecision : decision = some .confirm)
    (houtcome : outcome ≠ .approved) :
    CallTrail tool decision before after (.outcome (.notConfirmed tool outcome))
      [.confirmation outcome]
  | dropped (hdecision : decision = some .confirm) :
    CallTrail tool decision before after .dropped [.confirmation .cancelled]
  | failed {error : ToolError} (hdecision : decision = some .allow ∨ decision = some .confirm) :
    CallTrail tool decision before after (.failed error) (approvalEvents decision)
  | executed {result : ToolResult} (hdecision : decision = some .allow ∨ decision = some .confirm) :
    CallTrail tool decision before after (.outcome (.executed result))
      (approvalEvents decision ++ .executed result.isError :: riseEvents before after)

/-- Entries about a tool in a turn. -/
def entriesFor (turn : Uuid) (tool : String) (events : List AuditEvent) : List AuditEntry :=
  events.map (⟨turn, tool, ·⟩)

namespace Guard

variable {g : Guard} {host : Surroundings σ} {turn : Turn} {cancelled : Bool} {tool : String}
  {arguments : Json} {t : Trace σ} {tags : TagSet}

/-- The human is asked once, and how the request ended is written. -/
theorem askHuman_adds (host : Surroundings σ) (turn : Turn) (cancelled : Bool)
    (question : Question) (t : Trace σ) :
    t.Adds (askHuman host turn cancelled question t).2
      (entriesFor turn.id question.tool
        [.confirmation (askHuman host turn cancelled question t).1.outcome]) := by
  rw [askHuman]
  cases cancelled with
  | false => exact .record _ _ _
  | true => exact .record _ _ _

/-- The level that an output raises a turn to is the one that the turn then has. -/
theorem map_outputRise? (turn : Turn) (tags : TagSet) :
    (turn.outputRise? tags).toList.map .escalated =
      riseEvents turn.taint (turn.observe tags).taint := by
  rw [Turn.outputRise?, Turn.observe, TaintLevel.afterOutput]
  rcases tags.outputTaint? with - | level
  · exact (riseEvents_self _).symm
  · by_cases h : turn.taint < level
    · simp [Turn.rises, riseEvents, TaintLevel.raise, h]
    · simp [Turn.rises, riseEvents_self, TaintLevel.raise, h]

theorem recordRise_adds (turn : Turn) (tool : String) (tags : TagSet) (t : Trace σ) :
    t.Adds (recordRise turn tool tags t)
      (entriesFor turn.id tool (riseEvents turn.taint (turn.observe tags).taint)) := by
  rw [← map_outputRise?, recordRise]
  split
  · next level h =>
    rw [h]
    exact .record t _ _
  · next h =>
    rw [h]
    exact .of_audit_eq rfl

/-- What is written of a tool that runs, behind what was written before. -/
theorem perform_trail (host : Surroundings σ) (turn : Turn) (tool : String) (arguments : Json)
    (tags : TagSet) (t : Trace σ) (decision : Option Decision)
    (hdecision : decision = some .allow ∨ decision = some .confirm) :
    let report := perform host turn tool arguments tags t
    ∃ events, t.Adds report.trace (entriesFor turn.id tool events) ∧
      CallTrail tool decision turn.taint report.turn.taint report.finish
        (approvalEvents decision ++ events) := by
  intro report
  rcases h : (host.run t.surroundings ⟨tool, arguments, turn⟩).1 with e | result
  · rw [show report = _ from perform_of_error h]
    refine ⟨[], .of_audit_eq rfl, ?_⟩
    rw [List.append_nil]
    exact .failed hdecision
  · rw [show report = _ from perform_of_ok h]
    have hcalled : t.Adds (called host ⟨tool, arguments, turn⟩ t) [] := .of_audit_eq rfl
    have hran := hcalled.trans (.record _ ⟨turn.id, tool, .executed result.isError⟩ .notAudited)
    exact ⟨.executed result.isError :: riseEvents turn.taint (turn.observe tags).taint,
      hran.trans (recordRise_adds turn tool tags _), .executed hdecision⟩

/-- What is written of a call that needs consent: the answer first, for the request writes it
whatever comes next. -/
theorem execute_trail_of_confirm {g : Guard} {host : Surroundings σ} {turn : Turn}
    {cancelled : Bool} {tool : String} {arguments : Json} {t : Trace σ} {identity : ToolIdentity}
    (h : host.identityOf t.surroundings tool = some identity)
    (hd : (g.evaluate turn identity).decision = .confirm) :
    let report := g.execute host turn cancelled tool arguments t
    ∃ events, t.Adds report.trace (entriesFor turn.id tool events) ∧
      CallTrail tool (some .confirm) turn.taint report.turn.taint report.finish events := by
  intro report
  have hasked := askHuman_adds host turn cancelled (question tool arguments)
    (t.emit (g.evaluateEvents turn identity))
  obtain ⟨hreq, -⟩ := askHuman_spec host turn cancelled (question tool arguments)
    (t.emit (g.evaluateEvents turn identity))
  rw [show report = _ from execute_of_confirm h hd]
  generalize askHuman host turn cancelled (question tool arguments)
    (t.emit (g.evaluateEvents turn identity)) = asked at hasked hreq ⊢
  have hfinish : asked.1 = (host.request cancelled (question tool arguments) t.surroundings).1 :=
    congrArg Prod.fst hreq
  by_cases hdrop : asked.1.dropped = true
  · rw [if_pos hdrop]
    refine ⟨_, hasked, ?_⟩
    have hcancelled : asked.1.outcome = .cancelled := by
      rw [hfinish] at hdrop ⊢
      exact Surroundings.outcome_request_of_dropped hdrop
    rw [hcancelled]
    exact .dropped rfl
  rw [if_neg hdrop]
  by_cases happroved : asked.1.outcome = .approved
  · rw [if_pos (ConfirmOutcome.isApproved_iff.2 happroved)]
    obtain ⟨events, hadds, htrail⟩ := perform_trail host turn tool arguments
      (g.engine.tagsFor identity) asked.2 (some .confirm) (Or.inr rfl)
    rw [happroved] at hasked
    exact ⟨.confirmation .approved :: events, hasked.trans hadds, htrail⟩
  · rw [if_neg (mt ConfirmOutcome.isApproved_iff.1 happroved)]
    exact ⟨_, hasked, .notConfirmed rfl happroved⟩

/-- **One call.** The entries that a call attempts to write are those of its trail, under the
identifier of the turn and the name that was requested. -/
theorem execute_trail (g : Guard) (host : Surroundings σ) (turn : Turn) (cancelled : Bool)
    (tool : String) (arguments : Json) (t : Trace σ) :
    let report := g.execute host turn cancelled tool arguments t
    ∃ events, t.Adds report.trace (entriesFor turn.id tool events) ∧
      CallTrail tool (g.decision? host t.surroundings turn tool) turn.taint report.turn.taint
        report.finish events := by
  intro report
  rcases h : host.identityOf t.surroundings tool with - | identity
  · rw [show report = _ from execute_of_unknown h, decision?_of_unknown h]
    exact ⟨_, .record _ _ _, .refused (Or.inl rfl)⟩
  have hdec : g.decision? host t.surroundings turn tool =
      some (g.evaluate turn identity).decision :=
    decision?_eq_some_iff.2 ⟨identity, h, rfl⟩
  rw [hdec]
  rcases hd : (g.evaluate turn identity).decision with - | - | -
  · rw [show report = _ from execute_of_allow h hd]
    exact perform_trail host turn tool arguments _ (t.emit (g.evaluateEvents turn identity)) _
      (Or.inl rfl)
  · rw [show report = _ from execute_of_deny h hd]
    exact ⟨_, .record _ _ _, .refused (Or.inr rfl)⟩
  · exact execute_trail_of_confirm h hd

end Guard

/-! ### The trail of a run -/

/-- The taint rose in a call only if the output raised it, so it rose to the top. -/
theorem Turn.observe_taint_of_lt {turn : Turn} {tags : TagSet}
    (h : turn.taint < (turn.observe tags).taint) : (turn.observe tags).taint = .untrusted := by
  have hgreatest := turn.taint.isGreatest_afterOutput tags
  rcases hgreatest.1 with hsame | ⟨htop, -⟩
  · rw [show (turn.observe tags).taint = turn.taint from hsame] at h
    exact absurd h (Nat.lt_irrefl _)
  · exact htop

/-- The operation is a call in the turn of the name. -/
def Operation.isCallIn (name : String) : Operation → Bool
  | .execute n _ _ => n == name
  | _ => false

/-- The operation is a call in some turn. -/
def Operation.isCall : Operation → Bool
  | .execute _ _ _ => true
  | _ => false

/-- The entry says that the taint rose. -/
def AuditEntry.isRise (e : AuditEntry) : Bool :=
  match e.event with
  | .escalated _ => true
  | _ => false

/-- The entries that say that the taint rose: one where it did, and none where it did not. -/
theorem CallTrail.countP_isRise_le {tool : String} {decision : Option Decision}
    {before after : TaintLevel} {finish : CallEnd} {events : List AuditEvent}
    (h : CallTrail tool decision before after finish events) (turn : Uuid) :
    (entriesFor turn tool events).countP (·.isRise) ≤ if before < after then 1 else 0 := by
  have happroval : (entriesFor turn tool (approvalEvents decision)).countP (·.isRise) = 0 := by
    rw [approvalEvents]
    split <;> rfl
  have hrise : (entriesFor turn tool (riseEvents before after)).countP (·.isRise) =
      if before < after then 1 else 0 := by
    rw [riseEvents]
    split <;> rfl
  cases h with
  | refused | notConfirmed | dropped => exact Nat.zero_le _
  | failed =>
    rw [happroval]
    exact Nat.zero_le _
  | @executed result =>
    have hexecuted : (entriesFor turn tool [.executed result.isError]).countP (·.isRise) = 0 := rfl
    rw [← List.singleton_append]
    simp only [entriesFor, List.map_append, List.countP_append] at happroval hrise hexecuted ⊢
    omega

/-- How often the taint can still rise in calls: from the top not at all, and otherwise once. -/
def TaintLevel.room (level : TaintLevel) : Nat := if level = .untrusted then 0 else 1

theorem TaintLevel.room_le_one (level : TaintLevel) : level.room ≤ 1 := by
  cases level <;> decide

theorem TaintLevel.room_le {a b : TaintLevel} (h : a ≤ b) : b.room ≤ a.room := by
  revert h
  cases a <;> cases b <;> decide

theorem TaintLevel.room_of_lt {a b : TaintLevel} (h : a < b) : a.room = 1 := by
  revert h
  cases a <;> cases b <;> decide

namespace Session

variable {g : Guard} {host : Surroundings σ} {s : Session σ} {name : String} {turn : Turn}

/-- What an operation writes to the log: a call in a turn its trail, under the identifier of the
turn and the name that was requested, and any other operation nothing. -/
inductive Writes (g : Guard) (host : Surroundings σ) (s : Session σ) :
    Operation → List AuditEntry → Prop
  | call {name tool : String} {arguments : Json} {turn later : Turn} {report : CallReport σ}
    {events : List AuditEvent} (hturn : s.forest.turn? name = some turn)
    (heffect : (s.step g host (.execute name tool arguments)).2 = .executed report)
    (hlater : (s.step g host (.execute name tool arguments)).1.forest.turn? name = some later)
    (htrail : CallTrail tool (g.decision? host s.surroundings turn tool) turn.taint later.taint
      report.finish events) :
    Writes g host s (.execute name tool arguments) (entriesFor turn.id tool events)
  | noTurn {name tool : String} {arguments : Json} (hturn : s.forest.turn? name = none) :
    Writes g host s (.execute name tool arguments) []
  | other {op : Operation} (hop : op.isCall = false) : Writes g host s op []

/-- What the operations of a run write, one after the other: each in the session that those before
it have left. -/
inductive Trail (g : Guard) (host : Surroundings σ) :
    Session σ → List Operation → List (List AuditEntry) → Prop
  | nil (s : Session σ) : Trail g host s [] []
  | cons {s : Session σ} {op : Operation} {rest : List Operation} {block : List AuditEntry}
    {blocks : List (List AuditEntry)} (hblock : s.Writes g host op block)
    (hblocks : Trail g host (s.step g host op).1 rest blocks) :
    Trail g host s (op :: rest) (block :: blocks)

/-- The entries of the calls in the turn of a name. -/
def entriesOf (name : String) (ops : List Operation) (blocks : List (List AuditEntry)) :
    List AuditEntry :=
  ((ops.zip blocks).filter (·.1.isCallIn name)).flatMap (·.2)

theorem audit_onTurn {act : Turn → Session σ × Effect σ}
    (h : ∀ turn, (act turn).1.audit = s.audit) : (s.onTurn name act).1.audit = s.audit :=
  onTurn_induction (p := fun s' ↦ s'.audit = s.audit) rfl fun turn _ ↦ h turn

/-- An operation that is no call leaves the log alone. -/
theorem audit_step_of_not_isCall {op : Operation} (h : op.isCall = false) :
    (s.step g host op).1.audit = s.audit := by
  cases op with
  | create n profile taint => rfl
  | execute n tool arguments => cases h
  | delegate | cancel | escalate | observe | drop | list => exact audit_onTurn fun _ ↦ rfl

/-- **The step lemma.** What an operation writes is attempted in the log. -/
theorem exists_writes (g : Guard) (host : Surroundings σ) (s : Session σ) (op : Operation) :
    ∃ block, s.Writes g host op block ∧
      (s.step g host op).1.audit = s.audit.map (·.recordAll block) := by
  have hnothing : (s.step g host op).1.audit = s.audit →
      (s.step g host op).1.audit = s.audit.map (·.recordAll []) := fun h ↦ by
    rw [h, AuditLog.map_recordAll_nil]
  by_cases hop : op.isCall = false
  · exact ⟨[], .other hop, hnothing (audit_step_of_not_isCall hop)⟩
  cases op with
  | execute name tool arguments =>
    rcases hturn : s.forest.turn? name with - | turn
    · exact ⟨[], .noTurn hturn, hnothing (by rw [step, execute, onTurn_of_none hturn])⟩
    · obtain ⟨events, hadds, htrail⟩ := g.execute_trail host turn (s.forest.isCancelled turn) tool
        arguments (.start s.surroundings s.audit)
      refine ⟨_, .call hturn (congrArg Prod.snd (step_execute hturn)) ?_ htrail, ?_⟩
      · rw [step_execute hturn, turn?_afterCall, Forest.turn?_put, if_pos rfl]
        rfl
      · rw [step_execute hturn]
        exact hadds
  | create | delegate | cancel | escalate | observe | drop | list => exact absurd rfl hop

/-- **The run lemma.** A run has a trail, and the trail is attempted in the log. -/
theorem exists_trail (g : Guard) (host : Surroundings σ) (s : Session σ) (ops : List Operation) :
    ∃ blocks, s.Trail g host ops blocks ∧
      (s.run g host ops).1.audit = s.audit.map (·.recordAll blocks.flatten) := by
  induction ops generalizing s with
  | nil =>
    refine ⟨[], .nil s, ?_⟩
    show s.audit = s.audit.map (·.recordAll [])
    rw [AuditLog.map_recordAll_nil]
  | cons op rest ih =>
    obtain ⟨block, hblock, hstep⟩ := exists_writes g host s op
    obtain ⟨blocks, hblocks, hrun⟩ := ih (s.step g host op).1
    refine ⟨block :: blocks, .cons hblock hblocks, ?_⟩
    rw [run_cons, hrun, hstep, AuditLog.map_recordAll_append, List.flatten_cons]

/-! ### Rises -/

/-- A call in which the taint rises leaves the turn at the top. -/
theorem report_taint_of_lt {tool : String} {arguments : Json}
    (h : turn.taint < (s.report g host turn tool arguments).turn.taint) :
    (s.report g host turn tool arguments).turn.taint = .untrusted := by
  rcases g.turn_execute host turn (s.forest.isCancelled turn) tool arguments
    (.start s.surroundings s.audit) with ⟨-, hsame⟩ | ⟨-, identity, -, hobserve⟩
  · rw [show (s.report g host turn tool arguments).turn = turn from hsame] at h
    exact absurd h (Nat.lt_irrefl _)
  · rw [show (s.report g host turn tool arguments).turn = _ from hobserve] at h ⊢
    exact Turn.observe_taint_of_lt h

/-- The rises that an operation writes for the turn of a name use up the room that the turn has for
them. -/
theorem Writes.countP_isRise_add_room_le {op : Operation} {block : List AuditEntry}
    (h : s.Writes g host op block) (hleaves : op.Leaves name)
    (hturn : s.forest.turn? name = some turn) :
    ∃ later, (s.step g host op).1.forest.turn? name = some later ∧
      (if op.isCallIn name then block else []).countP (·.isRise) + later.taint.room ≤
        turn.taint.room := by
  have hkeeps : s.forest.Keeps (s.step g host op).1.forest name :=
    step_keeps (hleaves.rebinds?_ne s.forest)
  obtain ⟨later, hlater, hfollows⟩ := hkeeps turn hturn
  refine ⟨later, hlater, ?_⟩
  have hroom := TaintLevel.room_le hfollows.taint_le
  by_cases hcall : op.isCallIn name = true
  · rw [if_pos hcall]
    cases h with
    | noTurn | other =>
      rw [List.countP_nil, Nat.zero_add]
      exact hroom
    | @call n tool arguments turn' later' report events hturn' heffect hlater' htrail =>
      obtain rfl : n = name := eq_of_beq hcall
      obtain rfl := Option.some.inj (hturn.symm.trans hturn')
      obtain rfl := Option.some.inj (hlater.symm.trans hlater')
      have hcount := htrail.countP_isRise_le turn.id
      have hreport : later = (s.report g host turn tool arguments).turn := by
        rw [step_execute hturn, turn?_afterCall, Forest.turn?_put, if_pos rfl] at hlater
        exact (Option.some.inj hlater).symm
      by_cases hrose : turn.taint < later.taint
      · have htop : later.taint = .untrusted := by
          rw [hreport] at hrose ⊢
          exact report_taint_of_lt hrose
        have hnone : later.taint.room = 0 := congrArg TaintLevel.room htop
        have hone := TaintLevel.room_of_lt hrose
        rw [if_pos hrose] at hcount
        omega
      · rw [if_neg hrose] at hcount
        omega
  · rw [if_neg hcall, List.countP_nil, Nat.zero_add]
    exact hroom

theorem entriesOf_cons (op : Operation) (rest : List Operation) (block : List AuditEntry)
    (blocks : List (List AuditEntry)) : entriesOf name (op :: rest) (block :: blocks) =
      (if op.isCallIn name then block else []) ++ entriesOf name rest blocks := by
  rw [entriesOf, List.zip_cons_cons, List.filter_cons]
  split <;> rfl

/-- **A turn is written to have risen at most once**, and not at all if it began at the top. -/
theorem Trail.countP_rises_le {ops : List Operation} {blocks : List (List AuditEntry)}
    (h : s.Trail g host ops blocks) (hleaves : ∀ op ∈ ops, op.Leaves name)
    (hturn : s.forest.turn? name = some turn) :
    (entriesOf name ops blocks).countP (·.isRise) ≤ turn.taint.room := by
  induction h generalizing turn with
  | nil s => exact Nat.zero_le _
  | @cons s op rest block blocks hblock hblocks ih =>
    obtain ⟨hop, hrest⟩ := List.forall_mem_cons.1 hleaves
    obtain ⟨later, hlater, hcount⟩ := hblock.countP_isRise_add_room_le hop hturn
    have hcountRest := ih hrest hlater
    rw [entriesOf_cons, List.countP_append]
    omega

/-! ### The trail is exact -/

/-- **The audit trail is exact.** Take any run on a log that takes everything. There is one block of
entries for each operation, written in the session that the operations before it have left, and the
run adds these blocks to the log, in this order, and nothing else:

* A call of an unknown tool, or of one that the policy denies, writes one refusal, with the reason
  that the call gives back.
* A call that needed a confirmation and did not get it writes one entry with the outcome that the
  call gives back; one that was given up meanwhile writes that it was cancelled.
* A call whose tool gave something back writes the approval if and only if the policy asked for one,
  then that the tool ran and whether its result is an error, then the new level if and only if the
  taint rose in this call.
* A call whose tool failed writes the approval only, if the policy asked for one.

All entries of a call carry the identifier of its turn and the name that was requested. So a turn
has at most one entry about a rise of its taint, and none if it was untrusted from the start. -/
theorem trail_is_exact (g : Guard) (host : Surroundings σ) (s : Session σ) (ops : List Operation)
    (log : AuditLog) (hlog : s.audit = some log) (hworks : log.Works) :
    ∃ blocks, s.Trail g host ops blocks ∧
      (∃ log', (s.run g host ops).1.audit = some log' ∧
        log'.entries = log.entries ++ blocks.flatten) ∧
      ∀ name turn, s.forest.turn? name = some turn → (∀ op ∈ ops, op.Leaves name) →
        (entriesOf name ops blocks).countP (·.isRise) ≤ 1 ∧
        (turn.taint = .untrusted → (entriesOf name ops blocks).countP (·.isRise) = 0) := by
  obtain ⟨blocks, htrail, haudit⟩ := exists_trail g host s ops
  refine ⟨blocks, htrail, ⟨log.recordAll blocks.flatten, ?_, hworks.entries_recordAll _⟩, ?_⟩
  · rw [haudit, hlog, Option.map_some]
  · intro name turn hturn hleaves
    have hcount := htrail.countP_rises_le hleaves hturn
    refine ⟨Nat.le_trans hcount turn.taint.room_le_one, fun huntrusted ↦ ?_⟩
    rw [huntrusted] at hcount
    exact Nat.le_zero.1 hcount

/-- The session with one tool of the web, at the start of a turn and with a log. -/
def auditedSession : Session Nat :=
  ((⟨.empty, 0, some .working⟩ : Session Nat).step webGuard webHost (.create "t" none .trusted)).1

/-- The first fetch is approved, runs and taints the turn; the second one is refused, and so is a
call of a tool that does not exist. -/
def fetchTwiceAndGuess : List Operation :=
  [.execute "t" "fetch" .null, .execute "t" "fetch" .null, .execute "t" "guess" .null]

/-- The trail of these calls, in which the turn rises once. -/
theorem fetchTwiceAndGuess_trail :
    ∃ blocks, auditedSession.Trail webGuard webHost fetchTwiceAndGuess blocks ∧
      blocks.flatten =
        entriesFor (.ofNat 1) "fetch" [.confirmation .approved, .executed false,
          .escalated .untrusted, .denied "rule #0"] ++
        entriesFor (.ofNat 1) "guess" [.denied "unknown tool"] ∧
      (entriesOf "t" fetchTwiceAndGuess blocks).countP (·.isRise) ≤ 1 := by
  obtain ⟨blocks, htrail, ⟨log, hlog, hentries⟩, hrises⟩ := trail_is_exact webGuard webHost
    auditedSession fetchTwiceAndGuess .working rfl (fun _ ↦ rfl)
  refine ⟨blocks, htrail, ?_, (hrises "t" (webTurn .trusted) (by decide)
    (by simp [fetchTwiceAndGuess, Operation.Leaves])).1⟩
  have hrun : ((auditedSession.run webGuard webHost fetchTwiceAndGuess).1.audit.map (·.entries)) =
      some (entriesFor (.ofNat 1) "fetch" [.confirmation .approved, .executed false,
        .escalated .untrusted, .denied "rule #0"] ++
        entriesFor (.ofNat 1) "guess" [.denied "unknown tool"]) := by decide
  rw [hlog, Option.map_some, hentries] at hrun
  exact Option.some.inj hrun

end Session

end ToolAccess
