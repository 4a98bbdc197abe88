import ToolAccess.Proofs.DecidingRule
import ToolAccess.Proofs.SessionRun

/-!
# Taint gates

A **taint gate** is a rule that denies tools from some taint level on and that no rule with another
decision comes before: `RuleSet.Gates`. This module proves that a gate which has closed stays closed
(`Session.gate_stays_closed`): once a turn has reached the level of a gate, the tools of the gate
are neither run nor listed in that turn any more, and neither are they in the turns that inherit its
taint, and in those that inherit it from them.

## What the proof rests on

* **The rules.** At a taint level from the gate's on, the gate applies to the tools that its matcher
  accepts. The rule that decides is one that outranks the gate, so it denies too
  (`RuleSet.Gates.explain_eq_deny`).
* **The turns.** A name keeps its turn, at a taint that is no lower, as long as no operation rebinds
  it (`Session.step_keeps`), and a turn delegated with `Inheritance.inherit` starts with the profile
  and the taint of the turn that it comes from. The names that stand for the turn or for one of its
  heirs are followed through the run by `Session.heirs`, and `Session.Reached` is the invariant: all
  of them stand for turns of the profile that have reached the level.
* **The calls.** Every call and every listing is decided at the taint of that moment
  (`Session.run_effects_getElem?`), so there is no earlier decision that could count.
-/

namespace ToolAccess

variable {σ : Type}

/-! ### Gates -/

/-- The placed rule denies from the level on, and every rule that decides otherwise comes after it:
its priority is lower, or the priority is the same and it is declared later. -/
structure RuleSet.Gates (s : RuleSet) (gate : PlacedRule) (level : TaintLevel) : Prop where
  placed : gate ∈ s.rules.zipIdx
  denies : gate.1.decision = .deny
  closes : gate.1.threshold = some level
  first : ∀ r ∈ s.rules.zipIdx, r.1.decision ≠ .deny →
    r.1.priority < gate.1.priority ∨ r.1.priority = gate.1.priority ∧ gate.2 < r.2

namespace RuleSet.Gates

variable {s : RuleSet} {gate : PlacedRule} {level taint : TaintLevel} {tool : ToolIdentity}
  {tags : TagSet}

theorem mem_applicable (h : s.Gates gate level) (hlevel : level ≤ taint)
    (haccepts : gate.1.matcher.accepts tool tags = true) :
    gate ∈ s.applicable taint tool tags := by
  refine List.mem_filter.2 ⟨h.placed, ?_⟩
  rw [Rule.applies, Rule.isActiveAt, h.closes]
  simp [hlevel, haccepts]

/-- A rule that outranks the gate denies. -/
theorem denies_of_outranks (h : s.Gates gate level) {w : PlacedRule} (hw : w ∈ s.rules.zipIdx)
    (hout : w.Outranks gate) : w.1.decision = .deny := by
  by_contra hne
  have hfirst := h.first w hw hne
  rw [Int64.lt_iff_toInt_lt, ← Int64.toInt_inj] at hfirst
  rw [PlacedRule.outranks_iff] at hout
  omega

/-- **The tools of a gate are denied** at every taint from its level on. -/
theorem explain_eq_deny (h : s.Gates gate level) (hlevel : level ≤ taint)
    (haccepts : gate.1.matcher.accepts tool tags = true) :
    (s.explain tool tags taint).decision = .deny := by
  have hmem := h.mem_applicable hlevel haccepts
  obtain ⟨w, hw, hout⟩ := s.exists_outranks_all (List.ne_nil_of_mem hmem)
  rw [explain_of_outranks_all hw hout]
  exact h.denies_of_outranks (List.mem_filter.1 hw).1 (hout gate hmem)

end RuleSet.Gates

namespace Guard

variable {g : Guard} {turn : Turn} {gate : PlacedRule} {level : TaintLevel}

/-- In a turn that has reached the level of a gate of its profile, the guard denies the gate's
tools. -/
theorem evaluate_eq_deny (h : (g.engine.ruleSet turn.profile).Gates gate level)
    (hlevel : level ≤ turn.taint) {identity : ToolIdentity}
    (haccepts : gate.1.matcher.accepts identity (g.engine.tagsFor identity) = true) :
    (g.evaluate turn identity).decision = .deny :=
  h.explain_eq_deny hlevel haccepts

/-- Such a tool is not listed. -/
theorem not_accepts_of_mem_list (h : (g.engine.ruleSet turn.profile).Gates gate level)
    (hlevel : level ≤ turn.taint) {definitions : List ToolDefinition} {d : ToolDefinition}
    (hd : d ∈ g.list turn definitions) :
    gate.1.matcher.accepts d.identity (g.engine.tagsFor d.identity) = false := by
  have hshown := (List.mem_filter.1 hd).2
  rw [shows, decide_eq_true_iff] at hshown
  exact Bool.eq_false_iff.2 fun haccepts ↦ hshown (evaluate_eq_deny h hlevel haccepts)

/-- A call of such a tool is refused, and the executor does not see it. -/
theorem execute_of_gate (h : (g.engine.ruleSet turn.profile).Gates gate level)
    (hlevel : level ≤ turn.taint) {host : Surroundings σ} {cancelled : Bool} {tool : String}
    {arguments : Json} {t : Trace σ} {identity : ToolIdentity}
    (hidentity : host.identityOf t.surroundings tool = some identity)
    (haccepts : gate.1.matcher.accepts identity (g.engine.tagsFor identity) = true) :
    (g.execute host turn cancelled tool arguments t).trace.calls = t.calls ∧
      (g.execute host turn cancelled tool arguments t).trace.surroundings = t.surroundings ∧
      ∃ reason, (g.execute host turn cancelled tool arguments t).finish =
        .outcome (.denied tool reason) := by
  rw [execute_of_deny hidentity (evaluate_eq_deny h hlevel haccepts)]
  exact ⟨refuse_trace_calls _ _ _ _, refuse_trace_surroundings _ _ _ _, _, rfl⟩

end Guard

/-! ### The heirs of a turn -/

/-- The names that stand for a turn or its heirs after an operation, from those before: a name that
the operation rebinds is taken out, and one that it gives to a turn inheriting from an heir is put
in. -/
def Operation.handOn (f : Forest) (names : List String) (op : Operation) : List String :=
  let kept := names.filter fun n ↦ op.rebinds? f ≠ some n
  match op with
  | .delegate name parent .inherit => if parent ∈ names then name :: kept else kept
  | _ => kept

/-- A name handed on is one that was there and is not rebound, or that of a turn which inherits. -/
theorem Operation.mem_handOn {f : Forest} {names : List String} {op : Operation} {n : String}
    (h : n ∈ op.handOn f names) :
    n ∈ names ∧ op.rebinds? f ≠ some n ∨
      ∃ parent ∈ names, op = .delegate n parent .inherit := by
  have hkept : n ∈ names.filter (fun n ↦ op.rebinds? f ≠ some n) →
      n ∈ names ∧ op.rebinds? f ≠ some n := fun hn ↦ by
    obtain ⟨hmem, hne⟩ := List.mem_filter.1 hn
    exact ⟨hmem, of_decide_eq_true hne⟩
  unfold handOn at h
  split at h
  case h_1 name parent =>
    split at h
    case isTrue hparent =>
      rcases List.mem_cons.1 h with rfl | hn
      · exact Or.inr ⟨parent, hparent, rfl⟩
      · exact Or.inl (hkept hn)
    case isFalse => exact Or.inl (hkept h)
  case h_2 => exact Or.inl (hkept h)

namespace Session

/-- The names that stand for a turn or its heirs after a run, from those before it. -/
def heirs (g : Guard) (host : Surroundings σ) (s : Session σ) (names : List String) :
    List Operation → List String
  | [] => names
  | op :: rest => heirs g host (s.step g host op).1 (op.handOn s.forest names) rest

/-- Every one of the names stands for a turn of the profile that has reached the level. -/
def Reached (s : Session σ) (profile : Option String) (level : TaintLevel) (names : List String) :
    Prop :=
  ∀ n ∈ names, ∃ turn, s.forest.turn? n = some turn ∧ turn.profile = profile ∧ level ≤ turn.taint

variable {g : Guard} {host : Surroundings σ} {s : Session σ} {profile : Option String}
  {level : TaintLevel} {names : List String}

/-- **The step lemma.** What is reached stays reached, and is handed on. -/
theorem Reached.step (h : s.Reached profile level names) (op : Operation) :
    (s.step g host op).1.Reached profile level (op.handOn s.forest names) := by
  intro n hn
  rcases Operation.mem_handOn hn with ⟨hmem, hbound⟩ | ⟨parent, hparent, rfl⟩
  -- The name was there and keeps its turn, which can only rise.
  · obtain ⟨turn, hturn, hprofile, hlevel⟩ := h n hmem
    have hkeeps : s.forest.Keeps (s.step g host op).1.forest n := step_keeps hbound
    obtain ⟨turn', hturn', hfollows⟩ := hkeeps turn hturn
    exact ⟨turn', hturn', hfollows.profile_eq.trans hprofile,
      Nat.le_trans hlevel hfollows.taint_le⟩
  -- The name is new, and its turn starts where its parent is.
  · obtain ⟨turn, hturn, hprofile, hlevel⟩ := h parent hparent
    refine ⟨turn.delegate s.forest.nextId .inherit, ?_, hprofile, hlevel⟩
    rw [Session.step, onTurn_of_some hturn, Forest.turn?_delegate, if_pos rfl]

/-- What is reached stays reached through a whole run, for all heirs. -/
theorem Reached.run (h : s.Reached profile level names) (ops : List Operation) :
    (s.run g host ops).1.Reached profile level (s.heirs g host names ops) := by
  induction ops generalizing s names with
  | nil => exact h
  | cons op rest ih =>
    rw [run_cons, heirs]
    exact ih (h.step op)

/-! ### A closed gate stays closed -/

/-- **A closed gate stays closed.** Let a turn have reached the level of a gate of its profile, and
let a run go on from there. At each place of the run, and for each name that stands there for the
turn or for one of its heirs: a call of a tool of the gate is denied, and the executor does not see
it; and a listing has no tool of the gate. -/
theorem gate_stays_closed (g : Guard) (host : Surroundings σ) (s : Session σ) (name : String)
    (turn : Turn) (gate : PlacedRule) (level : TaintLevel) (ops : List Operation) (i : Nat)
    (n : String) (hgate : (g.engine.ruleSet turn.profile).Gates gate level)
    (hturn : s.forest.turn? name = some turn) (hlevel : level ≤ turn.taint)
    (hn : n ∈ s.heirs g host [name] (ops.take i)) :
    let now := (s.run g host (ops.take i)).1
    let later := (s.run g host (ops.take (i + 1))).1
    let gated := fun identity ↦ gate.1.matcher.accepts identity (g.engine.tagsFor identity)
    (∀ tool arguments identity, ops[i]? = some (.execute n tool arguments) →
      host.identityOf now.surroundings tool = some identity → gated identity = true →
      ∃ report reason, (s.run g host ops).2[i]? = some (.executed report) ∧
        report.trace.calls = [] ∧ report.finish = .outcome (.denied tool reason) ∧
        later.surroundings = now.surroundings) ∧
    (ops[i]? = some (.list n) →
      ∃ definitions events, (s.run g host ops).2[i]? = some (.listed definitions events) ∧
        ∀ d ∈ definitions, gated d.identity = false) := by
  intro now later gated
  have hstart : s.Reached turn.profile level [name] := fun m hm ↦ by
    rw [List.mem_singleton.1 hm]
    exact ⟨turn, hturn, rfl, hlevel⟩
  obtain ⟨heir, hheir, hprofile, hreached⟩ := hstart.run _ n hn
  rw [← hprofile] at hgate
  constructor
  · intro tool arguments identity hop hidentity hgated
    obtain ⟨heffect, hlater⟩ := run_execute hop hheir
    have hrefused : (now.report g host heir tool arguments).trace.calls = [] ∧
        (now.report g host heir tool arguments).trace.surroundings = now.surroundings ∧
        ∃ reason, (now.report g host heir tool arguments).finish = .outcome (.denied tool reason) :=
      Guard.execute_of_gate hgate hreached hidentity hgated
    obtain ⟨hcalls, hsurr, reason, hfinish⟩ := hrefused
    exact ⟨now.report g host heir tool arguments, reason, heffect, hcalls, hfinish,
      hlater.trans hsurr⟩
  · intro hop
    refine ⟨g.list heir (host.definitions now.surroundings),
      g.listEvents heir (host.definitions now.surroundings), ?_, fun d hd ↦
      Guard.not_accepts_of_mem_list hgate hreached hd⟩
    rw [run_effects_getElem? g host s hop]
    exact congrArg (fun r ↦ some r.2) (onTurn_of_some hheir)

/-- The session in which the output of the first call has tainted the turn. -/
def taintedSession : Session Nat := (webSession.run webGuard webHost (fetchTwice.take 2)).1

/-- The turn is delegated and dropped, its heir is delegated in turn, the last one calls the tool
and its parent lists the tools. -/
def heirsFetch : List Operation :=
  [.delegate "child" "t" .inherit, .drop "t", .delegate "grandchild" "child" .inherit,
    .execute "grandchild" "fetch" .null, .list "child"]

/-- The gate of the web stays closed for the heirs of the tainted turn. -/
theorem web_stays_closed_for_heirs :
    taintedSession.heirs webGuard webHost ["t"] heirsFetch = ["grandchild", "child"] ∧
    (∃ report reason, (taintedSession.run webGuard webHost heirsFetch).2[3]? =
        some (.executed report) ∧ report.trace.calls = [] ∧
      report.finish = .outcome (.denied "fetch" reason)) ∧
    ∃ definitions events, (taintedSession.run webGuard webHost heirsFetch).2[4]? =
        some (.listed definitions events) ∧
      ∀ d ∈ definitions,
        webGate.matcher.accepts d.identity (webGuard.engine.tagsFor d.identity) = false := by
  have hgate : (webGuard.engine.ruleSet (webTurn .untrusted).profile).Gates (webGate, 0)
      .untrusted := ⟨by decide, rfl, rfl, by decide⟩
  have hturn : taintedSession.forest.turn? "t" = some (webTurn .untrusted) := by decide
  obtain ⟨hcall, -⟩ := gate_stays_closed webGuard webHost taintedSession "t" (webTurn .untrusted)
    (webGate, 0) .untrusted heirsFetch 3 "grandchild" hgate hturn (by decide) (by decide)
  obtain ⟨-, hlist⟩ := gate_stays_closed webGuard webHost taintedSession "t" (webTurn .untrusted)
    (webGate, 0) .untrusted heirsFetch 4 "child" hgate hturn (by decide) (by decide)
  obtain ⟨report, reason, hreport, hcalls, hfinish, -⟩ := hcall "fetch" .null
    (.fromOrigin "web" "fetch") rfl (by decide) (by decide)
  exact ⟨by decide, ⟨report, reason, hreport, hcalls, hfinish⟩, hlist rfl⟩

end Session

end ToolAccess
