import ToolAccess.Proofs.CallEnds
import ToolAccess.Proofs.DelegationTrees

/-!
# Turns of different trees

Turns that are at work at the same time share the engine, the guard, the executor, the human and one
audit log, and their calls come in any order. Here a turn whose calls are mixed with those of other
turns is compared with the same turn alone, in a session of its own that does its calls and nothing
else. What the surroundings answer to a call must not depend on what other turns do. Then the turn
does not notice them: its calls end in the same way, its taint goes through the same levels, and
what the log has under its identifier is its own trail.

## What the proof rests on

* **Its own calls.** How a call ends is a function of the turn as it is and of the answers
  (`Guard.Answered.finish_eq`), and so is whether it cancels its tree. So the two sessions stay
  together over it (`Session.Together.step_own`).
* **Calls of others.** They leave the turn as it is, they cancel no tree but their own, and what
  they write carries another identifier (`Session.Together.step_other`).
* **A run.** Calls make no turns, and the turns that they are made in stay the same ones later on.
  So turns that were apart in the beginning stay so (`Session.ApartFrom.step`).

The main result is `Session.separate_turns_do_not_interfere`.
-/

namespace ToolAccess

variable {σ τ : Type}

/-! ### Calls that are answered in a given way -/

/-- What the surroundings answer to a call: what its name stands for, how the request to the human
ends, and what the tool gives back. -/
structure Answer where
  identity : Option ToolIdentity
  request : RequestEnd
  result : Except ToolError ToolResult

/-- The end of the request. Where the turn is cancelled already, nobody is asked. -/
def Answer.requestEnd (a : Answer) (cancelled : Bool) : RequestEnd :=
  if cancelled then .ofPolls [.ofCancelled] else a.request

namespace Guard

/-- The surroundings give an answer to a call. Of what they are not asked in this call they may say
anything. -/
structure Answered (g : Guard) (host : Surroundings σ) (w : σ) (turn : Turn) (cancelled : Bool)
    (tool : String) (arguments : Json) (a : Answer) : Prop where
  identity : host.identityOf w tool = a.identity
  request : cancelled = false → g.decision? host w turn tool = some .confirm →
    (host.ask w (question tool arguments)).1.requestEnd = a.request
  result : g.Permits host w turn cancelled tool arguments →
    (host.run (g.settled host w turn cancelled tool arguments) ⟨tool, arguments, turn⟩).1 = a.result

variable {g : Guard} {host : Surroundings σ} {turn : Turn} {cancelled : Bool} {tool : String}
  {arguments : Json} {t : Trace σ} {a : Answer}

/-- A call ends as the answer says. -/
theorem Answered.finish_eq
    (h : g.Answered host t.surroundings turn cancelled tool arguments a) :
    (g.execute host turn cancelled tool arguments t).finish =
      g.ending turn tool a.identity (a.requestEnd cancelled) a.result := by
  have hrequest : g.decision? host t.surroundings turn tool = some .confirm →
      a.requestEnd cancelled =
        (host.request cancelled (question tool arguments) t.surroundings).1 := fun hconfirm ↦ by
    cases cancelled with
    | true => rfl
    | false => exact (h.request rfl hconfirm).symm
  rw [finish_execute, ← h.identity]
  exact (ending_congr hrequest fun hpermits ↦ (h.result hpermits).symm).symm

end Guard

/-! ### A turn and its own calls -/

/-- The calls in the turn of a name. -/
def callsIn (name : String) (ops : List Operation) : List Operation := ops.filter (·.isCallIn name)

/-- How an operation ended, if it was a call. -/
def Effect.finish? : Effect σ → Option CallEnd
  | .executed report => some report.finish
  | _ => none

/-- How the calls in the turn of a name ended, one after the other. -/
def endsIn (name : String) (ops : List Operation) (effects : List (Effect σ)) :
    List (Option CallEnd) :=
  ((ops.zip effects).filter (·.1.isCallIn name)).map (·.2.finish?)

section CallsIn

variable {name : String} {op : Operation} {rest : List Operation}

theorem callsIn_cons_of_own (h : op.isCallIn name = true) :
    callsIn name (op :: rest) = op :: callsIn name rest :=
  List.filter_cons_of_pos h

theorem callsIn_cons_of_other (h : op.isCallIn name = false) :
    callsIn name (op :: rest) = callsIn name rest :=
  List.filter_cons_of_neg (Bool.eq_false_iff.1 h)

theorem endsIn_cons_of_own {effect : Effect σ} {effects : List (Effect σ)}
    (h : op.isCallIn name = true) :
    endsIn name (op :: rest) (effect :: effects) = effect.finish? :: endsIn name rest effects := by
  rw [endsIn, List.zip_cons_cons, List.filter_cons, if_pos h]
  rfl

theorem endsIn_cons_of_other {effect : Effect σ} {effects : List (Effect σ)}
    (h : op.isCallIn name = false) :
    endsIn name (op :: rest) (effect :: effects) = endsIn name rest effects := by
  rw [endsIn, List.zip_cons_cons, List.filter_cons, if_neg (Bool.eq_false_iff.1 h)]
  rfl

end CallsIn

/-- A call gives no name to another turn. -/
theorem Operation.rebinds?_of_isCall {op : Operation} (h : op.isCall = true) (f : Forest) :
    op.rebinds? f = none := by
  cases op with
  | execute name tool arguments => rfl
  | create | delegate | cancel | escalate | observe | drop | list => cases h

/-- Later on, a turn is of the same tree, so it is cancelled where it was before. -/
theorem Turn.Follows.isCancelled_eq {t t' : Turn} (h : t.Follows t') (f : Forest) :
    f.isCancelled t' = f.isCancelled t := by
  rw [Forest.isCancelled, Forest.isCancelled, h.tree_eq]

/-- Two turns that have nothing to do with each other: they are of different delegation trees, and
have different identifiers. -/
structure Turn.Apart (t u : Turn) : Prop where
  tree_ne : t.tree ≠ u.tree
  id_ne : t.id ≠ u.id

/-- Turns that are apart stay so. -/
theorem Turn.Apart.follow {t t' u u' : Turn} (h : t.Apart u) (ht : t.Follows t')
    (hu : u.Follows u') : t'.Apart u' := by
  refine ⟨?_, ?_⟩
  · rw [ht.tree_eq, hu.tree_eq]
    exact h.tree_ne
  · rw [ht.id_eq, hu.id_eq]
    exact h.id_ne

namespace Session

variable {g : Guard} {host : Surroundings σ} {host' : Surroundings τ} {s : Session σ}
  {s' : Session τ} {name : String} {turn later : Turn} {op : Operation}
  {rest ops past : List Operation} {answers : List Operation → Turn → Answer}

/-- What the calls in the turn of a name are answered is told from the own calls of the turn alone,
those of the past and those of the run up to the present one, and from the turn as it is. -/
def AnsweredBy (g : Guard) (host : Surroundings σ) (s : Session σ) (name : String)
    (answers : List Operation → Turn → Answer) (past ops : List Operation) : Prop :=
  ∀ i tool arguments turn, ops[i]? = some (.execute name tool arguments) →
    (s.before g host ops i).forest.turn? name = some turn →
    g.Answered host (s.before g host ops i).surroundings turn
      ((s.before g host ops i).forest.isCancelled turn) tool arguments
      (answers (past ++ callsIn name (ops.take (i + 1))) turn)

theorem AnsweredBy.head {tool : String} {arguments : Json}
    (h : AnsweredBy g host s name answers past (.execute name tool arguments :: rest))
    (hturn : s.forest.turn? name = some turn) :
    g.Answered host s.surroundings turn (s.forest.isCancelled turn) tool arguments
      (answers (past ++ callsIn name [.execute name tool arguments]) turn) :=
  h 0 tool arguments turn rfl hturn

/-- Behind an operation, this is one of the calls of the past if it is a call in the turn. -/
theorem AnsweredBy.tail (h : AnsweredBy g host s name answers past (op :: rest)) :
    AnsweredBy g host (s.step g host op).1 name answers (past ++ callsIn name [op]) rest := by
  intro i tool arguments turn hop hturn
  have hcalls : past ++ callsIn name [op] ++ callsIn name (rest.take (i + 1)) =
      past ++ callsIn name ((op :: rest).take (i + 1 + 1)) := by
    rw [List.append_assoc, callsIn, callsIn, ← List.filter_append]
    rfl
  rw [hcalls]
  exact h (i + 1) tool arguments turn hop hturn

/-- Whether a turn is cancelled after a call: it was so before, or it is of the tree that the call
cancels. -/
theorem isCancelled_execute_iff {tool : String} {arguments : Json}
    (hturn : s.forest.turn? name = some turn) (t : Turn) :
    (s.step g host (.execute name tool arguments)).1.forest.isCancelled t = true ↔
      s.forest.isCancelled t = true ∨
        turn.tree = t.tree ∧ endsCancelled (s.report g host turn tool arguments).finish = true := by
  rw [isCancelled_iff_mem, mem_cancelledTrees_execute_iff hturn, cancels_execute_iff hturn,
    isCancelled_iff_mem]
  constructor
  · rintro (hmem | ⟨htree, -, hends⟩)
    · exact Or.inl hmem
    · exact Or.inr ⟨htree, hends⟩
  · rintro (hmem | ⟨htree, hends⟩)
    · exact Or.inl hmem
    · rcases hcancelled : s.forest.isCancelled turn with - | -
      · exact Or.inr ⟨htree, rfl, hends⟩
      · exact Or.inl (htree ▸ isCancelled_iff_mem.1 hcancelled)

/-- In both sessions the name stands for the same turn, and the turn is cancelled in both or in
neither. -/
structure Together (s : Session σ) (s' : Session τ) (name : String) (turn : Turn) : Prop where
  turn_eq : s.forest.turn? name = some turn
  turn_eq' : s'.forest.turn? name = some turn
  cancelled_eq : s'.forest.isCancelled turn = s.forest.isCancelled turn

/-- **An own call.** If the call is answered in the same way in both sessions, then they stay
together over it, it ends in the same way in both, and it writes the same entries. -/
theorem Together.step_own {tool : String} {arguments : Json} {a : Answer}
    (h : Together s s' name turn)
    (ha : g.Answered host s.surroundings turn (s.forest.isCancelled turn) tool arguments a)
    (ha' : g.Answered host' s'.surroundings turn (s'.forest.isCancelled turn) tool arguments a) :
    let op := Operation.execute name tool arguments
    ∃ later block, turn.Follows later ∧
      Together (s.step g host op).1 (s'.step g host' op).1 name later ∧
      (∃ finish, (s.step g host op).2.finish? = some finish ∧
        (s'.step g host' op).2.finish? = some finish) ∧
      s'.Writes g host' op block ∧
      (s.step g host op).1.audit = s.audit.map (·.recordAll block) ∧
      (s'.step g host' op).1.audit = s'.audit.map (·.recordAll block) ∧
      ∀ e ∈ block, e.turn = turn.id := by
  intro op
  have hidentity := ha'.identity.trans ha.identity.symm
  have hfinish : (s'.report g host' turn tool arguments).finish =
      (s.report g host turn tool arguments).finish := by
    rw [report, report, ha'.finish_eq, ha.finish_eq, h.cancelled_eq]
  obtain ⟨hlater, hlater', block, hwrites', haudit, haudit', hids⟩ :=
    step_execute_congr h.turn_eq h.turn_eq' hidentity (congrArg CallEnd.outline hfinish)
  have hfollows : turn.Follows (s.report g host turn tool arguments).turn :=
    g.follows_execute host turn _ tool arguments _
  refine ⟨_, block, hfollows, ⟨hlater, hlater', ?_⟩, ?_, hwrites', haudit, haudit', hids⟩
  · rw [Bool.eq_iff_iff, isCancelled_execute_iff h.turn_eq, isCancelled_execute_iff h.turn_eq',
      hfinish, hfollows.isCancelled_eq, hfollows.isCancelled_eq, h.cancelled_eq]
  · rw [step_execute h.turn_eq, step_execute h.turn_eq']
    exact ⟨_, rfl, congrArg some hfinish⟩

/-- **A call of another turn.** If the turn is apart, then nothing changes for this one, and what is
written is about the other one. -/
theorem Together.step_other {n tool : String} {arguments : Json} (h : Together s s' name turn)
    (g : Guard) (host : Surroundings σ) (hn : n ≠ name)
    (hapart : ∀ t, s.forest.turn? n = some t → t.Apart turn) :
    let op := Operation.execute n tool arguments
    Together (s.step g host op).1 s' name turn ∧
      ∃ block, (s.step g host op).1.audit = s.audit.map (·.recordAll block) ∧
        ∀ e ∈ block, e.turn ≠ turn.id := by
  intro op
  rcases hother : s.forest.turn? n with - | t
  · have hsame : (s.step g host op).1 = s := congrArg Prod.fst (onTurn_of_none hother)
    rw [hsame]
    exact ⟨h, [], (AuditLog.map_recordAll_nil _).symm, List.forall_mem_nil _⟩
  · have hleaves : op.Leaves name := trivial
    have hturn : (s.step g host op).1.forest.turn? name = some turn := by
      rw [turn?_step_of_not_touches hleaves hn, h.turn_eq]
    have hcancelled : (s.step g host op).1.forest.isCancelled turn = s.forest.isCancelled turn := by
      rw [Bool.eq_iff_iff, isCancelled_execute_iff hother]
      exact or_iff_left fun hcancels ↦ (hapart t hother).tree_ne hcancels.1
    obtain ⟨-, -, haudit, hids⟩ := step_execute_entries g host s tool arguments hother
    refine ⟨⟨hturn, h.turn_eq', h.cancelled_eq.trans hcancelled.symm⟩, _, haudit, ?_⟩
    intro e he hsame
    exact (hapart t hother).id_ne ((hids e he).symm.trans hsame)

/-! ### Runs -/

/-- The calls of other names are made in turns that are apart from this one. -/
def ApartFrom (s : Session σ) (name : String) (turn : Turn) (ops : List Operation) : Prop :=
  ∀ n tool arguments t, .execute n tool arguments ∈ ops → n ≠ name →
    s.forest.turn? n = some t → t.Apart turn

/-- Over a call, turns that are apart stay so. -/
theorem ApartFrom.step (h : s.ApartFrom name turn (op :: rest)) (hcall : op.isCall = true)
    (hfollows : turn.Follows later) : (s.step g host op).1.ApartFrom name later rest := by
  intro n tool arguments t hmem hn ht
  have hbound : op.rebinds? s.forest ≠ some n := by
    rw [Operation.rebinds?_of_isCall hcall]
    exact nofun
  rcases hfirst : s.forest.turn? n with - | first
  · rw [turn?_step_of_none hbound hfirst] at ht
    cases ht
  · have hkeeps : s.forest.Keeps (s.step g host op).1.forest n := step_keeps hbound
    obtain ⟨t', ht', hfollows'⟩ := hkeeps first hfirst
    obtain rfl := Option.some.inj (ht.symm.trans ht')
    exact (h n tool arguments first (List.mem_cons_of_mem op hmem) hn hfirst).follow hfollows'
      hfollows

/-- A turn is not disturbed in a run: its own calls end as they do alone, it is at each place the
turn that it is alone, and what is written under its identifier is its trail alone. -/
structure Undisturbed (g : Guard) (host : Surroundings σ) (host' : Surroundings τ) (s : Session σ)
    (s' : Session τ) (name : String) (turn : Turn) (ops : List Operation) : Prop where
  ends : ∃ ends : List CallEnd, endsIn name ops (s.run g host ops).2 = ends.map some ∧
    endsIn name (callsIn name ops) (s'.run g host' (callsIn name ops)).2 = ends.map some
  turns (i : Nat) : ∃ now, (s.before g host ops i).forest.turn? name = some now ∧
    (s'.run g host' (callsIn name (ops.take i))).1.forest.turn? name = some now ∧ turn.Follows now
  trail : ∃ attempted blocks, s'.Trail g host' (callsIn name ops) blocks ∧
    (s.run g host ops).1.audit = s.audit.map (·.recordAll attempted) ∧
    (s'.run g host' (callsIn name ops)).1.audit = s'.audit.map (·.recordAll blocks.flatten) ∧
    attempted.filter (·.turn = turn.id) = blocks.flatten

namespace Undisturbed

variable {block : List AuditEntry}

/-- An own call in front, which goes in both sessions in the same way. -/
theorem own (htogether : Together s s' name turn) (hop : op.isCallIn name = true)
    (hfollows : turn.Follows later)
    (hfinish : ∃ finish, (s.step g host op).2.finish? = some finish ∧
      (s'.step g host' op).2.finish? = some finish)
    (hwrites : s'.Writes g host' op block)
    (haudit : (s.step g host op).1.audit = s.audit.map (·.recordAll block))
    (haudit' : (s'.step g host' op).1.audit = s'.audit.map (·.recordAll block))
    (hids : ∀ e ∈ block, e.turn = turn.id)
    (h : Undisturbed g host host' (s.step g host op).1 (s'.step g host' op).1 name later rest) :
    Undisturbed g host host' s s' name turn (op :: rest) where
  ends := by
    obtain ⟨finish, hends, hends'⟩ := hfinish
    obtain ⟨ends, hrest, hrest'⟩ := h.ends
    rw [callsIn_cons_of_own hop, run_cons, run_cons, endsIn_cons_of_own hop, endsIn_cons_of_own hop,
      hends, hends', hrest, hrest']
    exact ⟨finish :: ends, rfl, rfl⟩
  turns
    | 0 => ⟨turn, htogether.turn_eq, htogether.turn_eq', .refl turn⟩
    | i + 1 => by
      obtain ⟨now, hnow, hnow', hlater⟩ := h.turns i
      rw [before, List.take_succ_cons, callsIn_cons_of_own hop, run_cons, run_cons]
      exact ⟨now, hnow, hnow', hfollows.trans hlater⟩
  trail := by
    obtain ⟨attempted, blocks, htrail, hrun, hrun', hfilter⟩ := h.trail
    rw [callsIn_cons_of_own hop, run_cons, run_cons]
    refine ⟨block ++ attempted, block :: blocks, .cons hwrites htrail, ?_, ?_, ?_⟩
    · rw [hrun, haudit, AuditLog.map_recordAll_append]
    · rw [hrun', haudit', AuditLog.map_recordAll_append, List.flatten_cons]
    · have hall : block.filter (·.turn = turn.id) = block :=
        List.filter_eq_self.2 fun e he ↦ decide_eq_true (hids e he)
      rw [hfollows.id_eq] at hfilter
      rw [List.filter_append, hall, hfilter, List.flatten_cons]

/-- A call of another turn in front, of which nothing is seen. -/
theorem other (htogether : Together s s' name turn) (hop : op.isCallIn name = false)
    (haudit : (s.step g host op).1.audit = s.audit.map (·.recordAll block))
    (hids : ∀ e ∈ block, e.turn ≠ turn.id)
    (h : Undisturbed g host host' (s.step g host op).1 s' name turn rest) :
    Undisturbed g host host' s s' name turn (op :: rest) where
  ends := by
    rw [callsIn_cons_of_other hop, run_cons, endsIn_cons_of_other hop]
    exact h.ends
  turns
    | 0 => ⟨turn, htogether.turn_eq, htogether.turn_eq', .refl turn⟩
    | i + 1 => by
      rw [before, List.take_succ_cons, callsIn_cons_of_other hop, run_cons]
      exact h.turns i
  trail := by
    obtain ⟨attempted, blocks, htrail, hrun, hrun', hfilter⟩ := h.trail
    rw [callsIn_cons_of_other hop, run_cons]
    refine ⟨block ++ attempted, blocks, htrail, ?_, hrun', ?_⟩
    · rw [hrun, haudit, AuditLog.map_recordAll_append]
    · have hnone : block.filter (·.turn = turn.id) = [] :=
        List.filter_eq_nil_iff.2 fun e he hkept ↦ hids e he (of_decide_eq_true hkept)
      rw [List.filter_append, hnone, hfilter, List.nil_append]

end Undisturbed

/-- **The run lemma.** Calls of turns that are apart do not disturb a turn whose own calls are
answered in the same way when it is alone. -/
theorem Together.run (h : Together s s' name turn) (hcalls : ∀ op ∈ ops, op.isCall = true)
    (hapart : s.ApartFrom name turn ops) (hanswers : AnsweredBy g host s name answers past ops)
    (hanswers' : AnsweredBy g host' s' name answers past (callsIn name ops)) :
    Undisturbed g host host' s s' name turn ops := by
  induction ops generalizing s s' turn past with
  | nil =>
    refine ⟨⟨[], rfl, rfl⟩, fun i ↦ ?_, [], [], .nil s', ?_, ?_, rfl⟩
    · rw [before, List.take_nil]
      exact ⟨turn, h.turn_eq, h.turn_eq', .refl turn⟩
    · exact (AuditLog.map_recordAll_nil _).symm
    · exact (AuditLog.map_recordAll_nil _).symm
  | cons op rest ih =>
    obtain ⟨hcall, hcallsRest⟩ := List.forall_mem_cons.1 hcalls
    cases op with
    | execute n tool arguments =>
      by_cases hn : n = name
      · subst hn
        have hop : (Operation.execute n tool arguments).isCallIn n = true := beq_self_eq_true n
        rw [callsIn_cons_of_own hop] at hanswers'
        obtain ⟨later, block, hfollows, hlater, hfinish, hwrites, haudit, haudit', hids⟩ :=
          h.step_own (hanswers.head h.turn_eq) (hanswers'.head h.turn_eq')
        have hrest := ih hlater hcallsRest (hapart.step hcall hfollows) hanswers.tail hanswers'.tail
        exact .own h hop hfollows hfinish hwrites haudit haudit' hids hrest
      · have hop : (Operation.execute n tool arguments).isCallIn name = false := beq_false_of_ne hn
        rw [callsIn_cons_of_other hop] at hanswers'
        obtain ⟨hlater, block, haudit, hids⟩ := h.step_other g host hn fun t ht ↦
          hapart n tool arguments t List.mem_cons_self hn ht
        have hpast : past ++ callsIn name [.execute n tool arguments] = past := by
          rw [callsIn_cons_of_other hop]
          exact List.append_nil past
        have hrest := ih hlater hcallsRest (hapart.step hcall (.refl turn))
          (hpast ▸ hanswers.tail) hanswers'
        exact .other h hop haudit hids hrest
    | create | delegate | cancel | escalate | observe | drop | list => cases hcall

/-! ### Interleavings -/

/-- **Turns of different trees do not interfere.** Take any run of calls, in any number of turns and
in any order, and any one of the turns. The turns of the other calls are of other delegation trees.
Take also a session in which this turn is at the same point, with surroundings and a log of its own,
that does the calls of this turn and nothing else. In both, what the surroundings answer to a call
of the turn depends on its own calls only, those before the run (`past`) and those in it: the tool
that a name stands for, the end of the request to the human, and what the executor gives back. Then:

* The calls of the turn end in both in the same way, one after the other.
* At each place of the run the turn is the one that it is alone after the calls it has made so far.
  So its taint goes through the same levels.
* Of the entries that the run attempts to write, those with the identifier of the turn are the trail
  of the turn alone, in the same order. A log that takes everything has the attempts added to it. -/
theorem separate_turns_do_not_interfere (g : Guard) (host : Surroundings σ)
    (host' : Surroundings τ) (s : Session σ) (s' : Session τ) (name : String) (turn : Turn)
    (answers : List Operation → Turn → Answer) (past ops : List Operation)
    (hcalls : ∀ op ∈ ops, op.isCall = true) (htogether : Together s s' name turn)
    (hapart : s.ApartFrom name turn ops)
    (hanswers : AnsweredBy g host s name answers past ops)
    (hanswers' : AnsweredBy g host' s' name answers past (callsIn name ops)) :
    let own := callsIn name ops
    (∃ ends : List CallEnd, endsIn name ops (s.run g host ops).2 = ends.map some ∧
      endsIn name own (s'.run g host' own).2 = ends.map some) ∧
    (∀ i, ∃ now, (s.before g host ops i).forest.turn? name = some now ∧
      (s'.run g host' (callsIn name (ops.take i))).1.forest.turn? name = some now ∧
      turn.Follows now) ∧
    ∃ attempted blocks, s'.Trail g host' own blocks ∧
      (s.run g host ops).1.audit = s.audit.map (·.recordAll attempted) ∧
      (s'.run g host' own).1.audit = s'.audit.map (·.recordAll blocks.flatten) ∧
      attempted.filter (·.turn = turn.id) = blocks.flatten ∧
      ∀ log, s.audit = some log → log.Works → ∃ final, (s.run g host ops).1.audit = some final ∧
        final.entries = log.entries ++ attempted := by
  intro own
  obtain ⟨hends, hturns, attempted, blocks, htrail, haudit, haudit', hfilter⟩ :=
    htogether.run hcalls hapart hanswers hanswers'
  refine ⟨hends, hturns, attempted, blocks, htrail, haudit, haudit', hfilter, ?_⟩
  intro log hlog hworks
  exact ⟨_, by rw [haudit, hlog, Option.map_some], hworks.entries_recordAll attempted⟩

/-- The guard that asks for a confirmation of each call of a tool of the web. -/
def askingGuard : Guard := ⟨.ofRuleSet .empty ⟨[webQuestion], .deny⟩, defaultConfirmMilliseconds⟩

/-- Surroundings whose tool tells the first call of a turn from later ones. The state has the
identifiers of the turns that called. -/
def tallyHost : Surroundings (List Uuid) where
  definitions _ := webHost.definitions 0
  identityOf _ := webHost.identityOf 0
  run seen call :=
    (.ok ⟨if call.turn.id ∈ seen then "again" else "first", false⟩, seen ++ [call.turn.id])
  ask seen _ := (⟨⟨false, some true, false⟩, [], []⟩, seen)

/-- The session of a turn alone. -/
def aloneSession : Session (List Uuid) :=
  ((⟨.empty, [], some .working⟩ : Session (List Uuid)).step askingGuard tallyHost
    (.create "t" none .trusted)).1

/-- The session with a turn of another tree besides. -/
def sharedSession : Session (List Uuid) :=
  (aloneSession.step askingGuard tallyHost (.create "u" none .trusted)).1

/-- Both turns fetch, the first one before and after the other. -/
def fetchByTurns : List Operation :=
  [.execute "t" "fetch" .null, .execute "u" "fetch" .null, .execute "t" "fetch" .null]

/-- What a call of this tool is answered, from the calls so far. -/
def tallyAnswers (calls : List Operation) (_ : Turn) : Answer :=
  ⟨some (.fromOrigin "web" "fetch"), ⟨.approved, false, 1⟩,
    .ok ⟨if calls.length = 1 then "first" else "again", false⟩⟩

/-- The log of the shared session has of one turn what the log has that the turn writes alone. -/
theorem fetchByTurns_keeps_trails_apart :
    ∃ final final', (sharedSession.run askingGuard tallyHost fetchByTurns).1.audit = some final ∧
      (aloneSession.run askingGuard tallyHost (callsIn "t" fetchByTurns)).1.audit = some final' ∧
      final.entries.filter (·.turn = .ofNat 1) = final'.entries := by
  have hanswers : AnsweredBy askingGuard tallyHost sharedSession "t" tallyAnswers []
      fetchByTurns := by
    intro i tool arguments turn hop hturn
    match i, hop with
    | 0, rfl =>
      obtain rfl : webTurn .trusted = turn := Option.some.inj (Eq.trans (by decide) hturn)
      exact ⟨rfl, fun _ _ ↦ rfl, fun _ ↦ rfl⟩
    | 1, hop => simp [fetchByTurns] at hop
    | 2, rfl =>
      obtain rfl : webTurn .untrusted = turn := Option.some.inj (Eq.trans (by decide) hturn)
      exact ⟨rfl, fun _ _ ↦ rfl, fun _ ↦ rfl⟩
  have hanswers' : AnsweredBy askingGuard tallyHost aloneSession "t" tallyAnswers []
      (callsIn "t" fetchByTurns) := by
    intro i tool arguments turn hop hturn
    match i, hop with
    | 0, rfl =>
      obtain rfl : webTurn .trusted = turn := Option.some.inj (Eq.trans (by decide) hturn)
      exact ⟨rfl, fun _ _ ↦ rfl, fun _ ↦ rfl⟩
    | 1, rfl =>
      obtain rfl : webTurn .untrusted = turn := Option.some.inj (Eq.trans (by decide) hturn)
      exact ⟨rfl, fun _ _ ↦ rfl, fun _ ↦ rfl⟩
  have hapart : sharedSession.ApartFrom "t" (webTurn .trusted) fetchByTurns := by
    intro n tool arguments t hmem hn ht
    obtain ⟨rfl, -, -⟩ : n = "u" ∧ tool = "fetch" ∧ arguments = .null := by
      simpa [fetchByTurns, hn] using hmem
    obtain rfl : ⟨.ofNat 2, none, .trusted, 1⟩ = t := Option.some.inj (Eq.trans (by decide) ht)
    exact ⟨by decide, by decide⟩
  obtain ⟨-, -, attempted, blocks, -, -, haudit', hfilter, hlog⟩ :=
    separate_turns_do_not_interfere askingGuard tallyHost tallyHost sharedSession aloneSession "t"
      (webTurn .trusted) tallyAnswers [] fetchByTurns (by decide) ⟨by decide, by decide, by decide⟩
      hapart hanswers hanswers'
  obtain ⟨final, hfinal, hentries⟩ := hlog .working rfl (fun _ ↦ rfl)
  have hworks : AuditLog.working.Works := fun _ ↦ rfl
  refine ⟨final, _, hfinal, haudit', ?_⟩
  rw [hentries, hworks.entries_recordAll]
  exact hfilter

example : endsIn "t" fetchByTurns (sharedSession.run askingGuard tallyHost fetchByTurns).2 =
    [some (.outcome (.executed ⟨"first", false⟩)), some (.outcome (.executed ⟨"again", false⟩))] :=
  rfl

end Session

end ToolAccess
