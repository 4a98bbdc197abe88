import Mathlib.Order.Bounds.Defs
import ToolAccess.Proofs.SessionRun

/-!
# The taint of a turn

How far a turn is tainted is settled by what has entered it, and by nothing else. The levels that a
turn meets in a run (`Session.Meets`) are those it is explicitly raised to, and `untrusted` for each
output of a tool whose tags taint: tags that call the output untrusted or leave its trust open, and
do not call it trusted as well (`TagSet.Taints`). The level after the run is the greatest of these
and of the level at the start.

## What the proof rests on

* **One call.** A call leaves the turn exactly as it is, unless the tool ran and gave something
  back. Then the turn takes account of the tags of the tool, which were looked up before a human was
  asked (`Guard.turn_execute`).
* **One operation.** The level afterwards is the greatest of the level before and of those that the
  operation has the turn meet (`Session.step_isGreatest`). Operations on other turns, listings and
  cancellings have it meet none.
* **A run.** Greatest levels are put together along the run (`TaintLevel.isGreatest_trans`). That a
  later decision depends on the level itself does no harm: it decides which calls run, and the
  levels are told from the calls that did.

The main result is `Session.taint_is_exact`.
-/

namespace ToolAccess

variable {σ : Type}

/-! ### Levels and their maximum -/

namespace TaintLevel

theorem le_refl (a : TaintLevel) : a ≤ a := Nat.le_refl a.rank

theorem le_trans {a b c : TaintLevel} (hab : a ≤ b) (hbc : b ≤ c) : a ≤ c := Nat.le_trans hab hbc

theorem le_antisymm {a b : TaintLevel} (hab : a ≤ b) (hba : b ≤ a) : a = b :=
  rank_inj.1 (Nat.le_antisymm hab hba)

/-- Raising a level to another gives the greater of the two. -/
theorem isGreatest_raise (a b : TaintLevel) :
    IsGreatest {level | level = a ∨ level = b} (a.raise b) := by
  constructor
  · show a.raise b = a ∨ a.raise b = b
    rw [raise]
    split
    · exact Or.inr rfl
    · exact Or.inl rfl
  · rintro level (rfl | rfl)
    · exact level.le_raise b
    · rw [le_def, rank_raise]
      exact Nat.le_max_right _ _

/-- A level has one greatest of the levels that are itself or have a property. -/
theorem isGreatest_unique {a b c : TaintLevel} {p : TaintLevel → Prop}
    (hb : IsGreatest {level | level = a ∨ p level} b)
    (hc : IsGreatest {level | level = a ∨ p level} c) : b = c :=
  le_antisymm (hc.2 hb.1) (hb.2 hc.1)

theorem isGreatest_self {a : TaintLevel} {p : TaintLevel → Prop} (h : ∀ level, ¬ p level) :
    IsGreatest {level | level = a ∨ p level} a := by
  refine ⟨Or.inl rfl, ?_⟩
  rintro level (rfl | hp)
  · exact le_refl level
  · exact absurd hp (h level)

/-- Where one level after another is the greatest, the last one is the greatest of all. -/
theorem isGreatest_trans {a b c : TaintLevel} {p q : TaintLevel → Prop}
    (hb : IsGreatest {level | level = a ∨ p level} b)
    (hc : IsGreatest {level | level = b ∨ q level} c) :
    IsGreatest {level | level = a ∨ p level ∨ q level} c := by
  have hbc : b ≤ c := hc.2 (Or.inl rfl)
  constructor
  · rcases hc.1 with h | hq
    · rw [show c = b from h]
      exact hb.1.imp_right Or.inl
    · exact Or.inr (Or.inr hq)
  · rintro level (ha | hp | hq)
    · exact le_trans (hb.2 (Or.inl ha)) hbc
    · exact le_trans (hb.2 (Or.inr hp)) hbc
    · exact hc.2 (Or.inr hq)

end TaintLevel

theorem Turn.Follows.trans {t₁ t₂ t₃ : Turn} (h₁ : t₁.Follows t₂) (h₂ : t₂.Follows t₃) :
    t₁.Follows t₃ :=
  ⟨h₂.id_eq.trans h₁.id_eq, h₂.profile_eq.trans h₁.profile_eq, h₂.tree_eq.trans h₁.tree_eq,
    TaintLevel.le_trans h₁.taint_le h₂.taint_le⟩

/-! ### What enters a turn -/

/-- Output of a tool with these tags taints: it is untrusted, or nobody has said whether it is, and
the tool is not declared to give trusted output as well. -/
def TagSet.Taints (tags : TagSet) : Prop :=
  (.outputUntrusted ∈ tags ∨ .trustUnspecified ∈ tags) ∧ .outputTrusted ∉ tags

instance (tags : TagSet) : Decidable tags.Taints := inferInstanceAs (Decidable (_ ∧ _))

/-- After an output the level is the greatest of the one before and, if the tags taint, the top. -/
theorem TaintLevel.isGreatest_afterOutput (level : TaintLevel) (tags : TagSet) :
    IsGreatest {l | l = level ∨ l = .untrusted ∧ tags.Taints} (level.afterOutput tags) := by
  have houtput : tags.outputTaint? = if tags.Taints then some .untrusted else none := rfl
  rw [afterOutput, houtput]
  by_cases h : tags.Taints
  · simp only [h, and_true]
    exact level.isGreatest_raise .untrusted
  · simp only [if_neg h]
    exact isGreatest_self fun _ hl ↦ h hl.2

/-- The tool ran and gave something back. -/
def CallEnd.IsExecuted (e : CallEnd) : Prop := ∃ result, e = .outcome (.executed result)

theorem CallEnd.IsRefusal.not_isExecuted {tool : String} {e : CallEnd} (h : e.IsRefusal tool) :
    ¬ e.IsExecuted := by
  rintro ⟨result, rfl⟩
  cases h

/-- **One call.** The turn is left exactly as it is, unless the tool ran and gave something back:
then it takes account of the tags of the tool. -/
theorem Guard.turn_execute (g : Guard) (host : Surroundings σ) (turn : Turn) (cancelled : Bool)
    (tool : String) (arguments : Json) (t : Trace σ) :
    let report := g.execute host turn cancelled tool arguments t
    ¬ report.finish.IsExecuted ∧ report.turn = turn ∨
      report.finish.IsExecuted ∧ ∃ identity, host.identityOf t.surroundings tool = some identity ∧
        report.turn = turn.observe (g.engine.tagsFor identity) := by
  intro report
  rcases g.execute_cases host turn cancelled tool arguments t with hrun | hfail
  · obtain ⟨identity, t', hidentity, -, -, hreport⟩ := hrun.performed
    rw [show report = _ from hreport]
    rcases h : (host.run t'.surroundings ⟨tool, arguments, turn⟩).1 with e | result
    · rw [perform_of_error h]
      refine Or.inl ⟨?_, rfl⟩
      rintro ⟨result, hresult⟩
      cases hresult
    · rw [perform_of_ok h]
      exact Or.inr ⟨⟨result, rfl⟩, identity, hidentity, rfl⟩
  · refine Or.inl ⟨?_, hfail.turn_eq⟩
    rcases hfail.ends with hrefusal | ⟨hdropped, -, -⟩
    · exact hrefusal.not_isExecuted
    · rintro ⟨result, hresult⟩
      rw [show report.finish = _ from hdropped] at hresult
      cases hresult

/-- The operation does not give the name to another turn, or to none. -/
def Operation.Leaves (name : String) : Operation → Prop
  | .create n _ _ | .delegate n _ _ | .drop n => n ≠ name
  | _ => True

/-- The operation does something with the turn of the name that may raise it. -/
def Operation.Touches (name : String) : Operation → Prop
  | .escalate n _ | .observe n _ | .execute n _ _ => n = name
  | _ => False

theorem Operation.Leaves.rebinds?_ne {name : String} {op : Operation} (h : op.Leaves name)
    (f : Forest) : op.rebinds? f ≠ some name := by
  cases op with
  | create n profile taint => exact fun hn ↦ h (Option.some.inj hn)
  | delegate n parent i =>
    intro hn
    obtain ⟨-, -, hname⟩ := Option.map_eq_some_iff.1 hn
    exact h hname
  | drop n => exact fun hn ↦ h (Option.some.inj hn)
  | cancel | escalate | observe | list | execute => exact fun hn ↦ by cases hn

namespace Session

variable {g : Guard} {host : Surroundings σ} {s : Session σ} {name : String} {turn : Turn}

/-! ### One operation -/

/-- The levels that an operation has the turn of a name meet: the level it is explicitly raised to,
and the top one with an output that taints. Output enters with a call that gave something back, and
its tags are those of the tool that the name stood for when the call was made. -/
inductive MeetsAt (g : Guard) (host : Surroundings σ) (s : Session σ) (name : String) :
    Operation → TaintLevel → Prop
  | escalated (level : TaintLevel) : MeetsAt g host s name (.escalate name level) level
  | observed {tags : TagSet} (htaints : tags.Taints) :
    MeetsAt g host s name (.observe name tags) .untrusted
  | output {tool : String} {arguments : Json} {report : CallReport σ} {identity : ToolIdentity}
    (heffect : (s.step g host (.execute name tool arguments)).2 = .executed report)
    (hexecuted : report.finish.IsExecuted)
    (hidentity : host.identityOf s.surroundings tool = some identity)
    (htaints : (g.engine.tagsFor identity).Taints) :
    MeetsAt g host s name (.execute name tool arguments) .untrusted

theorem MeetsAt.touches {op : Operation} {level : TaintLevel}
    (h : s.MeetsAt g host name op level) : op.Touches name := by
  cases h <;> exact rfl

theorem meetsAt_escalate_iff {level l : TaintLevel} :
    s.MeetsAt g host name (.escalate name level) l ↔ l = level := by
  constructor
  · rintro ⟨⟩
    rfl
  · rintro rfl
    exact .escalated l

theorem meetsAt_observe_iff {tags : TagSet} {l : TaintLevel} :
    s.MeetsAt g host name (.observe name tags) l ↔ l = .untrusted ∧ tags.Taints := by
  constructor
  · rintro (- | htaints)
    exact ⟨rfl, htaints⟩
  · rintro ⟨rfl, htaints⟩
    exact .observed htaints

/-- The levels met in a call are told from its report. -/
theorem meetsAt_execute_iff {tool : String} {arguments : Json} {level : TaintLevel}
    (hturn : s.forest.turn? name = some turn) :
    s.MeetsAt g host name (.execute name tool arguments) level ↔
      level = .untrusted ∧ (s.report g host turn tool arguments).finish.IsExecuted ∧
        ∃ identity, host.identityOf s.surroundings tool = some identity ∧
          (g.engine.tagsFor identity).Taints := by
  constructor
  · rintro (- | - | ⟨heffect, hexecuted, hidentity, htaints⟩)
    rw [step_execute hturn] at heffect
    rw [Effect.executed.inj heffect]
    exact ⟨rfl, hexecuted, _, hidentity, htaints⟩
  · rintro ⟨rfl, hexecuted, identity, hidentity, htaints⟩
    exact .output (congrArg Prod.snd (step_execute hturn)) hexecuted hidentity htaints

/-- The level after a call is the greatest of the one before and of those met in it. -/
theorem isGreatest_execute {tool : String} {arguments : Json}
    (hturn : s.forest.turn? name = some turn) :
    IsGreatest {level | level = turn.taint ∨
        s.MeetsAt g host name (.execute name tool arguments) level}
      (s.report g host turn tool arguments).turn.taint := by
  simp only [meetsAt_execute_iff hturn]
  rcases g.turn_execute host turn (s.forest.isCancelled turn) tool arguments
    (.start s.surroundings s.audit) with ⟨hnot, hsame⟩ | ⟨hexecuted, identity, hidentity, hobs⟩
  · rw [show (s.report g host turn tool arguments).turn = turn from hsame]
    exact TaintLevel.isGreatest_self fun _ h ↦ hnot h.2.1
  · rw [show (s.report g host turn tool arguments).turn = _ from hobs]
    have hmet : (s.report g host turn tool arguments).finish.IsExecuted ∧
        (∃ i, host.identityOf s.surroundings tool = some i ∧ (g.engine.tagsFor i).Taints) ↔
          (g.engine.tagsFor identity).Taints := by
      constructor
      · rintro ⟨-, i, hi, htaints⟩
        obtain rfl := Option.some.inj (hidentity.symm.trans hi)
        exact htaints
      · exact fun htaints ↦ ⟨hexecuted, identity, hidentity, htaints⟩
    simp only [hmet]
    exact turn.taint.isGreatest_afterOutput _

/-- What is done with a turn leaves a name alone if it does so where there is a turn. -/
theorem turn?_onTurn {act : Turn → Session σ × Effect σ} {n : String}
    (h : ∀ t, (act t).1.forest.turn? name = s.forest.turn? name) :
    (s.onTurn n act).1.forest.turn? name = s.forest.turn? name :=
  onTurn_induction (p := fun s' ↦ s'.forest.turn? name = s.forest.turn? name) rfl fun t _ ↦ h t

/-- An operation that does not touch the turn of a name leaves it as it is. -/
theorem turn?_step_of_not_touches {op : Operation} (hleaves : op.Leaves name)
    (htouches : ¬ op.Touches name) :
    (s.step g host op).1.forest.turn? name = s.forest.turn? name := by
  have hput : ∀ {n : String} (t : Turn), n ≠ name →
      (s.forest.put n t).turn? name = s.forest.turn? name := fun t hn ↦ by
    rw [Forest.turn?_put, if_neg hn.symm]
  cases op with
  | create n profile taint => exact hput _ hleaves
  | delegate n parent i => exact turn?_onTurn fun t ↦ hput _ hleaves
  | drop n =>
    have hn : n ≠ name := hleaves
    exact turn?_onTurn fun t ↦ by simp [hn.symm]
  | cancel n => exact turn?_onTurn fun t ↦ rfl
  | list n => exact turn?_onTurn fun t ↦ rfl
  | escalate n level => exact turn?_onTurn fun t ↦ hput _ htouches
  | observe n tags => exact turn?_onTurn fun t ↦ hput _ htouches
  | execute n tool arguments =>
    exact turn?_onTurn fun t ↦ (turn?_afterCall s n _).trans (hput _ htouches)

/-- **The step lemma.** After an operation the level of the turn is the greatest of the one before
and of those that the turn met. -/
theorem step_isGreatest {op : Operation} (hleaves : op.Leaves name)
    (hturn : s.forest.turn? name = some turn) :
    ∃ turn', (s.step g host op).1.forest.turn? name = some turn' ∧ turn.Follows turn' ∧
      IsGreatest {level | level = turn.taint ∨ s.MeetsAt g host name op level} turn'.taint := by
  have hkeeps : s.forest.Keeps (s.step g host op).1.forest name :=
    step_keeps (hleaves.rebinds?_ne s.forest)
  obtain ⟨turn', hturn', hfollows⟩ := hkeeps turn hturn
  refine ⟨turn', hturn', hfollows, ?_⟩
  by_cases htouches : op.Touches name
  · have hput : ∀ {t : Turn}, (s.step g host op).1.forest.turn? name =
        (s.forest.put name t).turn? name → turn' = t := fun h ↦ by
      rw [Forest.turn?_put, if_pos rfl, hturn'] at h
      exact Option.some.inj h
    cases op with
    | escalate n level =>
      obtain rfl : n = name := htouches
      rw [hput (congrArg (fun r ↦ r.1.forest.turn? n) (onTurn_of_some hturn))]
      simp only [meetsAt_escalate_iff]
      exact turn.taint.isGreatest_raise level
    | observe n tags =>
      obtain rfl : n = name := htouches
      rw [hput (congrArg (fun r ↦ r.1.forest.turn? n) (onTurn_of_some hturn))]
      simp only [meetsAt_observe_iff]
      exact turn.taint.isGreatest_afterOutput tags
    | execute n tool arguments =>
      obtain rfl : n = name := htouches
      rw [hput (by rw [step_execute hturn, turn?_afterCall])]
      exact isGreatest_execute hturn
    | create | delegate | cancel | drop | list => exact htouches.elim
  · rw [turn?_step_of_not_touches hleaves htouches, hturn] at hturn'
    rw [← Option.some.inj hturn']
    exact TaintLevel.isGreatest_self fun level h ↦ htouches h.touches

/-! ### A run -/

/-- The levels that the turn of a name meets in a run: each at some place of it. -/
def Meets (g : Guard) (host : Surroundings σ) (s : Session σ) (name : String)
    (ops : List Operation) (level : TaintLevel) : Prop :=
  ∃ i op, ops[i]? = some op ∧ (s.run g host (ops.take i)).1.MeetsAt g host name op level

theorem meets_cons_iff {op : Operation} {rest : List Operation} {level : TaintLevel} :
    s.Meets g host name (op :: rest) level ↔
      s.MeetsAt g host name op level ∨ (s.step g host op).1.Meets g host name rest level := by
  constructor
  · rintro ⟨i, op', hop, hmet⟩
    cases i with
    | zero =>
      obtain rfl := Option.some.inj hop
      exact Or.inl hmet
    | succ i => exact Or.inr ⟨i, op', hop, hmet⟩
  · rintro (hmet | ⟨i, op', hop, hmet⟩)
    · exact ⟨0, op, rfl, hmet⟩
    · exact ⟨i + 1, op', hop, hmet⟩

/-- **The run lemma.** After a run the level of the turn is the greatest of the one before and of
those that the turn met. -/
theorem run_isGreatest (g : Guard) (host : Surroundings σ) (ops : List Operation)
    (hleaves : ∀ op ∈ ops, op.Leaves name)
    (hturn : s.forest.turn? name = some turn) :
    ∃ turn', (s.run g host ops).1.forest.turn? name = some turn' ∧ turn.Follows turn' ∧
      IsGreatest {level | level = turn.taint ∨ s.Meets g host name ops level} turn'.taint := by
  induction ops generalizing s turn with
  | nil =>
    refine ⟨turn, hturn, .refl turn, TaintLevel.isGreatest_self ?_⟩
    rintro level ⟨i, op, hop, -⟩
    cases hop
  | cons op rest ih =>
    obtain ⟨hop, hrest⟩ := List.forall_mem_cons.1 hleaves
    obtain ⟨turn₁, hturn₁, hfollows₁, hgreatest₁⟩ := step_isGreatest hop hturn
    obtain ⟨turn₂, hturn₂, hfollows₂, hgreatest₂⟩ := ih hrest hturn₁
    refine ⟨turn₂, hturn₂, hfollows₁.trans hfollows₂, ?_⟩
    simp only [meets_cons_iff]
    exact TaintLevel.isGreatest_trans hgreatest₁ hgreatest₂

theorem run_append (ops more : List Operation) :
    (s.run g host (ops ++ more)).1 = ((s.run g host ops).1.run g host more).1 := by
  induction ops generalizing s with
  | nil => rfl
  | cons op rest ih =>
    rw [List.cons_append, run_cons, run_cons]
    exact ih

/-- The session at a later place of a run, seen from an earlier one. -/
theorem run_take_of_le (ops : List Operation) {i j : Nat} (h : i ≤ j) :
    (s.run g host (ops.take j)).1 =
      ((s.run g host (ops.take i)).1.run g host ((ops.drop i).take (j - i))).1 := by
  have hsplit : ops.take j = ops.take i ++ (ops.drop i).take (j - i) := by
    rw [← List.take_add, Nat.add_sub_cancel' h]
  rw [hsplit, run_append]

/-- A call in a run that gave nothing back leaves the turn exactly as it is. -/
theorem turn?_run_of_not_isExecuted {ops : List Operation} {i : Nat} {tool : String}
    {arguments : Json} {report : CallReport σ}
    (hturn : (s.run g host (ops.take i)).1.forest.turn? name = some turn)
    (hop : ops[i]? = some (.execute name tool arguments))
    (heffect : (s.run g host ops).2[i]? = some (.executed report))
    (hnot : ¬ report.finish.IsExecuted) :
    (s.run g host (ops.take (i + 1))).1.forest.turn? name = some turn := by
  have hreport : report = (s.run g host (ops.take i)).1.report g host turn tool arguments := by
    rw [(run_execute hop hturn).1] at heffect
    exact (Effect.executed.inj (Option.some.inj heffect)).symm
  have hsame : report.turn = turn := by
    rcases g.turn_execute host turn ((s.run g host (ops.take i)).1.forest.isCancelled turn) tool
      arguments (.start (s.run g host (ops.take i)).1.surroundings
        (s.run g host (ops.take i)).1.audit) with ⟨-, hsame⟩ | ⟨hexecuted, -⟩
    · rw [hreport]
      exact hsame
    · rw [hreport] at hnot
      exact absurd hexecuted hnot
  rw [run_take_succ g host s hop, step_execute hturn, turn?_afterCall, ← hreport, hsame,
    Forest.turn?_put, if_pos rfl]

/-- **The taint of a turn is exact.** Take any run of calls, escalations and other operations from a
session in which a name stands for a turn, and let no operation give the name to another turn. Then:

* At the end the turn has the greatest of the level it started at, the levels it was explicitly
  raised to, and `untrusted` if some call ran a tool whose tags taint.
* A call that ends in any other way, with a refusal, without a confirmation or with a failure of the
  executor, leaves the turn exactly as it is.
* The identifier and the profile never change, and the level never decreases along the run.
* So the level at the end depends only on the level at the start and on what took effect, not on the
  order: another run, with other surroundings, in which the same levels were met ends at the same
  level. -/
theorem taint_is_exact (g : Guard) (host : Surroundings σ) (s : Session σ) (name : String)
    (turn : Turn) (ops : List Operation) (hturn : s.forest.turn? name = some turn)
    (hleaves : ∀ op ∈ ops, op.Leaves name) :
    (∃ final, (s.run g host ops).1.forest.turn? name = some final ∧ final.id = turn.id ∧
      final.profile = turn.profile ∧
      IsGreatest {level | level = turn.taint ∨ s.Meets g host name ops level} final.taint ∧
      ∀ (g' : Guard) (host' : Surroundings σ) (s' : Session σ) (turn' final' : Turn)
        (ops' : List Operation), s'.forest.turn? name = some turn' →
        (∀ op ∈ ops', op.Leaves name) → turn'.taint = turn.taint →
        (∀ level, s'.Meets g' host' name ops' level ↔ s.Meets g host name ops level) →
        (s'.run g' host' ops').1.forest.turn? name = some final' → final'.taint = final.taint) ∧
    (∀ i tool arguments report, ops[i]? = some (.execute name tool arguments) →
      (s.run g host ops).2[i]? = some (.executed report) → ¬ report.finish.IsExecuted →
      (s.run g host (ops.take (i + 1))).1.forest.turn? name =
        (s.run g host (ops.take i)).1.forest.turn? name) ∧
    ∀ i j, i ≤ j → ∃ earlier later,
      (s.run g host (ops.take i)).1.forest.turn? name = some earlier ∧
      (s.run g host (ops.take j)).1.forest.turn? name = some later ∧ earlier.Follows later := by
  have hat : ∀ i, ∃ turn', (s.run g host (ops.take i)).1.forest.turn? name = some turn' ∧
      turn.Follows turn' := fun i ↦ by
    obtain ⟨turn', hturn', hfollows, -⟩ := run_isGreatest g host (ops.take i)
      (fun op hop ↦ hleaves op (List.mem_of_mem_take hop)) hturn
    exact ⟨turn', hturn', hfollows⟩
  refine ⟨?_, ?_, ?_⟩
  · obtain ⟨final, hfinal, hfollows, hgreatest⟩ := run_isGreatest g host ops hleaves hturn
    refine ⟨final, hfinal, hfollows.id_eq, hfollows.profile_eq, hgreatest, ?_⟩
    intro g' host' s' turn' final' ops' hturn' hleaves' htaint hmet hfinal'
    obtain ⟨final'', hfinal'', -, hgreatest'⟩ := run_isGreatest g' host' ops'
      hleaves' hturn'
    obtain rfl := Option.some.inj (hfinal''.symm.trans hfinal')
    simp only [hmet, htaint] at hgreatest'
    exact TaintLevel.isGreatest_unique hgreatest' hgreatest
  · intro i tool arguments report hop heffect hnot
    obtain ⟨now, hnow, -⟩ := hat i
    rw [turn?_run_of_not_isExecuted hnow hop heffect hnot, hnow]
  · intro i j hij
    obtain ⟨earlier, hearlier, -⟩ := hat i
    have hmore : ∀ op ∈ (ops.drop i).take (j - i), op.Leaves name := fun op hop ↦
      hleaves op (List.mem_of_mem_drop (List.mem_of_mem_take hop))
    obtain ⟨later, hlater, hfollows, -⟩ := run_isGreatest g host _ hmore hearlier
    rw [← run_take_of_le ops hij] at hlater
    exact ⟨earlier, later, hearlier, hlater, hfollows⟩

/-- A turn that fetches, is raised, fetches again and is raised once more. -/
def fetchAndRaise : List Operation :=
  [.execute "t" "fetch" .null, .escalate "t" .partiallyTainted, .execute "t" "fetch" .null,
    .list "t", .escalate "t" .trusted]

/-- The first fetch taints the turn for good: the second one is refused, and nothing that comes
later has an influence. -/
theorem fetchAndRaise_ends_untrusted :
    ∃ final, ((webSession.step webGuard webHost (.create "t" none .trusted)).1.run webGuard webHost
        fetchAndRaise).1.forest.turn? "t" = some final ∧ final.id = .ofNat 1 ∧
      final.taint = .untrusted ∧
      IsGreatest {level | level = .trusted ∨
        (webSession.step webGuard webHost (.create "t" none .trusted)).1.Meets webGuard webHost "t"
          fetchAndRaise level} final.taint := by
  obtain ⟨⟨final, hfinal, hid, -, hgreatest, -⟩, -, -⟩ := taint_is_exact webGuard webHost
    (webSession.step webGuard webHost (.create "t" none .trusted)).1 "t" (webTurn .trusted)
    fetchAndRaise (by decide) (by simp [fetchAndRaise, Operation.Leaves])
  have hlast : final = webTurn .untrusted := Option.some.inj (hfinal.symm.trans (by decide))
  exact ⟨final, hfinal, hid, by rw [hlast]; rfl, hgreatest⟩

end Session

end ToolAccess
