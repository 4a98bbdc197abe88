import ToolAccess.Proofs.RequestLife
import ToolAccess.Proofs.TurnLineage

/-!
# Turns as cells of delegation trees

A turn that is delegated from another takes two kinds of things along. Its profile and the level its
taint starts at are copies, and what happens to either turn later on stays with that turn. Being
cancelled is shared: it concerns the whole delegation tree, the turns of today and those to come.

## What the proof rests on

* **Lineage.** Turns are known by their births, and two turns have one tree number if and only if
  they are of one tree (`Session.sameTree_iff`).
* **Taint.** What a turn meets under its name is told for one operation by
  `Session.step_isGreatest`, and put together along the run, from its birth on
  (`Session.isGreatest_taint`).
* **Cancelling.** A call in a turn that was not cancelled ends as cancelled if and only if its own
  request found the turn cancelled (`Guard.endsCancelled_execute_iff`). So an operation cancels the
  tree of one turn, or nothing (`Session.mem_cancelledTrees_step_iff`), and a tree is never restored
  (`Session.isCancelled_iff`).

The main result is `Session.turns_are_cells`.
-/

namespace ToolAccess

open Lineage

variable {σ : Type}

/-! ### Calls that end as cancelled -/

/-- Only a turn that is cancelled gives this outcome. -/
theorem Poll.Gives.of_cancelled {p : Poll} (h : p.Gives .cancelled) : p.cancelled = true := by
  have houtcome := outcome?_eq_some_iff.2 h
  obtain ⟨cancelled, answer, expired⟩ := p
  cases cancelled with
  | true => rfl
  | false =>
    rcases answer with - | - | -
    · cases expired <;> cases houtcome
    · cases houtcome
    · cases houtcome

/-- The request finds the turn cancelled, at the first poll at which something is ready. -/
def Waited.FindsCancelled (w : Waited) : Prop :=
  ∃ before p after, w.first :: w.later = before ++ p :: after ∧ (∀ q ∈ before, q.IsIdle) ∧
    p.cancelled = true

theorem Waited.findsCancelled_iff {w : Waited} :
    w.FindsCancelled ↔ w.requestEnd.dropped = false ∧ w.requestEnd.outcome = .cancelled := by
  constructor
  · rintro ⟨before, p, after, hsplit, hidle, hp⟩
    rw [requestEnd, hsplit, RequestEnd.ofPolls_append hidle (.cancelled hp)]
    exact ⟨rfl, rfl⟩
  · rintro ⟨hdropped, houtcome⟩
    rw [requestEnd] at hdropped houtcome
    rcases RequestEnd.ofPolls_cases (w.first :: w.later) with
      ⟨before, p, after, o, hsplit, hidle, hgives, hend⟩ | ⟨-, hend⟩
    · rw [hend] at houtcome
      rw [show o = .cancelled from houtcome] at hgives
      exact ⟨before, p, after, hsplit, hidle, hgives.of_cancelled⟩
    · rw [hend] at hdropped
      cases hdropped

/-- A tool that runs does not end a call as cancelled. -/
theorem Session.endsCancelled_ofRun (result : Except ToolError ToolResult) :
    endsCancelled (.ofRun result) = false := by
  cases result <;> rfl

theorem Session.endsCancelled_notConfirmed_iff {tool : String} {outcome : ConfirmOutcome} :
    endsCancelled (.outcome (.notConfirmed tool outcome)) = true ↔ outcome = .cancelled := by
  cases outcome <;> simp [endsCancelled]

/-- A call in a turn that was not cancelled ends as cancelled if and only if the policy asks for a
confirmation and the request finds the turn cancelled meanwhile. -/
theorem Guard.endsCancelled_execute_iff {g : Guard} {host : Surroundings σ} {turn : Turn}
    {tool : String} {arguments : Json} {t : Trace σ} :
    Session.endsCancelled (g.execute host turn false tool arguments t).finish = true ↔
      g.decision? host t.surroundings turn tool = some .confirm ∧
        (host.ask t.surroundings (question tool arguments)).1.FindsCancelled := by
  have hran : ∀ {turn : Turn} {tags : TagSet} {t : Trace σ},
      ¬ Session.endsCancelled (perform host turn tool arguments tags t).finish = true := by
    intro turn tags t
    rw [(perform_spec host turn tool arguments tags t).2.2, Session.endsCancelled_ofRun]
    exact Bool.noConfusion
  rcases h : host.identityOf t.surroundings tool with - | identity
  · rw [execute_of_unknown h, decision?_of_unknown h]
    exact iff_of_false Bool.noConfusion fun hconfirm ↦ by cases hconfirm.1
  have hdec : g.decision? host t.surroundings turn tool =
      some (g.evaluate turn identity).decision :=
    decision?_eq_some_iff.2 ⟨identity, h, rfl⟩
  rcases hd : (g.evaluate turn identity).decision with - | - | -
  · rw [execute_of_allow h hd, hdec, hd]
    exact iff_of_false hran fun hconfirm ↦ by cases hconfirm.1
  · rw [execute_of_deny h hd, hdec, hd]
    exact iff_of_false Bool.noConfusion fun hconfirm ↦ by cases hconfirm.1
  · have hfinish : (askHuman host turn false (question tool arguments)
        (t.emit (g.evaluateEvents turn identity))).1 =
          (host.ask t.surroundings (question tool arguments)).1.requestEnd := rfl
    rw [execute_of_confirm h hd, hdec, hd, Waited.findsCancelled_iff]
    simp only [hfinish]
    by_cases hdropped :
        (host.ask t.surroundings (question tool arguments)).1.requestEnd.dropped = true
    · rw [if_pos hdropped]
      exact iff_of_false Bool.noConfusion fun hfound ↦ by simp [hdropped] at hfound
    rw [if_neg hdropped]
    by_cases happroved :
        (host.ask t.surroundings (question tool arguments)).1.requestEnd.outcome = .approved
    · rw [if_pos (ConfirmOutcome.isApproved_iff.2 happroved)]
      exact iff_of_false hran fun hfound ↦ by simp [happroved] at hfound
    · rw [if_neg (mt ConfirmOutcome.isApproved_iff.1 happroved),
        Session.endsCancelled_notConfirmed_iff]
      exact ⟨fun hend ↦ ⟨trivial, Bool.eq_false_iff.2 hdropped, hend⟩, fun hfound ↦ hfound.2.2⟩

namespace Session

variable {g : Guard} {host : Surroundings σ} {s : Session σ} {ops : List Operation} {i j k : Nat}
  {name : String} {turn : Turn} {op : Operation}

/-! ### Cancelling -/

/-- The operation cancels the turn of a name: explicitly, or it is a call in a turn that was not
cancelled when the call was made, and the request to the human finds the turn cancelled, so that
somebody cancelled it meanwhile. -/
inductive Cancels (g : Guard) (host : Surroundings σ) (s : Session σ) (name : String) :
    Operation → Prop
  | cancel : Cancels g host s name (.cancel name)
  | meanwhile {tool : String} {arguments : Json} {turn : Turn}
    (hturn : s.forest.turn? name = some turn) (hopen : s.forest.isCancelled turn = false)
    (hdecision : g.decision? host s.surroundings turn tool = some .confirm)
    (hfound : (host.ask s.surroundings (Guard.question tool arguments)).1.FindsCancelled) :
    Cancels g host s name (.execute name tool arguments)

/-- Whether a call cancels its turn is told from its report. -/
theorem cancels_execute_iff {tool : String} {arguments : Json}
    (hturn : s.forest.turn? name = some turn) :
    s.Cancels g host name (.execute name tool arguments) ↔
      s.forest.isCancelled turn = false ∧
        endsCancelled (s.report g host turn tool arguments).finish = true := by
  constructor
  · rintro (- | ⟨hturn', hopen, hdecision, hfound⟩)
    obtain rfl := Option.some.inj (hturn.symm.trans hturn')
    refine ⟨hopen, ?_⟩
    rw [report, hopen, Guard.endsCancelled_execute_iff]
    exact ⟨hdecision, hfound⟩
  · rintro ⟨hopen, hends⟩
    rw [report, hopen, Guard.endsCancelled_execute_iff] at hends
    exact .meanwhile hturn hopen hends.1 hends.2

theorem isCancelled_iff_mem {f : Forest} :
    f.isCancelled turn = true ↔ turn.tree ∈ f.cancelledTrees :=
  List.contains_iff_mem

/-- A call ends with its tree cancelled if it was cancelled before, or meanwhile. -/
theorem mem_cancelledTrees_execute_iff {tool : String} {arguments : Json} {tree : Nat}
    (hturn : s.forest.turn? name = some turn) :
    tree ∈ (s.step g host (.execute name tool arguments)).1.forest.cancelledTrees ↔
      tree ∈ s.forest.cancelledTrees ∨
        turn.tree = tree ∧ s.Cancels g host name (.execute name tool arguments) := by
  have hsame : (s.report g host turn tool arguments).turn.tree = turn.tree :=
    (g.follows_execute host turn _ tool arguments _).tree_eq
  have hafter : (s.step g host (.execute name tool arguments)).1.forest.cancelledTrees =
      if endsCancelled (s.report g host turn tool arguments).finish then
        turn.tree :: s.forest.cancelledTrees else s.forest.cancelledTrees := by
    rw [step_execute hturn, ← hsame]
    simp only [afterCall]
    split <;> rfl
  rw [hafter, cancels_execute_iff hturn]
  by_cases hends : endsCancelled (s.report g host turn tool arguments).finish = true
  · rw [if_pos hends, List.mem_cons]
    constructor
    · rintro (rfl | hmem)
      · rcases hcancelled : s.forest.isCancelled turn with - | -
        · exact Or.inr ⟨rfl, rfl, hends⟩
        · exact Or.inl (isCancelled_iff_mem.1 hcancelled)
      · exact Or.inl hmem
    · rintro (hmem | ⟨rfl, -⟩)
      · exact Or.inr hmem
      · exact Or.inl rfl
  · rw [if_neg hends]
    exact (or_iff_left fun h ↦ hends h.2.2).symm

/-- **The step lemma.** The trees that are cancelled after an operation are those from before, and
the tree of the turn that it cancels. -/
theorem mem_cancelledTrees_step_iff {tree : Nat} :
    tree ∈ (s.step g host op).1.forest.cancelledTrees ↔
      tree ∈ s.forest.cancelledTrees ∨
        ∃ n t, s.forest.turn? n = some t ∧ t.tree = tree ∧ s.Cancels g host n op := by
  -- An operation that cancels no turn leaves the trees as they are.
  have hother : (s.step g host op).1.forest.cancelledTrees = s.forest.cancelledTrees →
      (∀ n t, s.forest.turn? n = some t → ¬ s.Cancels g host n op) →
      (tree ∈ (s.step g host op).1.forest.cancelledTrees ↔ tree ∈ s.forest.cancelledTrees ∨
        ∃ n t, s.forest.turn? n = some t ∧ t.tree = tree ∧ s.Cancels g host n op) := by
    intro hsame hnot
    rw [hsame]
    refine (or_iff_left ?_).symm
    rintro ⟨n, t, hturn, -, hcancels⟩
    exact hnot n t hturn hcancels
  have hon : ∀ {n : String} {act : Turn → Session σ × Effect σ},
      (∀ t, (act t).1.forest.cancelledTrees = s.forest.cancelledTrees) →
        (s.onTurn n act).1.forest.cancelledTrees = s.forest.cancelledTrees := fun h ↦
    onTurn_induction (p := fun s' ↦ s'.forest.cancelledTrees = s.forest.cancelledTrees) rfl
      fun t _ ↦ h t
  cases op with
  | create n profile taint => exact hother rfl fun _ _ _ h ↦ by cases h
  | delegate | escalate | observe | drop | list =>
    exact hother (hon fun _ ↦ rfl) fun _ _ _ h ↦ by cases h
  | cancel n =>
    rcases hturn : s.forest.turn? n with - | turn
    · refine hother (by rw [step, onTurn_of_none hturn]) ?_
      rintro m t hm ⟨⟩
      cases hturn.symm.trans hm
    · have hafter : (s.step g host (.cancel n)).1.forest = s.forest.cancel turn := by
        rw [step, onTurn_of_some hturn]
      rw [hafter, Forest.cancel, List.mem_cons]
      constructor
      · rintro (rfl | hmem)
        · exact Or.inr ⟨n, turn, hturn, rfl, .cancel⟩
        · exact Or.inl hmem
      · rintro (hmem | ⟨m, t, hm, rfl, ⟨⟩⟩)
        · exact Or.inr hmem
        · exact Or.inl (by rw [Option.some.inj (hm.symm.trans hturn)])
  | execute n tool arguments =>
    rcases hturn : s.forest.turn? n with - | turn
    · refine hother (congrArg (·.1.forest.cancelledTrees) (onTurn_of_none hturn)) ?_
      rintro m t hm (- | ⟨hm', -, -, -⟩)
      cases hturn.symm.trans hm'
    · rw [mem_cancelledTrees_execute_iff hturn]
      refine or_congr_right ⟨fun h ↦ ⟨n, turn, hturn, h⟩, ?_⟩
      rintro ⟨m, t, hm, htree, hcancels⟩
      have hname : m = n := by cases hcancels; rfl
      subst hname
      obtain rfl := Option.some.inj (hm.symm.trans hturn)
      exact ⟨htree, hcancels⟩

/-- The operation at the first place cancels the turn with the second as its birth. -/
def CancelsAt (g : Guard) (host : Surroundings σ) (s : Session σ) (ops : List Operation)
    (j k : Nat) : Prop :=
  ∃ op n, ops[j]? = some op ∧ birth? ops j n = some k ∧ (s.before g host ops j).Cancels g host n op

/-- What holds of a place before the next one holds of an earlier place, or of this one. -/
theorem exists_lt_succ_iff {p : Nat → Prop} : (∃ j < i + 1, p j) ↔ (∃ j < i, p j) ∨ p i := by
  simp only [Nat.lt_succ_iff_lt_or_eq, or_and_right, exists_or, exists_eq_left]

/-- **The run lemma.** The trees that are cancelled are those of the turns that were cancelled. -/
theorem mem_cancelledTrees_iff (hs : s.forest = .empty) {tree : Nat} :
    tree ∈ (s.before g host ops i).forest.cancelledTrees ↔
      ∃ j < i, ∃ k first, s.CancelsAt g host ops j k ∧ s.born? g host ops k = some first ∧
        first.tree = tree := by
  induction i with
  | zero =>
    have hstart : s.before g host ops 0 = s := rfl
    rw [hstart, hs]
    refine iff_of_false List.not_mem_nil ?_
    rintro ⟨j, hj, -⟩
    exact Nat.not_lt_zero j hj
  | succ i ih =>
    rw [exists_lt_succ_iff, ← ih]
    rcases hop : ops[i]? with - | op
    · rw [before_succ_of_none hop]
      refine (or_iff_left ?_).symm
      rintro ⟨k, first, ⟨op, n, hop', -⟩, -⟩
      cases hop.symm.trans hop'
    rw [before_succ hop, mem_cancelledTrees_step_iff]
    refine or_congr_right ⟨?_, ?_⟩
    · rintro ⟨n, turn, hturn, rfl, hcancels⟩
      obtain ⟨k, first, hbirth, hborn, hfollows⟩ := exists_of_turn? hs hturn
      exact ⟨k, first, ⟨op, n, hop, hbirth, hcancels⟩, hborn, hfollows.tree_eq.symm⟩
    · rintro ⟨k, first, ⟨op', n, hop', hbirth, hcancels⟩, hborn, rfl⟩
      obtain rfl := Option.some.inj (hop.symm.trans hop')
      obtain ⟨turn, first', hturn, hborn', hfollows⟩ := exists_of_birth? g host hs hbirth
      obtain rfl := Option.some.inj (hborn.symm.trans hborn')
      exact ⟨n, turn, hturn, hfollows.tree_eq, hcancels⟩

/-- A turn is cancelled if and only if a turn of its tree was cancelled. -/
theorem isCancelled_iff (hs : s.forest = .empty) (hbirth : birth? ops i name = some k)
    (hturn : (s.before g host ops i).forest.turn? name = some turn) :
    (s.before g host ops i).forest.isCancelled turn = true ↔
      ∃ j < i, ∃ k', s.CancelsAt g host ops j k' ∧ SameTree ops k' k := by
  obtain ⟨turn', first, hturn', hborn, hfollows⟩ :=
    exists_of_birth? g host hs hbirth
  obtain rfl := Option.some.inj (hturn.symm.trans hturn')
  rw [isCancelled_iff_mem, mem_cancelledTrees_iff hs, hfollows.tree_eq]
  constructor
  · rintro ⟨j, hj, k', first', hcancels, hborn', htree⟩
    exact ⟨j, hj, k', hcancels, (sameTree_iff hs hborn' hborn).2 htree⟩
  · rintro ⟨j, hj, k', hcancels, hsame⟩
    obtain ⟨op, n, -, hbirth', -⟩ := id hcancels
    obtain ⟨-, first', -, hborn', -⟩ := exists_of_birth? g host hs hbirth'
    exact ⟨j, hj, k', first', hcancels, hborn', (sameTree_iff hs hborn' hborn).1 hsame⟩

/-! ### Taint -/

/-- The operation at the first place has the turn with the second as its birth meet the level. -/
def MetAt (g : Guard) (host : Surroundings σ) (s : Session σ) (ops : List Operation)
    (j k : Nat) (level : TaintLevel) : Prop :=
  ∃ op n, ops[j]? = some op ∧ birth? ops j n = some k ∧
    (s.before g host ops j).MeetsAt g host n op level

/-- The level that the turn made at a place starts at: a given one, that of the parent at this
moment, or none. -/
def start? (g : Guard) (host : Surroundings σ) (s : Session σ) (ops : List Operation) (k : Nat) :
    Option TaintLevel :=
  match ops[k]? with
  | some (.create _ _ start) => some start
  | some (.delegate _ parent .inherit) =>
    ((s.before g host ops k).forest.turn? parent).map (·.taint)
  | some (.delegate _ _ .fresh) => some .trusted
  | _ => none

theorem start?_of_born? {first : Turn} (h : s.born? g host ops k = some first) :
    s.start? g host ops k = some first.taint := by
  rcases hop : ops[k]? with - | op
  · rw [born?, hop] at h
    cases h
  rw [born?, hop, Option.bind_some] at h
  rw [start?, hop]
  cases op with
  | create n profile start =>
    obtain rfl := Option.some.inj h
    rfl
  | delegate n parent inheritance =>
    obtain ⟨turn, hturn, rfl⟩ := Option.map_eq_some_iff.1 h
    cases inheritance with
    | inherit =>
      show Option.map _ _ = _
      rw [hturn]
      rfl
    | fresh => rfl
  | cancel | escalate | observe | drop | list | execute => cases h

/-- After an operation that does not rebind the name, the level of the turn is the greatest of the
one before and of those that it met. -/
theorem isGreatest_step_of_rebinds?_ne (g : Guard) (host : Surroundings σ)
    (hbound : op.rebinds? s.forest ≠ some name)
    (hturn : s.forest.turn? name = some turn) :
    ∃ turn', (s.step g host op).1.forest.turn? name = some turn' ∧
      IsGreatest {level | level = turn.taint ∨ s.MeetsAt g host name op level} turn'.taint := by
  by_cases hleaves : op.Leaves name
  · obtain ⟨turn', hturn', -, hgreatest⟩ := @step_isGreatest σ g host s name turn op hleaves hturn
    exact ⟨turn', hturn', hgreatest⟩
  · obtain ⟨hsame, htouches⟩ := step_of_not_leaves g host hleaves hbound
    exact ⟨turn, by rw [hsame, hturn],
      TaintLevel.isGreatest_self fun level hmet ↦ htouches hmet.touches⟩

/-- **The run lemma.** The level of a turn is the greatest of the one that it was made with and of
those that it met since. -/
theorem isGreatest_taint (hs : s.forest = .empty) {first : Turn}
    (hborn : s.born? g host ops k = some first) (hbirth : birth? ops i name = some k)
    (hturn : (s.before g host ops i).forest.turn? name = some turn) :
    IsGreatest {level | level = first.taint ∨ ∃ j < i, s.MetAt g host ops j k level}
      turn.taint := by
  induction i generalizing turn with
  | zero => cases hbirth
  | succ i ih =>
    simp only [exists_lt_succ_iff]
    rcases hop : ops[i]? with - | op
    · have hnever : ∀ level, ¬ s.MetAt g host ops i k level := by
        rintro level ⟨op, n, hop', -⟩
        cases hop.symm.trans hop'
      rw [birth?_of_none hop] at hbirth
      rw [before_succ_of_none hop] at hturn
      simp only [hnever, or_false]
      exact ih hbirth hturn
    have halive := fun n ↦ (s.stands g host hs ops i n).isSome_eq
    rw [birth?_succ hop halive] at hbirth
    rw [before_succ hop] at hturn
    by_cases hbound : op.rebinds? (s.before g host ops i).forest = some name
    · -- The turn is made here, so it has met nothing.
      rw [if_pos hbound] at hbirth
      rw [turn?_step_of_rebinds hbound] at hturn
      rw [hturn] at hbirth
      obtain rfl := Option.some.inj hbirth
      rw [born?, hop, Option.bind_some, hturn] at hborn
      obtain rfl := Option.some.inj hborn
      refine TaintLevel.isGreatest_self fun level hmet ↦ ?_
      rw [← exists_lt_succ_iff] at hmet
      obtain ⟨j, hj, -, n, -, hbirth, -⟩ := hmet
      exact absurd (lt_of_birth? hbirth) (Nat.not_lt.2 (Nat.le_of_lt_succ hj))
    · rw [if_neg hbound] at hbirth
      obtain ⟨now, -, hnow, -, -⟩ := exists_of_birth? g host hs hbirth
      obtain ⟨turn', hturn', hgreatest⟩ :=
        isGreatest_step_of_rebinds?_ne g host hbound hnow
      obtain rfl := Option.some.inj (hturn'.symm.trans hturn)
      have hhere : ∀ level, s.MetAt g host ops i k level ↔
          (s.before g host ops i).MeetsAt g host name op level := by
        refine fun level ↦ ⟨?_, fun hmet ↦ ⟨op, name, hop, hbirth, hmet⟩⟩
        rintro ⟨op', n, hop', hbirth', hmet⟩
        obtain rfl := Option.some.inj (hop.symm.trans hop')
        rwa [name_eq_of_birth? hbirth hbirth'] at hmet
      simp only [hhere]
      exact TaintLevel.isGreatest_trans (ih hbirth hnow) hgreatest

/-! ### The cells -/

/-- **Turns are cells of their trees.** Take any run that begins without turns, any place of it and
any name. The name stands for a turn there if and only if it has a birth, and then:

* The taint of the turn is the greatest of the level that it started at and of those that it met
  itself. It started at the given level, at the level that its parent had at that moment, or at
  `trusted` if it was to start afresh.
* So an operation that touches another turn, its parent or its child as well as any other, leaves
  the turn exactly as it is.
* Its profile is that of the turn which started its tree, and from which it descends.
* It is cancelled if and only if some turn of its tree has been cancelled: itself, an ancestor, a
  descendant or a sibling, before it was made or since. -/
theorem turns_are_cells (g : Guard) (host : Surroundings σ) (surroundings : σ)
    (audit : Option AuditLog) (ops : List Operation) (i : Nat) (name : String) :
    let s : Session σ := ⟨.empty, surroundings, audit⟩
    let now := (s.before g host ops i).forest
    (birth? ops i name).isSome = (now.turn? name).isSome ∧
    ∀ k turn, birth? ops i name = some k → now.turn? name = some turn →
      (∃ start, s.start? g host ops k = some start ∧
        IsGreatest {level | level = start ∨ ∃ j < i, s.MetAt g host ops j k level} turn.taint) ∧
      (∀ op, ops[i]? = some op → birth? ops (i + 1) name = some k → ¬ op.Touches name →
        (s.before g host ops (i + 1)).forest.turn? name = some turn) ∧
      (∃ root n start, Descends ops root k ∧
        ops[root]? = some (.create n turn.profile start)) ∧
      (now.isCancelled turn = true ↔
        ∃ j < i, ∃ k', s.CancelsAt g host ops j k' ∧ SameTree ops k' k) := by
  intro s now
  have hs : s.forest = .empty := rfl
  refine ⟨(s.stands g host hs ops i name).isSome_eq, ?_⟩
  intro k turn hbirth hturn
  obtain ⟨turn', first, hturn', hborn, hfollows⟩ :=
    exists_of_birth? g host hs hbirth
  obtain rfl : turn = turn' := Option.some.inj (hturn.symm.trans hturn')
  refine ⟨⟨first.taint, start?_of_born? hborn, isGreatest_taint hs hborn hbirth hturn⟩, ?_, ?_,
    isCancelled_iff hs hbirth hturn⟩
  · intro op hop hbirth' htouches
    have halive := fun n ↦ (s.stands g host hs ops i n).isSome_eq
    -- The birth is before this place, so the name is not given to another turn here.
    have hbound : op.rebinds? now ≠ some name := by
      intro hbound
      rw [birth?_succ hop halive, if_pos hbound, Option.map_eq_some_iff] at hbirth'
      obtain ⟨-, -, rfl⟩ := hbirth'
      exact absurd (lt_of_birth? hbirth) (Nat.lt_irrefl _)
    rw [before_succ hop, turn?_step_of_untouched hbound htouches, hturn]
  · obtain ⟨root, n, start, hdescends, hroot, -⟩ := exists_root hs hborn
    rw [← hfollows.profile_eq] at hroot
    exact ⟨root, n, start, hdescends, hroot⟩

/-- A tree of four turns, and one turn apart. The tree is cancelled through a turn at its end. -/
def family : List Operation :=
  [.create "root" (some "work") .partiallyTainted, .delegate "child" "root" .inherit,
    .escalate "child" .untrusted, .delegate "grandchild" "child" .fresh,
    .create "other" none .trusted, .cancel "grandchild", .delegate "late" "root" .inherit]

/-- The taint, the profile and whether it is cancelled, of the turn with a name after the run. -/
def familyState (name : String) : Option (TaintLevel × Option String × Bool) :=
  let f := (webSession.run webGuard webHost family).1.forest
  (f.turn? name).map fun turn ↦ (turn.taint, turn.profile, f.isCancelled turn)

example : familyState "root" = some (.partiallyTainted, some "work", true) ∧
    familyState "child" = some (.untrusted, some "work", true) ∧
    familyState "grandchild" = some (.trusted, some "work", true) ∧
    familyState "late" = some (.partiallyTainted, some "work", true) ∧
    familyState "other" = some (.trusted, none, false) := by decide

end Session

end ToolAccess
