import Mathlib.Logic.Relation
import ToolAccess.Proofs.TurnTaint

/-!
# Births, names and trees of turns

A session knows trees by number, and turns by name, and a name may go from one turn to another. So
that the two can be told apart, a turn of a run is known here by its **birth**, the place of the
operation that made it. Births, parents and trees are told from the operations alone
(`Lineage.birth?`, `Lineage.parent?`, `Lineage.SameTree`), without the states that the run goes
through. What the states have to do with them is this:

* **Names.** At every place of a run a name stands for a turn if and only if it has a birth, and the
  turn is the one that was made there, later on (`Session.stands`).
* **Trees.** A turn has the tree number and the profile of its parent, and a new turn has a number
  that no turn had before. So two turns have one number if and only if they are of one tree
  (`Session.sameTree_iff`): the number stands for the class.
-/

namespace ToolAccess

variable {σ : Type}

/-! ### Births, parents and trees -/

namespace Lineage

/-- The birth of the turn that a name stands for before a place of a run: the place of the operation
that made the turn. -/
def birth? (ops : List Operation) : Nat → String → Option Nat
  | 0, _ => none
  | i + 1, name =>
    match ops[i]? with
    | some (.create n _ _) => if n = name then some i else birth? ops i name
    | some (.delegate n parent _) =>
      if n = name ∧ (birth? ops i parent).isSome then some i else birth? ops i name
    | some (.drop n) => if n = name then none else birth? ops i name
    | _ => birth? ops i name

/-- The birth of the turn that a turn was delegated from. -/
def parent? (ops : List Operation) (k : Nat) : Option Nat :=
  match ops[k]? with
  | some (.delegate _ parent _) => birth? ops k parent
  | _ => none

/-- The second turn descends from the first, or is the first. -/
def Descends (ops : List Operation) : Nat → Nat → Prop :=
  Relation.ReflTransGen fun p k ↦ parent? ops k = some p

/-- The two turns are of one delegation tree: they are joined by a chain of parents and children. -/
def SameTree (ops : List Operation) : Nat → Nat → Prop :=
  Relation.EqvGen fun p k ↦ parent? ops k = some p

variable {ops : List Operation} {i k : Nat} {name : String}

theorem birth?_of_none (h : ops[i]? = none) : birth? ops (i + 1) name = birth? ops i name := by
  rw [birth?, h]

/-- The name that an operation gives to a turn it makes. -/
def newName? : Operation → Option String
  | .create n _ _ | .delegate n _ _ => some n
  | _ => none

/-- A turn has the name that it was made under. -/
theorem newName?_of_birth? (h : birth? ops i name = some k) :
    k < i ∧ ops[k]?.bind newName? = some name := by
  induction i generalizing k with
  | zero => cases h
  | succ i ih =>
    have hbefore : birth? ops i name = some k → k < i + 1 ∧ ops[k]?.bind newName? = some name :=
      fun h ↦ ⟨Nat.lt_succ_of_lt (ih h).1, (ih h).2⟩
    rw [birth?] at h
    split at h
    case h_1 n _ _ hop =>
      split at h
      · obtain rfl := Option.some.inj h
        rename_i hn
        exact ⟨Nat.lt_succ_self _, by rw [hop, ← hn]; rfl⟩
      · exact hbefore h
    case h_2 n parent _ hop =>
      split at h
      · obtain rfl := Option.some.inj h
        rename_i hn
        exact ⟨Nat.lt_succ_self _, by rw [hop, ← hn.1]; rfl⟩
      · exact hbefore h
    case h_3 =>
      split at h
      · cases h
      · exact hbefore h
    case h_4 => exact hbefore h

/-- A turn has one name only. -/
theorem name_eq_of_birth? {j : Nat} {n : String} (h : birth? ops i name = some k)
    (h' : birth? ops j n = some k) : n = name :=
  Option.some.inj ((newName?_of_birth? h').2.symm.trans (newName?_of_birth? h).2)

theorem lt_of_birth? (h : birth? ops i name = some k) : k < i := (newName?_of_birth? h).1

theorem lt_of_parent? {p : Nat} (h : parent? ops k = some p) : p < k := by
  rw [parent?] at h
  split at h
  · exact lt_of_birth? h
  · cases h

theorem sameTree_of_descends {root : Nat} (h : Descends ops root k) : SameTree ops root k :=
  Relation.EqvGen.reflTransGen_le_eqvGen _ _ _ h

end Lineage

open Lineage

/-- The turn that an operation makes, if it makes one. -/
def Operation.makes? (f : Forest) : Operation → Option Turn
  | .create _ profile taint => some ⟨f.nextId, profile, taint, f.made⟩
  | .delegate _ parent i => (f.turn? parent).map (·.delegate f.nextId i)
  | _ => none

/-- A name is given to the turn that is made, or taken from a turn that is dropped. -/
theorem Lineage.birth?_succ {ops : List Operation} {i : Nat} {op : Operation} {f : Forest}
    (hop : ops[i]? = some op) (halive : ∀ n, (birth? ops i n).isSome = (f.turn? n).isSome)
    (name : String) : birth? ops (i + 1) name =
      if op.rebinds? f = some name then (op.makes? f).map fun _ ↦ i else birth? ops i name := by
  rw [birth?, hop]
  cases op with
  | create n profile taint => simp [Operation.rebinds?, Operation.makes?]
  | delegate n parent i =>
    rcases hparent : f.turn? parent with - | turn
    · simp [Operation.rebinds?, halive, hparent]
    · simp [Operation.rebinds?, Operation.makes?, halive, hparent]
  | drop n => simp [Operation.rebinds?, Operation.makes?]
  | cancel | escalate | observe | list | execute => rfl

namespace Session

variable {g : Guard} {host : Surroundings σ} {s : Session σ} {ops : List Operation} {i j k : Nat}
  {name : String} {turn : Turn} {op : Operation}

/-! ### Names of turns -/

/-- Of an operation that would rebind a name, and does not, nothing comes. -/
theorem step_of_not_leaves (g : Guard) (host : Surroundings σ) (hleaves : ¬ op.Leaves name)
    (hbound : op.rebinds? s.forest ≠ some name) :
    (s.step g host op).1 = s ∧ ¬ op.Touches name := by
  cases op with
  | create n profile taint =>
    have hn : n = name := Classical.not_not.1 hleaves
    exact absurd (congrArg some hn) hbound
  | delegate n parent i =>
    have hn : n = name := Classical.not_not.1 hleaves
    rcases hparent : s.forest.turn? parent with - | turn
    · exact ⟨congrArg Prod.fst (onTurn_of_none hparent), not_false⟩
    · rw [Operation.rebinds?, hparent, hn] at hbound
      exact absurd rfl hbound
  | drop n =>
    have hn : n = name := Classical.not_not.1 hleaves
    exact absurd (congrArg some hn) hbound
  | cancel | escalate | observe | list | execute => exact absurd trivial hleaves

/-- An operation that neither rebinds the name nor touches its turn leaves the turn as it is. -/
theorem turn?_step_of_untouched (hbound : op.rebinds? s.forest ≠ some name)
    (htouches : ¬ op.Touches name) :
    (s.step g host op).1.forest.turn? name = s.forest.turn? name := by
  by_cases hleaves : op.Leaves name
  · exact turn?_step_of_not_touches hleaves htouches
  · rw [(step_of_not_leaves g host hleaves hbound).1]

/-- A name that is not rebound and stands for no turn still stands for none. -/
theorem turn?_step_of_none (hbound : op.rebinds? s.forest ≠ some name)
    (hturn : s.forest.turn? name = none) : (s.step g host op).1.forest.turn? name = none := by
  by_cases htouches : op.Touches name
  · have hsame : (s.step g host op).1 = s := by
      cases op with
      | escalate n level | observe n tags | execute n tool arguments =>
        obtain rfl : n = name := htouches
        exact congrArg Prod.fst (onTurn_of_none hturn)
      | create | delegate | cancel | drop | list => exact htouches.elim
    rw [hsame, hturn]
  · rw [turn?_step_of_untouched hbound htouches, hturn]

/-- A name that is rebound stands for the turn that is made, or for none if none is made. -/
theorem turn?_step_of_rebinds (hbound : op.rebinds? s.forest = some name) :
    (s.step g host op).1.forest.turn? name = op.makes? s.forest := by
  cases op with
  | create n profile taint =>
    obtain rfl := Option.some.inj hbound
    rw [step, Forest.turn?_create, if_pos rfl]
    rfl
  | delegate n parent i =>
    obtain ⟨turn, hparent, rfl⟩ := Option.map_eq_some_iff.1 hbound
    rw [step, onTurn_of_some hparent, Forest.turn?_delegate, if_pos rfl, Operation.makes?, hparent]
    rfl
  | drop n =>
    obtain rfl := Option.some.inj hbound
    rcases hturn : s.forest.turn? n with - | turn
    · rw [step, onTurn_of_none hturn, hturn]
      rfl
    · rw [step, onTurn_of_some hturn, Forest.turn?_drop, if_pos rfl]
      rfl
  | cancel | escalate | observe | list | execute => cases hbound

/-- The turn that was made at a place of a run, as it began. -/
def born? (g : Guard) (host : Surroundings σ) (s : Session σ) (ops : List Operation) (k : Nat) :
    Option Turn :=
  ops[k]?.bind fun op ↦ op.makes? (s.before g host ops k).forest

/-- The name stands for no turn and has no birth, or it stands for the turn that was made at its
birth, later on. -/
def Stands (g : Guard) (host : Surroundings σ) (s : Session σ) (ops : List Operation) (i : Nat)
    (name : String) : Prop :=
  (s.before g host ops i).forest.turn? name = none ∧ birth? ops i name = none ∨
    ∃ turn k first, (s.before g host ops i).forest.turn? name = some turn ∧
      birth? ops i name = some k ∧ s.born? g host ops k = some first ∧ first.Follows turn

theorem Stands.isSome_eq (h : s.Stands g host ops i name) :
    (birth? ops i name).isSome = ((s.before g host ops i).forest.turn? name).isSome := by
  rcases h with ⟨hturn, hbirth⟩ | ⟨turn, k, first, hturn, hbirth, -, -⟩
  · rw [hturn, hbirth]
    rfl
  · rw [hturn, hbirth]
    rfl

/-- **Names and births.** At every place of a run a name stands for the turn of its birth. -/
theorem stands (g : Guard) (host : Surroundings σ) (hs : s.forest = .empty) (ops : List Operation)
    (i : Nat) (name : String) : s.Stands g host ops i name := by
  induction i generalizing name with
  | zero =>
    have hstart : s.before g host ops 0 = s := rfl
    refine Or.inl ⟨?_, rfl⟩
    rw [hstart, hs]
    rfl
  | succ i ih =>
    rcases hop : ops[i]? with - | op
    · rw [Stands, birth?_of_none hop, before_succ_of_none hop]
      exact ih name
    rw [Stands, birth?_succ hop (fun n ↦ (ih n).isSome_eq), before_succ hop]
    by_cases hbound : op.rebinds? (s.before g host ops i).forest = some name
    · rw [if_pos hbound, turn?_step_of_rebinds hbound]
      have hborn : s.born? g host ops i = op.makes? (s.before g host ops i).forest := by
        rw [born?, hop, Option.bind_some]
      rcases hmade : op.makes? (s.before g host ops i).forest with - | first
      · exact Or.inl ⟨rfl, rfl⟩
      · exact Or.inr ⟨first, i, first, rfl, rfl, hborn.trans hmade, .refl first⟩
    · rw [if_neg hbound]
      rcases ih name with ⟨hturn, hbirth⟩ | ⟨turn, k, first, hturn, hbirth, hborn, hfollows⟩
      · exact Or.inl ⟨turn?_step_of_none hbound hturn, hbirth⟩
      · have hkeeps : (s.before g host ops i).forest.Keeps
          ((s.before g host ops i).step g host op).1.forest name := step_keeps hbound
        obtain ⟨turn', hturn', hfollows'⟩ := hkeeps turn hturn
        exact Or.inr ⟨turn', k, first, hturn', hbirth, hborn, hfollows.trans hfollows'⟩

theorem exists_of_birth? (g : Guard) (host : Surroundings σ) (hs : s.forest = .empty)
    (h : birth? ops i name = some k) :
    ∃ turn first, (s.before g host ops i).forest.turn? name = some turn ∧
      s.born? g host ops k = some first ∧ first.Follows turn := by
  rcases s.stands g host hs ops i name with ⟨-, hnone⟩ | ⟨turn, k', first, hturn, hbirth, hborn⟩
  · cases h.symm.trans hnone
  · obtain rfl := Option.some.inj (h.symm.trans hbirth)
    exact ⟨turn, first, hturn, hborn⟩

theorem exists_of_turn? (hs : s.forest = .empty)
    (h : (s.before g host ops i).forest.turn? name = some turn) :
    ∃ k first, birth? ops i name = some k ∧ s.born? g host ops k = some first ∧
      first.Follows turn := by
  rcases s.stands g host hs ops i name with ⟨hnone, -⟩ | ⟨turn', k, first, hturn, hbirth⟩
  · cases h.symm.trans hnone
  · obtain rfl := Option.some.inj (h.symm.trans hturn)
    exact ⟨k, first, hbirth⟩

/-! ### Trees -/

/-- What a turn has from its tree: the profile and the number of the tree. -/
def heritage? (g : Guard) (host : Surroundings σ) (s : Session σ) (ops : List Operation) (k : Nat) :
    Option (Option String × Nat) :=
  (s.born? g host ops k).map fun first ↦ (first.profile, first.tree)

/-- A turn has its heritage from its parent. -/
theorem heritage?_of_parent? (hs : s.forest = .empty) {p : Nat} (h : parent? ops k = some p) :
    s.heritage? g host ops p = s.heritage? g host ops k := by
  rw [parent?] at h
  split at h
  case h_1 n parent inheritance hop =>
    obtain ⟨turn, mother, hturn, hmother, hfollows⟩ :=
      exists_of_birth? g host hs h
    have hborn : s.born? g host ops k =
        some (turn.delegate (s.before g host ops k).forest.nextId inheritance) := by
      rw [born?, hop, Option.bind_some, Operation.makes?, hturn, Option.map_some]
    rw [heritage?, heritage?, hborn, hmother, Option.map_some, Option.map_some]
    show some (mother.profile, mother.tree) = some (turn.profile, turn.tree)
    rw [hfollows.profile_eq, hfollows.tree_eq]
  case h_2 => cases h

/-- Turns of one tree have one heritage. -/
theorem heritage?_of_sameTree (g : Guard) (host : Surroundings σ) (hs : s.forest = .empty)
    {k' : Nat} (h : SameTree ops k k') :
    s.heritage? g host ops k = s.heritage? g host ops k' := by
  induction h with
  | rel p k hparent => exact heritage?_of_parent? hs hparent
  | refl k => rfl
  | symm k k' _ ih => exact ih.symm
  | trans k k' k'' _ _ ih ih' => exact ih.trans ih'

/-- **Every turn descends from one that starts a tree**, and has its profile and its number. -/
theorem exists_root (hs : s.forest = .empty) {first : Turn}
    (hborn : s.born? g host ops k = some first) :
    ∃ root n start, Descends ops root k ∧ ops[root]? = some (.create n first.profile start) ∧
      first.tree = (s.before g host ops root).forest.made := by
  -- By strong induction: a parent is born before its child.
  induction k using Nat.strongRecOn generalizing first with
  | ind k ih =>
    rcases hop : ops[k]? with - | op
    · rw [born?, hop] at hborn
      cases hborn
    have hmakes : op.makes? (s.before g host ops k).forest = some first := by
      rwa [born?, hop] at hborn
    cases op with
    | create n profile start =>
      obtain rfl := Option.some.inj hmakes
      exact ⟨k, n, start, .refl, hop, rfl⟩
    | delegate n parent inheritance =>
      obtain ⟨turn, hturn, rfl⟩ := Option.map_eq_some_iff.1 hmakes
      obtain ⟨p, mother, hbirth, hmother, hfollows⟩ := exists_of_turn? hs hturn
      have hparent : parent? ops k = some p := by
        rw [parent?, hop]
        exact hbirth
      obtain ⟨root, m, start, hdescends, hroot, htree⟩ := ih p (lt_of_parent? hparent) hmother
      rw [← hfollows.profile_eq] at hroot
      exact ⟨root, m, start, .tail hdescends hparent, hroot, hfollows.tree_eq.trans htree⟩
    | cancel | escalate | observe | drop | list | execute => cases hmakes

/-- The count of the turns made never falls. -/
theorem made_le_step (g : Guard) (host : Surroundings σ) (s : Session σ) (op : Operation) :
    s.forest.made ≤ (s.step g host op).1.forest.made := by
  have hon : ∀ {n : String} {act : Turn → Session σ × Effect σ},
      (∀ t, s.forest.made ≤ (act t).1.forest.made) →
        s.forest.made ≤ (s.onTurn n act).1.forest.made := fun h ↦
    onTurn_induction (p := fun s' ↦ s.forest.made ≤ s'.forest.made) (Nat.le_refl _) fun t _ ↦ h t
  cases op with
  | create n profile taint => exact Nat.le_succ _
  | delegate n parent i => exact hon fun _ ↦ Nat.le_succ _
  | execute n tool arguments =>
    refine hon fun t ↦ Nat.le_of_eq ?_
    simp only [afterCall]
    split <;> rfl
  | cancel | escalate | observe | drop | list => exact hon fun _ ↦ Nat.le_refl _

theorem made_mono (g : Guard) (host : Surroundings σ) (s : Session σ) (ops : List Operation)
    {i j : Nat} (h : i ≤ j) :
    (s.before g host ops i).forest.made ≤ (s.before g host ops j).forest.made := by
  induction h with
  | refl => exact Nat.le_refl _
  | @step j _ ih =>
    rcases hop : ops[j]? with - | op
    · rwa [before_succ_of_none hop]
    · rw [before_succ hop]
      exact Nat.le_trans ih (made_le_step g host _ op)

/-- A tree that is started has a number that no tree had before. -/
theorem made_lt_of_create {n : String} {profile : Option String} {start : TaintLevel}
    (hop : ops[i]? = some (.create n profile start)) (h : i < j) :
    (s.before g host ops i).forest.made < (s.before g host ops j).forest.made := by
  have hnext : (s.before g host ops (i + 1)).forest.made =
      (s.before g host ops i).forest.made + 1 := by
    rw [before_succ hop]
    rfl
  have hmono : (s.before g host ops (i + 1)).forest.made ≤ (s.before g host ops j).forest.made :=
    made_mono g host s ops h
  omega

/-- **The number stands for the tree.** Two turns are of one tree if and only if the trees that they
belong to have one number. -/
theorem sameTree_iff (hs : s.forest = .empty) {k' : Nat} {first first' : Turn}
    (hborn : s.born? g host ops k = some first) (hborn' : s.born? g host ops k' = some first') :
    SameTree ops k k' ↔ first.tree = first'.tree := by
  constructor
  · intro h
    have hsame := heritage?_of_sameTree g host hs h
    rw [heritage?, heritage?, hborn, hborn', Option.map_some, Option.map_some] at hsame
    exact congrArg Prod.snd (Option.some.inj hsame)
  · intro htree
    obtain ⟨root, n, start, hdescends, hroot, hnumber⟩ := exists_root hs hborn
    obtain ⟨root', n', start', hdescends', hroot', hnumber'⟩ := exists_root hs hborn'
    rw [hnumber, hnumber'] at htree
    -- The roots are the same, since each tree that is started has a number of its own.
    have hroots : root = root' := by
      rcases Nat.lt_trichotomy root root' with hlt | heq | hgt
      · exact absurd htree (Nat.ne_of_lt (made_lt_of_create hroot hlt))
      · exact heq
      · exact absurd htree.symm (Nat.ne_of_lt (made_lt_of_create hroot' hgt))
    subst hroots
    exact .trans _ _ _ (.symm _ _ (sameTree_of_descends hdescends))
      (sameTree_of_descends hdescends')

end Session

end ToolAccess
