/-!
# Sorted sets

A finite set is kept as the list of its elements in strictly ascending order. The order is part
of the type, so two sets with the same members are equal and every listing of a set comes out in
one order. Membership after each operation is given by a lemma next to it
(`mem_insert`, `mem_ofList`); `ext` says that membership determines the set.
-/

namespace ToolAccess

/-- A finite set of `α`, listed in strictly ascending order. -/
structure SortedSet (α : Type) [Ord α] where
  /-- The members in ascending order. -/
  toList : List α
  /-- Each member is smaller than every later one. -/
  ascending : toList.Pairwise (fun a b ↦ compare a b = .lt)

namespace SortedSet

variable {α : Type} [Ord α]

/-- The set without members. -/
def empty : SortedSet α := ⟨[], .nil⟩

instance : EmptyCollection (SortedSet α) := ⟨empty⟩

instance : Inhabited (SortedSet α) := ⟨empty⟩

instance : Membership α (SortedSet α) := ⟨fun s a ↦ a ∈ s.toList⟩

instance [DecidableEq α] : DecidableEq (SortedSet α) := fun s t ↦
  decidable_of_iff (s.toList = t.toList) (by cases s; cases t; simp)

instance [DecidableEq α] (a : α) (s : SortedSet α) : Decidable (a ∈ s) :=
  inferInstanceAs (Decidable (a ∈ s.toList))

theorem mem_def {a : α} {s : SortedSet α} : a ∈ s ↔ a ∈ s.toList := Iff.rfl

/-- Whether the set has no member. -/
def isEmpty (s : SortedSet α) : Bool := s.toList.isEmpty

/-- The number of members. -/
def size (s : SortedSet α) : Nat := s.toList.length

/-! ### Insertion -/

/-- Puts an element at its place in an ascending list, unless it is there already. -/
def place (a : α) : List α → List α
  | [] => [a]
  | b :: l =>
    match compare a b with
    | .lt => a :: b :: l
    | .eq => b :: l
    | .gt => b :: place a l

theorem mem_of_mem_place {a b : α} {l : List α} (h : b ∈ place a l) : b = a ∨ b ∈ l := by
  induction l with
  | nil => simpa [place] using h
  | cons c l ih =>
    rw [place] at h
    split at h
    · simpa using h
    · exact Or.inr h
    · rcases List.mem_cons.1 h with rfl | h
      · simp
      · rcases ih h with h | h
        · exact Or.inl h
        · exact Or.inr (List.mem_cons_of_mem _ h)

theorem ascending_place [Std.TransOrd α] (a : α) {l : List α}
    (h : l.Pairwise (fun a b ↦ compare a b = .lt)) :
    (place a l).Pairwise (fun a b ↦ compare a b = .lt) := by
  induction l with
  | nil => simp [place]
  | cons b l ih =>
    obtain ⟨hb, hl⟩ := List.pairwise_cons.1 h
    rw [place]
    split
    case h_1 hab =>
      refine List.pairwise_cons.2 ⟨fun c hc ↦ ?_, h⟩
      rcases List.mem_cons.1 hc with rfl | hc
      · exact hab
      · exact Std.TransCmp.lt_trans hab (hb c hc)
    case h_2 => exact h
    case h_3 hab =>
      refine List.pairwise_cons.2 ⟨fun c hc ↦ ?_, ih hl⟩
      rcases mem_of_mem_place hc with rfl | hc
      · exact Std.OrientedCmp.gt_iff_lt.1 hab
      · exact hb c hc

theorem mem_place [Std.LawfulEqOrd α] {a b : α} {l : List α} :
    b ∈ place a l ↔ b = a ∨ b ∈ l := by
  refine ⟨mem_of_mem_place, fun h ↦ ?_⟩
  induction l with
  | nil => simpa [place] using h
  | cons c l ih =>
    rw [place]
    split
    case h_1 => simpa using h
    case h_2 hac =>
      rcases h with rfl | h
      · rw [Std.LawfulEqOrd.eq_of_compare hac]; simp
      · exact h
    case h_3 =>
      rcases h with rfl | h
      · exact List.mem_cons_of_mem _ (ih (Or.inl rfl))
      · rcases List.mem_cons.1 h with rfl | h
        · simp
        · exact List.mem_cons_of_mem _ (ih (Or.inr h))

/-- The set with one more member. -/
def insert [Std.TransOrd α] (a : α) (s : SortedSet α) : SortedSet α :=
  ⟨place a s.toList, ascending_place a s.ascending⟩

@[simp] theorem mem_insert [Std.TransOrd α] [Std.LawfulEqOrd α] {a b : α} {s : SortedSet α} :
    b ∈ s.insert a ↔ b = a ∨ b ∈ s :=
  mem_place

/-- The set of the elements of a list. -/
def ofList [Std.TransOrd α] (l : List α) : SortedSet α :=
  l.foldr insert empty

@[simp] theorem mem_ofList [Std.TransOrd α] [Std.LawfulEqOrd α] {a : α} {l : List α} :
    a ∈ ofList l ↔ a ∈ l := by
  induction l with
  | nil => simp [ofList, empty, mem_def]
  | cons b l ih => simpa [ofList] using or_congr Iff.rfl ih

/-- No member is listed twice. -/
theorem nodup_toList [Std.TransOrd α] (s : SortedSet α) : s.toList.Nodup := by
  refine s.ascending.imp fun {a b} hlt heq ↦ ?_
  simp [heq, Std.ReflCmp.compare_self] at hlt

/-- Sets with the same members are equal. -/
theorem ext [Std.TransOrd α] {s t : SortedSet α} (h : ∀ a, a ∈ s ↔ a ∈ t) : s = t := by
  obtain ⟨l, hl⟩ := s
  obtain ⟨m, hm⟩ := t
  have key : l = m := by
    induction l generalizing m with
    | nil =>
      cases m with
      | nil => rfl
      | cons b m => exact absurd ((h b).2 (by simp [mem_def])) (by simp [mem_def])
    | cons a l ih =>
      obtain ⟨ha, hl'⟩ := List.pairwise_cons.1 hl
      cases m with
      | nil => exact absurd ((h a).1 (by simp [mem_def])) (by simp [mem_def])
      | cons b m =>
        obtain ⟨hb, hm'⟩ := List.pairwise_cons.1 hm
        have irrefl : ∀ {x : α}, compare x x ≠ .lt := fun {x} hx ↦ by
          simp [Std.ReflCmp.compare_self] at hx
        have hab : a = b := by
          rcases List.mem_cons.1 ((h a).1 (by simp [mem_def])) with hab | ham
          · exact hab
          · rcases List.mem_cons.1 ((h b).2 (by simp [mem_def])) with hba | hbl
            · exact hba.symm
            · exact absurd (Std.TransCmp.lt_trans (ha b hbl) (hb a ham)) irrefl
        subst hab
        congr 1
        refine ih hl' m hm' fun c ↦ ⟨fun hc ↦ ?_, fun hc ↦ ?_⟩
        · rcases List.mem_cons.1 ((h c).1 (List.mem_cons_of_mem _ hc)) with rfl | hcm
          · exact absurd (ha c hc) irrefl
          · exact hcm
        · rcases List.mem_cons.1 ((h c).2 (List.mem_cons_of_mem _ hc)) with rfl | hcl
          · exact absurd (hb c hc) irrefl
          · exact hcl
  subst key
  rfl

/-! ### Comparing sets -/

/-- Whether every member of the first set is a member of the second. -/
def isSubset [DecidableEq α] (s t : SortedSet α) : Bool := s.toList.all (· ∈ t)

/-- Whether the two sets have no member in common. -/
def isDisjoint [DecidableEq α] (s t : SortedSet α) : Bool := s.toList.all (· ∉ t)

theorem isSubset_iff [DecidableEq α] {s t : SortedSet α} :
    s.isSubset t = true ↔ ∀ a ∈ s, a ∈ t := by
  simp [isSubset, mem_def]

theorem isDisjoint_iff [DecidableEq α] {s t : SortedSet α} :
    s.isDisjoint t = true ↔ ∀ a ∈ s, a ∉ t := by
  simp [isDisjoint, mem_def]

end SortedSet

end ToolAccess
