/-!
# Sorted maps

A finite map is kept as its entries in strictly ascending order of their keys, so that a listing
of a map has one order, whatever the order in which the entries were put in. A look-up after an
insertion is given by `find?_insert`; an entry is in the list exactly when look-up finds it
(`mem_entries_iff`).
-/

namespace ToolAccess

/-- A finite map from `κ` to `ν`, listed in strictly ascending order of the keys. -/
structure SortedMap (κ ν : Type) [Ord κ] where
  /-- The entries in ascending order of their keys. -/
  entries : List (κ × ν)
  /-- Each key is smaller than every later one. -/
  ascending : entries.Pairwise (fun a b ↦ compare a.1 b.1 = .lt)

namespace SortedMap

variable {κ ν : Type} [Ord κ]

/-- The map without entries. -/
def empty : SortedMap κ ν := ⟨[], .nil⟩

instance : EmptyCollection (SortedMap κ ν) := ⟨empty⟩

instance : Inhabited (SortedMap κ ν) := ⟨empty⟩

instance [DecidableEq κ] [DecidableEq ν] : DecidableEq (SortedMap κ ν) := fun m n ↦
  decidable_of_iff (m.entries = n.entries) (by cases m; cases n; simp)

/-- The keys in ascending order. -/
def keys (m : SortedMap κ ν) : List κ := m.entries.map (·.1)

/-- The number of entries. -/
def size (m : SortedMap κ ν) : Nat := m.entries.length

/-- The value at a key. -/
def find? [DecidableEq κ] (m : SortedMap κ ν) (k : κ) : Option ν :=
  m.entries.lookup k

/-- Whether the key has an entry. -/
def contains [DecidableEq κ] (m : SortedMap κ ν) (k : κ) : Bool :=
  (m.find? k).isSome

/-- Applies a function to every value. -/
def mapValues {ω : Type} (f : κ → ν → ω) (m : SortedMap κ ν) : SortedMap κ ω :=
  ⟨m.entries.map fun e ↦ (e.1, f e.1 e.2), m.ascending.map _ fun _ _ h ↦ h⟩

@[simp] theorem find?_mapValues [DecidableEq κ] {ω : Type} (f : κ → ν → ω) (m : SortedMap κ ν)
    (k : κ) : (m.mapValues f).find? k = (m.find? k).map (f k) := by
  obtain ⟨l, hl⟩ := m
  simp only [find?, mapValues]
  clear hl
  induction l with
  | nil => rfl
  | cons e l ih =>
    rw [List.map_cons, List.lookup_cons, List.lookup_cons]
    by_cases h : k = e.1
    · subst h
      simp
    · rw [beq_false_of_ne h]
      exact ih

/-! ### Insertion -/

/-- Puts an entry at its place in an ascending list, in place of one with the same key. -/
def place (k : κ) (v : ν) : List (κ × ν) → List (κ × ν)
  | [] => [(k, v)]
  | e :: l =>
    match compare k e.1 with
    | .lt => (k, v) :: e :: l
    | .eq => (k, v) :: l
    | .gt => e :: place k v l

theorem mem_of_mem_place {k : κ} {v : ν} {e : κ × ν} {l : List (κ × ν)} (h : e ∈ place k v l) :
    e = (k, v) ∨ e ∈ l := by
  induction l with
  | nil => simpa [place] using h
  | cons c l ih =>
    rw [place] at h
    split at h
    · simpa using h
    · rcases List.mem_cons.1 h with rfl | h
      · simp
      · exact Or.inr (List.mem_cons_of_mem _ h)
    · rcases List.mem_cons.1 h with rfl | h
      · simp
      · rcases ih h with h | h
        · exact Or.inl h
        · exact Or.inr (List.mem_cons_of_mem _ h)

theorem ascending_place [Std.TransOrd κ] [Std.LawfulEqOrd κ] (k : κ) (v : ν) {l : List (κ × ν)}
    (h : l.Pairwise (fun a b ↦ compare a.1 b.1 = .lt)) :
    (place k v l).Pairwise (fun a b ↦ compare a.1 b.1 = .lt) := by
  induction l with
  | nil => simp [place]
  | cons b l ih =>
    obtain ⟨hb, hl⟩ := List.pairwise_cons.1 h
    rw [place]
    split
    case h_1 hab =>
      refine List.pairwise_cons.2 ⟨fun c hc ↦ ?_, h⟩
      rcases List.mem_cons.1 hc with rfl | hc
      · exact hab
      · exact Std.TransCmp.lt_trans hab (hb c hc)
    case h_2 hab =>
      have hk := Std.LawfulEqOrd.eq_of_compare hab
      exact List.pairwise_cons.2 ⟨fun c hc ↦ hk ▸ hb c hc, hl⟩
    case h_3 hab =>
      refine List.pairwise_cons.2 ⟨fun c hc ↦ ?_, ih hl⟩
      rcases mem_of_mem_place hc with rfl | hc
      · exact Std.OrientedCmp.gt_iff_lt.1 hab
      · exact hb c hc

theorem lookup_place [DecidableEq κ] [Std.TransOrd κ] [Std.LawfulEqOrd κ] (k k' : κ) (v : ν)
    (l : List (κ × ν)) :
    (place k v l).lookup k' = if k' = k then some v else l.lookup k' := by
  induction l with
  | nil =>
    by_cases h : k' = k
    · simp [place, h]
    · simp [place, List.lookup_cons, beq_false_of_ne h, h]
  | cons e l ih =>
    obtain ⟨a, w⟩ := e
    rw [place]
    split
    case h_1 =>
      by_cases h : k' = k
      · simp [h]
      · simp [List.lookup_cons, beq_false_of_ne h, h]
    case h_2 hab =>
      have hk : k = a := Std.LawfulEqOrd.eq_of_compare hab
      subst hk
      by_cases h : k' = k
      · simp [h]
      · simp [List.lookup_cons, beq_false_of_ne h, h]
    case h_3 hab =>
      by_cases he : k' = a
      · have hne : k' ≠ k := fun hk ↦ by
          have hself : compare k a = .eq := by rw [← hk, he]; exact Std.ReflCmp.compare_self
          rw [hself] at hab
          cases hab
        simp [he, he ▸ hne]
      · simp [List.lookup_cons, beq_false_of_ne he, ih]

theorem map_place {ω : Type} (f : κ → ν → ω) (k : κ) (v : ν) (l : List (κ × ν)) :
    (place k v l).map (fun e ↦ (e.1, f e.1 e.2)) =
      place k (f k v) (l.map fun e ↦ (e.1, f e.1 e.2)) := by
  induction l with
  | nil => rfl
  | cons e l ih =>
    cases h : compare k e.1 with
    | lt => simp only [place, List.map_cons, h]
    | eq => simp only [place, List.map_cons, h]
    | gt => simp only [place, List.map_cons, h, ih]

/-- The map with the value at a key set. -/
def insert [Std.TransOrd κ] [Std.LawfulEqOrd κ] (m : SortedMap κ ν) (k : κ) (v : ν) :
    SortedMap κ ν :=
  ⟨place k v m.entries, ascending_place k v m.ascending⟩

@[simp] theorem find?_empty [DecidableEq κ] (k : κ) : (empty : SortedMap κ ν).find? k = none := rfl

@[simp] theorem find?_insert [DecidableEq κ] [Std.TransOrd κ] [Std.LawfulEqOrd κ]
    (m : SortedMap κ ν) (k k' : κ) (v : ν) :
    (m.insert k v).find? k' = if k' = k then some v else m.find? k' :=
  lookup_place k k' v m.entries

/-- An entry is listed exactly when its key is looked up to its value. -/
theorem mem_entries_iff [DecidableEq κ] [Std.TransOrd κ] {m : SortedMap κ ν} {k : κ} {v : ν} :
    (k, v) ∈ m.entries ↔ m.find? k = some v := by
  obtain ⟨l, hl⟩ := m
  simp only [find?]
  induction l with
  | nil => simp
  | cons e l ih =>
    obtain ⟨a, w⟩ := e
    obtain ⟨he, hl'⟩ := List.pairwise_cons.1 hl
    by_cases h : k = a
    · subst h
      have hk : (k, v) ∉ l := fun hm ↦ by
        have := he _ hm
        simp [Std.ReflCmp.compare_self] at this
      simp [hk, eq_comm]
    · rw [List.mem_cons, List.lookup_cons, beq_false_of_ne h, ih hl']
      exact or_iff_right fun hh ↦ h (congrArg Prod.fst hh)

/-- No key is listed twice. -/
theorem nodup_keys [Std.TransOrd κ] (m : SortedMap κ ν) : m.keys.Nodup := by
  refine List.pairwise_map.2 (m.ascending.imp fun {a b} hlt heq ↦ ?_)
  simp [heq, Std.ReflCmp.compare_self] at hlt

/-- The map without the entry at a key. -/
def erase [DecidableEq κ] (m : SortedMap κ ν) (k : κ) : SortedMap κ ν :=
  ⟨m.entries.filter fun e ↦ e.1 ≠ k, m.ascending.filter _⟩

@[simp] theorem find?_erase [DecidableEq κ] (m : SortedMap κ ν) (k k' : κ) :
    (m.erase k).find? k' = if k' = k then none else m.find? k' := by
  obtain ⟨l, hl⟩ := m
  simp only [find?, erase]
  clear hl
  induction l with
  | nil => simp
  | cons e l ih =>
    obtain ⟨a, w⟩ := e
    by_cases ha : a = k
    · subst ha
      by_cases h : k' = a
      · simpa [h] using ih
      · simpa [h, List.lookup_cons, beq_false_of_ne h] using ih
    · by_cases h : k' = a
      · subst h
        simp [ha]
      · simpa [ha, List.lookup_cons, beq_false_of_ne h] using ih

/-- The map of a list of entries; of two entries with one key the later counts. -/
def ofList [Std.TransOrd κ] [Std.LawfulEqOrd κ] (l : List (κ × ν)) : SortedMap κ ν :=
  l.foldl (fun m e ↦ m.insert e.1 e.2) empty

theorem mapValues_insert [Std.TransOrd κ] [Std.LawfulEqOrd κ] {ω : Type} (f : κ → ν → ω)
    (m : SortedMap κ ν) (k : κ) (v : ν) :
    (m.insert k v).mapValues f = (m.mapValues f).insert k (f k v) := by
  simp only [mapValues, insert, map_place]

theorem mapValues_ofList [Std.TransOrd κ] [Std.LawfulEqOrd κ] {ω : Type} (f : κ → ν → ω)
    (l : List (κ × ν)) :
    (ofList l).mapValues f = ofList (l.map fun e ↦ (e.1, f e.1 e.2)) := by
  have hfoldl : ∀ m : SortedMap κ ν,
      (l.foldl (fun m e ↦ m.insert e.1 e.2) m).mapValues f =
        (l.map fun e ↦ (e.1, f e.1 e.2)).foldl (fun m e ↦ m.insert e.1 e.2) (m.mapValues f) := by
    induction l with
    | nil => exact fun m ↦ rfl
    | cons e l ih =>
      intro m
      rw [List.foldl_cons, List.map_cons, List.foldl_cons, ih, mapValues_insert]
  exact hfoldl empty

/-! ### Lists without repeated keys -/

/-- A new key adds one entry. -/
theorem perm_place [Std.LawfulEqOrd κ] {k : κ} {v : ν} {l : List (κ × ν)}
    (h : ∀ e ∈ l, e.1 ≠ k) : (place k v l).Perm ((k, v) :: l) := by
  induction l with
  | nil => exact .refl _
  | cons e l ih =>
    obtain ⟨he, hl⟩ := List.forall_mem_cons.1 h
    rw [place]
    split
    case h_1 => exact .refl _
    case h_2 hke => exact absurd (Std.LawfulEqOrd.eq_of_compare hke).symm he
    case h_3 => exact ((ih hl).cons e).trans (.swap _ _ _)

/-- Where no key comes twice, no entry of a list is lost. -/
theorem perm_ofList [Std.TransOrd κ] [Std.LawfulEqOrd κ] {l : List (κ × ν)}
    (h : (l.map (·.1)).Nodup) : (ofList l).entries.Perm l := by
  have hfoldl : ∀ m : SortedMap κ ν, ((m.entries ++ l).map (·.1)).Nodup →
      (l.foldl (fun m e ↦ m.insert e.1 e.2) m).entries.Perm (m.entries ++ l) := by
    clear h
    induction l with
    | nil => exact fun m _ ↦ by simp
    | cons e l ih =>
      intro m h
      rw [List.foldl_cons]
      have hnew : ∀ a ∈ m.entries, a.1 ≠ e.1 := by
        rw [List.map_append, List.nodup_append] at h
        exact fun a ha ↦ h.2.2 _ (List.mem_map_of_mem ha) _ (by simp)
      have hput : (m.insert e.1 e.2).entries.Perm (e :: m.entries) := perm_place hnew
      have hmoved : ((m.insert e.1 e.2).entries ++ l).Perm (m.entries ++ e :: l) :=
        (hput.append_right l).trans List.perm_middle.symm
      exact (ih _ ((hmoved.map _).nodup_iff.2 h)).trans hmoved
  exact hfoldl empty h

/-- Maps with the same entries are equal. -/
theorem eq_of_perm [Std.TransOrd κ] {m n : SortedMap κ ν} (h : m.entries.Perm n.entries) :
    m = n := by
  have hentries : m.entries = n.entries := by
    refine h.eq_of_pairwise (fun a b _ _ hab hba ↦ ?_) m.ascending n.ascending
    rw [Std.OrientedCmp.gt_iff_lt.2 hba] at hab
    cases hab
  cases m
  cases n
  cases hentries
  rfl

/-- Entries in ascending order are kept as they stand. -/
theorem entries_ofList [Std.TransOrd κ] [Std.LawfulEqOrd κ] {l : List (κ × ν)}
    (h : l.Pairwise fun a b ↦ compare a.1 b.1 = .lt) : (ofList l).entries = l := by
  have hnodup : (l.map (·.1)).Nodup := nodup_keys ⟨l, h⟩
  exact congrArg entries (eq_of_perm (n := ⟨l, h⟩) (perm_ofList hnodup))

/-- Where no key comes twice, the order of a list makes no difference. -/
theorem ofList_eq_of_perm [Std.TransOrd κ] [Std.LawfulEqOrd κ] {l l' : List (κ × ν)}
    (hperm : l'.Perm l) (h : (l.map (·.1)).Nodup) : ofList l' = ofList l :=
  eq_of_perm (((perm_ofList ((hperm.map _).nodup_iff.2 h)).trans hperm).trans (perm_ofList h).symm)

end SortedMap

end ToolAccess
