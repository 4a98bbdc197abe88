import Mathlib.Data.List.Nodup

/-!
# Look-ups in lists of entries

A list of entries is a table if no key comes twice in it. Then a look-up finds exactly its entries
(`lookup_eq_some_iff_mem`), and where keys are paired with values, the value at the place of the key
(`lookup_zip_of_getElem?`).
-/

namespace ToolAccess

section Lookups

variable {κ ν : Type} [DecidableEq κ] {l : List (κ × ν)} {k : κ} {v : ν}

theorem isSome_lookup_iff : (l.lookup k).isSome = true ↔ k ∈ l.map (·.1) := by
  simp

theorem lookup_eq_none_iff : l.lookup k = none ↔ k ∉ l.map (·.1) := by
  rw [← isSome_lookup_iff, Option.not_isSome_iff_eq_none]

theorem mem_of_lookup_eq_some (h : l.lookup k = some v) : (k, v) ∈ l := by
  obtain ⟨before, after, rfl, -⟩ := List.lookup_eq_some_iff.1 h
  simp

/-- Where no key comes twice, a look-up finds exactly the entries. -/
theorem lookup_eq_some_iff_mem (h : (l.map (·.1)).Nodup) : l.lookup k = some v ↔ (k, v) ∈ l := by
  refine ⟨mem_of_lookup_eq_some, fun hmem ↦ ?_⟩
  obtain ⟨w, hw⟩ := Option.isSome_iff_exists.1 <|
    isSome_lookup_iff.2 (List.mem_map_of_mem (f := (·.1)) hmem)
  obtain ⟨-, rfl⟩ := Prod.mk.inj (List.inj_on_of_nodup_map h (mem_of_lookup_eq_some hw) hmem rfl)
  exact hw

/-! ### Keys paired with values -/

omit [DecidableEq κ] in
/-- The keys that are paired with values are the first ones. -/
theorem map_fst_zip_eq_take (keys : List κ) (vs : List ν) :
    (keys.zip vs).map (·.1) = keys.take vs.length := by
  induction keys generalizing vs with
  | nil => simp
  | cons key keys ih =>
    cases vs with
    | nil => rfl
    | cons v vs => simp [ih]

/-- A key is paired with the value at its place. -/
theorem lookup_zip_of_getElem? {keys : List κ} (h : keys.Nodup) (vs : List ν) {i : Nat}
    (hi : keys[i]? = some k) : (keys.zip vs).lookup k = vs[i]? := by
  induction keys generalizing vs i with
  | nil => simp at hi
  | cons key keys ih =>
    obtain ⟨hnew, hkeys⟩ := List.nodup_cons.1 h
    cases vs with
    | nil => rfl
    | cons v vs =>
      rw [List.zip_cons_cons, List.lookup_cons]
      cases i with
      | zero =>
        obtain rfl : key = k := by simpa using hi
        simp
      | succ i =>
        rw [List.getElem?_cons_succ] at hi ⊢
        have hne : k ≠ key := fun heq ↦ hnew (heq ▸ List.mem_of_getElem? hi)
        rw [beq_false_of_ne hne]
        exact ih hkeys vs hi

end Lookups

end ToolAccess
