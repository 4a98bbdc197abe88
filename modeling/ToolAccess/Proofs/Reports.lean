import Mathlib.Data.List.Nodup
import Mathlib.Data.List.Perm.Subperm
import Mathlib.Data.Prod.Basic

/-!
# Reports without gaps

A list of findings is a report on a collection of places if every finding at a place stands in it
once, and nothing else does. The places themselves are not in the list: two findings that read the
same are two entries, so that a report cannot be checked by membership. `Reports` therefore asks for
a list of places with their findings, no place twice, that reads as the report.

Reports are put together as the lists are: from single findings (`Reports.ofOption`), one report
after another (`Reports.append`), one report for each element of a list (`Reports.flatMap`). Two
collections of findings of which one has the other's report are the same if one includes the other
(`Reports.antisymm`); this is how a report shows that it is *not* one on more.
-/

namespace ToolAccess

variable {P Q X α : Type}

/-- The list is a report on the findings: each of them, at its place, is one entry. -/
def Reports (report : List X) (finding : P → X → Prop) : Prop :=
  ∃ found : List (P × X), (found.map (·.1)).Nodup ∧
    (∀ place x, (place, x) ∈ found ↔ finding place x) ∧ found.map (·.2) = report

namespace Reports

variable {report more : List X} {F G : P → X → Prop}

theorem congr (h : Reports report F) (hiff : ∀ place x, F place x ↔ G place x) :
    Reports report G := by
  obtain ⟨found, hnodup, hfound, hreport⟩ := h
  exact ⟨found, hnodup, fun place x ↦ (hfound place x).trans (hiff place x), hreport⟩

/-- Every finding is in the report. -/
theorem mem (h : Reports report F) {place : P} {x : X} (hx : F place x) : x ∈ report := by
  obtain ⟨found, -, hfound, rfl⟩ := h
  exact List.mem_map_of_mem ((hfound place x).2 hx)

theorem eq_nil_iff (h : Reports report F) : report = [] ↔ ∀ place x, ¬ F place x := by
  constructor
  · rintro rfl place x hx
    cases h.mem hx
  · intro hnone
    obtain ⟨found, -, hfound, rfl⟩ := h
    refine List.map_eq_nil_iff.2 (List.eq_nil_iff_forall_not_mem.2 ?_)
    rintro ⟨place, x⟩ hx
    exact hnone place x ((hfound place x).1 hx)

/-- Of two collections with one report, neither is a proper part of the other. -/
theorem antisymm (hF : Reports report F) (hG : Reports report G)
    (hle : ∀ place x, F place x → G place x) {place : P} {x : X} (hx : G place x) : F place x := by
  obtain ⟨foundF, hnodup, hfoundF, hreportF⟩ := hF
  obtain ⟨foundG, -, hfoundG, hreportG⟩ := hG
  have hsubset : foundF ⊆ foundG := fun y hy ↦ (hfoundG _ _).2 (hle _ _ ((hfoundF _ _).1 hy))
  -- Both lists read as the report, so they have its length.
  have hlength : foundG.length ≤ foundF.length := by
    have hreports := congrArg List.length (hreportG.trans hreportF.symm)
    rw [List.length_map, List.length_map] at hreports
    exact Nat.le_of_eq hreports
  have hperm : foundF.Perm foundG :=
    (List.subperm_of_subset (List.Nodup.of_map _ hnodup) hsubset).perm_of_length_le hlength
  exact (hfoundF place x).1 (hperm.mem_iff.2 ((hfoundG place x).2 hx))

/-! ### Putting reports together -/

theorem nil : Reports ([] : List X) (fun (_ : P) _ ↦ False) :=
  ⟨[], List.nodup_nil, fun _ _ ↦ by simp, rfl⟩

/-- One finding at most, at a place. -/
theorem ofOption (place : P) (o : Option X) :
    Reports o.toList (fun p x ↦ p = place ∧ o = some x) := by
  refine ⟨o.toList.map (place, ·), ?_, fun p x ↦ ?_, ?_⟩
  · cases o with
    | none => exact List.nodup_nil
    | some x => exact List.nodup_singleton place
  · cases o with
    | none => simp
    | some y => simp [eq_comm]
  · rw [List.map_map]
    exact List.map_id _

/-- One finding for each element of a list. -/
theorem map {l : List α} {place : α → P} (hl : l.Nodup) (hplace : Function.Injective place)
    (finding : α → X) :
    Reports (l.map finding) (fun p x ↦ ∃ a ∈ l, p = place a ∧ x = finding a) := by
  refine ⟨l.map fun a ↦ (place a, finding a), ?_, fun p x ↦ ?_, ?_⟩
  · rw [List.map_map]
    exact List.Nodup.map hplace hl
  · constructor
    · intro hx
      obtain ⟨a, ha, heq⟩ := List.mem_map.1 hx
      cases heq
      exact ⟨a, ha, rfl, rfl⟩
    · rintro ⟨a, ha, rfl, rfl⟩
      exact List.mem_map.2 ⟨a, ha, rfl⟩
  · rw [List.map_map]
    rfl

/-- One report after another, if they share no place. -/
theorem append (hF : Reports report F) (hG : Reports more G)
    (hdisjoint : ∀ place x y, F place x → ¬ G place y) :
    Reports (report ++ more) (fun place x ↦ F place x ∨ G place x) := by
  obtain ⟨foundF, hnodupF, hfoundF, rfl⟩ := hF
  obtain ⟨foundG, hnodupG, hfoundG, rfl⟩ := hG
  refine ⟨foundF ++ foundG, ?_, fun place x ↦ ?_, List.map_append⟩
  · rw [List.map_append]
    refine List.Nodup.append hnodupF hnodupG ?_
    intro place hF hG
    obtain ⟨⟨_, x⟩, hx, rfl⟩ := List.mem_map.1 hF
    obtain ⟨⟨_, y⟩, hy, rfl⟩ := List.mem_map.1 hG
    exact hdisjoint _ _ _ ((hfoundF _ _).1 hx) ((hfoundG _ _).1 hy)
  · rw [List.mem_append, hfoundF, hfoundG]

/-- The findings, with each place inside a larger one. -/
theorem within {f : P → Q} (h : Reports report F) (hf : Function.Injective f) :
    Reports report (fun q x ↦ ∃ place, q = f place ∧ F place x) := by
  obtain ⟨found, hnodup, hfound, rfl⟩ := h
  refine ⟨found.map fun e ↦ (f e.1, e.2), ?_, fun q x ↦ ?_, ?_⟩
  · rw [List.map_map]
    have hmap : ((·.1) ∘ fun e : P × X ↦ (f e.1, e.2)) = f ∘ (·.1) := rfl
    rw [hmap, ← List.map_map]
    exact List.Nodup.map hf hnodup
  · constructor
    · intro hx
      obtain ⟨⟨place, y⟩, hy, heq⟩ := List.mem_map.1 hx
      cases heq
      exact ⟨place, rfl, (hfound place y).1 hy⟩
    · rintro ⟨place, rfl, hx⟩
      exact List.mem_map.2 ⟨(place, x), (hfound place x).2 hx, rfl⟩
  · rw [List.map_map]
    rfl

/-- A report for each element of a list, with the places told apart by a key of the element. -/
theorem flatMap {κ : Type} {l : List α} {key : α → κ} {report : α → List X}
    {F : α → P → X → Prop} (hkey : (l.map key).Nodup) (h : ∀ a ∈ l, Reports (report a) (F a)) :
    Reports (l.flatMap report)
      (fun (place : κ × P) x ↦ ∃ a ∈ l, key a = place.1 ∧ F a place.2 x) := by
  induction l with
  | nil =>
    refine nil.congr fun _ _ ↦ ?_
    simp
  | cons a l ih =>
    rw [List.map_cons, List.nodup_cons] at hkey
    obtain ⟨ha, hl⟩ := List.forall_mem_cons.1 h
    -- The places of the head have its key, which no later element has.
    have hhead := ha.within (Prod.mk_right_injective (key a))
    refine (hhead.append (ih hkey.2 hl) ?_).congr fun place x ↦ ?_
    · rintro _ x y ⟨place, rfl, -⟩ ⟨b, hb, hbkey, -⟩
      exact hkey.1 (List.mem_map.2 ⟨b, hb, hbkey⟩)
    · rw [List.exists_mem_cons_iff]
      refine or_congr ⟨?_, ?_⟩ Iff.rfl
      · rintro ⟨p, rfl, hp⟩
        exact ⟨rfl, hp⟩
      · rintro ⟨hplace, hp⟩
        exact ⟨place.2, Prod.ext hplace.symm rfl, hp⟩

/-- A report for each element of a list, with the places told apart by the element's index, on which
the report may depend. -/
theorem flatMap_zipIdx {l : List α} {report : Nat → α → List X} {F : Nat → α → P → X → Prop}
    (h : ∀ i a, l[i]? = some a → Reports (report i a) (F i a)) :
    Reports (l.zipIdx.flatMap fun e ↦ report e.2 e.1)
      (fun (place : Nat × P) x ↦ ∃ a, l[place.1]? = some a ∧ F place.1 a place.2 x) := by
  have hkey : (l.zipIdx.map (·.2)).Nodup := by
    rw [List.zipIdx_map_snd]
    exact List.nodup_range'
  have hmem : ∀ {i a}, (a, i) ∈ l.zipIdx ↔ l[i]? = some a := List.mk_mem_zipIdx_iff_getElem?
  have hparts : ∀ e ∈ l.zipIdx, Reports (report e.2 e.1) (F e.2 e.1) :=
    fun e he ↦ h e.2 e.1 (hmem.1 he)
  refine (flatMap hkey hparts).congr ?_
  rintro ⟨i, place⟩ x
  constructor
  · rintro ⟨⟨a, _⟩, ha, rfl, hx⟩
    exact ⟨a, hmem.1 ha, hx⟩
  · rintro ⟨a, ha, hx⟩
    exact ⟨(a, i), hmem.2 ha, rfl, hx⟩

/-- A report for each element of a list; what is found may depend on the element's index. -/
theorem flatMap_index {l : List α} {report : α → List X} {F : Nat → α → P → X → Prop}
    (h : ∀ i a, l[i]? = some a → Reports (report a) (F i a)) :
    Reports (l.flatMap report)
      (fun (place : Nat × P) x ↦ ∃ a, l[place.1]? = some a ∧ F place.1 a place.2 x) := by
  have hindexed : l.flatMap report = l.zipIdx.flatMap fun e ↦ report e.1 := by
    conv_lhs => rw [← List.zipIdx_map_fst 0 l, List.flatMap_map]
  rw [hindexed]
  exact flatMap_zipIdx h

/-- One finding at most for each element of a list. -/
theorem filterMap (f : α → Option X) (l : List α) :
    Reports (l.filterMap f) (fun (i : Nat) x ↦ ∃ a, l[i]? = some a ∧ f a = some x) := by
  have hparts := flatMap_index fun i a (_ : l[i]? = some a) ↦ ofOption () (f a)
  have hfst : Function.Injective (Prod.fst : Nat × Unit → Nat) := fun _ _ h ↦ Prod.ext h rfl
  rw [List.filterMap_eq_flatMap_toList]
  refine (hparts.within hfst).congr fun i x ↦ ?_
  constructor
  · rintro ⟨⟨i, _⟩, rfl, a, ha, -, hx⟩
    exact ⟨a, ha, hx⟩
  · rintro ⟨a, ha, hx⟩
    exact ⟨(i, ()), rfl, a, ha, rfl, hx⟩

end Reports

end ToolAccess
