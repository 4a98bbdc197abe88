import Mathlib.Data.List.Forall2

/-!
# Attempts

What succeeds or fails, one after the other: how the result of a composed attempt comes about, and
how that of a list of attempts.
-/

namespace ToolAccess

section Attempts

variable {ε ε' α β : Type} {x : Except ε α}

/-! ### Attempts in a row -/

theorem bind_eq_ok_iff {f : α → Except ε β} {b : β} :
    (x >>= f) = .ok b ↔ ∃ a, x = .ok a ∧ f a = .ok b := by
  rcases x with e | a
  · exact ⟨by rintro ⟨⟩, by rintro ⟨_, ⟨⟩, _⟩⟩
  · exact ⟨fun h ↦ ⟨a, rfl, h⟩, by rintro ⟨_, ⟨⟩, h⟩; exact h⟩

theorem bind_eq_error {f : α → Except ε β} {e : ε} (h : (x >>= f) = .error e) :
    x = .error e ∨ ∃ a, x = .ok a ∧ f a = .error e := by
  rcases x with e' | a
  · cases h
    exact .inl rfl
  · exact .inr ⟨a, rfl, h⟩

theorem map_eq_ok_iff {f : α → β} {b : β} : x.map f = .ok b ↔ ∃ a, x = .ok a ∧ f a = b := by
  rcases x with e | a
  · simp [Except.map]
  · simp [Except.map]

theorem mapError_eq_error {f : ε → ε'} {e' : ε'} (h : x.mapError f = .error e') :
    ∃ e, x = .error e ∧ f e = e' := by
  rcases x with e | a
  · exact ⟨e, rfl, Except.error.inj h⟩
  · cases h

theorem mapError_eq_ok_iff {f : ε → ε'} {a : α} : x.mapError f = .ok a ↔ x = .ok a := by
  rcases x with e | b
  · simp [Except.mapError]
  · simp [Except.mapError]

/-! ### Lists of attempts -/

/-- A function succeeds along a list if it does for each element. -/
theorem mapM_eq_ok_iff {f : α → Except ε β} {l : List α} {bs : List β} :
    l.mapM f = .ok bs ↔ List.Forall₂ (fun a b ↦ f a = .ok b) l bs := by
  induction l generalizing bs with
  | nil =>
    rw [List.mapM_nil, List.forall₂_nil_left_iff]
    exact ⟨by rintro ⟨⟩; rfl, by rintro rfl; rfl⟩
  | cons a l ih =>
    simp only [List.mapM_cons, bind_eq_ok_iff, List.forall₂_cons_left_iff, ih]
    constructor
    · rintro ⟨b, hb, bs, hbs, ⟨⟩⟩
      exact ⟨b, bs, hb, hbs, rfl⟩
    · rintro ⟨b, bs, hb, hbs, rfl⟩
      exact ⟨b, hb, bs, hbs, rfl⟩

/-- All attempts of a list succeed, with these results. -/
theorem mapM_id_eq_ok_iff {l : List (Except ε α)} {as : List α} :
    l.mapM id = .ok as ↔ l = as.map .ok := by
  rw [mapM_eq_ok_iff, ← List.forall₂_eq_eq_eq, List.forall₂_map_right_iff]
  rfl

/-- If a list of attempts fails, one of them fails so. -/
theorem mem_of_mapM_eq_error {l : List (Except ε α)} {e : ε} (h : l.mapM id = .error e) :
    .error e ∈ l := by
  induction l with
  | nil => cases h
  | cons x l ih =>
    rw [List.mapM_cons] at h
    rcases bind_eq_error h with hx | ⟨a, -, hrest⟩
    · exact List.mem_cons.2 (.inl hx.symm)
    · rcases bind_eq_error hrest with hl | ⟨_, -, ⟨⟩⟩
      exact List.mem_cons_of_mem _ (ih hl)

/-! ### Results without the reasons of failures -/

theorem toOption_eq_some_iff {a : α} : x.toOption = some a ↔ x = .ok a := by
  cases x <;> simp [Except.toOption]

theorem toOption_map (f : α → β) (x : Except ε α) : (x.map f).toOption = x.toOption.map f := by
  cases x <;> rfl

theorem toOption_bind (x : Except ε α) (f : α → Except ε β) :
    (x >>= f).toOption = x.toOption.bind fun a ↦ (f a).toOption := by
  cases x <;> rfl

/-- A list of attempts has a result if and only if each of them has one. -/
theorem toOption_mapM (l : List (Except ε α)) :
    (l.mapM id).toOption = (l.map Except.toOption).mapM id := by
  induction l with
  | nil => rfl
  | cons x l ih =>
    rw [List.mapM_cons, List.map_cons, List.mapM_cons, toOption_bind, ← ih]
    rcases x with e | a
    · rfl
    · rcases l.mapM id with e | as
      · rfl
      · rfl

end Attempts

end ToolAccess
