import ToolAccess.Proofs.JsonReading

/-!
# Distinct values have distinct texts

Of a text that begins with the compact text of a value without floating-point numbers, nothing but
that value can be the beginning, provided that a number does not go on where the value ends
(`FloatFree.isToldApart`). The first character tells the kind of the value (`Json.mark`), and the
parts are told apart in turn. No reader is asked, so nothing is assumed of the size of the numbers
or of the order of the fields.
-/

namespace ToolAccess.Json

/-! ### Values with one text -/

theorem quoteChars_append_inj {s t r r' : List Char}
    (h : quoteChars s ++ r = quoteChars t ++ r') : s = t ∧ r = r' := by
  rw [quoteChars_append, quoteChars_append] at h
  have hread := congrArg readString (List.cons.inj h).2
  rw [readString_quoted, readString_quoted] at hread
  exact Prod.mk.inj (Option.some.inj hread)

theorem toDigits_append_inj {n m : Nat} {r r' : List Char} (hr : EndsNumber r)
    (hr' : EndsNumber r') (h : Nat.toDigits 10 n ++ r = Nat.toDigits 10 m ++ r') :
    n = m ∧ r = r' := by
  obtain ⟨htake, hdrop⟩ := takeWhile_digits (n := n) hr
  obtain ⟨htake', hdrop'⟩ := takeWhile_digits (n := m) hr'
  rw [h] at htake hdrop
  have hdigits : Nat.toDigits 10 n = Nat.toDigits 10 m := htake.symm.trans htake'
  refine ⟨?_, hdrop.symm.trans hdrop'⟩
  rw [← Text.decimalValue_toDigits n, hdigits, Text.decimalValue_toDigits]

theorem intChars_append_inj {n m : Int} {r r' : List Char} (hr : EndsNumber r)
    (hr' : EndsNumber r') (h : intChars n ++ r = intChars m ++ r') : n = m ∧ r = r' := by
  rw [intChars, intChars] at h
  split at h
  next hn =>
    split at h
    next hm =>
      obtain ⟨hsize, hrest⟩ := toDigits_append_inj hr hr' (List.cons.inj h).2
      exact ⟨by omega, hrest⟩
    next => exact absurd h.symm (toDigits_append_ne_minus _ _ _)
  next hn =>
    split at h
    next => exact absurd h (toDigits_append_ne_minus _ _ _)
    next hm =>
      obtain ⟨hsize, hrest⟩ := toDigits_append_inj hr hr' h
      exact ⟨by omega, hrest⟩

/-- The text of the value begins no text of another value, unless a number goes on in it. -/
def IsToldApart (a : Json) : Prop :=
  ∀ {b : Json} {r r' : List Char}, b.FloatFree → EndsNumber r → EndsNumber r' →
    a.compactChars ++ r = b.compactChars ++ r' → a = b ∧ r = r'

theorem compactItems_append_inj {vs ws : List Json} (hvs : ∀ v ∈ vs, v.IsToldApart)
    (hws : ∀ w ∈ ws, w.FloatFree) {r r' : List Char}
    (h : compactItems vs ++ r = compactItems ws ++ r') : vs = ws ∧ r = r' := by
  induction vs generalizing ws with
  | nil =>
    cases ws with
    | nil => exact ⟨rfl, (List.cons.inj h).2⟩
    | cons w ws => exact absurd (List.cons.inj h).1 (by decide)
  | cons v vs ih =>
    cases ws with
    | nil => exact absurd (List.cons.inj h).1 (by decide)
    | cons w ws =>
      obtain ⟨hv, hvs'⟩ := List.forall_mem_cons.1 hvs
      obtain ⟨hw, hws'⟩ := List.forall_mem_cons.1 hws
      rw [compactItems, compactItems, List.cons_append, List.cons_append, List.append_assoc,
        List.append_assoc] at h
      obtain ⟨rfl, hitems⟩ := hv hw (endsNumber_compactItems vs r) (endsNumber_compactItems ws r')
        (List.cons.inj h).2
      obtain ⟨rfl, hrest⟩ := ih hvs' hws' hitems
      exact ⟨rfl, hrest⟩

theorem compactField_append_inj {k l : String} {v w : Json} {fs gs : List (String × Json)}
    {r r' : List Char} (hv : v.IsToldApart) (hw : w.FloatFree)
    (h : quoteChars k.toList ++ ':' :: (v.compactChars ++ (compactFields fs ++ r)) =
      quoteChars l.toList ++ ':' :: (w.compactChars ++ (compactFields gs ++ r'))) :
    k = l ∧ v = w ∧ compactFields fs ++ r = compactFields gs ++ r' := by
  obtain ⟨hname, hbehind⟩ := quoteChars_append_inj h
  obtain ⟨hvalue, hrest⟩ := hv hw (endsNumber_compactFields fs r)
    (endsNumber_compactFields gs r') (List.cons.inj hbehind).2
  exact ⟨String.toList_inj.1 hname, hvalue, hrest⟩

theorem compactFields_append_inj {fs gs : List (String × Json)}
    (hfs : ∀ f ∈ fs, f.2.IsToldApart) (hgs : ∀ g ∈ gs, g.2.FloatFree) {r r' : List Char}
    (h : compactFields fs ++ r = compactFields gs ++ r') : fs = gs ∧ r = r' := by
  induction fs generalizing gs with
  | nil =>
    rcases gs with - | ⟨⟨l, w⟩, gs⟩
    · exact ⟨rfl, (List.cons.inj h).2⟩
    · exact absurd (List.cons.inj h).1 (by decide)
  | cons f fs ih =>
    obtain ⟨k, v⟩ := f
    rcases gs with - | ⟨⟨l, w⟩, gs⟩
    · exact absurd (List.cons.inj h).1 (by decide)
    · obtain ⟨hv, hfs'⟩ := List.forall_mem_cons.1 hfs
      obtain ⟨hw, hgs'⟩ := List.forall_mem_cons.1 hgs
      simp only [compactFields, List.cons_append, List.append_assoc] at h
      obtain ⟨rfl, rfl, hfields⟩ := compactField_append_inj hv hw (List.cons.inj h).2
      obtain ⟨rfl, hrest⟩ := ih hfs' hgs' hfields
      exact ⟨rfl, hrest⟩

theorem mark_eq_of_append_eq {a b : Json} (ha : a.FloatFree) (hb : b.FloatFree) {r r' : List Char}
    (h : a.compactChars ++ r = b.compactChars ++ r') : a.mark = b.mark := by
  obtain ⟨c, cs, hcs, hc⟩ := ha.exists_compactChars_eq
  obtain ⟨d, ds, hds, hd⟩ := hb.exists_compactChars_eq
  rw [hcs, hds] at h
  rw [← hc, ← hd, (List.cons.inj h).1]

theorem FloatFree.close_cons_ne_append {j : Json} (h : j.FloatFree) (s r : List Char) :
    ']' :: s ≠ j.compactChars ++ r := by
  obtain ⟨c, cs, hcs, hc⟩ := h.exists_compactChars_eq
  intro heq
  rw [hcs] at heq
  exact (not_isBlank_of_markOf_eq hc).2 (List.cons.inj heq).1.symm

theorem array_append_inj {vs ws : List Json} (hvs : ∀ v ∈ vs, v.FloatFree)
    (hws : ∀ w ∈ ws, w.FloatFree) (htold : ∀ v ∈ vs, v.IsToldApart) {r r' : List Char}
    (h : (array vs).compactChars ++ r = (array ws).compactChars ++ r') : vs = ws ∧ r = r' := by
  rcases vs with - | ⟨v, vs⟩ <;> rcases ws with - | ⟨w, ws⟩
  · exact ⟨rfl, List.append_cancel_left h⟩
  · have hw : w.FloatFree := hws w List.mem_cons_self
    simp only [compactChars, List.cons_append, List.append_assoc] at h
    exact absurd (List.cons.inj h).2 (hw.close_cons_ne_append _ _)
  · have hv : v.FloatFree := hvs v List.mem_cons_self
    simp only [compactChars, List.cons_append, List.append_assoc] at h
    exact absurd (List.cons.inj h).2.symm (hv.close_cons_ne_append _ _)
  · -- The items behind the first stand behind commas, so the arrays go on as such lists do.
    have hitems : compactItems (v :: vs) ++ r = compactItems (w :: ws) ++ r' :=
      congrArg (List.cons ',') (List.cons.inj h).2
    exact compactItems_append_inj htold hws hitems

theorem object_append_inj {fs gs : List (String × Json)} (hgs : ∀ g ∈ gs, g.2.FloatFree)
    (htold : ∀ f ∈ fs, f.2.IsToldApart) {r r' : List Char}
    (h : (object fs).compactChars ++ r = (object gs).compactChars ++ r') : fs = gs ∧ r = r' := by
  rcases fs with - | ⟨⟨k, v⟩, fs⟩ <;> rcases gs with - | ⟨⟨l, w⟩, gs⟩
  · exact ⟨rfl, List.append_cancel_left h⟩
  · exact absurd (List.cons.inj (List.cons.inj h).2).1 (by decide)
  · exact absurd (List.cons.inj (List.cons.inj h).2).1 (by decide)
  · have hfields : compactFields ((k, v) :: fs) ++ r = compactFields ((l, w) :: gs) ++ r' :=
      congrArg (List.cons ',') (List.cons.inj h).2
    exact compactFields_append_inj htold hgs hfields

/-- Only values of one kind need to be told apart by more than a character. -/
theorem isToldApart_of_mark {a : Json} (ha : a.FloatFree)
    (h : ∀ {b : Json} {r r' : List Char}, b.FloatFree → a.mark = b.mark → EndsNumber r →
      EndsNumber r' → a.compactChars ++ r = b.compactChars ++ r' → a = b ∧ r = r') :
    a.IsToldApart :=
  fun hb hr hr' heq ↦ h hb (mark_eq_of_append_eq ha hb heq) hr hr' heq

theorem FloatFree.isToldApart {a : Json} (ha : a.FloatFree) : a.IsToldApart := by
  induction ha with
  | null =>
    refine isToldApart_of_mark .null fun hb hmark hr hr' h ↦ ?_
    cases hb with
    | null => exact ⟨rfl, List.append_cancel_left h⟩
    | bool c => cases c <;> simp [mark] at hmark
    | _ => simp [mark] at hmark
  | bool b =>
    refine isToldApart_of_mark (.bool b) fun hc hmark hr hr' h ↦ ?_
    cases hc with
    | bool c =>
      cases b <;> cases c
      · exact ⟨rfl, List.append_cancel_left h⟩
      · simp [mark] at hmark
      · simp [mark] at hmark
      · exact ⟨rfl, List.append_cancel_left h⟩
    | _ => cases b <;> simp [mark] at hmark
  | @int n hn =>
    refine isToldApart_of_mark (.int hn) fun hb hmark hr hr' h ↦ ?_
    cases hb with
    | int hm =>
      obtain ⟨rfl, hrest⟩ := intChars_append_inj hr hr' h
      exact ⟨rfl, hrest⟩
    | bool c => cases c <;> simp [mark] at hmark
    | _ => simp [mark] at hmark
  | string s =>
    refine isToldApart_of_mark (.string s) fun hb hmark hr hr' h ↦ ?_
    cases hb with
    | string t =>
      obtain ⟨htext, hrest⟩ := quoteChars_append_inj h
      exact ⟨by rw [String.toList_inj.1 htext], hrest⟩
    | bool c => cases c <;> simp [mark] at hmark
    | _ => simp [mark] at hmark
  | @array vs hvs ih =>
    refine isToldApart_of_mark (.array hvs) fun hb hmark hr hr' h ↦ ?_
    cases hb with
    | @array ws hws =>
      obtain ⟨rfl, hrest⟩ := array_append_inj hvs hws ih h
      exact ⟨rfl, hrest⟩
    | bool c => cases c <;> simp [mark] at hmark
    | _ => simp [mark] at hmark
  | @object fs hfs ih =>
    refine isToldApart_of_mark (.object hfs) fun hb hmark hr hr' h ↦ ?_
    cases hb with
    | @object gs hgs =>
      obtain ⟨rfl, hrest⟩ := object_append_inj hgs ih h
      exact ⟨rfl, hrest⟩
    | bool c => cases c <;> simp [mark] at hmark
    | _ => simp [mark] at hmark

/-- **Distinct values, distinct texts.** Values without floating-point numbers that have one
compact text are one value. -/
theorem compactChars_inj {a b : Json} (ha : a.FloatFree) (hb : b.FloatFree)
    (h : a.compactChars = b.compactChars) : a = b :=
  (ha.isToldApart hb endsNumber_nil endsNumber_nil (congrArg (· ++ []) h)).1

end ToolAccess.Json
