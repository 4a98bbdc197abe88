import ToolAccess.Json.Printer
import ToolAccess.Proofs.Numerals

/-!
# What compact texts are made of

The compact text of a value is woven from two kinds of thread: characters that stand for
themselves, which are neither quotes, backslashes, backticks nor control characters, and strings in
quotes (`Woven`, `woven_compactChars`). Numbers are of the first kind throughout, floating-point
ones too. Whatever holds of both threads holds of every text; that no control character stands in
one is an instance (`printable_of_mem_compactChars`).
-/

namespace ToolAccess.Json

/-! ### Bare characters -/

/-- Whether a character may stand for itself outside of strings. -/
def isBare (c : Char) : Bool := c != '"' && c != '\\' && c != '`' && decide (32 ≤ c.toNat)

theorem isBare_of_isDigit {c : Char} (h : c.isDigit = true) : isBare c = true := by
  simp only [Char.isDigit, Bool.and_eq_true, decide_eq_true_eq] at h
  have hlow : 48 ≤ c.toNat := h.1
  have hhigh : c.toNat ≤ 57 := h.2
  have hne {d : Char} (hd : d.toNat < 48 ∨ 57 < d.toNat) : c ≠ d := by
    rintro rfl
    omega
  simp only [isBare, Bool.and_eq_true, bne_iff_ne, decide_eq_true_eq]
  exact ⟨⟨⟨hne (by decide), hne (by decide)⟩, hne (by decide)⟩, by omega⟩

/-- Whether all characters stand for themselves. -/
def Bare (cs : List Char) : Prop := ∀ c ∈ cs, isBare c = true

instance (cs : List Char) : Decidable (Bare cs) :=
  decidable_of_iff (cs.all isBare = true) List.all_eq_true

theorem Bare.append {l r : List Char} (hl : Bare l) (hr : Bare r) : Bare (l ++ r) := by
  intro c hc
  rcases List.mem_append.1 hc with hc | hc
  · exact hl c hc
  · exact hr c hc

theorem Bare.cons {c : Char} {cs : List Char} (hc : isBare c = true) (hcs : Bare cs) :
    Bare (c :: cs) :=
  Bare.append (List.forall_mem_singleton.2 hc) hcs

theorem bare_nil : Bare [] := by decide

theorem Bare.take {cs : List Char} (h : Bare cs) (n : Nat) : Bare (cs.take n) :=
  fun c hc ↦ h c (List.mem_of_mem_take hc)

theorem Bare.drop {cs : List Char} (h : Bare cs) (n : Nat) : Bare (cs.drop n) :=
  fun c hc ↦ h c (List.mem_of_mem_drop hc)

theorem bare_zeros (n : Nat) : Bare (List.replicate n '0') := by
  intro c hc
  rw [List.eq_of_mem_replicate hc]
  decide

/-! ### Numbers -/

theorem bare_toDigits (n : Nat) : Bare (Nat.toDigits 10 n) :=
  fun _ hc ↦ isBare_of_isDigit (Text.isDigit_of_mem_toDigits hc)

theorem bare_intChars (n : Int) : Bare (intChars n) := by
  rw [intChars]
  split
  · exact (bare_toDigits _).cons (by decide)
  · exact bare_toDigits _

/-- The standard library writes whole numbers alike. -/
theorem toList_toString_int (n : Int) : (toString n).toList = intChars n := by
  cases n with
  | ofNat m =>
    have hm : ¬ Int.ofNat m < 0 := Int.not_lt.2 (Int.natCast_nonneg m)
    have htext : toString (Int.ofNat m) = toString m := rfl
    rw [intChars, if_neg hm, htext, Nat.toString_eq_ofList_toDigits, String.toList_ofList]
    rfl
  | negSucc m =>
    have hm : Int.negSucc m < 0 := Int.negSucc_lt_zero m
    have htext : toString (Int.negSucc m) = "-" ++ toString (m + 1) := rfl
    rw [intChars, if_pos hm, htext, Nat.toString_eq_ofList_toDigits, String.toList_append,
      String.toList_ofList, String.toList_ofList]
    rfl

theorem bare_positional (d : Shortest.Decimal) : Bare (Shortest.positional d) := by
  have hds := bare_toDigits d.digits
  rw [Shortest.positional]
  split
  · exact hds.append (bare_zeros _)
  split
  · exact (hds.take _).append ((hds.drop _).cons (by decide))
  · exact (((bare_zeros _).cons (by decide)).cons (by decide)).append hds

theorem bare_scientific (d : Shortest.Decimal) : Bare (Shortest.scientific d) := by
  have hds := bare_toDigits d.digits
  rw [Shortest.scientific, toList_toString_int]
  refine ((hds.take 1).append ?_).append ((bare_intChars _).cons (by decide))
  split
  · exact bare_nil
  · exact (hds.drop 1).cons (by decide)

theorem bare_floatChars (x : Binary64) : Bare (floatChars x) := by
  cases x with
  | finite negative m e =>
    rw [floatChars]
    refine Bare.append ?_ ?_
    · cases negative with
      | false => exact bare_nil
      | true => exact bare_nil.cons (by decide)
    · split
      · decide
      · rw [decimalChars]
        split
        · refine (bare_positional _).append ?_
          split
          · decide
          · exact bare_nil
        · exact bare_scientific _
  | infinite negative =>
    rw [floatChars]
    decide
  | nan =>
    rw [floatChars]
    decide

/-! ### Strings -/

/-- The escapes of two characters: the one behind the backslash and the one that is meant. -/
def shortEscapes : List (Char × Char) :=
  [('"', '"'), ('\\', '\\'), ('n', '\n'), ('r', '\r'), ('t', '\t'), ('b', Char.ofNat 8),
    ('f', Char.ofNat 12)]

/-- The three ways to write a character inside a string. -/
inductive EscapedAs : Char → List Char → Prop
  | short {d c : Char} (h : (d, c) ∈ shortEscapes) : EscapedAs c ['\\', d]
  | unit {c : Char} (h : c.toNat < 32) :
    EscapedAs c ['\\', 'u', '0', '0', hexDigit (c.toNat / 16), hexDigit (c.toNat % 16)]
  | plain {c : Char} (h : 32 ≤ c.toNat) (hquote : c ≠ '"') (hslash : c ≠ '\\') : EscapedAs c [c]

theorem escapedAs_escapeChar (c : Char) : EscapedAs c (escapeChar c) := by
  have hcode {n : Nat} (h : c.toNat = n) : c = Char.ofNat n := by
    rw [← h, Char.ofNat_toNat]
  rw [escapeChar.eq_def]
  split
  · exact .short (by decide)
  · exact .short (by decide)
  · exact .short (by decide)
  · exact .short (by decide)
  · exact .short (by decide)
  next hquote hslash _ _ _ =>
    split
    next h => exact hcode h ▸ .short (by decide)
    split
    next h => exact hcode h ▸ .short (by decide)
    split
    next h => exact .unit h
    next h => exact .plain (by omega) hquote hslash

theorem EscapedAs.printable {c d : Char} {cs : List Char} (h : EscapedAs c cs) (hd : d ∈ cs) :
    32 ≤ d.toNat := by
  have hhex {n : Nat} (hn : n < 16) : 32 ≤ (hexDigit n).toNat := by
    revert n
    decide
  cases h with
  | short h =>
    have hall : ∀ p ∈ shortEscapes, 32 ≤ p.1.toNat := by decide
    rcases List.mem_cons.1 hd with rfl | hd
    · decide
    · rw [List.mem_singleton.1 hd]
      exact hall _ h
  | unit h =>
    simp only [List.mem_cons, List.not_mem_nil, or_false] at hd
    rcases hd with rfl | rfl | rfl | rfl | rfl | rfl
    · decide
    · decide
    · decide
    · decide
    · exact hhex (by omega)
    · exact hhex (by omega)
  | plain h =>
    rw [List.mem_singleton.1 hd]
    exact h

/-! ### Whole texts -/

/-- Texts of bare characters and of strings in quotes. -/
inductive Woven : List Char → Prop
  | nil : Woven []
  | bare {c : Char} {rest : List Char} (hc : isBare c = true) (h : Woven rest) : Woven (c :: rest)
  | quoted (s : List Char) {rest : List Char} (h : Woven rest) : Woven (quoteChars s ++ rest)

theorem Woven.append {l r : List Char} (hl : Woven l) (hr : Woven r) : Woven (l ++ r) := by
  induction hl with
  | nil => exact hr
  | bare hc _ ih => exact ih.bare hc
  | quoted s _ ih =>
    rw [List.append_assoc]
    exact ih.quoted s

theorem Bare.woven {cs : List Char} (h : Bare cs) : Woven cs := by
  induction cs with
  | nil => exact .nil
  | cons c cs ih =>
    obtain ⟨hc, hcs⟩ := List.forall_mem_cons.1 h
    exact (ih hcs).bare hc

mutual

theorem woven_compactChars : (j : Json) → Woven j.compactChars
  | .null => Bare.woven (by decide)
  | .bool true => Bare.woven (by decide)
  | .bool false => Bare.woven (by decide)
  | .int n => (bare_intChars n).woven
  | .float x => (bare_floatChars x).woven
  | .string s => by
    rw [compactChars, ← List.append_nil (quoteChars _)]
    exact .quoted s.toList .nil
  | .array [] => Bare.woven (by decide)
  | .array (v :: vs) => by
    rw [compactChars]
    exact ((woven_compactChars v).append (woven_compactItems vs)).bare (by decide)
  | .object [] => Bare.woven (by decide)
  | .object ((k, v) :: fs) => by
    have hvalue := (woven_compactChars v).append (woven_compactFields fs)
    rw [compactChars]
    exact ((hvalue.bare (by decide)).quoted k.toList).bare (by decide)

theorem woven_compactItems : (vs : List Json) → Woven (compactItems vs)
  | [] => Bare.woven (by decide)
  | v :: vs => by
    rw [compactItems]
    exact ((woven_compactChars v).append (woven_compactItems vs)).bare (by decide)

theorem woven_compactFields : (fs : List (String × Json)) → Woven (compactFields fs)
  | [] => Bare.woven (by decide)
  | (k, v) :: fs => by
    have hvalue := (woven_compactChars v).append (woven_compactFields fs)
    rw [compactFields]
    exact ((hvalue.bare (by decide)).quoted k.toList).bare (by decide)

end

/-! ### Control characters -/

theorem Woven.printable {cs : List Char} (h : Woven cs) : ∀ c ∈ cs, 32 ≤ c.toNat := by
  induction h with
  | nil => rintro c ⟨⟩
  | bare hc _ ih =>
    refine List.forall_mem_cons.2 ⟨?_, ih⟩
    simp only [isBare, Bool.and_eq_true, decide_eq_true_eq] at hc
    exact hc.2
  | quoted s _ ih =>
    intro c hc
    rcases List.mem_append.1 hc with hc | hc
    · rw [quoteChars] at hc
      rcases List.mem_cons.1 hc with rfl | hc
      · decide
      rcases List.mem_append.1 hc with hc | hc
      · obtain ⟨d, -, hd⟩ := List.mem_flatMap.1 hc
        exact (escapedAs_escapeChar d).printable hd
      · rw [List.mem_singleton.1 hc]
        decide
    · exact ih c hc

/-- No control character stands in a compact text, whatever the strings of the value hold. -/
theorem printable_of_mem_compactChars {j : Json} {c : Char} (h : c ∈ j.compactChars) :
    32 ≤ c.toNat :=
  (woven_compactChars j).printable c h

end ToolAccess.Json
