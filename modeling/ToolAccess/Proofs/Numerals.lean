import Mathlib.Data.Nat.Digits.Defs
import ToolAccess.Uuid

/-!
# Digits read back

Numbers are written with the digits of the standard library and read by folds of this one. Here the
two meet: decimal digits spell the number they were made from (`decimalValue_toDigits`), and so do
hexadecimal ones, of which a fixed count is written (`hexNumber?_hexDigits`). An identifier is such
a count in five groups, and its written form is read as that identifier (`Uuid.parse?_toText`).
-/

namespace ToolAccess

namespace Text

/-! ### Decimal digits -/

theorem isDigit_of_mem_toDigits {n : Nat} {c : Char} (h : c ∈ Nat.toDigits 10 n) :
    c.isDigit = true :=
  Nat.isDigit_of_mem_toDigits (by omega) (by omega) h

theorem decimalValue_toDigits (n : Nat) : decimalValue (Nat.toDigits 10 n) = n := by
  have hfold : decimalValue (Nat.toDigits 10 n) = Nat.ofDigitChars 10 (Nat.toDigits 10 n) 0 := by
    rw [Nat.ofDigitChars_eq_foldl, decimalValue]
    congr 1
    funext m c
    rw [Nat.mul_comm]
    rfl
  rw [hfold, Nat.ofDigitChars_ten_toDigits]

/-- Only zero is written with a zero in front. -/
theorem length_toDigits_of_head? {n : Nat} (h : (Nat.toDigits 10 n).head? = some '0') :
    (Nat.toDigits 10 n).length = 1 := by
  induction n using Nat.strong_induction_on with
  | _ n ih =>
    by_cases hn : n < 10
    · rw [Nat.toDigits_of_lt_base hn]
      rfl
    · -- The digits in front of the last one spell a number that is not zero, so they begin with
      -- another digit.
      rw [Nat.toDigits_of_base_le (by omega) (by omega), List.head?_append] at h
      have hspelled := decimalValue_toDigits (n / 10)
      rcases hfront : Nat.toDigits 10 (n / 10) with - | ⟨c, cs⟩
      · exact absurd hfront Nat.toDigits_ne_nil
      · rw [hfront] at h
        obtain rfl : c = '0' := Option.some.inj h
        have hshort := ih (n / 10) (by omega) (by rw [hfront]; rfl)
        rw [hfront] at hshort hspelled
        obtain rfl : cs = [] := List.eq_nil_of_length_eq_zero (Nat.succ.inj hshort)
        have hzero : 0 = n / 10 := hspelled
        omega

/-! ### Hexadecimal digits -/

theorem hexValue?_digitChar {n : Nat} (h : n < 16) : hexValue? (Nat.digitChar n) = some n := by
  revert n
  decide

theorem hexNumber?_append_singleton {ds : List Char} {d : Char} {n v : Nat}
    (hds : hexNumber? ds = some n) (hd : hexValue? d = some v) :
    hexNumber? (ds ++ [d]) = some (n * 16 + v) := by
  rw [hexNumber?] at hds ⊢
  rw [List.foldlM_append, hds]
  simp [hd]

end Text

namespace Uuid

theorem length_hexDigits (n count : Nat) : (hexDigits n count).length = count := by
  induction count generalizing n with
  | zero => rfl
  | succ count ih => rw [hexDigits, List.length_append, ih, List.length_singleton]

theorem exists_digitChar_of_mem_hexDigits {n count : Nat} {c : Char} (h : c ∈ hexDigits n count) :
    ∃ d < 16, c = Nat.digitChar d := by
  induction count generalizing n with
  | zero => cases h
  | succ count ih =>
    rcases List.mem_append.1 h with h | h
    · exact ih h
    · exact ⟨n % 16, Nat.mod_lt n (by omega), List.mem_singleton.1 h⟩

/-- The lowest digits of a number spell the number without the rest. -/
theorem hexNumber?_hexDigits (n count : Nat) :
    Text.hexNumber? (hexDigits n count) = some (n % 16 ^ count) := by
  induction count generalizing n with
  | zero => rw [Nat.pow_zero, Nat.mod_one]; rfl
  | succ count ih =>
    rw [hexDigits, Text.hexNumber?_append_singleton (ih (n / 16))
      (Text.hexValue?_digitChar (Nat.mod_lt n (by omega))), Nat.pow_succ', Nat.mod_mul]
    congr 1
    omega

/-- The digits of an identifier give it back. -/
theorem ofDigits?_hexDigits (u : Uuid) : ofDigits? (hexDigits u.bits.toNat 32) = some u := by
  rw [ofDigits?, if_pos (length_hexDigits _ _), hexNumber?_hexDigits]
  have hsmall : u.bits.toNat % 16 ^ 32 = u.bits.toNat := Nat.mod_eq_of_lt u.bits.isLt
  rw [hsmall, Option.map_some, ofNat, BitVec.ofNat_toNat, BitVec.setWidth_eq]

/-- Digits in five groups, as an identifier is written. -/
def grouped (ds : List Char) : List Char :=
  ds.take 8 ++ '-' :: (ds.drop 8).take 4 ++ '-' :: (ds.drop 12).take 4 ++ '-' ::
    (ds.drop 16).take 4 ++ '-' :: ds.drop 20

theorem toChars_eq (u : Uuid) : u.toChars = grouped (hexDigits u.bits.toNat 32) := rfl

theorem ofGroups?_grouped {ds : List Char} (h : ds.length = 32) :
    ofGroups? (grouped ds) = ofDigits? ds := by
  obtain ⟨a, b, c, d, e, rfl, ha, hb, hc, hd, he⟩ : ∃ a b c d e : List Char,
      ds = a ++ (b ++ (c ++ (d ++ e))) ∧ a.length = 8 ∧ b.length = 4 ∧ c.length = 4 ∧
        d.length = 4 ∧ e.length = 12 := by
    refine ⟨ds.take 8, (ds.drop 8).take 4, (ds.drop 12).take 4, (ds.drop 16).take 4, ds.drop 20,
      ?_, by simp [h], by simp [h], by simp [h], by simp [h], by simp [h]⟩
    have hnext (n : Nat) : ds.drop n = (ds.drop n).take 4 ++ ds.drop (n + 4) := by
      rw [← List.drop_drop, List.take_append_drop]
    rw [← hnext 16, ← hnext 12, ← hnext 8, List.take_append_drop]
  have hgrouped : grouped (a ++ (b ++ (c ++ (d ++ e)))) =
      a ++ '-' :: (b ++ '-' :: (c ++ '-' :: (d ++ '-' :: e))) := by
    rw [grouped, List.take_left' ha]
    simp [List.drop_append, ha, hb, hc, hd, List.drop_eq_nil_of_le]
  rw [hgrouped, ofGroups?]
  simp [List.drop_append, List.getElem?_append, ha, hb, hc, hd, he, List.drop_eq_nil_of_le]

theorem length_grouped {ds : List Char} (h : ds.length = 32) : (grouped ds).length = 36 := by
  simp [grouped, h]

/-- A digit opens neither a brace nor a URN. -/
theorem digitChar_opens_nothing {n : Nat} (h : n < 16) :
    Nat.digitChar n ≠ '{' ∧ Nat.digitChar n ≠ 'u' := by
  revert n
  decide

/-- **The written form of an identifier is read as that identifier.** -/
theorem parse?_toText (u : Uuid) : parse? u.toText = some u := by
  set ds := hexDigits u.bits.toNat 32 with hds
  have hlength : ds.length = 32 := length_hexDigits _ _
  have htext : u.toText.toList = grouped ds := by
    rw [toText, String.toList_ofList, toChars_eq]
  have hgroups : ofGroups? (grouped ds) = some u := by
    rw [ofGroups?_grouped hlength, hds, ofDigits?_hexDigits]
  have hplain : ofDigits? (grouped ds) = none := by
    rw [ofDigits?, length_grouped hlength]
    rfl
  obtain ⟨c, cs, hcs⟩ : ∃ c cs, ds = c :: cs :=
    List.exists_cons_of_length_pos (by omega)
  obtain ⟨d, hd, hdigit⟩ : ∃ d < 16, c = Nat.digitChar d :=
    exists_digitChar_of_mem_hexDigits (hcs ▸ List.mem_cons_self)
  obtain ⟨hbrace, hurn⟩ := digitChar_opens_nothing hd
  obtain ⟨rest, hrest⟩ : ∃ rest, grouped ds = c :: rest := by
    rw [grouped, hcs]
    exact ⟨_, rfl⟩
  rw [← hdigit] at hbrace hurn
  have hscheme : urnScheme.isPrefixOf (c :: rest) = false := by
    simp [urnScheme, List.isPrefixOf, hurn.symm]
  rw [parse?, htext]
  rw [hrest] at hplain hgroups ⊢
  simp [hbrace, hscheme, hplain, hgroups]

end Uuid

end ToolAccess
