import ToolAccess.Json.Reader
import ToolAccess.Proofs.JsonText

/-!
# Compact texts read back

## What the proof rests on

A text is read from the front, and every reader gives back what it left. So each kind of text is
followed by an arbitrary rest: strings and brackets end by themselves (`readString_quoted`), and a
number ends where the rest does not continue it (`EndsNumber`, `readNumber_intChars`). Behind a
value there stands a comma, a bracket, a brace or nothing, so inside a text every number ends.

From this follows by induction over the value that its text is read as that value, with the fields
of its objects in order (`parseChars_compactChars`). The numbers in it must be whole and fit in
64 bits.
-/

namespace ToolAccess.Json

/-! ### Strings -/

theorem readEscape_short {d c : Char} (h : (d, c) ∈ shortEscapes) (r : List Char) :
    readEscape (d :: r) = some (c, r) := by
  have hall : ∀ p ∈ shortEscapes, readEscape (p.1 :: r) = some (p.2, r) := by
    simp [shortEscapes, readEscape]
  exact hall (d, c) h

theorem charOfNat?_toNat (c : Char) : Text.charOfNat? c.toNat = some c := by
  have hvalid : c.toNat.isValidChar := c.valid
  rw [Text.charOfNat?, dif_pos hvalid]
  rfl

theorem readEscape_unit {c : Char} (h : c.toNat < 32) (r : List Char) :
    readEscape ('u' :: '0' :: '0' :: hexDigit (c.toNat / 16) :: hexDigit (c.toNat % 16) :: r) =
      some (c, r) := by
  have hhex : Text.hexNumber? ['0', '0', hexDigit (c.toNat / 16), hexDigit (c.toNat % 16)] =
      some c.toNat := by
    have hzeros : Text.hexNumber? ['0', '0'] = some 0 := rfl
    have hfront := Text.hexNumber?_append_singleton hzeros
      (Text.hexValue?_digitChar (n := c.toNat / 16) (by omega))
    have hall := Text.hexNumber?_append_singleton hfront
      (Text.hexValue?_digitChar (n := c.toNat % 16) (by omega))
    have hvalue : (0 * 16 + c.toNat / 16) * 16 + c.toNat % 16 = c.toNat := by omega
    rw [hvalue] at hall
    exact hall
  have hlow : ¬ (0xD800 ≤ c.toNat ∧ c.toNat < 0xDC00) := by omega
  simp only [readEscape, readEscapedUnit, readUnit, hhex, Option.map_some, if_neg hlow,
    charOfNat?_toNat]

/-- One character takes one step, however it is written. -/
theorem readStringFrom_escapeChar (c : Char) (fuel : Nat) (r : List Char) :
    readStringFrom (fuel + 1) (escapeChar c ++ r) =
      (readStringFrom fuel r).map fun p ↦ (c :: p.1, p.2) := by
  have h := escapedAs_escapeChar c
  generalize escapeChar c = cs at h
  cases h with
  | short h =>
    simp only [List.cons_append, List.nil_append, readStringFrom, readEscape_short h,
      Option.bind_eq_bind, Option.bind_some]
    cases readStringFrom fuel r <;> rfl
  | unit h =>
    simp only [List.cons_append, List.nil_append, readStringFrom, readEscape_unit h,
      Option.bind_eq_bind, Option.bind_some]
    cases readStringFrom fuel r <;> rfl
  | plain h hquote hslash =>
    rw [List.singleton_append, readStringFrom, if_neg (by omega)]
    · cases readStringFrom fuel r <;> rfl
    · simpa using hquote
    · simpa using hslash

theorem readStringFrom_flatMap (s r : List Char) {fuel : Nat} (h : s.length < fuel) :
    readStringFrom fuel (s.flatMap escapeChar ++ '"' :: r) = some (s, r) := by
  induction s generalizing fuel with
  | nil =>
    obtain ⟨fuel, rfl⟩ := Nat.exists_eq_add_of_lt h
    rfl
  | cons c s ih =>
    obtain ⟨fuel, rfl⟩ : ∃ k, fuel = k + 1 := ⟨fuel - 1, by omega⟩
    rw [List.length_cons] at h
    rw [List.flatMap_cons, List.append_assoc, readStringFrom_escapeChar, ih (by omega)]
    rfl

theorem length_le_length_flatMap_escapeChar (s : List Char) :
    s.length ≤ (s.flatMap escapeChar).length := by
  induction s with
  | nil => exact Nat.zero_le _
  | cons c s ih =>
    have hc : 1 ≤ (escapeChar c).length := by
      have h := escapedAs_escapeChar c
      generalize escapeChar c = cs at h
      cases h <;> simp
    rw [List.flatMap_cons, List.length_append, List.length_cons]
    omega

/-- A string in quotes is read as that string, whatever stands behind it. -/
theorem readString_quoted (s r : List Char) :
    readString (s.flatMap escapeChar ++ '"' :: r) = some (s, r) := by
  refine readStringFrom_flatMap s r ?_
  have := length_le_length_flatMap_escapeChar s
  rw [List.length_append, List.length_cons]
  omega

theorem quoteChars_append (s r : List Char) :
    quoteChars s ++ r = '"' :: (s.flatMap escapeChar ++ '"' :: r) := by
  simp [quoteChars]

/-! ### Numbers -/

/-- Whether a character would continue a whole number. -/
def continuesNumber (c : Char) : Bool := c.isDigit || c == '.' || c == 'e' || c == 'E'

/-- A number written in front of this text ends where the text begins. -/
def EndsNumber (r : List Char) : Prop := ∀ c ∈ r.head?, continuesNumber c = false

theorem endsNumber_nil : EndsNumber [] := by
  rintro c ⟨⟩

theorem endsNumber_cons {c : Char} (r : List Char) (h : continuesNumber c = false) :
    EndsNumber (c :: r) := by
  intro d hd
  rwa [← Option.some.inj hd]

theorem takeWhile_digits {n : Nat} {r : List Char} (hr : EndsNumber r) :
    (Nat.toDigits 10 n ++ r).takeWhile Char.isDigit = Nat.toDigits 10 n ∧
      (Nat.toDigits 10 n ++ r).dropWhile Char.isDigit = r := by
  have hdigits : ∀ c ∈ Nat.toDigits 10 n, c.isDigit = true :=
    fun _ ↦ Text.isDigit_of_mem_toDigits
  rw [List.takeWhile_append_of_pos hdigits, List.dropWhile_append_of_pos hdigits]
  cases r with
  | nil => simp
  | cons c r =>
    have hc := hr c rfl
    simp only [continuesNumber, Bool.or_eq_false_iff] at hc
    simp [hc.1.1.1]

/-- Digits that spell a number of 64 bits are all taken. -/
theorem appendDigits_eq {ds : List Char} {n : Nat}
    (h : ds.foldl (fun n c ↦ n * 10 + Text.digitValue c) n ≤ maxWord) :
    appendDigits n ds = (ds.foldl (fun n c ↦ n * 10 + Text.digitValue c) n, ds.length) := by
  have hgrows (ds : List Char) (m : Nat) :
      m ≤ ds.foldl (fun n c ↦ n * 10 + Text.digitValue c) m := by
    induction ds generalizing m with
    | nil => exact Nat.le_refl m
    | cons c ds ih => exact Nat.le_trans (by omega) (ih (m * 10 + Text.digitValue c))
  induction ds generalizing n with
  | nil => rfl
  | cons c ds ih =>
    have hnext : ¬ maxWord < n * 10 + Text.digitValue c :=
      Nat.not_lt.2 (Nat.le_trans (hgrows ds _) h)
    simp only [appendDigits, if_neg hnext, ih h, List.foldl_cons, List.length_cons]

theorem appendDigits_toDigits {n : Nat} (h : n ≤ maxWord) :
    appendDigits 0 (Nat.toDigits 10 n) = (n, (Nat.toDigits 10 n).length) := by
  have hvalue : (Nat.toDigits 10 n).foldl (fun n c ↦ n * 10 + Text.digitValue c) 0 = n :=
    Text.decimalValue_toDigits n
  rw [appendDigits_eq (by rwa [hvalue]), hvalue]

/-- Whole numbers of 64 bits, signed or unsigned. -/
def FitsWord (n : Int) : Prop := Int64.minValue.toInt ≤ n ∧ n ≤ maxWord

theorem ofNumberParts_toDigits {n : Int} (h : FitsWord n) :
    ofNumberParts (decide (n < 0)) (Nat.toDigits 10 n.natAbs) [] none = some (.int n) := by
  obtain ⟨hlow, hhigh⟩ := h
  have hmin : Int64.minValue.toInt = -9223372036854775808 := rfl
  have hmax : maxWord = 18446744073709551615 := rfl
  have hword : n.natAbs ≤ maxWord := by omega
  have hsigned : decide (n < 0) = true →
      0 < n.natAbs ∧ Int64.minValue.toInt ≤ -(n.natAbs : Int) := by
    intro hn
    have := of_decide_eq_true hn
    omega
  rw [ofNumberParts, appendDigits_toDigits hword]
  simp only [Nat.sub_self, List.isEmpty_nil, Option.isNone_none, true_and]
  rw [if_pos hsigned]
  by_cases hn : n < 0
  · simp only [hn, decide_true, if_true]
    congr 2
    omega
  · simp only [hn, decide_false]
    congr 2
    simp
    omega

theorem readFraction_of_endsNumber {r : List Char} (hr : EndsNumber r) :
    readFraction r = some ([], r) := by
  cases r with
  | nil => rfl
  | cons c r =>
    have hc : c ≠ '.' := by
      rintro rfl
      exact absurd (hr '.' rfl) (by decide)
    rw [readFraction]
    simpa using hc

theorem readExponent_of_endsNumber {r : List Char} (hr : EndsNumber r) :
    readExponent r = some (none, r) := by
  cases r with
  | nil => rfl
  | cons c r =>
    have hc := hr c rfl
    simp only [continuesNumber, Bool.or_eq_false_iff] at hc
    rw [readExponent, hc.1.2, hc.2]
    rfl

theorem toDigits_append_ne_minus (n : Nat) (r : List Char) :
    ∀ rest, Nat.toDigits 10 n ++ r ≠ '-' :: rest := by
  intro rest h
  rcases hds : Nat.toDigits 10 n with - | ⟨c, ds⟩
  · exact Nat.toDigits_ne_nil hds
  · have hdigit : c.isDigit = true :=
      Text.isDigit_of_mem_toDigits (n := n) (hds ▸ List.mem_cons_self)
    rw [hds, List.cons_append] at h
    rw [(List.cons.inj h).1] at hdigit
    exact absurd hdigit (by decide)

/-- A whole number of 64 bits is read as that number, where it ends. -/
theorem readNumber_intChars {n : Int} (h : FitsWord n) {r : List Char} (hr : EndsNumber r) :
    readNumber (intChars n ++ r) = some (.int n, r) := by
  have hplain : ¬ ((Nat.toDigits 10 n.natAbs).isEmpty ∨
      (Nat.toDigits 10 n.natAbs).head? = some '0' ∧ 1 < (Nat.toDigits 10 n.natAbs).length) := by
    rintro (hempty | ⟨hzero, hlong⟩)
    · exact Nat.toDigits_ne_nil (List.isEmpty_iff.1 hempty)
    · rw [Text.length_toDigits_of_head? hzero] at hlong
      exact Nat.lt_irrefl 1 hlong
  obtain ⟨htake, hdrop⟩ := takeWhile_digits (n := n.natAbs) hr
  have hparts := ofNumberParts_toDigits h
  by_cases hn : n < 0
  · rw [decide_eq_true hn] at hparts
    rw [intChars, if_pos hn, List.cons_append, readNumber]
    simp only [htake, hdrop, if_neg hplain, readFraction_of_endsNumber hr,
      readExponent_of_endsNumber hr, hparts, Option.bind_eq_bind, Option.bind_some]
  · rw [decide_eq_false hn] at hparts
    rw [intChars, if_neg hn, readNumber]
    · simp only [htake, hdrop, if_neg hplain, readFraction_of_endsNumber hr,
        readExponent_of_endsNumber hr, hparts, Option.bind_eq_bind, Option.bind_some]
    · exact toDigits_append_ne_minus n.natAbs r

/-! ### Values without floating-point numbers -/

/-- Every number in the value is whole and has the property. -/
inductive NumbersAre (p : Int → Prop) : Json → Prop
  | null : NumbersAre p .null
  | bool (b : Bool) : NumbersAre p (.bool b)
  | int {n : Int} (h : p n) : NumbersAre p (.int n)
  | string (s : String) : NumbersAre p (.string s)
  | array {items : List Json} (h : ∀ v ∈ items, NumbersAre p v) : NumbersAre p (.array items)
  | object {fields : List (String × Json)} (h : ∀ f ∈ fields, NumbersAre p f.2) :
    NumbersAre p (.object fields)

/-- No number in the value is floating-point. -/
def FloatFree (j : Json) : Prop := j.NumbersAre fun _ ↦ True

/-- Every number in the value is whole and fits in 64 bits. -/
def FitsWords (j : Json) : Prop := j.NumbersAre FitsWord

/-- The kind of a value, told by the character that its text begins with; all numbers are told
by zero. -/
def mark : Json → Char
  | .null => 'n'
  | .bool true => 't'
  | .bool false => 'f'
  | .int _ | .float _ => '0'
  | .string _ => '"'
  | .array _ => '['
  | .object _ => '{'

/-- The kind of value that a character begins. -/
def markOf (c : Char) : Char := if c == '-' || c.isDigit then '0' else c

theorem exists_intChars_eq (n : Int) :
    ∃ c cs, intChars n = c :: cs ∧ (c == '-' || c.isDigit) = true := by
  rw [intChars]
  split
  · exact ⟨_, _, rfl, rfl⟩
  · rcases hds : Nat.toDigits 10 n.natAbs with - | ⟨c, ds⟩
    · exact absurd hds Nat.toDigits_ne_nil
    · have hdigit : c.isDigit = true :=
        Text.isDigit_of_mem_toDigits (n := n.natAbs) (hds ▸ List.mem_cons_self)
      exact ⟨c, ds, rfl, by rw [hdigit, Bool.or_true]⟩

/-- A text begins with a character of its value's kind. -/
theorem NumbersAre.exists_compactChars_eq {p : Int → Prop} {j : Json} (h : j.NumbersAre p) :
    ∃ c cs, j.compactChars = c :: cs ∧ markOf c = j.mark := by
  cases h with
  | null => exact ⟨_, _, rfl, rfl⟩
  | bool b => cases b <;> exact ⟨_, _, rfl, rfl⟩
  | int =>
    obtain ⟨c, cs, hcs, hc⟩ := exists_intChars_eq ‹Int›
    exact ⟨c, cs, hcs, by rw [markOf, if_pos hc]; rfl⟩
  | string s => exact ⟨_, _, rfl, rfl⟩
  | @array items => cases items <;> exact ⟨_, _, rfl, rfl⟩
  | @object fields => rcases fields with - | ⟨⟨k, v⟩, fs⟩ <;> exact ⟨_, _, rfl, rfl⟩

theorem endsNumber_compactItems (vs : List Json) (r : List Char) :
    EndsNumber (compactItems vs ++ r) := by
  cases vs <;> exact endsNumber_cons _ rfl

theorem endsNumber_compactFields (fs : List (String × Json)) (r : List Char) :
    EndsNumber (compactFields fs ++ r) := by
  rcases fs with - | ⟨⟨k, v⟩, fs⟩ <;> exact endsNumber_cons _ rfl

/-! ### The value that is read -/

mutual

/-- The value with the fields of all its objects in order, as a reader gives it. -/
def canonical : Json → Json
  | .array items => .array (canonicalItems items)
  | .object fields => .ofFields (canonicalFields fields)
  | .null => .null
  | .bool b => .bool b
  | .int n => .int n
  | .float x => .float x
  | .string s => .string s

/-- The items, each with the fields of its objects in order. -/
def canonicalItems : List Json → List Json
  | [] => []
  | v :: vs => canonical v :: canonicalItems vs

/-- The fields as they stand, with the fields of the objects in them in order. -/
def canonicalFields : List (String × Json) → List (String × Json)
  | [] => []
  | (k, v) :: fs => (k, canonical v) :: canonicalFields fs

end

theorem skipBlank_cons {c : Char} (cs : List Char) (h : isBlank c = false) :
    skipBlank (c :: cs) = c :: cs := by
  rw [skipBlank, List.dropWhile_cons_of_neg (by simp [h])]

/-- No value begins with a blank or with a closing bracket. -/
theorem not_isBlank_of_markOf_eq {c : Char} {j : Json} (h : markOf c = j.mark) :
    isBlank c = false ∧ c ≠ ']' := by
  have hne {d : Char} (hd : markOf d ∉ ['n', 't', 'f', '0', '"', '[', '{']) : c ≠ d := by
    rintro rfl
    rw [h] at hd
    cases j with
    | bool b => cases b <;> exact hd (by decide)
    | _ => exact hd (by simp [mark])
  refine ⟨?_, hne (by decide)⟩
  simp only [isBlank, Bool.or_eq_false_iff, beq_eq_false_iff_ne]
  exact ⟨⟨⟨hne (by decide), hne (by decide)⟩, hne (by decide)⟩, hne (by decide)⟩

theorem readValue_number {c : Char} (hc : (c == '-' || c.isDigit) = true) (fuel : Nat)
    (r : List Char) : readValue (fuel + 1) (c :: r) = readNumber (c :: r) := by
  have hblank : isBlank c = false :=
    (not_isBlank_of_markOf_eq (j := .int 0) (by rw [markOf, if_pos hc]; rfl)).1
  rw [readValue, skipBlank_cons _ hblank]
  -- A character that begins a number begins nothing else.
  have hne {d : Char} (hd : ¬ (d == '-' || d.isDigit) = true) : c ≠ d := by
    rintro rfl
    exact hd hc
  split
  next h => exact absurd (List.cons.inj h).1 (hne (by decide))
  next h => exact absurd (List.cons.inj h).1 (hne (by decide))
  next h => exact absurd (List.cons.inj h).1 (hne (by decide))
  next h => exact absurd (List.cons.inj h).1 (hne (by decide))
  next h => exact absurd (List.cons.inj h).1 (hne (by decide))
  next h => exact absurd (List.cons.inj h).1 (hne (by decide))
  next => rfl

theorem readValue_array {c : Char} {j : Json} (hc : markOf c = j.mark) (fuel : Nat)
    (r : List Char) : readValue (fuel + 1) ('[' :: c :: r) =
      (readItems fuel (c :: r)).map fun p ↦ (.array p.1, p.2) := by
  obtain ⟨hblank, hclose⟩ := not_isBlank_of_markOf_eq hc
  rw [readValue, skipBlank_cons (c := '[') _ rfl]
  simp only [skipBlank_cons _ hblank]
  split
  next h => exact absurd (List.cons.inj h).1 hclose
  next => rfl

/-- The text of the value is read as the value, whatever stands behind it that ends a number. -/
def ReadsBack (j : Json) : Prop :=
  ∀ (fuel : Nat) (r : List Char), j.compactChars.length < fuel → EndsNumber r →
    readValue fuel (j.compactChars ++ r) = some (j.canonical, r)

/-- The items of an array, from one on, are read if each of them is. -/
theorem readItems_compactItems {v : Json} {vs : List Json} (hv : v.ReadsBack)
    (hvs : ∀ w ∈ vs, w.ReadsBack) {fuel : Nat} (r : List Char)
    (hfuel : (v.compactChars ++ compactItems vs).length < fuel) :
    readItems fuel (v.compactChars ++ (compactItems vs ++ r)) =
      some (v.canonical :: canonicalItems vs, r) := by
  induction vs generalizing v fuel with
  | nil =>
    obtain ⟨fuel, rfl⟩ : ∃ k, fuel = k + 1 := ⟨fuel - 1, by omega⟩
    rw [List.length_append, compactItems, List.length_singleton] at hfuel
    rw [readItems, hv fuel _ (by omega) (endsNumber_compactItems [] r)]
    rfl
  | cons w ws ih =>
    obtain ⟨fuel, rfl⟩ : ∃ k, fuel = k + 1 := ⟨fuel - 1, by omega⟩
    rw [List.length_append, compactItems, List.length_cons] at hfuel
    have hws : readItems fuel (w.compactChars ++ (compactItems ws ++ r)) =
        some (w.canonical :: canonicalItems ws, r) :=
      ih (hvs w List.mem_cons_self) (fun u hu ↦ hvs u (List.mem_cons_of_mem w hu)) (by omega)
    rw [readItems, hv fuel _ (by omega) (endsNumber_compactItems (w :: ws) r)]
    simp only [compactItems, List.cons_append, List.append_assoc, skipBlank_cons (c := ',') _ rfl,
      hws]
    rfl

/-- The fields of an object, from one on, are read if the value of each of them is. -/
theorem readFields_compactFields {k : String} {v : Json} {fs : List (String × Json)}
    (hv : v.ReadsBack) (hfs : ∀ f ∈ fs, f.2.ReadsBack) {fuel : Nat} (r : List Char)
    (hfuel : (quoteChars k.toList ++ ':' :: (v.compactChars ++ compactFields fs)).length < fuel) :
    readFields fuel (quoteChars k.toList ++ ':' :: (v.compactChars ++ (compactFields fs ++ r))) =
      some ((k, v.canonical) :: canonicalFields fs, r) := by
  induction fs generalizing k v fuel with
  | nil =>
    obtain ⟨fuel, rfl⟩ : ∃ k, fuel = k + 1 := ⟨fuel - 1, by omega⟩
    simp only [List.length_append, List.length_cons, compactFields] at hfuel
    have hvalue := hv fuel _ (by omega) (endsNumber_compactFields [] r)
    rw [quoteChars_append, readFields, skipBlank_cons (c := '"') _ rfl]
    simp only [readString_quoted, skipBlank_cons (c := ':') _ rfl, hvalue, String.ofList_toList]
    rfl
  | cons f fs ih =>
    obtain ⟨l, w⟩ := f
    obtain ⟨fuel, rfl⟩ : ∃ k, fuel = k + 1 := ⟨fuel - 1, by omega⟩
    simp only [List.length_append, List.length_cons, compactFields] at hfuel
    have hvalue := hv fuel _ (by omega) (endsNumber_compactFields ((l, w) :: fs) r)
    have hrest : readFields fuel
        (quoteChars l.toList ++ ':' :: (w.compactChars ++ (compactFields fs ++ r))) =
        some ((l, w.canonical) :: canonicalFields fs, r) := by
      refine ih (hfs _ List.mem_cons_self) (fun f hf ↦ hfs f (List.mem_cons_of_mem _ hf)) ?_
      simp only [List.length_append, List.length_cons]
      omega
    rw [quoteChars_append, readFields, skipBlank_cons (c := '"') _ rfl]
    simp only [readString_quoted, skipBlank_cons (c := ':') _ rfl, hvalue, String.ofList_toList]
    simp only [compactFields, List.cons_append, List.append_assoc, skipBlank_cons (c := ',') _ rfl,
      hrest]
    rfl

/-- There is at least one character to read, so it does to consider readers that take a step. -/
theorem readsBack_of_succ {j : Json}
    (h : ∀ (fuel : Nat) (r : List Char), j.compactChars.length < fuel + 1 → EndsNumber r →
      readValue (fuel + 1) (j.compactChars ++ r) = some (j.canonical, r)) : j.ReadsBack := by
  intro fuel r hfuel hr
  obtain ⟨fuel, rfl⟩ : ∃ k, fuel = k + 1 := ⟨fuel - 1, by omega⟩
  exact h fuel r hfuel hr

/-- The text of every value whose numbers fit in 64 bits is read as the value. -/
theorem FitsWords.readsBack {j : Json} (h : j.FitsWords) : j.ReadsBack := by
  induction h with
  | null =>
    exact readsBack_of_succ fun _ _ _ _ ↦ rfl
  | bool b =>
    cases b <;> exact readsBack_of_succ fun _ _ _ _ ↦ rfl
  | @int n hn =>
    refine readsBack_of_succ fun fuel r hfuel hr ↦ ?_
    obtain ⟨c, cs, hcs, hc⟩ := exists_intChars_eq n
    have hnumber := readNumber_intChars hn hr
    rw [hcs, List.cons_append] at hnumber
    rw [compactChars, hcs, List.cons_append, readValue_number hc, hnumber]
    rfl
  | string s =>
    refine readsBack_of_succ fun fuel r hfuel hr ↦ ?_
    rw [compactChars, quoteChars_append, readValue, skipBlank_cons (c := '"') _ rfl]
    simp only [readString_quoted, Option.map_some, String.ofList_toList]
    rfl
  | @array items hitems ih =>
    refine readsBack_of_succ fun fuel r hfuel hr ↦ ?_
    cases items with
    | nil => rfl
    | cons v vs =>
      obtain ⟨c, cs, hcs, hc⟩ := (hitems v List.mem_cons_self).exists_compactChars_eq
      rw [compactChars, List.length_cons] at hfuel
      have hread := readItems_compactItems (ih v List.mem_cons_self)
        (fun w hw ↦ ih w (List.mem_cons_of_mem v hw)) r (Nat.lt_of_succ_lt_succ hfuel)
      rw [hcs, List.cons_append] at hread
      rw [compactChars, List.cons_append, List.append_assoc, hcs, List.cons_append,
        readValue_array hc, hread]
      rfl
  | @object fields hfields ih =>
    refine readsBack_of_succ fun fuel r hfuel hr ↦ ?_
    rcases fields with - | ⟨⟨k, v⟩, fs⟩
    · rfl
    · rw [compactChars, List.length_cons] at hfuel
      have hv : v.ReadsBack := ih (k, v) List.mem_cons_self
      have hread := readFields_compactFields (k := k) hv
        (fun f hf ↦ ih f (List.mem_cons_of_mem _ hf)) r (Nat.lt_of_succ_lt_succ hfuel)
      rw [quoteChars_append] at hread
      rw [compactChars, readValue]
      simp only [List.cons_append, List.append_assoc, skipBlank_cons (c := '{') _ rfl,
        quoteChars_append, skipBlank_cons (c := '"') _ rfl]
      exact congrArg (Option.map _) hread

/-- **Writing and reading.** The compact text of a value whose numbers fit in 64 bits stands for
that value. -/
theorem parseChars_compactChars {j : Json} (h : j.FitsWords) :
    parseChars j.compactChars = some j.canonical := by
  have hread := h.readsBack (j.compactChars.length + 1) [] (Nat.lt_succ_self _) endsNumber_nil
  rw [List.append_nil] at hread
  rw [parseChars, hread]
  rfl

end ToolAccess.Json
