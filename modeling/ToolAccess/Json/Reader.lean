import ToolAccess.Json.Basic
import ToolAccess.Text.Digit

/-!
# Reading JSON

A reader takes what it needs from the front of a text and gives back the rest. A whole number that
fits in 64 bits, signed or unsigned, is read as such. Every other number is read in two steps: its
digits, as many as fit in 64 bits, are rounded to a floating-point number, which is then
multiplied or divided by the one nearest to the power of ten.
-/

namespace ToolAccess.Json

/-- Whether a character may stand between the parts of a text. -/
def isBlank (c : Char) : Bool := c == ' ' || c == '\n' || c == '\t' || c == '\r'

/-- The text behind the blanks at its front. -/
def skipBlank (s : List Char) : List Char := s.dropWhile isBlank

/-- The number of four hexadecimal digits at the front of a text. -/
def readUnit (s : List Char) : Option (Nat × List Char) :=
  match s with
  | a :: b :: c :: d :: rest => (Text.hexNumber? [a, b, c, d]).map (·, rest)
  | _ => none

/-- The character that a code unit stands for; a high surrogate takes the low one behind it. -/
def readEscapedUnit (s : List Char) : Option (Char × List Char) :=
  match readUnit s with
  | none => none
  | some (high, rest) =>
    if 0xD800 ≤ high ∧ high < 0xDC00 then
      match rest with
      | '\\' :: 'u' :: rest =>
        match readUnit rest with
        | some (low, rest) =>
          if 0xDC00 ≤ low ∧ low < 0xE000 then
            (Text.charOfNat? (0x10000 + (high - 0xD800) * 0x400 + (low - 0xDC00))).map (·, rest)
          else none
        | none => none
      | _ => none
    else (Text.charOfNat? high).map (·, rest)

/-- The character of an escape, and the rest; the backslash is behind. -/
def readEscape : List Char → Option (Char × List Char)
  | '"' :: rest => some ('"', rest)
  | '\\' :: rest => some ('\\', rest)
  | '/' :: rest => some ('/', rest)
  | 'b' :: rest => some (Char.ofNat 8, rest)
  | 'f' :: rest => some (Char.ofNat 12, rest)
  | 'n' :: rest => some ('\n', rest)
  | 'r' :: rest => some ('\r', rest)
  | 't' :: rest => some ('\t', rest)
  | 'u' :: rest => readEscapedUnit rest
  | _ => none

/-- The characters up to the closing quote, and the rest behind it. The opening quote is behind.
Each step takes at least one character, so as many steps as there are characters are enough. -/
def readStringFrom : Nat → List Char → Option (List Char × List Char)
  | 0, _ => none
  | fuel + 1, s =>
    match s with
    | '"' :: rest => some ([], rest)
    | '\\' :: rest => do
      let (c, rest) ← readEscape rest
      let (cs, rest) ← readStringFrom fuel rest
      some (c :: cs, rest)
    | c :: rest =>
      if c.toNat < 32 then none
      else do
        let (cs, rest) ← readStringFrom fuel rest
        some (c :: cs, rest)
    | [] => none

/-- A string whose opening quote is behind. -/
def readString (s : List Char) : Option (List Char × List Char) := readStringFrom s.length s

/-! ### Numbers -/

/-- The greatest number of 64 bits. -/
def maxWord : Nat := UInt64.size - 1

/-- Appends digits to a number as long as it fits in 64 bits: the number and how many digits it
took. -/
def appendDigits (n : Nat) : List Char → Nat × Nat
  | [] => (n, 0)
  | c :: cs =>
    let next := n * 10 + Text.digitValue c
    if maxWord < next then (n, 0)
    else
      let (m, used) := appendDigits next cs
      (m, used + 1)

/-- A floating-point number times a power of ten, unless that is too large. A number that has
become zero stays zero. -/
def timesPower (negative : Bool) : Nat → Binary64 → Int → Option Binary64
  | 0, _, _ => some (.finite negative 0 Binary64.minExponent)
  | fuel + 1, x, power =>
    match x with
    | .finite _ m e =>
      if m = 0 then some (.finite negative 0 Binary64.minExponent)
      else if power.natAbs ≤ 308 then
        match Binary64.ofDecimal false 1 power.natAbs with
        | .finite _ pm pe =>
          match (if 0 ≤ power then Binary64.mulSize negative m e pm pe
            else Binary64.divSize negative m e pm pe) with
          | .finite s m e => some (.finite s m e)
          | _ => none
        | _ => none
      else if 0 ≤ power then none
      else
        match Binary64.ofDecimal false 1 308 with
        | .finite _ pm pe =>
          timesPower negative fuel (Binary64.divSize negative m e pm pe) (power + 308)
        | _ => none
    | _ => none

/-- The sign at the front of an exponent. -/
def readSign : List Char → Bool × List Char
  | '-' :: rest => (true, rest)
  | '+' :: rest => (false, rest)
  | rest => (false, rest)

/-- The digits behind a point, if there is one; there must be at least one digit. -/
def readFraction : List Char → Option (List Char × List Char)
  | '.' :: rest =>
    match rest.takeWhile Char.isDigit with
    | [] => none
    | ds => some (ds, rest.dropWhile Char.isDigit)
  | rest => some ([], rest)

/-- The exponent, if there is one. -/
def readExponent : List Char → Option (Option Int × List Char)
  | c :: rest =>
    if c == 'e' || c == 'E' then
      let (negative, rest) := readSign rest
      match rest.takeWhile Char.isDigit with
      | [] => none
      | ds =>
        let n : Int := Text.decimalValue ds
        some (some (if negative then -n else n), rest.dropWhile Char.isDigit)
    else some (none, c :: rest)
  | [] => some (none, [])

/-- A number from its sign, its digits and its exponent. -/
def ofNumberParts (negative : Bool) (whole fraction : List Char) (exponent : Option Int) :
    Option Json :=
  let (n, used) := appendDigits 0 whole
  let dropped := whole.length - used
  if fraction.isEmpty ∧ exponent.isNone ∧ dropped = 0 ∧
      (negative → 0 < n ∧ Int64.minValue.toInt ≤ -(n : Int)) then
    some (.int (if negative then -(n : Int) else n))
  else
    let (n, usedFraction) := appendDigits n fraction
    let power : Int := exponent.getD 0 + dropped - usedFraction
    (timesPower negative 8 (.ofRatio false n 1) power).map .float

/-- A number at the front of a text. -/
def readNumber (s : List Char) : Option (Json × List Char) := do
  let (negative, s) := match s with
    | '-' :: rest => (true, rest)
    | rest => (false, rest)
  let whole := s.takeWhile Char.isDigit
  if whole.isEmpty ∨ (whole.head? = some '0' ∧ 1 < whole.length) then none
  else
    let (fraction, s) ← readFraction (s.dropWhile Char.isDigit)
    let (exponent, s) ← readExponent s
    let j ← ofNumberParts negative whole fraction exponent
    some (j, s)

/-! ### Values -/

mutual

/-- A value at the front of a text, after blanks. -/
def readValue : Nat → List Char → Option (Json × List Char)
  | 0, _ => none
  | fuel + 1, s =>
    match skipBlank s with
    | 'n' :: 'u' :: 'l' :: 'l' :: rest => some (.null, rest)
    | 't' :: 'r' :: 'u' :: 'e' :: rest => some (.bool true, rest)
    | 'f' :: 'a' :: 'l' :: 's' :: 'e' :: rest => some (.bool false, rest)
    | '"' :: rest => (readString rest).map fun (cs, rest) ↦ (.string (String.ofList cs), rest)
    | '[' :: rest =>
      match skipBlank rest with
      | ']' :: rest => some (.array [], rest)
      | rest => (readItems fuel rest).map fun (items, rest) ↦ (.array items, rest)
    | '{' :: rest =>
      match skipBlank rest with
      | '}' :: rest => some (.object [], rest)
      | rest => (readFields fuel rest).map fun (fields, rest) ↦ (.ofFields fields, rest)
    | s => readNumber s

/-- The items of an array from the next one on, up to the closing bracket. -/
def readItems : Nat → List Char → Option (List Json × List Char)
  | 0, _ => none
  | fuel + 1, s =>
    match readValue fuel s with
    | none => none
    | some (v, rest) =>
      match skipBlank rest with
      | ',' :: rest => (readItems fuel rest).map fun (vs, rest) ↦ (v :: vs, rest)
      | ']' :: rest => some ([v], rest)
      | _ => none

/-- The fields of an object from the next one on, up to the closing brace. -/
def readFields : Nat → List Char → Option (List (String × Json) × List Char)
  | 0, _ => none
  | fuel + 1, s =>
    match skipBlank s with
    | '"' :: rest =>
      match readString rest with
      | none => none
      | some (name, rest) =>
        match skipBlank rest with
        | ':' :: rest =>
          match readValue fuel rest with
          | none => none
          | some (v, rest) =>
            match skipBlank rest with
            | ',' :: rest =>
              (readFields fuel rest).map fun (fs, rest) ↦ ((String.ofList name, v) :: fs, rest)
            | '}' :: rest => some ([(String.ofList name, v)], rest)
            | _ => none
        | _ => none
    | _ => none

end

/-- The value that a text stands for, if it is JSON. -/
def parseChars (s : List Char) : Option Json :=
  match readValue (s.length + 1) s with
  | some (j, rest) => if (skipBlank rest).isEmpty then some j else none
  | none => none

/-- The value that a text stands for, if it is JSON. -/
def parse (text : String) : Option Json := parseChars text.toList

end ToolAccess.Json
