import ToolAccess.Text.Digit
import ToolAccess.Toml.Value

/-!
# Numbers

Whole numbers, in base ten with a sign or in base 16, 8 or 2 without one, and floating-point
numbers. Single underscores may stand between digits. A whole number has to fit in 64 bits with a
sign, and a floating-point number must not be too large, although it may be too small.
-/

namespace ToolAccess.Toml

/-- The digits of a class at the front of a text, with single underscores between them left out.
An underscore that no digit follows is refused. -/
def readDigits? (isDigit : Char → Bool) : List Char → Option (List Char × List Char)
  | [] => none
  | c :: rest => if isDigit c then more [c] rest else none
where
  /-- The digits that follow those already read, the latest first. -/
  more (done : List Char) : List Char → Option (List Char × List Char)
    | '_' :: c :: rest => if isDigit c then more (c :: done) rest else none
    | '_' :: [] => none
    | c :: rest => if isDigit c then more (c :: done) rest else some (done.reverse, c :: rest)
    | [] => some (done.reverse, [])

/-- A sign at the front of a text: whether it is a minus, and the rest. -/
def readSign : List Char → Bool × List Char
  | '-' :: rest => (true, rest)
  | '+' :: rest => (false, rest)
  | rest => (false, rest)

/-- The digits of a whole number in base ten; a leading zero stands alone. -/
def readWhole? (s : List Char) : Option (List Char × List Char) :=
  match s with
  | '0' :: rest => some (['0'], rest)
  | s => readDigits? Char.isDigit s

/-- The exponent behind its letter. -/
def readPower? : List Char → Option (Int × List Char)
  | c :: rest =>
    if c = 'e' ∨ c = 'E' then
      let (negative, rest) := readSign rest
      (readDigits? Char.isDigit rest).map fun (ds, rest) ↦
        let n : Int := Text.decimalValue ds
        (if negative then -n else n, rest)
    else none
  | [] => none

/-- A floating-point number that is written with digits. Inside, nothing is returned where the
text is no such number, and a failure where it begins as one and is malformed. -/
def readDecimalFloat? (s : List Char) : Option (Option (Toml × List Char)) :=
  let (negative, s) := readSign s
  match readWhole? s with
  | none => none
  | some (whole, rest) =>
    let number (fraction : List Char) (power : Int) (rest : List Char) :
        Option (Toml × List Char) :=
      match Binary64.ofDecimal negative (Text.decimalValue (whole ++ fraction))
          (power - fraction.length) with
      | .infinite false => none
      | x => some (.float x, rest)
    match rest with
    | '.' :: rest =>
      some <| (readDigits? Char.isDigit rest).bind fun (fraction, rest) ↦
        match rest with
        | 'e' :: _ | 'E' :: _ =>
          (readPower? rest).bind fun (power, rest) ↦ number fraction power rest
        | rest => number fraction 0 rest
    | 'e' :: _ | 'E' :: _ =>
      some <| (readPower? rest).bind fun (power, rest) ↦ number [] power rest
    | _ => none

/-- An infinity or the number that is none. -/
def readSpecialFloat? (s : List Char) : Option (Toml × List Char) :=
  let (negative, rest) := readSign s
  match rest with
  | 'i' :: 'n' :: 'f' :: rest => some (.float (.infinite negative), rest)
  | 'n' :: 'a' :: 'n' :: rest => some (.float .nan, rest)
  | _ => none

/-- A whole number in the range of 64 bits with a sign. -/
def boundedInteger? (n : Int) (rest : List Char) : Option (Toml × List Char) :=
  if Int64.minValue.toInt ≤ n ∧ n ≤ Int64.maxValue.toInt then some (.integer n, rest) else none

/-- The value of digits in a base. -/
def valueInBase (base : Nat) (ds : List Char) : Nat :=
  ds.foldl (fun n c ↦ n * base + (Text.hexValue? c).getD 0) 0

/-- A whole number. -/
def readInteger? (s : List Char) : Option (Toml × List Char) :=
  let based (base : Nat) (rest : List Char) : Option (Toml × List Char) :=
    (readDigits? (fun c ↦ (Text.hexValue? c).any (· < base)) rest).bind fun (ds, rest) ↦
      boundedInteger? (valueInBase base ds) rest
  match s with
  | '0' :: 'x' :: rest => based 16 rest
  | '0' :: 'o' :: rest => based 8 rest
  | '0' :: 'b' :: rest => based 2 rest
  | s =>
    let (negative, rest) := readSign s
    (readWhole? rest).bind fun (ds, rest) ↦
      let n : Int := Text.decimalValue ds
      boundedInteger? (if negative then -n else n) rest

/-- A number: floating-point if it can be read as such, and whole otherwise. -/
def readNumber? (s : List Char) : Option (Toml × List Char) :=
  match readDecimalFloat? s with
  | some r => r
  | none => (readSpecialFloat? s).or (readInteger? s)

end ToolAccess.Toml
