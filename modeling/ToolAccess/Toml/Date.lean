import ToolAccess.Text.Digit
import ToolAccess.Toml.Value

/-!
# Dates and times

A date, a time of day, or both with or without an offset. A date must exist in the calendar. The
value is kept as its canonical text: a `T` between date and time, fractions of a second to nine
places without zeros at the end, and `Z` or a signed offset.
-/

namespace ToolAccess.Toml

/-- A number of exactly so many digits, between two bounds. -/
def readFixed? (count low high : Nat) (s : List Char) : Option (Nat × List Char) :=
  let ds := s.take count
  let n := Text.decimalValue ds
  if ds.length = count ∧ ds.all Char.isDigit ∧ low ≤ n ∧ n ≤ high then some (n, s.drop count)
  else none

/-- The text behind a character that has to come first. -/
def readChar? (c : Char) : List Char → Option (List Char)
  | d :: rest => if c = d then some rest else none
  | [] => none

/-- A number in at least so many digits. -/
def fixedText (count n : Nat) : String :=
  let ds := Nat.toDigits 10 n
  String.ofList (List.replicate (count - ds.length) '0' ++ ds)

/-- The number of days of a month. -/
def daysIn (year month : Nat) : Nat :=
  if month = 2 then
    if year % 4 = 0 ∧ (year % 100 ≠ 0 ∨ year % 400 = 0) then 29 else 28
  else if month ∈ [4, 6, 9, 11] then 30
  else 31

/-- A date that exists, as text. Nothing is returned outside where the text does not begin like a
date, and nothing inside where it does and is none. -/
def readDate? (s : List Char) : Option (Option (String × List Char)) :=
  match (readFixed? 4 0 9999 s).bind fun (year, rest) ↦ (readChar? '-' rest).map (year, ·) with
  | none => none
  | some (year, rest) => some do
    let (month, rest) ← readFixed? 2 1 12 rest
    let rest ← readChar? '-' rest
    let (day, rest) ← readFixed? 2 1 (daysIn year month) rest
    some (fixedText 4 year ++ "-" ++ fixedText 2 month ++ "-" ++ fixedText 2 day, rest)

/-- The fraction of a second, as text with its point; empty when it is zero. -/
def fractionText (ds : List Char) : String :=
  let ds := ((ds.take 9).reverse.dropWhile (· == '0')).reverse
  if ds.isEmpty then "" else "." ++ String.ofList ds

/-- A time of day, as text. Nothing is returned outside where the text does not begin like a
time, and nothing inside where it does and is none. -/
def readTime? (s : List Char) : Option (Option (String × List Char)) :=
  match (readFixed? 2 0 23 s).bind fun (hour, rest) ↦ (readChar? ':' rest).map (hour, ·) with
  | none => none
  | some (hour, rest) => some do
    let (minute, rest) ← readFixed? 2 0 59 rest
    let rest ← readChar? ':' rest
    let (second, rest) ← readFixed? 2 0 60 rest
    let whole := fixedText 2 hour ++ ":" ++ fixedText 2 minute ++ ":" ++ fixedText 2 second
    match rest with
    | '.' :: digits =>
      match digits.takeWhile Char.isDigit with
      | [] => some (whole, rest)
      | ds => some (whole ++ fractionText ds, digits.dropWhile Char.isDigit)
    | rest => some (whole, rest)

/-- The offset behind a time, as text; empty where there is none. -/
def readOffset? : List Char → Option (String × List Char)
  | c :: rest =>
    if c = 'Z' ∨ c = 'z' then some ("Z", rest)
    else if c = '+' ∨ c = '-' then do
      let (hours, rest) ← readFixed? 2 0 23 rest
      let rest ← readChar? ':' rest
      let (minutes, rest) ← readFixed? 2 0 59 rest
      let sign := if c = '-' ∧ 0 < hours * 60 + minutes then "-" else "+"
      some (sign ++ fixedText 2 hours ++ ":" ++ fixedText 2 minutes, rest)
    else some ("", c :: rest)
  | [] => some ("", [])

/-- A date, a time or both. Nothing is returned outside where the text begins like neither, and
nothing inside where it does and is none. -/
def readDatetime? (s : List Char) : Option (Option (Toml × List Char)) :=
  match readDate? s with
  | some none => some none
  | some (some (date, rest)) =>
    match rest with
    | c :: after =>
      if c = 'T' ∨ c = 't' ∨ c = ' ' then
        match readTime? after with
        | none => some (some (.datetime date, rest))
        | some none => some none
        | some (some (time, rest)) =>
          some <| (readOffset? rest).map fun (offset, rest) ↦
            (.datetime (date ++ "T" ++ time ++ offset), rest)
      else some (some (.datetime date, rest))
    | [] => some (some (.datetime date, []))
  | none =>
    (readTime? s).map fun t ↦ t.map fun (time, rest) ↦ (.datetime time, rest)

end ToolAccess.Toml
