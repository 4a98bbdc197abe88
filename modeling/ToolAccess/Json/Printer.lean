import ToolAccess.Decimal.Shortest
import ToolAccess.Json.Basic

/-!
# Writing JSON

The compact text of a value has no blanks; the indented text puts each item of an array and each
field of an object on a line of its own. In strings only quotes, backslashes and control characters
are escaped. A floating-point number is written with the fewest digits that read back: with a
point as long as that takes at most sixteen digits in front of it and at most five zeros behind it,
and with an exponent otherwise.
-/

namespace ToolAccess.Json

/-- A hexadecimal digit in lower case. -/
def hexDigit (n : Nat) : Char := Nat.digitChar n

/-- How a character is written inside a string. -/
def escapeChar (c : Char) : List Char :=
  match c with
  | '"' => ['\\', '"']
  | '\\' => ['\\', '\\']
  | '\n' => ['\\', 'n']
  | '\r' => ['\\', 'r']
  | '\t' => ['\\', 't']
  | c =>
    if c.toNat = 8 then ['\\', 'b']
    else if c.toNat = 12 then ['\\', 'f']
    else if c.toNat < 32 then
      ['\\', 'u', '0', '0', hexDigit (c.toNat / 16), hexDigit (c.toNat % 16)]
    else [c]

/-- A string in quotes. -/
def quoteChars (s : List Char) : List Char := '"' :: (s.flatMap escapeChar ++ ['"'])

/-- A floating-point number other than zero, without its sign. -/
def decimalChars (d : Shortest.Decimal) : List Char :=
  let point := ((Nat.toDigits 10 d.digits).length : Int) + d.power
  if -5 < point ∧ point ≤ 16 then
    Shortest.positional d ++ if 0 ≤ d.power then ['.', '0'] else []
  else Shortest.scientific d

/-- A floating-point number. Those that are not finite are no JSON and are written as null. -/
def floatChars : Binary64 → List Char
  | .finite negative m e =>
    (if negative then ['-'] else []) ++
      if m = 0 then ['0', '.', '0'] else decimalChars (Shortest.digits m e)
  | .infinite _ | .nan => ['n', 'u', 'l', 'l']

/-- A whole number. -/
def intChars (n : Int) : List Char :=
  if n < 0 then '-' :: Nat.toDigits 10 n.natAbs else Nat.toDigits 10 n.natAbs

mutual

/-- The compact text of a value. -/
def compactChars : Json → List Char
  | .null => ['n', 'u', 'l', 'l']
  | .bool true => ['t', 'r', 'u', 'e']
  | .bool false => ['f', 'a', 'l', 's', 'e']
  | .int n => intChars n
  | .float x => floatChars x
  | .string s => quoteChars s.toList
  | .array [] => ['[', ']']
  | .array (v :: vs) => '[' :: (compactChars v ++ compactItems vs)
  | .object [] => ['{', '}']
  | .object ((k, v) :: fs) =>
    '{' :: (quoteChars k.toList ++ ':' :: (compactChars v ++ compactFields fs))

/-- The items behind the first, each after a comma, and the closing bracket. -/
def compactItems : List Json → List Char
  | [] => [']']
  | v :: vs => ',' :: (compactChars v ++ compactItems vs)

/-- The fields behind the first, each after a comma, and the closing brace. -/
def compactFields : List (String × Json) → List Char
  | [] => ['}']
  | (k, v) :: fs => ',' :: (quoteChars k.toList ++ ':' :: (compactChars v ++ compactFields fs))

end

/-- The compact text of a value. -/
def compact (j : Json) : String := String.ofList j.compactChars

/-- A new line with its indentation. -/
def newLine (depth : Nat) : List Char := '\n' :: List.replicate (2 * depth) ' '

mutual

/-- The indented text of a value that stands at a depth. -/
def indentedChars (depth : Nat) : Json → List Char
  | .array (v :: vs) =>
    '[' :: (newLine (depth + 1) ++ indentedChars (depth + 1) v ++ indentedItems depth vs)
  | .object ((k, v) :: fs) =>
    '{' :: (newLine (depth + 1) ++ quoteChars k.toList ++ ':' :: ' ' ::
      indentedChars (depth + 1) v ++ indentedFields depth fs)
  | .null => ['n', 'u', 'l', 'l']
  | .bool true => ['t', 'r', 'u', 'e']
  | .bool false => ['f', 'a', 'l', 's', 'e']
  | .int n => intChars n
  | .float x => floatChars x
  | .string s => quoteChars s.toList
  | .array [] => ['[', ']']
  | .object [] => ['{', '}']

/-- The items behind the first and the closing bracket. -/
def indentedItems (depth : Nat) : List Json → List Char
  | [] => newLine depth ++ [']']
  | v :: vs =>
    ',' :: (newLine (depth + 1) ++ indentedChars (depth + 1) v ++ indentedItems depth vs)

/-- The fields behind the first and the closing brace. -/
def indentedFields (depth : Nat) : List (String × Json) → List Char
  | [] => newLine depth ++ ['}']
  | (k, v) :: fs =>
    ',' :: (newLine (depth + 1) ++ quoteChars k.toList ++ ':' :: ' ' ::
      indentedChars (depth + 1) v ++ indentedFields depth fs)

end

/-- The indented text of a value. -/
def indented (j : Json) : String := String.ofList (j.indentedChars 0)

end ToolAccess.Json
