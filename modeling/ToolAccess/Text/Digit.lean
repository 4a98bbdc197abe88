/-!
# Digits

The decimal and hexadecimal digits of ASCII, and the numbers they spell.
-/

namespace ToolAccess.Text

/-- The value of a decimal digit. -/
def digitValue (c : Char) : Nat := c.toNat - 48

/-- The number that decimal digits spell. -/
def decimalValue (ds : List Char) : Nat := ds.foldl (fun n c ↦ n * 10 + digitValue c) 0

/-- The number that one or more decimal digits spell. -/
def digits? (s : List Char) : Option Nat :=
  if s.isEmpty || !s.all Char.isDigit then none else some (decimalValue s)

/-- A sign, if there is one, and what follows it. A sign is plus or, if negative numbers are
wanted, minus; true stands for minus. -/
def splitSign (allowsMinus : Bool) : List Char → Bool × List Char
  | '+' :: s => (false, s)
  | '-' :: s => if allowsMinus then (true, s) else (false, '-' :: s)
  | s => (false, s)

/-- The value of a hexadecimal digit, in upper or lower case. -/
def hexValue? (c : Char) : Option Nat :=
  if c.isDigit then some (c.toNat - 48)
  else if 'a' ≤ c && c ≤ 'f' then some (c.toNat - 87)
  else if 'A' ≤ c && c ≤ 'F' then some (c.toNat - 55)
  else none

/-- The number that hexadecimal digits spell; nothing if one of them is none. -/
def hexNumber? (ds : List Char) : Option Nat :=
  ds.foldlM (fun n c ↦ (hexValue? c).map (n * 16 + ·)) 0

/-- The character with a code point, if there is one. -/
def charOfNat? (n : Nat) : Option Char :=
  if h : n.isValidChar then some (Char.ofNatAux n h) else none

end ToolAccess.Text
