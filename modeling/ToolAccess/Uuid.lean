import ToolAccess.Text.Digit

/-!
# Identifiers

Identifiers of 128 bits, written as 32 hexadecimal digits in five groups. They are read from that
form and from three others: without hyphens, in braces, and as a URN; upper and lower case are
read alike.
-/

namespace ToolAccess

/-- An identifier of 128 bits. -/
structure Uuid where
  bits : BitVec 128
  deriving DecidableEq, Repr, Inhabited

namespace Uuid

/-- The identifier whose bits are all zero. -/
def nil : Uuid := ⟨0⟩

/-- The identifier with the given number. -/
def ofNat (n : Nat) : Uuid := ⟨BitVec.ofNat 128 n⟩

/-- The lowest `count` hexadecimal digits of a number. -/
def hexDigits (n : Nat) : Nat → List Char
  | 0 => []
  | count + 1 => hexDigits (n / 16) count ++ [Nat.digitChar (n % 16)]

/-- The written form: groups of 8, 4, 4, 4 and 12 digits. -/
def toChars (u : Uuid) : List Char :=
  let ds := hexDigits u.bits.toNat 32
  ds.take 8 ++ '-' :: (ds.drop 8).take 4 ++ '-' :: (ds.drop 12).take 4 ++ '-' ::
    (ds.drop 16).take 4 ++ '-' :: ds.drop 20

/-- The written form. -/
def toText (u : Uuid) : String := String.ofList u.toChars

/-- The identifier of 32 hexadecimal digits. -/
def ofDigits? (ds : List Char) : Option Uuid :=
  if ds.length = 32 then
    (Text.hexNumber? ds).map ofNat
  else none

/-- The identifier of five groups of digits. -/
def ofGroups? (s : List Char) : Option Uuid :=
  if s.length = 36 ∧ [8, 13, 18, 23].all (fun i ↦ s[i]? == some '-') then
    ofDigits? (s.take 8 ++ (s.drop 9).take 4 ++ (s.drop 14).take 4 ++ (s.drop 19).take 4 ++
      s.drop 24)
  else none

/-- The text in front of which a URN names an identifier. -/
def urnScheme : List Char := ['u', 'r', 'n', ':', 'u', 'u', 'i', 'd', ':']

/-- Reads an identifier in any of its forms. -/
def parse? (text : String) : Option Uuid :=
  let s := text.toList
  match s with
  | '{' :: rest => if rest.getLast? = some '}' then ofGroups? rest.dropLast else none
  | _ =>
    if urnScheme.isPrefixOf s then ofGroups? (s.drop urnScheme.length)
    else ofDigits? s <|> ofGroups? s

end Uuid

end ToolAccess
