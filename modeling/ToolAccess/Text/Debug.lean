import ToolAccess.Text.Unseen

/-!
# Quoting for messages

A string inside a message stands in quotes, with the characters that cannot be seen written as
escapes.
-/

namespace ToolAccess.Text

/-- How a character is written inside a quoted string. -/
def debugChar (c : Char) : List Char :=
  match c with
  | '"' => ['\\', '"']
  | '\\' => ['\\', '\\']
  | '\n' => ['\\', 'n']
  | '\r' => ['\\', 'r']
  | '\t' => ['\\', 't']
  | c =>
    if c.toNat = 0 then ['\\', '0']
    else if !isUnseen c then [c]
    else '\\' :: 'u' :: '{' :: (Nat.toDigits 16 c.toNat ++ ['}'])

/-- A string in quotes, with escapes. -/
def debugQuote (s : String) : String :=
  String.ofList ('"' :: (s.toList.flatMap debugChar ++ ['"']))

end ToolAccess.Text
