/-!
# Blanks, line ends and comments

What may stand between the parts of a TOML document. Each reader takes what it can from the front
of a text and gives back the rest; where something has to be there, it gives nothing if it is not.
-/

namespace ToolAccess.Toml

/-- Whether a character is blank within a line. -/
def isBlank (c : Char) : Bool := c == ' ' || c == '\t'

/-- Whether a character may stand in a comment or a literal string: a tab, or anything but a
control character. -/
def isPlain (c : Char) : Bool := c == '\t' || (32 ≤ c.toNat && c.toNat ≠ 127)

/-- The text behind the blanks at its front. -/
def skipBlank (s : List Char) : List Char := s.dropWhile isBlank

/-- The text behind a line end: a line feed, or a carriage return with one. -/
def readNewline? : List Char → Option (List Char)
  | '\n' :: rest => some rest
  | '\r' :: '\n' :: rest => some rest
  | _ => none

/-- The text behind a comment, if there is one. -/
def skipComment : List Char → List Char
  | '#' :: rest => rest.dropWhile isPlain
  | s => s

/-- The text behind a line end, or nothing left. -/
def readLineEnd? : List Char → Option (List Char)
  | [] => some []
  | s => readNewline? s

/-- The text behind what may end a line: blanks, a comment and the line end. -/
def readTrailing? (s : List Char) : Option (List Char) :=
  readLineEnd? (skipComment (skipBlank s))

/-- The text behind blanks, comments and line ends. A comment must end with a line end. -/
def skipFiller : Nat → List Char → Option (List Char)
  | 0, s => some s
  | fuel + 1, s =>
    match skipBlank s with
    | '#' :: rest => (readNewline? (rest.dropWhile isPlain)).bind (skipFiller fuel)
    | s =>
      match readNewline? s with
      | some rest => skipFiller fuel rest
      | none => some s

end ToolAccess.Toml
