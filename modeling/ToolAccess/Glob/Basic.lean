/-!
# Globs over tool names

A glob is a list of elements, each of which stands for a piece of the name: a literal character,
any one character, one character of a class or outside it, any run of characters, or any run of
whole path components. `Glob.Denotes` says which names a list of elements stands for. The search
that decides it is in `ToolAccess.Glob.Search`, and the reading of a pattern's text in
`ToolAccess.Glob.Pattern`.
-/

namespace ToolAccess.Glob

/-- The characters from the first to the last, both included. A single character is its own
range. -/
structure CharRange where
  first : Char
  last : Char
  deriving DecidableEq, Repr

/-- Whether a character lies in a range. -/
def CharRange.contains (r : CharRange) (c : Char) : Bool := r.first ≤ c && c ≤ r.last

/-- A character class, as the ranges it is made of. -/
abbrev CharClass := List CharRange

/-- Whether a character lies in one of the ranges of a class. -/
def CharClass.contains (cls : CharClass) (c : Char) : Bool := List.any cls (·.contains c)

/-- One element of a glob. -/
inductive Element where
  /-- The character itself. -/
  | literal (c : Char)
  /-- Any one character. -/
  | anyChar
  /-- One character of the class. -/
  | within (cls : CharClass)
  /-- One character outside the class. -/
  | without (cls : CharClass)
  /-- Any run of characters, also the empty one. -/
  | anySequence
  /-- Any run of whole path components, also the empty one. -/
  | anyComponents
  deriving DecidableEq, Repr

/-- Whether an element that stands for exactly one character accepts the given one. The elements
that stand for runs accept none. -/
def Element.accepts : Element → Char → Bool
  | .literal c, d => c == d
  | .anyChar, _ => true
  | .within cls, d => cls.contains d
  | .without cls, d => !cls.contains d
  | .anySequence, _ | .anyComponents, _ => false

/-- The character that separates path components. -/
def separator : Char := '/'

/-- The names that a list of elements stands for: a name is cut into consecutive pieces, one for
each element. The piece of `anyComponents` is empty, or ends with a separator, or is all that is
left of the name. -/
inductive Denotes : List Element → List Char → Prop where
  | nil : Denotes [] []
  | char {e : Element} {c : Char} {es : List Element} {s : List Char} :
      e.accepts c = true → Denotes es s → Denotes (e :: es) (c :: s)
  | sequence {es : List Element} {s : List Char} (piece : List Char) :
      Denotes es s → Denotes (.anySequence :: es) (piece ++ s)
  | noComponents {es : List Element} {s : List Char} :
      Denotes es s → Denotes (.anyComponents :: es) s
  | components {es : List Element} {s : List Char} (piece : List Char) :
      Denotes es s → Denotes (.anyComponents :: es) (piece ++ separator :: s)
  | restOfName {es : List Element} (piece : List Char) :
      Denotes es [] → Denotes (.anyComponents :: es) piece

end ToolAccess.Glob
