import ToolAccess.Glob.Pattern

/-!
# Matching names

Whether a name is among those a glob stands for, by a search that tries the pieces of each run
from the shortest on. The search tells two kinds of failure apart. When a later element ran out of
characters, no longer piece can help, and the search stops at once; any other failure lets it go
on with a longer piece.
-/

namespace ToolAccess

namespace Glob

/-- How a search ends. -/
inductive Outcome where
  /-- The whole name is matched. -/
  | hit
  /-- This way of cutting the name fails, and a longer piece may succeed. -/
  | miss
  /-- An element found the name used up, and longer pieces leave even less. -/
  | exhausted
  deriving DecidableEq, Repr

/-- Tries `next` on the name behind each longer piece in turn, where a piece may end after a
character that `ends` accepts or at the end of the name, until one does not miss. -/
def growPiece (next : List Char → Outcome) (ends : Char → Bool) : List Char → Outcome
  | [] => next []
  | c :: s =>
    if ends c then
      match next s with
      | .miss => growPiece next ends s
      | found => found
    else
      growPiece next ends s

/-- Tries `next` behind the empty piece, then behind the longer ones. -/
def tryPieces (next : List Char → Outcome) (ends : Char → Bool) (s : List Char) : Outcome :=
  match next s with
  | .miss => growPiece next ends s
  | found => found

/-- Searches for a way to cut the name into the pieces of the elements. -/
def search : List Element → List Char → Outcome
  | [], [] => .hit
  | [], _ :: _ => .miss
  | .anySequence :: es, s => tryPieces (search es) (fun _ ↦ true) s
  | .anyComponents :: es, s => tryPieces (search es) (· == separator) s
  | _ :: _, [] => .exhausted
  | e :: es, c :: s => if e.accepts c then search es s else .miss

end Glob

/-- A name pattern: its text, and the elements that the text was read into. -/
structure NamePattern where
  /-- The pattern as written. -/
  text : String
  /-- What it stands for. -/
  elements : List Glob.Element
  /-- The elements are those of the text. -/
  elements_eq : Glob.parseElements text = .ok elements

namespace NamePattern

/-- Reads a pattern text. -/
def parse (text : String) : Except Glob.PatternError NamePattern :=
  match h : Glob.parseElements text with
  | .ok elements => .ok ⟨text, elements, h⟩
  | .error e => .error e

/-- Whether the pattern matches a name. Upper and lower case differ, and neither `/` nor a
leading dot is special. -/
def accepts (p : NamePattern) (name : String) : Bool :=
  Glob.search p.elements name.toList == .hit

/-- Patterns are equal when their texts are. -/
theorem ext {p q : NamePattern} (h : p.text = q.text) : p = q := by
  obtain ⟨t, es, he⟩ := p
  obtain ⟨u, fs, hf⟩ := q
  cases h
  have : es = fs := by simpa [he] using hf
  cases this
  rfl

instance : DecidableEq NamePattern := fun p q ↦
  decidable_of_iff (p.text = q.text) ⟨ext, fun h ↦ h ▸ rfl⟩

end NamePattern

end ToolAccess
