import ToolAccess.Text.Split

/-!
# Paths

A path is a text whose pieces stand between slashes. Joining puts a relative path behind a base
and leaves both texts as they are: nothing is normalised, and an absolute path replaces the base.
-/

namespace ToolAccess

/-- The path of a file or directory. -/
structure Path where
  text : String
  deriving DecidableEq, Repr, Inhabited

namespace Path

/-- The path without any text. -/
def empty : Path := ⟨""⟩

/-- The characters of the path. -/
def chars (p : Path) : List Char := p.text.toList

/-- Whether the path starts at the root. -/
def isAbsolute (p : Path) : Bool := p.chars.head? == some '/'

/-- Whether a slash has to be put between the path and what follows it. -/
def needsSlash (p : Path) : Bool := p.chars.getLast?.any (· != '/')

/-- The path seen from a base directory. -/
def join (base p : Path) : Path :=
  if p.isAbsolute then p
  else if base.needsSlash then ⟨base.text ++ "/" ++ p.text⟩
  else ⟨base.text ++ p.text⟩

/-- The texts between the slashes of the path. -/
def pieces (p : Path) : List String := Text.piecesOf '/' p.text

/-- Whether a piece names nothing: it is empty, or it stands for the directory itself. -/
def isIdle (piece : String) : Bool := piece.isEmpty || piece == "."

/-- Pieces without the idle ones at their end. -/
def trimIdle (pieces : List String) : List String := (pieces.reverse.dropWhile isIdle).reverse

/-- What every prefix of the path starts with, and the pieces behind it. -/
def anchored (p : Path) : String × List String :=
  match p.pieces with
  | "" :: rest => if p.isAbsolute then ("/", rest) else ("", "" :: rest)
  | "." :: rest => ("./", rest)
  | pieces => ("", pieces)

/-- The directory that holds the last piece that names something. A path in which no piece names
anything has none. -/
def parent? (p : Path) : Option Path :=
  let (anchor, pieces) := p.anchored
  match trimIdle pieces with
  | [] => if anchor = "./" then some empty else none
  | named =>
    match trimIdle named.dropLast with
    | [] => some ⟨if anchor = "./" then "." else anchor⟩
    | above => some ⟨anchor ++ "/".intercalate above⟩

end Path

end ToolAccess
