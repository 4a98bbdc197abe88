import ToolAccess.Files.Basic

/-!
# Directory trees

A directory tree as a value: the files and directories below the root, each at the list of names
that leads to it. A path is followed piece by piece. An empty piece and `.` stay in a directory,
`..` goes up, and any other piece has to be a name in the directory reached so far.
-/

namespace ToolAccess

/-- A file or a directory. -/
inductive FileNode where
  /-- A file, with its text if its bytes are one. -/
  | file (content : Option String)
  | directory
  deriving DecidableEq, Repr

/-- The names that lead from the root to a place. -/
abbrev FilePlace := List String

/-- Files and directories. The root is a directory without being listed. -/
structure FileTree where
  nodes : List (FilePlace × FileNode)
  deriving Inhabited

/-- Where a path leads. -/
inductive FileTarget where
  /-- To something that exists. -/
  | there (place : FilePlace) (node : FileNode)
  /-- To a new name in a directory that exists, perhaps with a slash behind it. -/
  | new (place : FilePlace) (slash : Bool)

namespace FileTree

/-- The longest name of a file, in bytes. -/
def nameLimit : Nat := 255

/-- The least length, in bytes, at which a path is too long. -/
def pathLimit : Nat := 4096

/-- What is at a place. -/
def node? (t : FileTree) (place : FilePlace) : Option FileNode :=
  if place.isEmpty then some .directory else t.nodes.lookup place

/-- Puts a file or directory at a place. -/
def put (t : FileTree) (place : FilePlace) (node : FileNode) : FileTree :=
  ⟨(place, node) :: t.nodes.filter (·.1 != place)⟩

/-- Puts a file or directory at a place, and directories above it. -/
def putDeep (t : FileTree) (place : FilePlace) (node : FileNode) : FileTree :=
  let above := (List.range place.length).map fun n ↦ place.take n
  (above.foldl (fun t p ↦ if (t.node? p).isSome then t else t.put p .directory) t).put place node

/-- Follows the pieces of a path from a place. -/
def follow (t : FileTree) (place : FilePlace) (node : FileNode) :
    List String → Except FileError FileTarget
  | [] => .ok (.there place node)
  | piece :: rest =>
    match node with
    | .file _ => .error .notDirectory
    | .directory =>
      if Path.isIdle piece then t.follow place .directory rest
      else if piece = ".." then t.follow place.dropLast .directory rest
      else if nameLimit < piece.utf8ByteSize then .error .nameTooLong
      else
        match t.node? (place ++ [piece]) with
        | some node => t.follow (place ++ [piece]) node rest
        | none =>
          if rest.all (·.isEmpty) then .ok (.new (place ++ [piece]) !rest.isEmpty)
          else .error .missing

/-- Where a path leads, seen from a working directory. -/
def target (t : FileTree) (directory p : Path) : Except FileError FileTarget :=
  if '\x00' ∈ p.chars then .error .nulInName
  else if p.text.isEmpty then .error .missing
  else if pathLimit ≤ p.text.utf8ByteSize then .error .nameTooLong
  else t.follow [] .directory (directory.join p).pieces

/-- What exists at a path. -/
def find (t : FileTree) (directory p : Path) : Except FileError (FilePlace × FileNode) := do
  match ← t.target directory p with
  | .there place node => .ok (place, node)
  | .new .. => .error .missing

/-- Whether something exists at a path. -/
def has (t : FileTree) (directory p : Path) : Bool := (t.find directory p).isOk

/-- The text of a file. -/
def read (t : FileTree) (directory p : Path) : Except FileError String := do
  match (← t.find directory p).2 with
  | .file (some text) => .ok text
  | .file none => .error .notText
  | .directory => .error .isDirectory

/-- The names in a directory. -/
def list (t : FileTree) (directory p : Path) : Except FileError (List String) := do
  match ← t.find directory p with
  | (_, .file _) => .error .notDirectory
  | (place, .directory) =>
    .ok <| t.nodes.filterMap fun n ↦ if n.1.dropLast = place then n.1.getLast? else none

/-- The tree as something to ask for files, seen from a working directory. -/
def view (t : FileTree) (directory : Path) : FileView := ⟨t.read directory, t.list directory⟩

/-! ### Changes -/

/-- Makes a directory. -/
def makeDirectory (t : FileTree) (directory p : Path) : Except FileError FileTree := do
  match ← t.target directory p with
  | .there .. => .error .alreadyThere
  | .new place _ => .ok (t.put place .directory)

/-- Whether a path leads to a directory. -/
def isDirectory (t : FileTree) (directory p : Path) : Bool :=
  match t.find directory p with
  | .ok (_, .directory) => true
  | _ => false

/-- Makes a directory unless it is there: the tree afterwards. -/
def ensureDirectory (t : FileTree) (directory p : Path) : Except FileError FileTree :=
  match t.makeDirectory directory p with
  | .ok t => .ok t
  | .error e => if t.isDirectory directory p then .ok t else .error e

/-- Makes a directory and those above it, at most `depth` of them. What was made before a failure
stays. -/
def makeDirectoriesWithin (directory : Path) : Nat → Path → FileTree → FileTree × Option FileError
  | 0, _, t => (t, some .missing)
  | depth + 1, p, t =>
    if p.text.isEmpty then (t, none)
    else
      match t.makeDirectory directory p with
      | .ok t => (t, none)
      | .error .missing =>
        match p.parent? with
        | none => (t, some .missing)
        | some above =>
          match makeDirectoriesWithin directory depth above t with
          | (t, some e) => (t, some e)
          | (t, none) =>
            match t.ensureDirectory directory p with
            | .ok t => (t, none)
            | .error e => (t, some e)
      | .error e => (t, if t.isDirectory directory p then none else some e)

/-- Makes a directory and those above it that are missing. -/
def makeDirectories (t : FileTree) (directory p : Path) : FileTree × Option FileError :=
  makeDirectoriesWithin directory (p.chars.length + 2) p t

/-- Opens a file to write at its end, and makes it if it is missing. -/
def openForAppending (t : FileTree) (directory p : Path) : Except FileError FileTree := do
  match ← t.target directory p with
  | .there _ (.file _) => .ok t
  | .there _ .directory => .error .isDirectory
  | .new _ true => .error .isDirectory
  | .new place false => .ok (t.put place (.file (some "")))

end FileTree

end ToolAccess
