import ToolAccess.Files.Path

/-!
# Asking for files

Whatever reads configuration asks for two things: the text of a file and the names in a directory.
`FileView` is what answers, a directory tree held in memory or a snapshot of a disk.
-/

namespace ToolAccess

/-- Why a file cannot be had. -/
inductive FileError where
  | missing
  | alreadyThere
  | notDirectory
  | isDirectory
  | nameTooLong
  /-- The bytes of the file are no text. -/
  | notText
  /-- The path has a NUL character. -/
  | nulInName
  /-- A failure with a text and a number of its own. -/
  | system (text : String) (code : Nat)
  deriving DecidableEq, Repr

/-- The text shown for a failure. -/
def FileError.message : FileError → String
  | .missing => "No such file or directory (os error 2)"
  | .alreadyThere => "File exists (os error 17)"
  | .notDirectory => "Not a directory (os error 20)"
  | .isDirectory => "Is a directory (os error 21)"
  | .nameTooLong => "File name too long (os error 36)"
  | .notText => "stream did not contain valid UTF-8"
  | .nulInName => "file name contained an unexpected NUL byte"
  | .system text code => text ++ s!" (os error {code})"

/-- What can be asked about files. -/
structure FileView where
  /-- The text of a file. -/
  read : Path → Except FileError String
  /-- The names in a directory, in no particular order. -/
  list : Path → Except FileError (List String)

/-- What was found out about files beforehand; nothing else exists. -/
def FileView.ofSnapshot (texts : List (Path × Except FileError String))
    (names : List (Path × Except FileError (List String))) : FileView where
  read path := (texts.lookup path).getD (.error .missing)
  list path := (names.lookup path).getD (.error .missing)

end ToolAccess
