import ToolAccess.Text.Digit
import ToolAccess.Toml.Blank

/-!
# Strings and keys

The four forms of TOML strings, and keys. Between quotation marks a backslash begins an escape;
between apostrophes it does not. Three marks in a row open a string of several lines, whose first
line end does not count when it comes at once, and whose line ends are read as line feeds.
-/

namespace ToolAccess.Toml

/-- The mark of strings with escapes. -/
def quotationMark : Char := '"'

/-- The mark of strings without escapes. -/
def apostrophe : Char := Char.ofNat 39

/-- The character of an escape; the backslash is behind. -/
def readEscape? : List Char → Option (Char × List Char)
  | 'b' :: rest => some (Char.ofNat 8, rest)
  | 'f' :: rest => some (Char.ofNat 12, rest)
  | 'n' :: rest => some ('\n', rest)
  | 'r' :: rest => some ('\r', rest)
  | 't' :: rest => some ('\t', rest)
  | '"' :: rest => some ('"', rest)
  | '\\' :: rest => some ('\\', rest)
  | 'u' :: rest => readCode 4 rest
  | 'U' :: rest => readCode 8 rest
  | _ => none
where
  /-- The character whose code point is written with this many digits. -/
  readCode (count : Nat) (s : List Char) : Option (Char × List Char) :=
    if s.length < count then none
    else ((Text.hexNumber? (s.take count)).bind Text.charOfNat?).map (·, s.drop count)

/-- A string of one line up to the mark that closes it; the opening mark is behind. -/
def readLine? (mark : Char) : Nat → List Char → Option (List Char × List Char)
  | 0, _ => none
  | _, [] => none
  | fuel + 1, c :: rest =>
    if c = mark then some ([], rest)
    else if c = '\\' ∧ mark = quotationMark then
      (readEscape? rest).bind fun (e, rest) ↦
        (readLine? mark fuel rest).map fun (cs, rest) ↦ (e :: cs, rest)
    else if isPlain c then
      (readLine? mark fuel rest).map fun (cs, rest) ↦ (c :: cs, rest)
    else none

/-- The text behind blanks and line ends of which the first is a line end, as they follow a
backslash that continues a line. -/
def readContinuation? (s : List Char) : Option (List Char) :=
  (readNewline? (skipBlank s)).bind fun rest ↦ skipLines rest.length rest
where
  /-- The text behind blanks and line ends. -/
  skipLines : Nat → List Char → Option (List Char)
    | 0, s => some s
    | fuel + 1, s =>
      match readNewline? (skipBlank s) with
      | some rest => skipLines fuel rest
      | none => some (skipBlank s)

/-- A string of several lines up to the three marks that close it; the opening marks are behind.
One or two more marks in front of those that close it belong to the string. -/
def readLines? (mark : Char) : Nat → List Char → Option (List Char × List Char)
  | 0, _ => none
  | _, [] => none
  | fuel + 1, c :: rest =>
    if c = mark then
      let run := 1 + (rest.takeWhile (· == mark)).length
      if 3 ≤ run then
        let extra := min 2 (run - 3)
        some (List.replicate extra mark, (c :: rest).drop (extra + 3))
      else (readLines? mark fuel rest).map fun (cs, rest) ↦ (c :: cs, rest)
    else if c = '\\' ∧ mark = quotationMark then
      match readEscape? rest with
      | some (e, rest) => (readLines? mark fuel rest).map fun (cs, rest) ↦ (e :: cs, rest)
      | none => (readContinuation? rest).bind (readLines? mark fuel)
    else if isPlain c then
      (readLines? mark fuel rest).map fun (cs, rest) ↦ (c :: cs, rest)
    else
      (readNewline? (c :: rest)).bind fun rest ↦
        (readLines? mark fuel rest).map fun (cs, rest) ↦ ('\n' :: cs, rest)

/-- A string with the given mark, of one line or of several. -/
def readMarked? (mark : Char) (s : List Char) : Option (List Char × List Char) :=
  if s.take 3 = [mark, mark, mark] then
    let body := s.drop 3
    let body := (readNewline? body).getD body
    readLines? mark (body.length + 1) body
  else if s.take 1 = [mark] then readLine? mark s.length (s.drop 1)
  else none

/-- A string in any of the four forms. -/
def readString? (s : List Char) : Option (String × List Char) :=
  ((readMarked? quotationMark s).or (readMarked? apostrophe s)).map fun (cs, rest) ↦
    (String.ofList cs, rest)

/-! ### Keys -/

/-- Whether a character may stand in a key without marks. -/
def isBare (c : Char) : Bool :=
  c.isAlphanum || c == '-' || c == '_'

/-- One part of a key: without marks, or a string of one line. -/
def readKeyPart? (s : List Char) : Option (String × List Char) :=
  match s with
  | [] => none
  | c :: rest =>
    if c = quotationMark ∨ c = apostrophe then
      (readLine? c (rest.length + 1) rest).map fun (cs, rest) ↦ (String.ofList cs, rest)
    else if isBare c then some (String.ofList (s.takeWhile isBare), s.dropWhile isBare)
    else none

/-- A key: its parts, with points between them and blanks around each. -/
def readKey? : Nat → List Char → Option (List String × List Char)
  | 0, _ => none
  | fuel + 1, s =>
    match readKeyPart? (skipBlank s) with
    | none => none
    | some (part, rest) =>
      match skipBlank rest with
      | '.' :: rest => (readKey? fuel rest).map fun (parts, rest) ↦ (part :: parts, rest)
      | rest => some ([part], rest)

/-- The number of parts of a key, and of levels of nesting, that is too many. -/
def depthLimit : Nat := 80

/-- A key that is not too long: the parts in front of the last, and the last. -/
def readDottedKey? (s : List Char) : Option ((List String × String) × List Char) :=
  match readKey? depthLimit s with
  | some (parts, rest) =>
    if depthLimit ≤ parts.length then none
    else parts.getLast?.map fun last ↦ ((parts.dropLast, last), rest)
  | none => none

end ToolAccess.Toml
