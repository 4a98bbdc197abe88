import ToolAccess.Toml.Date
import ToolAccess.Toml.Number
import ToolAccess.Toml.Text
import ToolAccess.Toml.Tree

/-!
# Reading TOML

Values, and whole documents line by line. A document is read as a whole or not at all; what is
wrong with one that is no TOML is not told.
-/

namespace ToolAccess.Toml

/-- The table of the pairs of a table written as a value. -/
def tableOfPairs? (pairs : List ((List String × String) × Toml)) : Option Toml :=
  (pairs.foldlM (fun entries p ↦ setKey? p.1.1 p.1.2 p.2 entries) ([] : Entries)).map fun entries ↦
    .table (entriesToToml entries)

mutual

/-- A value at the front of a text. `depth` counts the arrays and tables around it. -/
def readValue? (depth : Nat) : Nat → List Char → Option (Toml × List Char)
  | 0, _ => none
  | fuel + 1, s =>
    match s with
    | [] => none
    | c :: rest =>
      if c = quotationMark ∨ c = apostrophe then
        (readString? s).map fun (text, rest) ↦ (.string text, rest)
      else if c = '[' then
        if depthLimit ≤ depth + 1 then none
        else (readItems? (depth + 1) fuel rest).map fun (items, rest) ↦ (.array items, rest)
      else if c = '{' then
        if depthLimit ≤ depth + 1 then none
        else
          match skipBlank rest with
          | '}' :: rest => some (.table [], rest)
          | rest =>
            (readPairs? (depth + 1) fuel rest).bind fun (pairs, rest) ↦
              (tableOfPairs? pairs).map (·, rest)
      else if c = '+' ∨ c = '-' ∨ c.isDigit then
        match readDatetime? s with
        | some r => r
        | none => readNumber? s
      else
        match s with
        | 't' :: 'r' :: 'u' :: 'e' :: rest => some (.boolean true, rest)
        | 'f' :: 'a' :: 'l' :: 's' :: 'e' :: rest => some (.boolean false, rest)
        | s => readSpecialFloat? s

/-- The items of an array up to the closing bracket, which may follow a comma. -/
def readItems? (depth : Nat) : Nat → List Char → Option (List Toml × List Char)
  | 0, _ => none
  | fuel + 1, s =>
    match skipFiller (s.length + 1) s with
    | none => none
    | some (']' :: rest) => some ([], rest)
    | some s =>
      match readValue? depth fuel s with
      | none => none
      | some (v, rest) =>
        match skipFiller (rest.length + 1) rest with
        | some (',' :: rest) =>
          (readItems? depth fuel rest).map fun (vs, rest) ↦ (v :: vs, rest)
        | some (']' :: rest) => some ([v], rest)
        | _ => none

/-- The pairs of a table written as a value, up to the closing brace, which may not follow a
comma. -/
def readPairs? (depth : Nat) : Nat → List Char →
    Option (List ((List String × String) × Toml) × List Char)
  | 0, _ => none
  | fuel + 1, s =>
    match readDottedKey? s with
    | some (key, '=' :: rest) =>
      match readValue? depth fuel (skipBlank rest) with
      | none => none
      | some (v, rest) =>
        match skipBlank rest with
        | ',' :: rest =>
          (readPairs? depth fuel rest).map fun (pairs, rest) ↦ ((key, v) :: pairs, rest)
        | '}' :: rest => some ([(key, v)], rest)
        | _ => none
    | _ => none

end

/-- One line of a document: what it does to the draft, and the text behind it. -/
def readLineInto? (d : Draft) (s : List Char) : Option (Draft × List Char) :=
  match s with
  | '#' :: _ => (readLineEnd? (skipComment s)).map (d, ·)
  | '\n' :: _ | '\r' :: _ => (readNewline? s).map (d, ·)
  | '[' :: '[' :: rest =>
    match readDottedKey? rest with
    | some ((path, key), ']' :: ']' :: rest) => do
      let rest ← readTrailing? rest
      return (← d.beginElement? path key, rest)
    | _ => none
  | '[' :: rest =>
    match readDottedKey? rest with
    | some ((path, key), ']' :: rest) => do
      let rest ← readTrailing? rest
      return (← d.beginTable? path key, rest)
    | _ => none
  | s =>
    match readDottedKey? s with
    | some ((path, key), '=' :: rest) => do
      let (v, rest) ← readValue? 0 (rest.length + 1) (skipBlank rest)
      let rest ← readTrailing? rest
      return (← d.set? path key v, rest)
    | _ => none

/-- The lines of a document from the next one on. Each takes at least one character. -/
def readLines : Nat → Draft → List Char → Option Draft
  | fuel, d, s =>
    match skipBlank s with
    | [] => some d
    | s =>
      match fuel with
      | 0 => none
      | fuel + 1 => (readLineInto? d s).bind fun (d, rest) ↦ readLines fuel d rest

/-- The text without the byte order mark that it may begin with. -/
def dropMark : List Char → List Char
  | c :: rest => if c.toNat = 0xFEFF then rest else c :: rest
  | [] => []

/-- The entries of a document, if it is TOML. -/
def parse? (text : String) : Option (List (String × Toml)) := do
  let s := dropMark text.toList
  let d ← readLines s.length .blank s
  return entriesToToml (← d.finish?)

end ToolAccess.Toml
