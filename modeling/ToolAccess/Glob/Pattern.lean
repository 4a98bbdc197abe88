import ToolAccess.Glob.Basic

/-!
# Pattern texts

Reading the text of a glob. `?` stands for any character, `*` for any run, `[...]` for one
character of a class and `[!...]` for one outside it. `**` stands for whole path components and
must be a component of its own: it begins the text or follows a `/`, and it ends the text or is
followed by a `/`, which it takes with it. Every other character stands for itself.

A text that cannot be read is refused with the position, in characters, at which it went wrong.
-/

namespace ToolAccess.Glob

/-- What can be wrong with a pattern text. -/
inductive PatternFault where
  /-- Three or more stars in a row. -/
  | starRun
  /-- Two stars that are not a path component of their own. -/
  | partialComponent
  /-- A bracket that opens no class. -/
  | badClass
  deriving DecidableEq, Repr

/-- The text for a fault. -/
def PatternFault.message : PatternFault → String
  | .starRun => "wildcards are either regular `*` or recursive `**`"
  | .partialComponent => "recursive wildcards must form a single path component"
  | .badClass => "invalid range pattern"

/-- A fault and the position, in characters, near which it is. -/
structure PatternError where
  pos : Nat
  fault : PatternFault
  deriving DecidableEq, Repr

/-- The text shown for a pattern that cannot be read. -/
def PatternError.message (e : PatternError) : String :=
  s!"Pattern syntax error near position {e.pos}: {e.fault.message}"

/-- The ranges of a class, from the text between its brackets. A hyphen with a character on
either side makes a range, and every other character is a range of its own. -/
def CharClass.ofChars : List Char → CharClass
  | a :: '-' :: b :: rest => ⟨a, b⟩ :: ofChars rest
  | a :: rest => ⟨a, a⟩ :: ofChars rest
  | [] => []

/-- Cuts a text at its first closing bracket, which is left out. -/
def splitAtBracket : List Char → Option (List Char × List Char)
  | [] => none
  | ']' :: rest => some ([], rest)
  | c :: rest => (splitAtBracket rest).map fun (inside, after) ↦ (c :: inside, after)

theorem splitAtBracket_length {s inside after : List Char}
    (h : splitAtBracket s = some (inside, after)) : after.length < s.length := by
  induction s generalizing inside with
  | nil => simp [splitAtBracket] at h
  | cons c rest ih =>
    rw [splitAtBracket.eq_def] at h
    split at h
    · cases ‹_ = []›
    · simp_all
    · rename_i heq
      obtain ⟨rfl, rfl⟩ := List.cons.inj heq
      simp only [Option.map_eq_some_iff, Prod.exists, Prod.mk.injEq] at h
      obtain ⟨i, a, hia, rfl, rfl⟩ := h
      exact Nat.lt_succ_of_lt (ih hia)

/-- Whether `**` may begin after this character. -/
def beginsComponent : Option Char → Bool
  | none => true
  | some c => c == separator

/-- Adds `anyComponents` to the elements read so far, the latest first. A second one directly
after the first adds nothing, unless the first stands at the very beginning. -/
def pushComponents : List Element → List Element
  | .anyComponents :: e :: es => .anyComponents :: e :: es
  | es => .anyComponents :: es

/-- Reads the rest of a pattern: `pos` characters are behind, the last of them `prev`, and gave
the elements `done`, the latest first. -/
def readElements (pos : Nat) (prev : Option Char) (done : List Element) (text : List Char) :
    Except PatternError (List Element) :=
  match text with
  | [] => .ok done.reverse
  | '?' :: rest => readElements (pos + 1) (some '?') (.anyChar :: done) rest
  | '*' :: '*' :: '*' :: _ => .error ⟨pos + 2, .starRun⟩
  | '*' :: '*' :: rest =>
    if beginsComponent prev then
      match rest with
      | [] => .ok (pushComponents done).reverse
      | c :: rest =>
        if c = separator then
          readElements (pos + 3) (some c) (pushComponents done) rest
        else
          .error ⟨pos + 2, .partialComponent⟩
    else
      .error ⟨pos - 1, .partialComponent⟩
  | '*' :: rest => readElements (pos + 1) (some '*') (.anySequence :: done) rest
  | '[' :: '!' :: c :: rest =>
    match h : splitAtBracket rest with
    | some (inside, after) =>
      readElements (pos + inside.length + 4) (some ']')
        (.without (.ofChars (c :: inside)) :: done) after
    | none => .error ⟨pos, .badClass⟩
  | '[' :: '!' :: [] => .error ⟨pos, .badClass⟩
  | '[' :: c :: rest =>
    match h : splitAtBracket rest with
    | some (inside, after) =>
      readElements (pos + inside.length + 3) (some ']')
        (.within (.ofChars (c :: inside)) :: done) after
    | none => .error ⟨pos, .badClass⟩
  | '[' :: [] => .error ⟨pos, .badClass⟩
  | c :: rest => readElements (pos + 1) (some c) (.literal c :: done) rest
  termination_by text.length
  decreasing_by
    all_goals simp_wf
    any_goals omega
    all_goals
      have shorter := splitAtBracket_length h
      omega

/-- The elements of a pattern text. -/
def parseElements (text : String) : Except PatternError (List Element) :=
  readElements 0 none [] text.toList

end ToolAccess.Glob
