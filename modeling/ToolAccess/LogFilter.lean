import ToolAccess.Event
import ToolAccess.Json.Printer
import ToolAccess.Text.Digit
import ToolAccess.Text.Split

/-!
# Filters for logs

A filter is a list of directives between commas. A directive is a level (`warn`), a target
(`toolgate::policy`) or both with an equality sign between them. It concerns the events whose
target starts with its own, and of the directives that concern an event the one with the longest
target says which levels are kept. A filter that cannot be read is replaced by the default one.
-/

namespace ToolAccess

/-- A directive of a filter. -/
structure LogDirective where
  /-- What the target of an event has to start with, if anything. -/
  target : Option String
  /-- The greatest rank of severity that is kept; zero keeps nothing. -/
  rank : Nat
  deriving DecidableEq, Repr

/-- Which events a log keeps. -/
structure LogFilter where
  directives : List LogDirective
  deriving DecidableEq, Repr

namespace LogFilter

/-- All severities. -/
def severities : List Severity := [.error, .warn, .info, .debug, .trace]

/-- The rank that keeps every event. -/
def topRank : Nat := Severity.trace.rank

/-- A text with the letters of ASCII in lower case. -/
def lowered (cs : List Char) : List Char := cs.map Char.toLower

/-- The rank that a word for a level stands for: a name in any case, `off`, or a number. -/
def rankOf? (word : List Char) : Option Nat :=
  match severities.find? fun s ↦ lowered s.name.toList = lowered word with
  | some s => some s.rank
  | none =>
    if lowered word = ['o', 'f', 'f'] then some 0
    else (Text.digits? (Text.splitSign false word).2).filter (· ≤ topRank)

/-- Whether a directive may start with a character. -/
def startsDirective (c : Char) : Bool :=
  c == '-' || c == ':' || c == '_' || c.isAlphanum || 128 ≤ c.toNat

/-- Reads a directive. Without a level, every event of the target is kept. -/
def readDirective? (cs : List Char) : Option LogDirective :=
  if cs.head?.any startsDirective then
    let before := cs.takeWhile (· != '=')
    match cs.dropWhile (· != '=') with
    | [] =>
      match rankOf? cs with
      | some rank => some ⟨none, rank⟩
      | none => some ⟨some (String.ofList cs), topRank⟩
    | _ :: [] => some ⟨some (String.ofList before), topRank⟩
    | _ :: word => (rankOf? word).map fun rank ↦ ⟨some (String.ofList before), rank⟩
  else none

/-- The texts between commas, without the empty ones. -/
def partsOf (text : String) : List (List Char) :=
  (Text.pieces ',' text.toList).filter (!·.isEmpty)

/-- Reads a filter. One without directives keeps only errors. -/
def parse? (text : String) : Option LogFilter :=
  match (partsOf text).mapM readDirective? with
  | some [] => some ⟨[⟨none, Severity.error.rank⟩]⟩
  | some directives => some ⟨directives⟩
  | none => none

/-- The filter that keeps everything up to mere information. -/
def standard : LogFilter := ⟨[⟨none, Severity.info.rank⟩]⟩

/-- The variable of the environment that holds the filter. -/
def variableName : String := "TOOLGATE_LOG"

/-- The filter for the value of the variable. -/
def ofSetting (value : Option String) : LogFilter := (value.bind parse?).getD standard

/-- Whether a directive concerns events with a target. -/
def concerns (d : LogDirective) (target : String) : Bool :=
  match d.target with
  | some start => start.toList.isPrefixOf target.toList
  | none => true

/-- How closely a directive describes its events: by the length of its target. -/
def closeness (d : LogDirective) : Nat :=
  match d.target with
  | some start => start.utf8ByteSize + 1
  | none => 0

/-- Of two directives, the one that describes its events more closely, and the later one if both
do so alike. -/
def closer (found : Option LogDirective) (later : LogDirective) : Option LogDirective :=
  match found with
  | some d => if closeness d ≤ closeness later then some later else some d
  | none => some later

/-- The directive that rules over events with a target. -/
def ruling? (f : LogFilter) (target : String) : Option LogDirective :=
  (f.directives.filter (concerns · target)).foldl closer none

/-- Whether an event is kept. -/
def keeps (f : LogFilter) (e : Event) : Bool :=
  (f.ruling? e.target).any fun d ↦ e.severity.rank ≤ d.rank

end LogFilter

/-- A field's value as JSON. -/
def FieldValue.toJson : FieldValue → Json
  | .text s => .string s
  | .number n => .int n

/-- The record of an event in a log. -/
def Event.toJson (e : Event) : Json :=
  .ofFields [("level", .string e.severity.name), ("target", .string e.target),
    ("fields", .ofFields <|
      ("message", .string e.message) :: e.fields.map fun f ↦ (f.1, f.2.toJson))]

end ToolAccess
