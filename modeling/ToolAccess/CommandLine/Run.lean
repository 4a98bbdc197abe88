import ToolAccess.CommandLine.Basic
import ToolAccess.Files.Tree
import ToolAccess.LogFilter
import ToolAccess.Settings.Load
import ToolAccess.Settings.Override
import ToolAccess.Tool.Json

/-!
# Running a command

A command loads the configuration, builds the engine and prints. `Invocation.run` gives what is
printed, or the error, and the events on the way, for given files and a given environment.
`Program.run` runs the whole program inside a directory tree.
-/

namespace ToolAccess

/-- An error of the program: what went wrong, and why. -/
structure CommandError where
  text : String
  /-- The causes, the immediate one first. -/
  causes : List String
  /-- Whether more would follow that is not shown: the details of a refused document. -/
  isCut : Bool
  deriving DecidableEq, Repr

namespace CommandError

/-- The error of something that the configuration does not allow. -/
def ofSettings (text : String) (e : SettingsError) : CommandError where
  text
  causes := e.chain
  isCut :=
    match e with
    | .unparsable .. => true
    | .unreadable .. | .invalid _ | .registry _ => false

/-- The error of a directory for logs that cannot be made. -/
def ofLogDirectory (directory : Path) (e : FileError) : CommandError :=
  ⟨"failed to create logs directory " ++ directory.text ++ ": " ++ e.message, [], false⟩

/-- The lines of a cause, indented. A number, if there is one, stands before the first line. -/
def causeLines (number : Option Nat) (cause : String) : List String :=
  let (first, later) :=
    match number with
    | some n => (Text.pad .right 5 none (toString n) ++ ": ", "       ")
    | none => ("    ", "    ")
  match Text.piecesOf '\n' cause with
  | [] => []
  | line :: lines => (first ++ line) :: lines.map (later ++ ·)

/-- Whether the causes are numbered: there are several. -/
def numbersCauses (e : CommandError) : Bool := e.isCut || 1 < e.causes.length

/-- The lines about the causes. -/
def allCauseLines (e : CommandError) : List String :=
  e.causes.zipIdx.flatMap fun c ↦ causeLines (if e.numbersCauses then some c.2 else none) c.1

/-- The text shown for the error. -/
def display (e : CommandError) : String :=
  "\n".intercalate (("Error: " ++ e.text) ::
    if e.causes.isEmpty then [] else "" :: "Caused by:" :: e.allCauseLines) ++
    if e.isCut then "" else "\n"

end CommandError

/-- What a command prints, or its error, and the events on the way. -/
structure CommandReport where
  result : Except CommandError String
  events : List Event

/-! ### What is printed -/

/-- The summary of a valid configuration. -/
def Engine.summary (e : Engine) : String :=
  s!"ok: {e.registry.inHouseNames.length} in-house tools, {e.registry.origins.length} origins, " ++
    s!"{e.profileNames.length} profiles" ++
    (if e.profileNames.isEmpty then "" else " (" ++ ", ".intercalate e.profileNames ++ ")") ++ "\n"

/-- The line about the rule that decides. -/
def Evaluation.ruleLine (e : Evaluation) : String :=
  match e.rule with
  | none => "rule:     <default decision>\n"
  | some rule =>
    "rule:     #" ++ toString rule.index ++ " (priority " ++ toString rule.priority.toInt ++ ")" ++
      (if rule.description.isEmpty then "" else " " ++ rule.description) ++ "\n"

/-- The decision about a tool, for a reader. -/
def Evaluation.lines (e : Evaluation) (tool : ToolIdentity) (tags : TagSet) (taint : TaintLevel) :
    String :=
  "tool:     " ++ tool.display ++ "\n" ++
    "tags:     " ++ ", ".intercalate tags.spellings ++ "\n" ++
    "taint:    " ++ taint.spelling ++ "\n" ++
    "decision: " ++ e.decision.spelling ++ "\n" ++ e.ruleLine

/-- The rule that decides, as JSON. -/
def DecidingRule.toJson (r : DecidingRule) : Json :=
  .ofFields [("index", .int r.index), ("priority", .int r.priority.toInt),
    ("description", .string r.description)]

/-- The decision about a tool, as JSON. -/
def Evaluation.toJson (e : Evaluation) (tool : ToolIdentity) (tags : TagSet) (taint : TaintLevel) :
    Json :=
  .ofFields [("tool", .string tool.display), ("tags", .strings tags.spellings),
    ("taint", taint.toJson), ("decision", e.decision.toJson),
    ("rule", (e.rule.map (·.toJson)).getD .null)]

/-- The rules active at a taint level in the order of evaluation, and the fallback. -/
def RuleSet.listing (s : RuleSet) (taint : TaintLevel) : String :=
  String.join ((s.ordered taint).map fun r ↦
    "#" ++ Text.pad .left 4 none (toString r.2) ++ " " ++ r.1.display ++ "\n") ++
    "default: " ++ s.fallback.spelling ++ "\n"

/-! ### Commands -/

namespace Command

/-- The in-house tools that have to be declared for the command. -/
def inUse (c : Command) (s : Settings) : List String :=
  match c with
  | validate [] | evaluate .. | rules .. => s.declaredTools
  | validate names => names

/-- What the command prints. -/
def print (c : Command) (e : Engine) : String :=
  match c with
  | validate _ => e.summary
  | evaluate tool taint profile asJson =>
    let tags := e.tagsFor tool
    let evaluation := e.evaluateWithTags tool tags profile taint
    if asJson then (evaluation.toJson tool tags taint).indented ++ "\n"
    else evaluation.lines tool tags taint
  | rules profile taint => (e.ruleSet profile).listing taint

/-- The events of printing. -/
def printEvents (c : Command) (e : Engine) : List Event :=
  match c with
  | validate _ => []
  | evaluate tool taint profile _ => e.evaluateEvents tool profile taint
  | rules profile _ => e.ruleSetEvents profile

/-- Runs the command on a configuration. -/
def run (c : Command) (files : FileView) (s : Settings) : CommandReport :=
  let inUse := c.inUse s
  let events := s.engineEvents files inUse
  match s.buildEngine files inUse with
  | .ok e => ⟨.ok (c.print e), events ++ c.printEvents e⟩
  | .error e => ⟨.error (.ofSettings "invalid policy configuration" e), events⟩

end Command

/-- Runs a command with the common options. -/
def Invocation.run (i : Invocation) (files : FileView) (env : Environment) (home : Path) :
    CommandReport :=
  let path := i.config.getD (Settings.defaultPath env home)
  match Settings.load files path with
  | .error e => ⟨.error (.ofSettings ("failed to load " ++ path.text) e), []⟩
  | .ok s =>
    let report := i.command.run files (s.withEnvironment env)
    let ready := if i.config.isSome then [Event.configReady path.text] else []
    ⟨report.result,
      .configRead path.text :: Settings.environmentEvents env ++ ready ++ report.events⟩

/-! ### The program -/

/-- The text shown for the version. -/
def versionText : String := "toolgate 0.1.0\n"

/-- The text shown for help. -/
def helpText : String :=
  "Usage: toolgate [--config FILE] [--log-dir DIR] COMMAND\n\n" ++
    "Commands:\n" ++
    "  validate [--in-house NAME]...\n" ++
    "  evaluate --tool NAME [--origin ID] [--taint LEVEL] [--profile NAME] [--json]\n" ++
    "  rules [--profile NAME] [--taint LEVEL]\n"

/-- What a run of the program leaves behind. -/
structure ProgramResult where
  code : Nat
  output : String
  /-- What is shown as an error. -/
  errors : String
  /-- The events that go to the log, if there is one. -/
  logged : List Event

namespace ProgramResult

/-- The result of a run without a command. -/
def ofStop : Stop → ProgramResult
  | .misuse => ⟨2, "", helpText, []⟩
  | .version => ⟨0, versionText, "", []⟩
  | .help => ⟨0, helpText, "", []⟩

/-- The result of an error. -/
def ofError (e : CommandError) (logged : List Event) : ProgramResult := ⟨1, "", e.display, logged⟩

/-- The result of a command whose log keeps the events of a filter. -/
def ofReport (hasLog : Bool) (filter : LogFilter) (r : CommandReport) : ProgramResult :=
  let logged := if hasLog then r.events.filter filter.keeps else []
  match r.result with
  | .ok output => ⟨0, output, "", logged⟩
  | .error e => ofError e logged

end ProgramResult

/-- Runs the program in a directory of a tree: the result, and the tree afterwards. -/
def Program.run (args : List String) (t : FileTree) (directory : Path) (env : Environment)
    (home : Path) : ProgramResult × FileTree :=
  match Invocation.parse args with
  | .error stop => (.ofStop stop, t)
  | .ok i =>
    let (t, failure) :=
      match i.logDirectory with
      | some logs => t.makeDirectories directory logs
      | none => (t, none)
    match failure with
    | some e => (.ofError (.ofLogDirectory (i.logDirectory.getD .empty) e) [], t)
    | none =>
      let filter := LogFilter.ofSetting (env LogFilter.variableName)
      (.ofReport i.logDirectory.isSome filter (i.run (t.view directory) env home), t)

end ToolAccess
