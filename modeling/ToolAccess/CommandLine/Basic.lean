import ToolAccess.Files.Path
import ToolAccess.Identity
import ToolAccess.Taint

/-!
# The command line

What the command line can ask for: to check a configuration, to decide about one tool, or to list
the rules in the order of evaluation. `Invocation.parse` reads the arguments from left to right.
An option has its value behind an equality sign or in the next argument, which must not start with
a hyphen then.
-/

namespace ToolAccess

/-- What is to be done. -/
inductive Command where
  /-- Checks the configuration, for the in-house tools named, or else for those declared. -/
  | validate (inUse : List String)
  /-- Decides about a tool. -/
  | evaluate (tool : ToolIdentity) (taint : TaintLevel) (profile : Option String) (asJson : Bool)
  /-- Lists the rules that are active at a taint level. -/
  | rules (profile : Option String) (taint : TaintLevel)
  deriving DecidableEq, Repr

/-- A command with the options common to all. -/
structure Invocation where
  /-- The configuration file, if it is not the usual one. -/
  config : Option Path
  /-- The directory for logs, if there are to be any. -/
  logDirectory : Option Path
  command : Command
  deriving DecidableEq, Repr

/-- Why there is no command to run. -/
inductive Stop where
  /-- The arguments are wrong. -/
  | misuse
  /-- The version was asked for. -/
  | version
  /-- Help was asked for. -/
  | help
  deriving DecidableEq, Repr

/-- What an option takes. -/
inductive OptionKind where
  /-- No value. -/
  | switch
  /-- A text. -/
  | text
  /-- A text that is not empty. -/
  | path
  /-- A taint level. -/
  | taint
  /-- A text, and it may be given again. -/
  | texts
  deriving DecidableEq, Repr

/-- An option, by its name without hyphens. -/
structure OptionSpec where
  name : String
  kind : OptionKind
  deriving DecidableEq, Repr

/-- The options that may be given at some place. -/
structure OptionTable where
  options : List OptionSpec
  /-- Whether the version may be asked for. -/
  offersVersion : Bool

/-- The options given, with their values, in order; a switch has the empty value. -/
abbrev Given := List (String × String)

namespace OptionKind

/-- Whether a value is acceptable. -/
def accepts (k : OptionKind) (value : String) : Bool :=
  match k with
  | switch => false
  | text | texts => true
  | path => !value.isEmpty
  | taint => (TaintLevel.parse value).isOk

end OptionKind

namespace OptionTable

/-- An option put to those given, with its value. -/
def give (given : Given) (o : OptionSpec) (value : String) : Except Stop Given :=
  if o.kind ≠ .texts ∧ (given.lookup o.name).isSome then .error .misuse
  else if o.kind = .switch ∨ o.kind.accepts value then .ok (given ++ [(o.name, value)])
  else .error .misuse

/-- What comes of an argument that starts with two hyphens and is not all of it. -/
inductive LongArgument where
  /-- An option complete with its value. -/
  | complete (o : OptionSpec) (value : String)
  /-- An option whose value is the next argument. -/
  | needsValue (o : OptionSpec)
  | stop (s : Stop)

/-- Reads what follows two hyphens. -/
def readLong (t : OptionTable) (cs : List Char) : LongArgument :=
  let name := String.ofList (cs.takeWhile (· != '='))
  let attached := match cs.dropWhile (· != '=') with
    | [] => none
    | _ :: value => some (String.ofList value)
  match t.options.find? (·.name = name), attached with
  | some o, some value => if o.kind = .switch then .stop .misuse else .complete o value
  | some o, none => if o.kind = .switch then .complete o "" else .needsValue o
  | none, some _ => .stop .misuse
  | none, none =>
    if name = "help" then .stop .help
    else if name = "version" ∧ t.offersVersion then .stop .version
    else .stop .misuse

/-- Reads what follows a single hyphen. -/
def readShort (t : OptionTable) (cs : List Char) : Stop :=
  match cs with
  | 'h' :: _ => .help
  | 'V' :: _ => if t.offersVersion then .version else .misuse
  | _ => .misuse

/-- Whether an argument can be the value of an option before it. -/
def isDetachedValue (arg : String) : Bool :=
  match arg.toList with
  | '-' :: _ :: _ => false
  | _ => true

/-- Reads options up to the first argument that is none: the options given, and that argument with
those behind it. -/
def scan (t : OptionTable) (given : Given) : List String → Except Stop (Given × List String)
  | [] => .ok (given, [])
  | arg :: rest =>
    match arg.toList with
    | ['-', '-'] => if rest.isEmpty then .ok (given, []) else .error .misuse
    | '-' :: '-' :: cs =>
      match t.readLong cs, rest with
      | .stop s, _ => .error s
      | .complete o value, rest => do
        let given ← give given o value
        t.scan given rest
      | .needsValue _, [] => .error .misuse
      | .needsValue o, value :: rest =>
        if isDetachedValue value then do
          let given ← give given o value
          t.scan given rest
        else .error .misuse
    | '-' :: c :: cs => .error (t.readShort (c :: cs))
    | _ => .ok (given, arg :: rest)

end OptionTable

/-! ### The commands -/

/-- The options common to all commands. -/
def commonOptions : List OptionSpec := [⟨"config", .path⟩, ⟨"log-dir", .path⟩]

/-- The options of each command besides the common ones. -/
def commandOptions : List (String × List OptionSpec) := [
  ("validate", [⟨"in-house", .texts⟩]),
  ("evaluate", [⟨"tool", .text⟩, ⟨"origin", .text⟩, ⟨"taint", .taint⟩, ⟨"profile", .text⟩,
    ⟨"json", .switch⟩]),
  ("rules", [⟨"profile", .text⟩, ⟨"taint", .taint⟩])]

/-- The taint level given, or else the usual one. -/
def taintGiven (given : Given) (usual : TaintLevel) : TaintLevel :=
  ((given.lookup "taint").bind fun word ↦ (TaintLevel.parse word).toOption).getD usual

/-- The command of a name with the options given. -/
def Command.ofGiven (name : String) (given : Given) : Except Stop Command :=
  match name with
  | "validate" => .ok (.validate ((given.filter (·.1 = "in-house")).map (·.2)))
  | "evaluate" =>
    match given.lookup "tool" with
    | some tool =>
      .ok (.evaluate ⟨tool, given.lookup "origin"⟩ (taintGiven given .trusted)
        (given.lookup "profile") (given.lookup "json").isSome)
    | none => .error .misuse
  | "rules" => .ok (.rules (given.lookup "profile") (taintGiven given .untrusted))
  | _ => .error .misuse

/-- What comes of asking for help on commands. -/
def helpOn : List String → Stop
  | [] => .help
  | [name] => if name = "help" ∨ (commandOptions.lookup name).isSome then .help else .misuse
  | _ => .misuse

namespace Invocation

/-- Reads the arguments. A common option given behind the command wins over one before it. -/
def parse (args : List String) : Except Stop Invocation := do
  let (before, rest) ← OptionTable.scan ⟨commonOptions, true⟩ [] args
  match rest with
  | [] => .error .misuse
  | name :: rest =>
    match commandOptions.lookup name with
    | none => .error (if name = "help" then helpOn rest else .misuse)
    | some options =>
      let (behind, rest) ← OptionTable.scan ⟨commonOptions ++ options, false⟩ [] rest
      if rest.isEmpty then
        let common (option : String) : Option Path :=
          ((behind.lookup option) <|> (before.lookup option)).map Path.mk
        return ⟨common "config", common "log-dir", ← Command.ofGiven name behind⟩
      else .error .misuse

end Invocation

end ToolAccess
