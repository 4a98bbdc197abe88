import ToolAccess.CommandLine.Run

/-!
# The program

Reads the files and the environment, runs the command on them, and prints what comes of it. What
is done and printed is decided in `ToolAccess.CommandLine.Run`.
-/

namespace ToolAccess

/-- Why an operation on files failed. -/
def FileError.ofIO : IO.Error → FileError
  | .noFileOrDirectory .. => .missing
  | .alreadyExists .. => .alreadyThere
  | .otherError code text | .resourceBusy code text | .resourceVanished code text
  | .unsupportedOperation code text | .hardwareFault code text
  | .unsatisfiedConstraints code text | .illegalOperation code text | .protocolError code text
  | .timeExpired code text | .interrupted _ code text | .invalidArgument _ code text
  | .permissionDenied _ code text | .resourceExhausted _ code text
  | .inappropriateType _ code text | .noSuchThing _ code text =>
    if code = 20 then .notDirectory
    else if code = 21 then .isDirectory
    else if code = 36 then .nameTooLong
    else .system text code.toNat
  | .unexpectedEof => .system "unexpected end of file" 0
  | .userError text => .system text 0

/-- The text of a file. -/
def readText (path : Path) : IO (Except FileError String) := do
  try
    let bytes ← IO.FS.readBinFile path.text
    return match String.fromUTF8? bytes with
      | some text => .ok text
      | none => .error .notText
  catch e => return .error (.ofIO e)

/-- The names in a directory. -/
def readNames (path : Path) : IO (Except FileError (List String)) := do
  try
    let directory ← IO.FS.realPath path.text
    let entries ← directory.readDir
    return .ok (entries.toList.map (·.fileName))
  catch e => return .error (.ofIO e)

/-- The files that a configuration speaks of, and the configuration file itself. -/
def readSnapshot (config : Path) : IO FileView := do
  let text ← readText config
  let alone := FileView.ofSnapshot [(config, text)] []
  match Settings.load alone config with
  | .error _ => return alone
  | .ok s =>
    let names ← s.profilesPath?.toList.mapM fun p ↦ return (p, ← readNames p)
    let found := names.flatMap fun n ↦ n.2.toOption.getD []
    let texts ← (s.documentPaths found).mapM fun p ↦ return (p, ← readText p)
    return .ofSnapshot ((config, text) :: texts) names

/-- The values of the variables that the program knows. -/
def readEnvironment : IO Environment := do
  let names := [confirmSecondsVariable, overrideOffsetVariable, auditPathVariable,
    configPathVariable, LogFilter.variableName]
  let values ← names.mapM fun name ↦ return (name, ← IO.getEnv name)
  return fun name ↦ (values.lookup name).join

/-- Makes the directory for logs. -/
def makeLogDirectory (path : Path) : IO (Option FileError) := do
  try
    IO.FS.createDirAll path.text
    return none
  catch e => return some (.ofIO e)

/-- Writes records at the end of the log in a directory. -/
def appendLog (directory : Path) (events : List Event) : IO Unit := do
  let log ← IO.FS.Handle.mk (directory.join ⟨"toolgate.log"⟩).text .append
  for e in events do
    log.putStrLn e.toJson.compact

/-- Runs a command. -/
def runInvocation (i : Invocation) : IO ProgramResult := do
  let env ← readEnvironment
  let home : Path := ⟨(← IO.getEnv "HOME").getD "/"⟩
  let failure ← match i.logDirectory with
    | some directory => makeLogDirectory directory
    | none => pure none
  match failure with
  | some e => return .ofError (.ofLogDirectory (i.logDirectory.getD .empty) e) []
  | none =>
    let files ← readSnapshot (i.config.getD (Settings.defaultPath env home))
    let filter := LogFilter.ofSetting (env LogFilter.variableName)
    return .ofReport i.logDirectory.isSome filter (i.run files env home)

end ToolAccess

open ToolAccess in
/-- The program: its exit code is that of the run. -/
def main (args : List String) : IO UInt32 := do
  let parsed := Invocation.parse args
  let result ← match parsed with
    | .ok i => runInvocation i
    | .error stop => pure (.ofStop stop)
  match parsed with
  | .ok ⟨_, some directory, _⟩ =>
    unless result.logged.isEmpty do appendLog directory result.logged
  | _ => pure ()
  IO.print result.output
  IO.eprint result.errors
  return UInt32.ofNat result.code
