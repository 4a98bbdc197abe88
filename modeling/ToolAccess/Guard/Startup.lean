import ToolAccess.Guard.Basic
import ToolAccess.Settings.Load

/-!
# Starting a guard from settings

A guard is made from a configuration: its engine is built for the tools that the configuration
declares, the tools of the executor are checked against it, and the audit log is opened.
-/

namespace ToolAccess

/-- Why a guard cannot be made from a configuration. -/
inductive StartupError where
  /-- The engine cannot be built. -/
  | policy (error : SettingsError)
  /-- The executor has in-house tools that are not declared. -/
  | liveTools (error : RegistryError)
  /-- The audit log cannot be opened. -/
  | auditLog (path : Path) (error : FileError)
  deriving DecidableEq, Repr

namespace StartupError

/-- The texts of the error and of what caused it, from the outermost on. -/
def chain : StartupError → List String
  | policy error => "invalid policy configuration" :: error.chain
  | liveTools error => ["live tools do not match the configured metadata", error.message]
  | auditLog path error => ["failed to open audit log " ++ path.text ++ ": " ++ error.message]

/-- The text shown for an error. -/
def message (e : StartupError) : String := ": ".intercalate e.chain

end StartupError

namespace Settings

/-- The guard of a configuration, for an executor with the given tools; `openLog` says whether the
audit log can be opened. -/
def startGuard (s : Settings) (files : FileView) (definitions : List ToolDefinition)
    (openLog : Path → Except FileError Unit) : Except StartupError Guard := do
  let engine ← (s.buildEngine files s.declaredTools).mapError .policy
  let g : Guard := ⟨engine, s.confirmMilliseconds⟩
  (g.checkLive definitions).mapError .liveTools
  match s.auditFile? with
  | some path => (openLog path).mapError (.auditLog path)
  | none => pure ()
  return g

end Settings

end ToolAccess
