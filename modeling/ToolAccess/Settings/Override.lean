import ToolAccess.Event
import ToolAccess.Settings.Basic
import ToolAccess.Text.Digit

/-!
# Environment variables

Three variables of the environment win over the configuration file, and one says where that file
is. A variable whose value is not a number in range is ignored with a warning.
-/

namespace ToolAccess

/-- The values of the environment's variables. -/
abbrev Environment := String → Option String

/-- The variable for the time to wait for a human. -/
def confirmSecondsVariable : String := "TOOLGATE_CONFIRM_TIMEOUT_SECS"

/-- The variable for the lift of the overrides. -/
def overrideOffsetVariable : String := "TOOLGATE_OVERRIDE_OFFSET"

/-- The variable for the path of the audit log. -/
def auditPathVariable : String := "TOOLGATE_AUDIT_LOG"

/-- The variable for the path of the configuration file. -/
def configPathVariable : String := "TOOLGATE_CONFIG"

/-- Reads an unsigned 64-bit number: digits, after a plus sign if there is one. -/
def readUInt64? (text : String) : Option UInt64 := do
  let n ← Text.digits? (Text.splitSign false text.toList).2
  if n < UInt64.size then some (UInt64.ofNat n) else none

/-- Reads a signed 64-bit number: digits, after a sign if there is one. -/
def readInt64? (text : String) : Option Int64 := do
  let (negative, s) := Text.splitSign true text.toList
  let n ← Text.digits? s
  let value : Int := if negative then -n else n
  if Int64.minValue.toInt ≤ value ∧ value ≤ Int64.maxValue.toInt then some (Int64.ofInt value)
  else none

namespace Settings

/-- The settings with the environment's time to wait for a human. -/
def overrideSeconds (s : Settings) (env : Environment) : Settings :=
  match (env confirmSecondsVariable).bind readUInt64? with
  | some n => { s with confirmSeconds := n }
  | none => s

/-- The settings with the environment's lift of the overrides. -/
def overrideLift (s : Settings) (env : Environment) : Settings :=
  match (env overrideOffsetVariable).bind readInt64? with
  | some n => { s with policy := { s.policy with overrideOffset := n } }
  | none => s

/-- The settings with the environment's path of the audit log. -/
def overrideAudit (s : Settings) (env : Environment) : Settings :=
  match env auditPathVariable with
  | some text => { s with auditPath := some ⟨text⟩ }
  | none => s

/-- The settings with everything that the environment sets. -/
def withEnvironment (s : Settings) (env : Environment) : Settings :=
  ((s.overrideSeconds env).overrideLift env).overrideAudit env

/-- The warning about a variable whose value cannot be read. -/
def ignoredEvents {α : Type} (env : Environment) (name : String)
    (read : String → Option α) : List Event :=
  match env name with
  | some value => if (read value).isSome then [] else [.overrideIgnored name value]
  | none => []

/-- The warnings about the environment. -/
def environmentEvents (env : Environment) : List Event :=
  ignoredEvents env confirmSecondsVariable readUInt64? ++
    ignoredEvents env overrideOffsetVariable readInt64?

/-- Where the configuration file is, for a home directory. -/
def defaultPath (env : Environment) (home : Path) : Path :=
  match env configPathVariable with
  | some text => ⟨text⟩
  | none => (home.join ⟨".toolgate"⟩).join ⟨"toolgate.toml"⟩

end Settings

end ToolAccess
