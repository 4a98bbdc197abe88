import ToolAccess.Decision
import ToolAccess.Taint

/-!
# Log events

What the library reports about its own work. An event is a cause with its data; its level, the
part of the library it comes from, its text and its fields are functions of it. `LogFilter` says
which events a log keeps.
-/

namespace ToolAccess

/-- How serious an event is, from the most serious on. -/
inductive Severity where
  | error
  | warn
  | info
  | debug
  | trace
  deriving DecidableEq, Repr

/-- The word for a severity. -/
def Severity.name : Severity → String
  | .error => "ERROR"
  | .warn => "WARN"
  | .info => "INFO"
  | .debug => "DEBUG"
  | .trace => "TRACE"

/-- The place of a severity, the most serious being 1. -/
def Severity.rank : Severity → Nat
  | .error => 1
  | .warn => 2
  | .info => 3
  | .debug => 4
  | .trace => 5

/-- The value of a field of an event. -/
inductive FieldValue where
  | text (s : String)
  | number (n : Int)
  deriving DecidableEq, Repr

/-- The text of a field's value. -/
def FieldValue.toText : FieldValue → String
  | .text s => s
  | .number n => toString n

/-- Something that happened. -/
inductive Event where
  /-- The configuration file was read. -/
  | configRead (path : String)
  /-- The configuration is complete. -/
  | configReady (path : String)
  /-- An environment variable does not hold a number that fits. -/
  | overrideIgnored (setting value : String)
  /-- A rule has no criterion. -/
  | ruleNeverMatches (rule description : String)
  /-- An in-house tool is declared without a tag on the trust of its output. -/
  | outputTrustAssumed (tool : String)
  /-- No document of defaults is configured. -/
  | defaultsMissing
  /-- The layers were merged; the numbers are those of their rules. -/
  | layersMerged (overrides profile defaults : Nat) (fallback : Decision) (offset : Int64)
  /-- The registry of tags is built. -/
  | registryBuilt (inHouse origins : Nat)
  /-- The engine is built. -/
  | engineReady (baseRules profiles : Nat)
  /-- A profile is not configured. -/
  | profileUnknown (profile : String)
  /-- An in-house tool has no entry in the registry. -/
  | tagsMissing (tool : String)
  /-- The policy was asked. -/
  | evaluated (tool : String) (profile : Option String) (taint : TaintLevel) (decision : Decision)
      (rule : Option Nat)
  /-- The agent asked for a tool that does not exist. -/
  | toolUnknown (tool : String)
  /-- A call was refused. -/
  | callDenied (tool : String) (taint : TaintLevel) (reason : String)
  /-- No human answered in time. -/
  | confirmationTimedOut (tool : String)
  /-- The turn was cancelled before a human answered. -/
  | confirmationCancelled (tool : String)
  /-- The call was given up before a human answered. -/
  | confirmationDropped (tool : String)
  /-- The entry for a confirmation could not be written to the audit log. -/
  | confirmationNotAudited (failure tool : String)
  /-- An entry could not be written to the audit log. -/
  | notAudited (failure : String)
  /-- All open questions were answered with no. -/
  | allRejected (count : Nat)
  /-- Nobody listens to the announcements of questions. -/
  | channelClosed
  deriving DecidableEq, Repr

namespace Event

/-- How serious an event is. -/
def severity : Event → Severity
  | configRead _ => .info
  | configReady _ | layersMerged .. | registryBuilt .. | engineReady .. | evaluated .. => .debug
  | _ => .warn

/-- The part of the program that an event comes from. -/
def target : Event → String
  | configReady _ => "toolgate"
  | configRead _ | overrideIgnored .. | ruleNeverMatches .. | outputTrustAssumed _
  | defaultsMissing => "toolgate::config"
  | layersMerged .. => "toolgate::policy::merge"
  | registryBuilt .. | tagsMissing _ => "toolgate::policy::metadata"
  | engineReady .. | profileUnknown _ | evaluated .. => "toolgate::policy::engine"
  | toolUnknown _ | callDenied .. | notAudited _ => "toolgate::tools::guard"
  | confirmationTimedOut _ | confirmationCancelled _ | confirmationDropped _
  | confirmationNotAudited .. => "toolgate::confirm"
  | allRejected _ | channelClosed => "toolgate::confirm::queue"

/-- The text of an event. -/
def message : Event → String
  | configRead _ => "loaded toolgate config"
  | configReady _ => "configuration loaded"
  | overrideIgnored .. => "ignoring invalid env override"
  | ruleNeverMatches .. => "rule has no match criteria and will never match"
  | outputTrustAssumed _ =>
    "in-house tool declares no output-trust tag, output counts as trusted"
  | defaultsMissing => "no defaults policy configured, falling back to deny-by-default"
  | layersMerged .. => "merged policy layers"
  | registryBuilt .. => "tool metadata registry built"
  | engineReady .. => "policy engine ready"
  | profileUnknown _ => "unknown policy profile, using base rules"
  | tagsMissing _ => "in-house tool has no metadata entry"
  | evaluated .. => "policy evaluated"
  | toolUnknown _ => "execution requested for unknown tool"
  | callDenied .. => "denied tool call blocked"
  | confirmationTimedOut _ => "confirmation timed out, treating as rejection"
  | confirmationCancelled _ => "confirmation cancelled with turn, treating as rejection"
  | confirmationDropped _ => "confirmation dropped while pending, recorded as cancelled"
  | confirmationNotAudited .. | notAudited _ => "failed to write audit entry"
  | allRejected _ => "rejected all pending confirmations"
  | channelClosed => "confirmation UI channel closed, rejecting"

/-- The data of an event, by field. -/
def fields : Event → List (String × FieldValue)
  | configRead path | configReady path => [("path", .text path)]
  | overrideIgnored setting value => [("var", .text setting), ("value", .text value)]
  | ruleNeverMatches rule description =>
    [("rule", .text rule), ("description", .text description)]
  | outputTrustAssumed tool | tagsMissing tool | toolUnknown tool | confirmationTimedOut tool
  | confirmationCancelled tool | confirmationDropped tool => [("tool", .text tool)]
  | defaultsMissing | channelClosed => []
  | layersMerged overrides profile defaults fallback offset =>
    [("overrides", .number overrides), ("profile", .number profile),
      ("defaults", .number defaults), ("default_decision", .text fallback.spelling),
      ("offset", .number offset.toInt)]
  | registryBuilt inHouse origins =>
    [("in_house", .number inHouse), ("origins", .number origins)]
  | engineReady baseRules profiles =>
    [("base_rules", .number baseRules), ("profiles", .number profiles)]
  | profileUnknown profile => [("profile", .text profile)]
  | evaluated tool profile taint decision rule =>
    [("tool", .text tool), ("profile", .text (profile.getD "-")), ("taint", .text taint.spelling),
      ("decision", .text decision.spelling)] ++
      match rule with
      | some index => [("rule", .number index)]
      | none => []
  | callDenied tool taint reason =>
    [("tool", .text tool), ("taint", .text taint.spelling), ("reason", .text reason)]
  | confirmationNotAudited failure tool => [("error", .text failure), ("tool", .text tool)]
  | notAudited failure => [("error", .text failure)]
  | allRejected count => [("count", .number count)]

/-- Whether an event is a warning. -/
def isWarning (e : Event) : Bool := e.severity == .warn

end Event

end ToolAccess
