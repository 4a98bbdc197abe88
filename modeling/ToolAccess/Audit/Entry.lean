import ToolAccess.Json.Printer
import ToolAccess.Tool.Json
import ToolAccess.Uuid

/-!
# Audit entries

What the audit log records of a mediated call. An entry carries the turn, the requested tool and
the event, never the arguments or the output of the tool. It is written as one line of JSON, whose
fields stand in a fixed order.
-/

namespace ToolAccess

/-- What an entry records. -/
inductive AuditEvent where
  /-- The call was refused. -/
  | denied (reason : String)
  /-- A confirmation ended. -/
  | confirmation (outcome : ConfirmOutcome)
  /-- The tool ran. -/
  | executed (isError : Bool)
  /-- The turn's taint rose to this level. -/
  | escalated (level : TaintLevel)
  deriving DecidableEq, Repr

namespace AuditEvent

/-- The kind of an event, as it is written. -/
def kind : AuditEvent → String
  | denied _ => "tool_denied"
  | confirmation _ => "confirmation_resolved"
  | executed _ => "tool_executed"
  | escalated _ => "taint_escalated"

/-- The details of an event. -/
def details : AuditEvent → Json
  | denied reason => .object [("reason", .string reason)]
  | confirmation outcome =>
    .object [("approved", .bool outcome.isApproved), ("outcome", outcome.toJson)]
  | executed isError => .object [("is_error", .bool isError)]
  | escalated level => .object [("taint", level.toJson)]

end AuditEvent

/-- An entry of the audit log. -/
structure AuditEntry where
  turn : Uuid
  /-- The tool as the agent asked for it. -/
  tool : String
  event : AuditEvent
  deriving DecidableEq, Repr

namespace AuditEntry

/-- The entry as JSON, with the time at which it is written. -/
def toJson (e : AuditEntry) (timestamp : String) : Json :=
  .object [
    ("timestamp", .string timestamp),
    ("turn_id", .string e.turn.toText),
    ("event_type", .string e.event.kind),
    ("tool", .string e.tool),
    ("details", e.event.details)]

/-- The line that is written for an entry. -/
def lineChars (e : AuditEntry) (timestamp : String) : List Char :=
  (e.toJson timestamp).compactChars ++ ['\n']

end AuditEntry

end ToolAccess
