import ToolAccess.Audit.Entry

/-!
# The audit log

The log appends entries to a sink, and the sink may refuse an entry. Which writes it refuses is a
function of how many were attempted before; an entry that is refused is lost, and later ones are
written all the same.
-/

namespace ToolAccess

/-- An audit log: how its sink behaves and what it holds. -/
structure AuditLog where
  /-- The failure of the write with this number, counted from zero; nothing if it succeeds. -/
  failure : Nat → Option String
  /-- How many writes were attempted. -/
  attempts : Nat
  /-- The entries written, oldest first. -/
  entries : List AuditEntry

namespace AuditLog

/-- An empty log whose sink takes everything. -/
def working : AuditLog := ⟨fun _ ↦ none, 0, []⟩

/-- An empty log whose sink refuses everything, with one failure. -/
def failing (failure : String) : AuditLog := ⟨fun _ ↦ some failure, 0, []⟩

/-- Attempts to write an entry: the log afterwards, and the failure if there was one. -/
def record (log : AuditLog) (e : AuditEntry) : AuditLog × Option String :=
  match log.failure log.attempts with
  | none => ({ log with attempts := log.attempts + 1, entries := log.entries ++ [e] }, none)
  | some failure => ({ log with attempts := log.attempts + 1 }, some failure)

/-- The text of the log. -/
def text (timestamp : AuditEntry → String) (log : AuditLog) : List Char :=
  log.entries.flatMap fun e ↦ e.lineChars (timestamp e)

end AuditLog

end ToolAccess
