/-!
# Outcomes of confirmations

How a question to a human ends. Only an explicit approval lets the call go on.
-/

namespace ToolAccess

/-- The end of a confirmation. -/
inductive ConfirmOutcome where
  /-- The human agreed. -/
  | approved
  /-- The human refused. -/
  | rejected
  /-- No answer came in time. -/
  | timedOut
  /-- The turn was cancelled, or the call given up, before an answer came. -/
  | cancelled
  deriving DecidableEq, Repr, Inhabited

namespace ConfirmOutcome

/-- Whether the call may go on. -/
def isApproved (o : ConfirmOutcome) : Bool := o == approved

/-- The word used in data. -/
def code : ConfirmOutcome → String
  | approved => "approved"
  | rejected => "rejected"
  | timedOut => "timed_out"
  | cancelled => "cancelled"

/-- The words shown to a reader. -/
def display : ConfirmOutcome → String
  | approved => "approved"
  | rejected => "rejected"
  | timedOut => "timed out"
  | cancelled => "cancelled"

/-- All outcomes. -/
def all : List ConfirmOutcome := [approved, rejected, timedOut, cancelled]

/-- The outcome with a code. -/
def ofCode? (s : String) : Option ConfirmOutcome := all.find? (·.code == s)

/-- The outcome of a human's answer. -/
def ofAnswer (approves : Bool) : ConfirmOutcome := if approves then approved else rejected

end ConfirmOutcome

end ToolAccess
