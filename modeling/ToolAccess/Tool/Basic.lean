import ToolAccess.Confirmation.Outcome
import ToolAccess.Identity
import ToolAccess.Json.Basic

/-!
# Tools and the outcomes of calls

What an executor says about its tools, what a tool gives back, and what became of a call that the
guard mediated.
-/

namespace ToolAccess

/-- The description of a tool that the agent may call. -/
structure ToolDefinition where
  name : String
  /-- What the agent is told about the tool. -/
  description : String
  /-- The schema of the tool's arguments. -/
  inputSchema : Json
  /-- The origin that supplies the tool, or nothing for a tool made in-house. -/
  origin : Option String
  deriving DecidableEq, Inhabited

/-- The identity of a described tool. -/
def ToolDefinition.identity (d : ToolDefinition) : ToolIdentity := ⟨d.name, d.origin⟩

/-- What a tool gives back to the agent. -/
structure ToolResult where
  content : String
  /-- Whether the content tells of a failure. -/
  isError : Bool
  deriving DecidableEq, Repr, Inhabited

/-- A failure of the executor itself. -/
inductive ToolError where
  | notFound (tool : String)
  | invalidArguments (tool reason : String)
  | executionFailed (tool reason : String)
  deriving DecidableEq, Repr

/-- The text shown for a failure. -/
def ToolError.message : ToolError → String
  | .notFound tool => s!"tool not found: {tool}"
  | .invalidArguments tool reason => s!"invalid arguments for {tool}: {reason}"
  | .executionFailed tool reason => s!"tool {tool} failed: {reason}"

/-- What became of a mediated call. -/
inductive ToolOutcome where
  /-- The tool ran. -/
  | executed (result : ToolResult)
  /-- The policy refused the call. -/
  | denied (tool reason : String)
  /-- The call needed a confirmation and did not get it. -/
  | notConfirmed (tool : String) (confirmation : ConfirmOutcome)
  deriving DecidableEq, Repr

namespace ToolOutcome

/-- Whether the tool ran. -/
def wasExecuted : ToolOutcome → Bool
  | executed _ => true
  | denied .. | notConfirmed .. => false

/-- The outcome as a result for the agent. -/
def toResult : ToolOutcome → ToolResult
  | executed result => result
  | denied tool reason => ⟨s!"Access denied: tool {tool} is not permitted ({reason}).", true⟩
  | notConfirmed tool confirmation =>
    ⟨s!"Tool {tool} was not executed: confirmation {confirmation.display}.", true⟩

end ToolOutcome

end ToolAccess
