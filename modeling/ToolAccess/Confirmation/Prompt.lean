import ToolAccess.Json.Printer

/-!
# The question

The text that a human is shown for a tool call: the tool's name and the arguments as compact JSON.
-/

namespace ToolAccess

/-- The question for a call of a tool with these arguments. -/
def confirmationPrompt (tool : String) (arguments : Json) : String :=
  "Allow the agent to run `" ++ tool ++ "` with arguments " ++ arguments.compact ++ "?"

end ToolAccess
