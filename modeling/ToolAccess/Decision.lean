import ToolAccess.Vocabulary

/-!
# Decisions

What a policy says about a tool call: run it, refuse it, or ask a human first.
-/

namespace ToolAccess

/-- The verdict of a policy on a tool. -/
inductive Decision where
  /-- Run without asking. -/
  | allow
  /-- Never run, and hide the tool from the agent. -/
  | deny
  /-- Run only after a human has agreed. -/
  | confirm
  deriving DecidableEq, Repr, Inhabited

namespace Decision

/-- The word for a decision. -/
def spelling : Decision → String
  | allow => "allow"
  | deny => "deny"
  | confirm => "confirm"

/-- All decisions, in the order of declaration. -/
def all : List Decision := [allow, deny, confirm]

/-- The decision that a word stands for. -/
def parse : String → Except UnknownWord Decision
  | "allow" => .ok allow
  | "deny" => .ok deny
  | "confirm" => .ok confirm
  | word => .error ⟨.decision, word⟩

@[simp] theorem parse_spelling (d : Decision) : parse d.spelling = .ok d := by
  cases d <;> rfl

end Decision

end ToolAccess
