import ToolAccess.Decision
import ToolAccess.Matcher
import ToolAccess.Taint
import ToolAccess.Text.Pad

/-!
# Policy rules

A rule gives a decision to the tools its matcher accepts. It has a priority, and it may have a
gate: a taint level below which the rule is not active.
-/

namespace ToolAccess

/-- A decision for the tools that a matcher accepts. -/
structure Rule where
  /-- The tools that the rule is about. -/
  matcher : ToolMatcher
  /-- What to do with them. -/
  decision : Decision
  /-- The rule with the higher priority wins. -/
  priority : Int64
  /-- The taint level from which on the rule is active; without one it always is. -/
  threshold : Option TaintLevel
  /-- A note for the reader. -/
  description : String
  deriving DecidableEq, Inhabited

namespace Rule

/-- Whether the rule takes part at a taint level. -/
def isActiveAt (r : Rule) (taint : TaintLevel) : Bool :=
  match r.threshold with
  | some threshold => decide (threshold ≤ taint)
  | none => true

/-- Whether the rule is active and accepts the tool. -/
def applies (r : Rule) (taint : TaintLevel) (tool : ToolIdentity) (tags : TagSet) : Bool :=
  r.isActiveAt taint && r.matcher.accepts tool tags

/-- How a rule is shown, on one line. -/
def display (r : Rule) : String :=
  "[" ++ Text.pad .right 6 none (toString r.priority.toInt) ++ "] " ++
    Text.pad .left 7 none r.decision.spelling ++ " " ++ r.matcher.display ++
    (match r.threshold with
      | some threshold => " (taint >= " ++ threshold.spelling ++ ")"
      | none => "") ++
    (if r.description.isEmpty then "" else " # " ++ r.description)

end Rule

end ToolAccess
