import ToolAccess.Taint
import ToolAccess.Uuid

/-!
# Turns

A turn is one round of the conversation with the agent: its policy profile, the taint that it has
met so far, and the delegation tree it belongs to. A nested turn keeps the profile and the tree of
the turn it was delegated from. Cancelling concerns the tree as a whole and is kept with the
forest of all turns (`ToolAccess.Turn.Forest`).
-/

namespace ToolAccess

/-- The state of a turn. -/
structure Turn where
  id : Uuid
  /-- The policy profile, or nothing for the base policy. -/
  profile : Option String
  taint : TaintLevel
  /-- The delegation tree that the turn belongs to. -/
  tree : Nat
  deriving DecidableEq, Repr

/-- Where a delegated turn's taint starts. -/
inductive Inheritance where
  /-- At the taint of the turn it comes from. -/
  | inherit
  /-- At no taint. -/
  | fresh
  deriving DecidableEq, Repr, Inhabited

/-- The level a turn starts at that is delegated from a turn at the given level. -/
def Inheritance.start (i : Inheritance) (parent : TaintLevel) : TaintLevel :=
  match i with
  | .inherit => parent
  | .fresh => .trusted

namespace Turn

/-- The turn with its taint raised to at least a level. -/
def escalate (t : Turn) (level : TaintLevel) : Turn := { t with taint := t.taint.raise level }

/-- Whether raising the taint to a level changes it. -/
def rises (t : Turn) (level : TaintLevel) : Bool := decide (t.taint < level)

/-- The level that the output of a tool with these tags raises the turn to, if it does. -/
def outputRise? (t : Turn) (tags : TagSet) : Option TaintLevel :=
  tags.outputTaint?.filter t.rises

/-- The turn after the output of a tool with these tags. -/
def observe (t : Turn) (tags : TagSet) : Turn := { t with taint := t.taint.afterOutput tags }

/-- A turn delegated from this one. -/
def delegate (t : Turn) (id : Uuid) (i : Inheritance) : Turn :=
  { t with id := id, taint := i.start t.taint }

end Turn

end ToolAccess
