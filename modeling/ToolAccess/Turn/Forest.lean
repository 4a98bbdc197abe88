import ToolAccess.Sorted.Map
import ToolAccess.Turn.Basic

/-!
# The forest of turns

All turns that are alive, by name, and the delegation trees that were cancelled. A new turn starts
a tree of its own, and a delegated one joins the tree it comes from. Cancelling any turn cancels
its whole tree for good: the turns of today and those delegated later.
-/

namespace ToolAccess

/-- The turns alive and the cancelled trees. -/
structure Forest where
  turns : SortedMap String Turn
  /-- The trees that were cancelled. -/
  cancelledTrees : List Nat
  /-- The number of turns made so far, from which new identifiers and trees are numbered. -/
  made : Nat
  deriving Inhabited

namespace Forest

/-- No turns. -/
def empty : Forest := ⟨∅, [], 0⟩

/-- The turn with a name. -/
def turn? (f : Forest) (name : String) : Option Turn := f.turns.find? name

/-- Whether the tree of a turn was cancelled. -/
def isCancelled (f : Forest) (t : Turn) : Bool := f.cancelledTrees.contains t.tree

/-- The identifier of the next turn. -/
def nextId (f : Forest) : Uuid := .ofNat (f.made + 1)

/-- Puts a turn under a name; a turn that had the name is gone. -/
def put (f : Forest) (name : String) (t : Turn) : Forest :=
  { f with turns := f.turns.insert name t }

/-- The forest with a new turn, in a tree of its own. -/
def create (f : Forest) (name : String) (profile : Option String) (taint : TaintLevel) : Forest :=
  { f.put name ⟨f.nextId, profile, taint, f.made⟩ with made := f.made + 1 }

/-- The forest with a turn delegated from another. -/
def delegate (f : Forest) (name : String) (parent : Turn) (i : Inheritance) : Forest :=
  { f.put name (parent.delegate f.nextId i) with made := f.made + 1 }

/-- The forest with the tree of a turn cancelled. -/
def cancel (f : Forest) (t : Turn) : Forest :=
  { f with cancelledTrees := t.tree :: f.cancelledTrees }

/-- The forest without the turn of a name. -/
def drop (f : Forest) (name : String) : Forest := { f with turns := f.turns.erase name }

/-- The turns alive. -/
def alive (f : Forest) : List Turn := f.turns.entries.map (·.2)

/-- Whether no two turns alive share an identifier. -/
def hasDistinctIds (f : Forest) : Bool := decide ((f.alive.map (·.id)).Nodup)

end Forest

end ToolAccess
