import ToolAccess.Sorted.Map

/-!
# Tool identities

A tool is known by its name and, if it was plugged in, by the origin that supplies it. Tools
without an origin are in-house. An origin may have the empty name and is an origin all the same.
-/

namespace ToolAccess

/-- The name of a tool and the origin that supplies it, if any. -/
structure ToolIdentity where
  /-- The name that the agent uses. -/
  name : String
  /-- The origin, or nothing for a tool made in-house. -/
  origin : Option String
  deriving DecidableEq, Repr, Inhabited

namespace ToolIdentity

/-- The identity of an in-house tool. -/
def inHouse (name : String) : ToolIdentity := ⟨name, none⟩

/-- The identity of a tool supplied by an origin. -/
def fromOrigin (origin name : String) : ToolIdentity := ⟨name, some origin⟩

/-- Whether the tool was made in-house. -/
def isInHouse (t : ToolIdentity) : Bool := t.origin.isNone

/-- How an identity is shown: the name, after the origin and a slash if there is one. -/
def display (t : ToolIdentity) : String :=
  match t.origin with
  | some origin => origin ++ "/" ++ t.name
  | none => t.name

/-- In-house tools come before the tools of the origins. -/
def originRank (t : ToolIdentity) : Nat := if t.origin.isNone then 0 else 1

/-- The origin as text; empty for an in-house tool. -/
def originText (t : ToolIdentity) : String := t.origin.getD ""

/-- By name, then by origin, an in-house tool first. -/
instance : Ord ToolIdentity :=
  ⟨compareLex (compareOn name) (compareLex (compareOn originRank) (compareOn originText))⟩

instance : Std.TransOrd ToolIdentity :=
  inferInstanceAs (Std.TransCmp
    (compareLex (compareOn name) (compareLex (compareOn originRank) (compareOn originText))))

instance : Std.LawfulEqOrd ToolIdentity where
  eq_of_compare {a b} h := by
    have h' : (compare a.name b.name).then ((compare a.originRank b.originRank).then
        (compare a.originText b.originText)) = .eq := h
    rw [Ordering.then_eq_eq, Ordering.then_eq_eq] at h'
    have hn := Std.LawfulEqOrd.eq_of_compare h'.1
    have hr := Std.LawfulEqOrd.eq_of_compare h'.2.1
    have ht := Std.LawfulEqOrd.eq_of_compare h'.2.2
    obtain ⟨na, oa⟩ := a
    obtain ⟨nb, ob⟩ := b
    cases oa <;> cases ob <;> simp_all [originRank, originText]

/-- Whether the first identity comes no later than the second. -/
def le (a b : ToolIdentity) : Bool := (compare a b).isLE

end ToolIdentity

end ToolAccess
