import ToolAccess.Sorted.Set

/-!
# Tags

A tag is a label on a tool that policy rules can ask for: what the tool is able to do, whether
its output may be trusted, or a functional group that a deployment declares. The first two kinds
are built in. A built-in tag has a canonical spelling in kebab case and an alias in snake case
(`Tag.builtin?`); a group is spelled as it is named. A group that is named like a built-in tag
is a tag of its own: it prints like the built-in one and is not equal to it.

Sets of tags list the built-in tags first, in the order of their declaration, then the groups by
name.
-/

namespace ToolAccess

/-- A security-relevant label on a tool. -/
inductive Tag where
  /-- Only reads state. -/
  | readOnly
  /-- Changes state. -/
  | stateChanging
  /-- Deletes or overwrites state for good. -/
  | destructive
  /-- Runs arbitrary code. -/
  | codeExecution
  /-- Talks to parties outside the deployment. -/
  | externalComm
  /-- Output comes from trusted sources only. -/
  | outputTrusted
  /-- Output may be under an attacker's control. -/
  | outputUntrusted
  /-- Nobody declared how far the output may be trusted. -/
  | trustUnspecified
  /-- A functional group that a deployment declares. -/
  | group (name : String)
  deriving DecidableEq, Repr, Inhabited

/-- The family a tag belongs to. -/
inductive TagFamily where
  /-- What the tool is able to do. -/
  | capability
  /-- Whether the tool's output may be trusted. -/
  | outputTrust
  /-- A group declared by the deployment. -/
  | functionalGroup
  deriving DecidableEq, Repr

/-- The name of a family. -/
def TagFamily.name : TagFamily → String
  | .capability => "capability"
  | .outputTrust => "output-trust"
  | .functionalGroup => "functional-group"

namespace Tag

/-- The built-in tag with the given spelling, canonical or in snake case. -/
def builtin? : String → Option Tag
  | "read-only" | "read_only" => some readOnly
  | "state-changing" | "state_changing" => some stateChanging
  | "destructive" => some destructive
  | "code-execution" | "code_execution" => some codeExecution
  | "external-comm" | "external_comm" => some externalComm
  | "output-trusted" | "output_trusted" => some outputTrusted
  | "output-untrusted" | "output_untrusted" => some outputUntrusted
  | "trust-unspecified" | "trust_unspecified" => some trustUnspecified
  | _ => none

/-- The canonical spelling. -/
def spelling : Tag → String
  | readOnly => "read-only"
  | stateChanging => "state-changing"
  | destructive => "destructive"
  | codeExecution => "code-execution"
  | externalComm => "external-comm"
  | outputTrusted => "output-trusted"
  | outputUntrusted => "output-untrusted"
  | trustUnspecified => "trust-unspecified"
  | group name => name

/-- The family of a tag. -/
def family : Tag → TagFamily
  | readOnly | stateChanging | destructive | codeExecution | externalComm => .capability
  | outputTrusted | outputUntrusted | trustUnspecified => .outputTrust
  | group _ => .functionalGroup

/-! ### The order of tags -/

/-- The place of a tag in the order of declaration; all groups share the last place. -/
def rank : Tag → Nat
  | readOnly => 0
  | stateChanging => 1
  | destructive => 2
  | codeExecution => 3
  | externalComm => 4
  | outputTrusted => 5
  | outputUntrusted => 6
  | trustUnspecified => 7
  | group _ => 8

/-- By rank, and groups among themselves by name. -/
instance : Ord Tag := ⟨compareLex (compareOn rank) (compareOn spelling)⟩

instance : Std.TransOrd Tag :=
  inferInstanceAs (Std.TransCmp (compareLex (compareOn rank) (compareOn spelling)))

theorem eq_of_rank_eq_of_spelling_eq {a b : Tag} (hr : a.rank = b.rank)
    (hs : a.spelling = b.spelling) : a = b := by
  cases a <;> cases b <;> simp_all [rank, spelling]

instance : Std.LawfulEqOrd Tag where
  eq_of_compare {a b} h := by
    have h' : (compare a.rank b.rank).then (compare a.spelling b.spelling) = .eq := h
    rw [Ordering.then_eq_eq] at h'
    exact eq_of_rank_eq_of_spelling_eq (Std.LawfulEqOrd.eq_of_compare h'.1)
      (Std.LawfulEqOrd.eq_of_compare h'.2)

end Tag

/-- The tags of a tool. -/
abbrev TagSet := SortedSet Tag

namespace TagSet

/-- The tag set of a list of tags. -/
def of (tags : List Tag) : TagSet := SortedSet.ofList tags

/-- The spellings of the members, in the order of the set. -/
def spellings (s : TagSet) : List String := s.toList.map Tag.spelling

/-- What is known of a tool that nobody described: its output's trust was not specified. -/
def unspecified : TagSet := of [.trustUnspecified]

end TagSet

end ToolAccess
