import ToolAccess.Vocabulary

/-!
# Taint

A turn of the conversation is tainted to the degree that untrusted content has entered it. The
levels are ordered, and the level of a turn never falls: `TaintLevel.raise` is the maximum. What a
tool's output does to the level depends on the tool's tags alone (`TagSet.outputTaint?`).
-/

namespace ToolAccess

/-- How far untrusted content has entered a turn. -/
inductive TaintLevel where
  /-- Not at all. -/
  | trusted
  /-- Only through some step that cleans it. -/
  | partiallyTainted
  /-- Raw. -/
  | untrusted
  deriving DecidableEq, Repr, Inhabited

namespace TaintLevel

/-- The word for a level. -/
def spelling : TaintLevel → String
  | trusted => "trusted"
  | partiallyTainted => "partially_tainted"
  | untrusted => "untrusted"

/-- All levels, from low to high. -/
def all : List TaintLevel := [trusted, partiallyTainted, untrusted]

/-- The level that a word stands for; the middle one may be written with a hyphen. -/
def parse : String → Except UnknownWord TaintLevel
  | "trusted" => .ok trusted
  | "partially_tainted" | "partially-tainted" => .ok partiallyTainted
  | "untrusted" => .ok untrusted
  | word => .error ⟨.taintLevel, word⟩

@[simp] theorem parse_spelling (t : TaintLevel) : parse t.spelling = .ok t := by
  cases t <;> rfl

/-- The height of a level. -/
def rank : TaintLevel → Nat
  | trusted => 0
  | partiallyTainted => 1
  | untrusted => 2

instance : LE TaintLevel := ⟨fun a b ↦ a.rank ≤ b.rank⟩

instance : LT TaintLevel := ⟨fun a b ↦ a.rank < b.rank⟩

instance (a b : TaintLevel) : Decidable (a ≤ b) := inferInstanceAs (Decidable (a.rank ≤ b.rank))

instance (a b : TaintLevel) : Decidable (a < b) := inferInstanceAs (Decidable (a.rank < b.rank))

theorem le_def {a b : TaintLevel} : a ≤ b ↔ a.rank ≤ b.rank := Iff.rfl

theorem rank_inj {a b : TaintLevel} : a.rank = b.rank ↔ a = b := by
  cases a <;> cases b <;> simp [rank]

/-- The higher of two levels: what a turn at the first is at after meeting the second. -/
def raise (current level : TaintLevel) : TaintLevel :=
  if current < level then level else current

theorem rank_raise (a b : TaintLevel) : (a.raise b).rank = max a.rank b.rank := by
  cases a <;> cases b <;> rfl

theorem le_raise (a b : TaintLevel) : a ≤ a.raise b := by
  cases a <;> cases b <;> decide

end TaintLevel

/-- The level that a turn rises to on reading the output of a tool with these tags, if any.
Output that is untrusted, or of which nobody specified the trust, taints the turn unless the tool
is declared to give trusted output as well. -/
def TagSet.outputTaint? (tags : TagSet) : Option TaintLevel :=
  if (.outputUntrusted ∈ tags ∨ .trustUnspecified ∈ tags) ∧ .outputTrusted ∉ tags then
    some .untrusted
  else
    none

/-- The level of a turn after the output of a tool with these tags has entered it. -/
def TaintLevel.afterOutput (level : TaintLevel) (tags : TagSet) : TaintLevel :=
  match tags.outputTaint? with
  | some target => level.raise target
  | none => level

end ToolAccess
