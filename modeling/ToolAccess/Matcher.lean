import ToolAccess.Glob.Search
import ToolAccess.Identity
import ToolAccess.Tag

/-!
# Tool matchers

A matcher is the condition of a policy rule. It has up to four criteria: patterns of which one
must match the tool's name, tags that must all be present, tags of which one must be present, and
origins of which one must be the tool's. A criterion without entries is not set. A tool is
accepted when some criterion is set and every criterion that is set holds, so a matcher without
criteria accepts nothing.
-/

namespace ToolAccess

/-- A condition on a tool's identity and tags. -/
structure ToolMatcher where
  /-- Patterns of which one must match the name. -/
  names : List NamePattern
  /-- Tags that must all be present. -/
  tagsAll : TagSet
  /-- Tags of which one must be present. -/
  tagsAny : TagSet
  /-- Origins of which one must be the tool's. -/
  origins : SortedSet String
  deriving DecidableEq, Inhabited

namespace ToolMatcher

/-- The matcher without criteria. -/
def empty : ToolMatcher := ⟨[], ∅, ∅, ∅⟩

/-- The matcher with these name patterns. -/
def withNames (m : ToolMatcher) (patterns : List NamePattern) : ToolMatcher :=
  { m with names := patterns }

/-- The matcher that requires all of these tags. -/
def withTagsAll (m : ToolMatcher) (tags : List Tag) : ToolMatcher :=
  { m with tagsAll := .of tags }

/-- The matcher that requires one of these tags. -/
def withTagsAny (m : ToolMatcher) (tags : List Tag) : ToolMatcher :=
  { m with tagsAny := .of tags }

/-- The matcher that requires one of these origins. -/
def withOrigins (m : ToolMatcher) (origins : List String) : ToolMatcher :=
  { m with origins := SortedSet.ofList origins }

/-- Whether no criterion is set. -/
def isEmpty (m : ToolMatcher) : Bool :=
  m.names.isEmpty && m.tagsAll.isEmpty && m.tagsAny.isEmpty && m.origins.isEmpty

/-- The criterion on names holds or is not set. -/
def nameHolds (m : ToolMatcher) (name : String) : Bool :=
  m.names.isEmpty || m.names.any (·.accepts name)

/-- The criterion on tags of which one is wanted holds or is not set. -/
def anyTagHolds (m : ToolMatcher) (tags : TagSet) : Bool :=
  m.tagsAny.isEmpty || !m.tagsAny.isDisjoint tags

/-- The criterion on origins holds or is not set. An in-house tool never satisfies it. -/
def originHolds (m : ToolMatcher) (origin : Option String) : Bool :=
  m.origins.isEmpty || match origin with
    | some o => decide (o ∈ m.origins)
    | none => false

/-- Whether the matcher accepts a tool with these tags. -/
def accepts (m : ToolMatcher) (tool : ToolIdentity) (tags : TagSet) : Bool :=
  !m.isEmpty && m.nameHolds tool.name && m.tagsAll.isSubset tags && m.anyTagHolds tags &&
    m.originHolds tool.origin

/-- How one criterion is shown; nothing if it is not set. -/
def displayCriterion (label : String) (entries : List String) : List String :=
  if entries.isEmpty then [] else [label ++ "=[" ++ ", ".intercalate entries ++ "]"]

/-- How a matcher is shown. -/
def display (m : ToolMatcher) : String :=
  if m.isEmpty then "<never>"
  else " ".intercalate <|
    displayCriterion "names" (m.names.map (·.text)) ++
    displayCriterion "tags_all" m.tagsAll.spellings ++
    displayCriterion "tags_any" m.tagsAny.spellings ++
    displayCriterion "origins" m.origins.toList

end ToolMatcher

end ToolAccess
