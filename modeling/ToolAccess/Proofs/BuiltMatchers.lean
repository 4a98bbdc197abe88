import Mathlib.Data.List.Induction
import ToolAccess.Matcher

/-!
# What a built matcher accepts

A matcher is built step by step: each step gives a list of entries for one of the four criteria, in
any order and any number of times. What counts of the steps is, for each criterion, the last list
that was given for it, and an empty list takes the criterion back (`BuildStep.lastGiven?`). The
matcher is the conjunction of what is left: `Criteria.Holds` says so without the matcher.

## What the proof rests on

* **One step** sets the criterion it is for and leaves the other three (`names_after` and its
  siblings), so by induction on the steps each criterion is read off its own steps
  (`criterion?_built`). The induction is the same for all four, and is done once.
* **No criterion is set without entries.** A list without entries makes a set without members, and
  then the criterion counts as not set. Otherwise "all required tags" would hold of every tool, and
  a matcher whose lists are all empty would accept everything.

The main result is `ToolMatcher.built_is_conjunction`.
-/

namespace ToolAccess

/-- The set of a list is empty if and only if the list is. -/
theorem SortedSet.isEmpty_ofList {α : Type} [Ord α] [Std.TransOrd α] [Std.LawfulEqOrd α]
    (l : List α) : (ofList l).isEmpty = l.isEmpty := by
  rw [isEmpty, Bool.eq_iff_iff, List.isEmpty_iff, List.isEmpty_iff,
    List.eq_nil_iff_forall_not_mem, List.eq_nil_iff_forall_not_mem]
  exact forall_congr' fun a ↦ not_congr mem_ofList

/-! ### Steps -/

/-- A step in building a matcher: entries for one of the criteria. -/
inductive BuildStep where
  | names (patterns : List NamePattern)
  | tagsAll (tags : List Tag)
  | tagsAny (tags : List Tag)
  | origins (ids : List String)

namespace BuildStep

/-- The patterns for the name, if the step gives these. -/
def names? : BuildStep → Option (List NamePattern)
  | names patterns => some patterns
  | _ => none

/-- The tags that must all be present, if the step gives these. -/
def tagsAll? : BuildStep → Option (List Tag)
  | tagsAll tags => some tags
  | _ => none

/-- The tags of which one must be present, if the step gives these. -/
def tagsAny? : BuildStep → Option (List Tag)
  | tagsAny tags => some tags
  | _ => none

/-- The origins, if the step gives these. -/
def origins? : BuildStep → Option (List String)
  | origins ids => some ids
  | _ => none

/-- The list that the last step for a criterion gave; nothing if no step was for it, or if that list
is empty. -/
def lastGiven? {α : Type} (entries? : BuildStep → Option (List α)) (steps : List BuildStep) :
    Option (List α) :=
  (steps.filterMap entries?).getLast?.filter (!·.isEmpty)

end BuildStep

/-! ### Criteria -/

/-- The four criteria, each with its entries if it is set. -/
structure Criteria where
  names : Option (List NamePattern)
  tagsAll : Option (List Tag)
  tagsAny : Option (List Tag)
  origins : Option (List String)

namespace Criteria

/-- What the last steps for each criterion gave. -/
def ofSteps (steps : List BuildStep) : Criteria where
  names := BuildStep.lastGiven? BuildStep.names? steps
  tagsAll := BuildStep.lastGiven? BuildStep.tagsAll? steps
  tagsAny := BuildStep.lastGiven? BuildStep.tagsAny? steps
  origins := BuildStep.lastGiven? BuildStep.origins? steps

/-- No criterion is set. -/
structure Unset (c : Criteria) : Prop where
  names : c.names = none
  tagsAll : c.tagsAll = none
  tagsAny : c.tagsAny = none
  origins : c.origins = none

/-- A criterion is set, and all that are set hold of a tool with these tags. -/
structure Holds (c : Criteria) (tool : ToolIdentity) (tags : TagSet) : Prop where
  isSet : ¬ c.Unset
  names : ∀ patterns, c.names = some patterns → ∃ p ∈ patterns, p.accepts tool.name = true
  tagsAll : ∀ required, c.tagsAll = some required → ∀ tag ∈ required, tag ∈ tags
  tagsAny : ∀ wanted, c.tagsAny = some wanted → ∃ tag ∈ wanted, tag ∈ tags
  origins : ∀ ids, c.origins = some ids → ∃ origin, tool.origin = some origin ∧ origin ∈ ids

/-- More tags never make a criterion fail: the tags that are asked for are still there. -/
theorem Holds.mono {c : Criteria} {tool : ToolIdentity} {tags more : TagSet}
    (h : c.Holds tool tags) (hmore : ∀ tag ∈ tags, tag ∈ more) : c.Holds tool more where
  isSet := h.isSet
  names := h.names
  tagsAll required hrequired tag htag := hmore tag (h.tagsAll required hrequired tag htag)
  tagsAny wanted hwanted := by
    obtain ⟨tag, htag, hpresent⟩ := h.tagsAny wanted hwanted
    exact ⟨tag, htag, hmore tag hpresent⟩
  origins := h.origins

/-- An in-house tool has no origin to be among those that are listed. -/
theorem Holds.origins_eq_none {c : Criteria} {tool : ToolIdentity} {tags : TagSet}
    (h : c.Holds tool tags) (hinHouse : tool.origin = none) : c.origins = none := by
  rcases horigins : c.origins with - | ids
  · rfl
  · obtain ⟨origin, horigin, -⟩ := h.origins ids horigins
    rw [hinHouse] at horigin
    cases horigin

end Criteria

namespace ToolMatcher

/-- A collection as a criterion, which is not set if the collection is empty. -/
def criterion? {β : Type} (isEmpty : β → Bool) (entries : β) : Option β :=
  if isEmpty entries then none else some entries

/-- The criterion on names, if it is set. -/
def names? (m : ToolMatcher) : Option (List NamePattern) := criterion? List.isEmpty m.names

/-- The criterion on tags that must all be present, if it is set. -/
def tagsAll? (m : ToolMatcher) : Option TagSet := criterion? SortedSet.isEmpty m.tagsAll

/-- The criterion on tags of which one must be present, if it is set. -/
def tagsAny? (m : ToolMatcher) : Option TagSet := criterion? SortedSet.isEmpty m.tagsAny

/-- The criterion on origins, if it is set. -/
def origins? (m : ToolMatcher) : Option (SortedSet String) :=
  criterion? SortedSet.isEmpty m.origins

/-- The matcher after one more step. -/
def after (m : ToolMatcher) : BuildStep → ToolMatcher
  | .names patterns => m.withNames patterns
  | .tagsAll tags => m.withTagsAll tags
  | .tagsAny tags => m.withTagsAny tags
  | .origins ids => m.withOrigins ids

/-- The matcher that steps build, starting without criteria. -/
def built (steps : List BuildStep) : ToolMatcher := steps.foldl after empty

/-! ### What steps set -/

theorem names_after (m : ToolMatcher) (step : BuildStep) :
    (m.after step).names = (step.names?.map id).getD m.names := by
  cases step <;> rfl

theorem tagsAll_after (m : ToolMatcher) (step : BuildStep) :
    (m.after step).tagsAll = (step.tagsAll?.map .of).getD m.tagsAll := by
  cases step <;> rfl

theorem tagsAny_after (m : ToolMatcher) (step : BuildStep) :
    (m.after step).tagsAny = (step.tagsAny?.map .of).getD m.tagsAny := by
  cases step <;> rfl

theorem origins_after (m : ToolMatcher) (step : BuildStep) :
    (m.after step).origins = (step.origins?.map .ofList).getD m.origins := by
  cases step <;> rfl

section Steps

variable {α β : Type} {field : ToolMatcher → β} {entries? : BuildStep → Option (List α)}
  {make : List α → β}

/-- A part of the matcher that each step sets to the entries it gives, or else leaves alone, is at
the end what the last step for it made of it. -/
theorem field_built
    (hstep : ∀ m step, field (after m step) = ((entries? step).map make).getD (field m))
    (steps : List BuildStep) :
    field (built steps) = ((steps.filterMap entries?).getLast?.map make).getD (field empty) := by
  induction steps using List.reverseRecOn with
  | nil => rfl
  | append_singleton steps step ih =>
    rw [built, List.foldl_append, List.filterMap_append]
    show field (after (built steps) step) = _
    rw [hstep, ih]
    rcases hgiven : entries? step with - | entries
    · simp [hgiven]
    · simp [hgiven]

/-- Seen as a criterion, such a part is what the last step for it gave. -/
theorem criterion?_built {isEmpty : β → Bool}
    (hstep : ∀ m step, field (after m step) = ((entries? step).map make).getD (field m))
    (hempty : isEmpty (field empty) = true)
    (hmake : ∀ entries, isEmpty (make entries) = entries.isEmpty) (steps : List BuildStep) :
    criterion? isEmpty (field (built steps)) = (BuildStep.lastGiven? entries? steps).map make := by
  rw [field_built hstep, BuildStep.lastGiven?, criterion?]
  rcases (steps.filterMap entries?).getLast? with - | entries
  · rw [Option.map_none, Option.getD_none, if_pos hempty]
    rfl
  · rw [Option.map_some, Option.getD_some, hmake, Option.filter_some]
    cases entries.isEmpty <;> rfl

end Steps

theorem names?_built (steps : List BuildStep) :
    (built steps).names? = (Criteria.ofSteps steps).names := by
  have h : criterion? List.isEmpty (built steps).names = _ :=
    criterion?_built names_after rfl (fun _ ↦ rfl) steps
  rwa [Option.map_id] at h

theorem tagsAll?_built (steps : List BuildStep) :
    (built steps).tagsAll? = (Criteria.ofSteps steps).tagsAll.map .of :=
  criterion?_built tagsAll_after rfl SortedSet.isEmpty_ofList steps

theorem tagsAny?_built (steps : List BuildStep) :
    (built steps).tagsAny? = (Criteria.ofSteps steps).tagsAny.map .of :=
  criterion?_built tagsAny_after rfl SortedSet.isEmpty_ofList steps

theorem origins?_built (steps : List BuildStep) :
    (built steps).origins? = (Criteria.ofSteps steps).origins.map .ofList :=
  criterion?_built origins_after rfl SortedSet.isEmpty_ofList steps

/-! ### What matchers accept -/

section Accepts

variable {m : ToolMatcher} {tool : ToolIdentity} {tags : TagSet}

theorem criterion?_eq_none_iff {β : Type} {isEmpty : β → Bool} {entries : β} :
    criterion? isEmpty entries = none ↔ isEmpty entries = true := by
  rw [criterion?]
  split <;> simp_all

/-- What a criterion asks for is asked for where it is set. -/
theorem forall_criterion?_iff {β : Type} {isEmpty : β → Bool} {entries : β} {P : β → Prop} :
    (∀ b, criterion? isEmpty entries = some b → P b) ↔ (isEmpty entries = true ∨ P entries) := by
  rw [criterion?]
  split <;> simp_all

theorem isEmpty_iff : m.isEmpty = true ↔
    m.names? = none ∧ m.tagsAll? = none ∧ m.tagsAny? = none ∧ m.origins? = none := by
  simp only [isEmpty, Bool.and_eq_true, names?, tagsAll?, tagsAny?, origins?,
    criterion?_eq_none_iff, and_assoc]

theorem nameHolds_iff : m.nameHolds tool.name = true ↔
    ∀ patterns, m.names? = some patterns → ∃ p ∈ patterns, p.accepts tool.name = true := by
  rw [names?, forall_criterion?_iff, nameHolds, Bool.or_eq_true, List.any_eq_true]

/-- Required tags that are none at all are present in any set, whether or not one looks. -/
theorem isSubset_tagsAll_iff : m.tagsAll.isSubset tags = true ↔
    ∀ required, m.tagsAll? = some required → ∀ tag ∈ required, tag ∈ tags := by
  rw [tagsAll?, forall_criterion?_iff, SortedSet.isSubset_iff]
  refine (or_iff_right_of_imp fun hempty tag htag ↦ ?_).symm
  rw [SortedSet.mem_def, List.isEmpty_iff.1 hempty] at htag
  cases htag

theorem anyTagHolds_iff : m.anyTagHolds tags = true ↔
    ∀ wanted, m.tagsAny? = some wanted → ∃ tag ∈ wanted, tag ∈ tags := by
  rw [tagsAny?, forall_criterion?_iff, anyTagHolds, Bool.or_eq_true, Bool.not_eq_true',
    ← Bool.not_eq_true, SortedSet.isDisjoint_iff]
  simp

theorem originHolds_iff : m.originHolds tool.origin = true ↔
    ∀ ids, m.origins? = some ids → ∃ origin, tool.origin = some origin ∧ origin ∈ ids := by
  rw [origins?, forall_criterion?_iff, originHolds.eq_def, Bool.or_eq_true]
  refine or_congr Iff.rfl ?_
  rcases tool.origin with - | origin
  · simp
  · simp

/-- **A matcher is the conjunction of its criteria**, and accepts nothing without one. -/
theorem accepts_iff : m.accepts tool tags = true ↔
    ¬ (m.names? = none ∧ m.tagsAll? = none ∧ m.tagsAny? = none ∧ m.origins? = none) ∧
    (∀ patterns, m.names? = some patterns → ∃ p ∈ patterns, p.accepts tool.name = true) ∧
    (∀ required, m.tagsAll? = some required → ∀ tag ∈ required, tag ∈ tags) ∧
    (∀ wanted, m.tagsAny? = some wanted → ∃ tag ∈ wanted, tag ∈ tags) ∧
    ∀ ids, m.origins? = some ids → ∃ origin, tool.origin = some origin ∧ origin ∈ ids := by
  rw [accepts, Bool.and_eq_true, Bool.and_eq_true, Bool.and_eq_true, Bool.and_eq_true,
    Bool.not_eq_true', ← Bool.not_eq_true, isEmpty_iff, nameHolds_iff, isSubset_tagsAll_iff,
    anyTagHolds_iff, originHolds_iff]
  simp only [and_assoc]

end Accepts

/-! ### Built matchers -/

theorem isEmpty_built_iff (steps : List BuildStep) :
    (built steps).isEmpty = true ↔ (Criteria.ofSteps steps).Unset := by
  rw [isEmpty_iff, names?_built, tagsAll?_built, tagsAny?_built, origins?_built]
  simp only [Option.map_eq_none_iff]
  constructor
  · rintro ⟨hnames, hall, hany, horigins⟩
    exact ⟨hnames, hall, hany, horigins⟩
  · rintro ⟨hnames, hall, hany, horigins⟩
    exact ⟨hnames, hall, hany, horigins⟩

/-- The sets that a matcher keeps have the members of the lists that were given. -/
theorem accepts_built_iff (steps : List BuildStep) (tool : ToolIdentity) (tags : TagSet) :
    (built steps).accepts tool tags = true ↔ (Criteria.ofSteps steps).Holds tool tags := by
  rw [accepts_iff, ← isEmpty_iff, isEmpty_built_iff, names?_built, tagsAll?_built, tagsAny?_built,
    origins?_built]
  simp only [Option.map_eq_some_iff, forall_exists_index, and_imp, forall_apply_eq_imp_iff₂,
    TagSet.of, SortedSet.mem_ofList]
  constructor
  · rintro ⟨hset, hnames, hall, hany, horigins⟩
    exact ⟨hset, hnames, hall, hany, horigins⟩
  · rintro ⟨hset, hnames, hall, hany, horigins⟩
    exact ⟨hset, hnames, hall, hany, horigins⟩

/-- **A built matcher is the conjunction of the criteria that were given last.** Take any steps, in
any order, and for each criterion the last list that was given for it.

* A criterion of the matcher is set to the entries of this list, and is not set if the list is
  empty or if there is none.
* The matcher has no criterion if and only if none of the four is set.
* It accepts a tool with certain tags if and only if some criterion is set and each one that is set
  holds: a pattern accepts the name, all required tags are present, one of the wanted tags is
  present, the tool has an origin and that is listed.
* So an in-house tool is not accepted where origins are listed, nothing is accepted without a
  criterion, and a tool that is accepted still is with more tags. -/
theorem built_is_conjunction (steps : List BuildStep) :
    let m := built steps
    let given := Criteria.ofSteps steps
    (m.names? = given.names ∧ m.tagsAll? = given.tagsAll.map .of ∧
      m.tagsAny? = given.tagsAny.map .of ∧ m.origins? = given.origins.map .ofList) ∧
    (m.isEmpty = true ↔ given.Unset) ∧
    (∀ tool tags, m.accepts tool tags = true ↔ given.Holds tool tags) ∧
    (∀ tool tags, given.origins ≠ none → tool.isInHouse = true → m.accepts tool tags = false) ∧
    (given.Unset → ∀ tool tags, m.accepts tool tags = false) ∧
    ∀ tool tags more, (∀ tag ∈ tags, tag ∈ more) → m.accepts tool tags = true →
      m.accepts tool more = true := by
  intro m given
  have haccepts := accepts_built_iff steps
  refine ⟨⟨names?_built steps, tagsAll?_built steps, tagsAny?_built steps, origins?_built steps⟩,
    isEmpty_built_iff steps, haccepts, fun tool tags horigins hinHouse ↦ ?_,
    fun hunset tool tags ↦ ?_, fun tool tags more hmore h ↦ ?_⟩
  · rw [← Bool.not_eq_true, haccepts]
    exact fun hholds ↦ horigins (hholds.origins_eq_none (Option.isNone_iff_eq_none.1 hinHouse))
  · rw [← Bool.not_eq_true, haccepts]
    exact fun hholds ↦ hholds.isSet hunset
  · exact (haccepts tool more).2 (((haccepts tool tags).1 h).mono hmore)

end ToolMatcher

end ToolAccess
