import ToolAccess.Engine
import ToolAccess.Proofs.DecidingRule

/-!
# Layers decide like one list

An engine merges the layers of a policy into one list of rules once, when it is built. Here the
evaluation is described from the layers themselves, as a reader of the documents sees them: the
rules of the overrides, of the turn's profile and of the defaults **contend**, each with the place
at which its own document declares it, and of those that contend one **prevails**.

What the description does not mention is as important as what it does. It knows no merged list, no
lifted copy of a rule and no pass over rules: the effective priority is a number, clamped to the
range of priorities by `min` and `max`, ties are settled by the tier of the layer and then by the
place in its document, and the other profiles do not occur at all.

## How the two meet

`placed` sends a contender to the rule that stands for it in the merged list.

* `mem_applicable_merge_iff`: the rules that apply in the merged list are exactly the images of the
  contenders, so merging neither loses a rule nor invents one.
* `placed_outranks_iff`: outranking in the merged list is preceding among the contenders. This is
  where the order in which the lists are concatenated does its work: `ahead_le_of_rank_lt` says that
  the rules of a tier end before those of the next begin.

With these two, `evaluate_ofLayers` reads the deciding rule off `RuleSet.explain_of_outranks_all`.
-/

namespace ToolAccess

namespace LayerStack

/-! ### The rules that contend -/

/-- Where a rule is declared. -/
inductive Tier where
  | overrides
  | profile
  | defaults
  deriving DecidableEq, Repr

/-- The order in which the tiers count where priorities are equal. -/
def Tier.rank : Tier → Nat
  | overrides => 0
  | profile => 1
  | defaults => 2

theorem Tier.rank_inj {a b : Tier} : a.rank = b.rank ↔ a = b := by
  cases a <;> cases b <;> simp [rank]

/-- A rule with its tier and its place among the rules that the layer of this tier declares. -/
structure Contender where
  tier : Tier
  place : Nat
  rule : Rule

/-- The rules of one tier as they are declared. -/
def rulesOf (l : LayerStack) : Tier → List Rule
  | .overrides => l.overrides.rules
  | .profile => l.profileRules
  | .defaults => l.defaults.rules

/-- The contender is declared in one of the layers. -/
def Declares (l : LayerStack) (c : Contender) : Prop :=
  (l.rulesOf c.tier)[c.place]? = some c.rule

/-- The contender is declared in one of the layers, is active at the taint and matches the tool. -/
structure Contends (l : LayerStack) (taint : TaintLevel) (tool : ToolIdentity) (tags : TagSet)
    (c : Contender) : Prop where
  declared : l.Declares c
  active : c.rule.isActiveAt taint = true
  matching : c.rule.matcher.accepts tool tags = true

/-- The priority that counts: that of an override is raised by the offset, within the range of
64-bit integers. -/
def Contender.effectivePriority (offset : Int64) (c : Contender) : Int :=
  match c.tier with
  | .overrides =>
    max Int64.minValue.toInt (min Int64.maxValue.toInt (c.rule.priority.toInt + offset.toInt))
  | .profile | .defaults => c.rule.priority.toInt

/-- By effective priority, then by tier, then by the order of declaration. -/
def Contender.Precedes (offset : Int64) (c d : Contender) : Prop :=
  d.effectivePriority offset < c.effectivePriority offset ∨
    c.effectivePriority offset = d.effectivePriority offset ∧
      (c.tier.rank < d.tier.rank ∨ c.tier = d.tier ∧ c.place ≤ d.place)

/-- The contender precedes all others. -/
structure Prevails (l : LayerStack) (offset : Int64) (taint : TaintLevel) (tool : ToolIdentity)
    (tags : TagSet) (c : Contender) : Prop where
  contends : l.Contends taint tool tags c
  first : ∀ d, l.Contends taint tool tags d → c.Precedes offset d

/-- The number of rules that stand in front of those of a tier. -/
def ahead (l : LayerStack) : Tier → Nat
  | .overrides => 0
  | .profile => l.overrides.rules.length
  | .defaults => l.overrides.rules.length + l.profileRules.length

/-- The place of a contender when the overrides, the profile and the defaults are read one after the
other. -/
def position (l : LayerStack) (c : Contender) : Nat := l.ahead c.tier + c.place

/-- The decision for tools that no rule is about: the first that one of the layers declares. -/
def declaredFallback (l : LayerStack) : Decision :=
  ([l.profile.bind (·.fallback), l.overrides.fallback, l.defaults.fallback].findSome? id).getD .deny

variable {l : LayerStack} {offset : Int64} {taint : TaintLevel} {tool : ToolIdentity}
  {tags : TagSet}

theorem Declares.place_lt {c : Contender} (h : l.Declares c) :
    c.place < (l.rulesOf c.tier).length :=
  (List.getElem?_eq_some_iff.1 h).1

/-- The rules of a tier end before those of a later tier begin. -/
theorem ahead_le_of_rank_lt {a b : Tier} (h : a.rank < b.rank) :
    l.ahead a + (l.rulesOf a).length ≤ l.ahead b := by
  cases a <;> cases b <;> simp_all [Tier.rank, ahead, rulesOf]

/-- Reading the layers one after the other orders the rules by tier and then by place. -/
theorem position_le_iff {c d : Contender} (hc : l.Declares c) (hd : l.Declares d) :
    l.position c ≤ l.position d ↔
      c.tier.rank < d.tier.rank ∨ c.tier = d.tier ∧ c.place ≤ d.place := by
  have hplace := hc.place_lt
  have hplace' := hd.place_lt
  rcases Nat.lt_trichotomy c.tier.rank d.tier.rank with hlt | heq | hgt
  · have := ahead_le_of_rank_lt (l := l) hlt
    simp only [position]
    omega
  · have htier := Tier.rank_inj.1 heq
    simp only [position, htier, true_and, Nat.lt_irrefl, false_or]
    omega
  · have := ahead_le_of_rank_lt (l := l) hgt
    have hne : c.tier ≠ d.tier := fun h ↦ by rw [h] at hgt; omega
    simp only [position, hne, false_and, or_false]
    omega

/-- A tier and a place belong to one rule only. -/
theorem Declares.eq {c d : Contender} (hc : l.Declares c) (hd : l.Declares d)
    (htier : c.tier = d.tier) (hplace : c.place = d.place) : c = d := by
  obtain ⟨tier, place, rule⟩ := c
  obtain ⟨tier', place', rule'⟩ := d
  obtain rfl : tier = tier' := htier
  obtain rfl : place = place' := hplace
  obtain rfl : rule = rule' := Option.some.inj (hc.symm.trans hd)
  rfl

/-- Only one contender prevails. -/
theorem Prevails.eq {c d : Contender} (hc : l.Prevails offset taint tool tags c)
    (hd : l.Prevails offset taint tool tags d) : c = d := by
  have hcd := hc.first d hd.contends
  have hdc := hd.first c hc.contends
  rw [Contender.Precedes, ← Tier.rank_inj] at hcd hdc
  have htier : c.tier = d.tier := Tier.rank_inj.1 (by omega)
  exact hc.contends.declared.eq hd.contends.declared htier (by omega)

/-! ### The merged list -/

/-- The contender's rule, changed if it is an override. -/
def Contender.mapOverride (f : Rule → Rule) (c : Contender) : Rule :=
  match c.tier with
  | .overrides => f c.rule
  | .profile | .defaults => c.rule

@[simp] theorem Contender.mapOverride_id (c : Contender) : c.mapOverride id = c.rule := by
  obtain ⟨tier, place, rule⟩ := c
  cases tier <;> rfl

/-- The rule that stands for a contender in the merged list. -/
def Contender.merged (offset : Int64) (c : Contender) : Rule := c.mapOverride (Rule.lift offset)

/-- The rule that stands for a contender in the merged list, with its place there. -/
def placed (l : LayerStack) (offset : Int64) (c : Contender) : PlacedRule :=
  (c.merged offset, l.position c)

theorem toInt_liftPriority (offset priority : Int64) :
    (liftPriority offset priority).toInt =
      max Int64.minValue.toInt (min Int64.maxValue.toInt (priority.toInt + offset.toInt)) := by
  rw [liftPriority, Int64.ofIntClamp]
  split
  case isTrue hlo =>
    split
    case isTrue hhi =>
      rw [Int64.toInt_ofIntLE]
      omega
    case isFalse hhi =>
      rw [Int64.toInt_minValue, Int64.toInt_maxValue] at *
      omega
  case isFalse hlo => omega

theorem Contender.toInt_merged_priority (offset : Int64) (c : Contender) :
    (c.merged offset).priority.toInt = c.effectivePriority offset := by
  obtain ⟨tier, place, rule⟩ := c
  cases tier with
  | overrides => exact toInt_liftPriority offset rule.priority
  | profile => rfl
  | defaults => rfl

/-- Only its priority tells the rule in the merged list from the one that was declared. -/
theorem Contender.merged_eq (offset : Int64) (c : Contender) :
    c.merged offset = { c.rule with priority := (c.merged offset).priority } := by
  obtain ⟨tier, place, rule⟩ := c
  cases tier <;> rfl

/-- The rule at a place of the layers, read one after the other with the overrides changed, is that
of the contender at this place. -/
theorem getElem?_append_iff {f : Rule → Rule} {i : Nat} {r : Rule} :
    (l.overrides.rules.map f ++ l.profileRules ++ l.defaults.rules)[i]? = some r ↔
      ∃ c, l.Declares c ∧ l.position c = i ∧ c.mapOverride f = r := by
  have hlen : (l.overrides.rules.map f).length = l.overrides.rules.length := List.length_map _
  have hlen' : (l.overrides.rules.map f ++ l.profileRules).length =
      l.overrides.rules.length + l.profileRules.length := by
    rw [List.length_append, hlen]
  constructor
  -- From a place to its contender: the tier is told by where the place lies.
  · intro h
    rcases Nat.lt_or_ge i (l.overrides.rules.length + l.profileRules.length) with hi | hi
    · rw [List.getElem?_append_left (by omega)] at h
      rcases Nat.lt_or_ge i l.overrides.rules.length with hi' | hi'
      · rw [List.getElem?_append_left (by omega), List.getElem?_map] at h
        obtain ⟨rule, hrule, rfl⟩ := Option.map_eq_some_iff.1 h
        exact ⟨⟨.overrides, i, rule⟩, hrule, Nat.zero_add i, rfl⟩
      · rw [List.getElem?_append_right (by omega), hlen] at h
        exact ⟨⟨.profile, i - l.overrides.rules.length, r⟩, h, Nat.add_sub_cancel' hi', rfl⟩
    · rw [List.getElem?_append_right (by omega), hlen'] at h
      exact ⟨⟨.defaults, _, r⟩, h, Nat.add_sub_cancel' hi, rfl⟩
  -- From a contender to its place: each tier skips the lists before it.
  · rintro ⟨⟨tier, place, rule⟩, hc, rfl, rfl⟩
    have hplace := hc.place_lt
    cases tier with
    | overrides =>
      simp only [position, ahead, rulesOf, Nat.zero_add] at hplace ⊢
      rw [List.getElem?_append_left (by omega), List.getElem?_append_left (by omega),
        List.getElem?_map, show l.overrides.rules[place]? = some rule from hc]
      rfl
    | profile =>
      simp only [position, ahead, rulesOf] at hplace ⊢
      rw [List.getElem?_append_left (by omega), List.getElem?_append_right (by omega), hlen,
        Nat.add_sub_cancel_left]
      exact hc
    | defaults =>
      simp only [position, ahead]
      rw [List.getElem?_append_right (by omega), hlen', Nat.add_sub_cancel_left]
      exact hc

/-- The position of a contender is its place in the layers read one after the other. -/
theorem Declares.getElem?_position {c : Contender} (hc : l.Declares c) :
    (l.overrides.rules ++ l.profileRules ++ l.defaults.rules)[l.position c]? = some c.rule := by
  have h := getElem?_append_iff (f := id).2 ⟨c, hc, rfl, c.mapOverride_id⟩
  rwa [List.map_id] at h

/-- **The rules that apply in the merged list are the images of the contenders.** -/
theorem mem_applicable_merge_iff {r : PlacedRule} :
    r ∈ (l.merge offset).applicable taint tool tags ↔
      ∃ c, l.Contends taint tool tags c ∧ l.placed offset c = r := by
  have happlies : ∀ c : Contender, (c.merged offset).applies taint tool tags = true ↔
      c.rule.isActiveAt taint = true ∧ c.rule.matcher.accepts tool tags = true := by
    intro c
    rw [c.merged_eq offset, Rule.applies, Bool.and_eq_true]
    rfl
  rw [RuleSet.mem_applicable_iff, merge, getElem?_append_iff]
  constructor
  · rintro ⟨⟨c, hc, hpos, hrule⟩, h⟩
    rw [← hrule] at h
    obtain ⟨hactive, hmatching⟩ := (happlies c).1 h
    exact ⟨c, ⟨hc, hactive, hmatching⟩, Prod.ext hrule hpos⟩
  · rintro ⟨c, hc, rfl⟩
    exact ⟨⟨c, hc.declared, rfl, rfl⟩, (happlies c).2 ⟨hc.active, hc.matching⟩⟩

/-- **Outranking in the merged list is preceding among the contenders.** -/
theorem placed_outranks_iff {c d : Contender} (hc : l.Declares c) (hd : l.Declares d) :
    (l.placed offset c).Outranks (l.placed offset d) ↔ c.Precedes offset d := by
  rw [PlacedRule.outranks_iff, Contender.Precedes]
  simp only [placed, Contender.toInt_merged_priority]
  rw [position_le_iff hc hd]

/-- The contender that prevails is the one whose rule in the merged list outranks all that apply. -/
theorem explain_merge_of_prevails {c : Contender} (hc : l.Prevails offset taint tool tags c) :
    (l.merge offset).explain tool tags taint = (l.placed offset c).evaluation := by
  refine RuleSet.explain_of_outranks_all (mem_applicable_merge_iff.2 ⟨c, hc.contends, rfl⟩) ?_
  intro r hr
  obtain ⟨d, hd, rfl⟩ := mem_applicable_merge_iff.1 hr
  exact (placed_outranks_iff hc.contends.declared hd.declared).2 (hc.first d hd)

/-- Where a rule contends, one prevails. -/
theorem exists_prevails {c : Contender} (hc : l.Contends taint tool tags c) (offset : Int64) :
    ∃ w, l.Prevails offset taint tool tags w := by
  have hne : (l.merge offset).applicable taint tool tags ≠ [] :=
    List.ne_nil_of_mem (mem_applicable_merge_iff.2 ⟨c, hc, rfl⟩)
  obtain ⟨r, hr, hout⟩ := RuleSet.exists_outranks_all hne
  obtain ⟨w, hw, rfl⟩ := mem_applicable_merge_iff.1 hr
  refine ⟨w, hw, fun d hd ↦ ?_⟩
  exact (placed_outranks_iff hw.declared hd.declared).1
    (hout _ (mem_applicable_merge_iff.2 ⟨d, hd, rfl⟩))

/-- Where no rule contends, the declared fallback counts. -/
theorem explain_merge_of_forall_not (h : ∀ c, ¬ l.Contends taint tool tags c) :
    (l.merge offset).explain tool tags taint = ⟨l.declaredFallback, none⟩ := by
  have hnil : (l.merge offset).applicable taint tool tags = [] := by
    refine List.eq_nil_iff_forall_not_mem.2 fun r hr ↦ ?_
    obtain ⟨c, hc, -⟩ := mem_applicable_merge_iff.1 hr
    exact h c hc
  have hfallback : (l.merge offset).fallback = l.declaredFallback := by
    simp only [merge, fallback, declaredFallback]
    cases l.profile.bind (·.fallback) <;> cases l.overrides.fallback <;>
      cases l.defaults.fallback <;> rfl
  rw [RuleSet.explain_eq_fallback hnil, hfallback]

end LayerStack

namespace Engine

/-- The rules for a profile are those of the layers, with the profile's own if it is configured. -/
theorem ruleSet_ofLayers (registry : Registry) (offset : Int64) (table : LayerTable)
    (profile : Option String) :
    (ofLayers registry offset table).ruleSet profile =
      (table.stack (profile.bind table.profiles.find?)).merge offset := by
  cases profile with
  | none => rfl
  | some name =>
    simp only [ruleSet, ofLayers, Option.bind_some, SortedMap.find?_mapValues]
    cases table.profiles.find? name <;> rfl

/-- **The engine decides as its layers say.** For every profile, tool and taint there are two cases.
Either exactly one rule prevails among those of the overrides, of the configured profile and of the
defaults; then it gives the decision, and the answer names its position in the layers, its effective
priority and its description. Or no rule contends, and the answer is the first fallback that the
profile, the overrides or the defaults declare. -/
theorem evaluate_ofLayers (registry : Registry) (offset : Int64) (table : LayerTable)
    (tool : ToolIdentity) (profile : Option String) (taint : TaintLevel) :
    let l := table.stack (profile.bind table.profiles.find?)
    let tags := registry.tagsFor tool
    let answer := (ofLayers registry offset table).evaluate tool profile taint
    (∃ c, l.Prevails offset taint tool tags c ∧
        (∀ d, l.Prevails offset taint tool tags d → d = c) ∧
        answer.decision = c.rule.decision ∧
        ∃ r, answer.rule = some r ∧ r.index = l.position c ∧
          (l.overrides.rules ++ l.profileRules ++ l.defaults.rules)[r.index]? = some c.rule ∧
          r.priority.toInt = c.effectivePriority offset ∧ r.description = c.rule.description) ∨
      (∀ c, ¬ l.Contends taint tool tags c) ∧ answer = ⟨l.declaredFallback, none⟩ := by
  intro l tags answer
  have hanswer : answer = (l.merge offset).explain tool tags taint := by
    simp only [answer, evaluate, evaluateWithTags, ruleSet_ofLayers]
    rfl
  by_cases h : ∃ c, l.Contends taint tool tags c
  · obtain ⟨c, hc⟩ := h
    obtain ⟨w, hw⟩ := LayerStack.exists_prevails hc offset
    rw [LayerStack.explain_merge_of_prevails hw] at hanswer
    refine Or.inl ⟨w, hw, fun d hd ↦ hd.eq hw, ?_, ?_⟩
    · rw [hanswer, LayerStack.placed, w.merged_eq offset]
      rfl
    · refine ⟨_, by rw [hanswer]; rfl, rfl, hw.contends.declared.getElem?_position,
        w.toInt_merged_priority offset, ?_⟩
      rw [LayerStack.placed, w.merged_eq offset]
  · simp only [not_exists] at h
    exact Or.inr ⟨h, hanswer.trans (LayerStack.explain_merge_of_forall_not h)⟩

end Engine

end ToolAccess
