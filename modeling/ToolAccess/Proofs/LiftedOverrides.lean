import Mathlib.Order.Bounds.Defs
import ToolAccess.Proofs.LayeredRules

/-!
# Lifted overrides

Merging raises the priority of each override by the offset, and stops at the highest priority there
is. Two questions are answered here: what this does to the overrides among themselves, and what it
does for them against all other rules.

## Among the overrides

The lift is monotone, so it never turns two overrides round. But it is not injective: overrides
whose sum with the offset **reaches the top** of the range all end at the same priority, and there
the one declared first wins, also over one that was written with a higher priority
(`LayerStack.saturation_reorders`). This is the only way in which the lift can change the override
that decides. `LayerStack.lift_keeps_precedence` says when it does, and which override decides then.

## Against the other layers

A rule of the profile or of the defaults loses against an override unless its priority is higher
than the lifted one. So as long as all of them stay within the priority of the strongest override,
raised by the offset and cut off at the top, they have no influence at all
(`LayerStack.overrides_prevail_within`): the position of the deciding override does not even depend
on how many other rules there are, since the overrides stand first in the merged list.
-/

namespace ToolAccess

open LayerStack (toInt_liftPriority)

/-! ### The lift as arithmetic -/

/-- An offset that is not negative only ever meets the upper end of the range. -/
theorem toInt_liftPriority_of_nonneg {offset : Int64} (h : 0 ≤ offset) (priority : Int64) :
    (liftPriority offset priority).toInt =
      min Int64.maxValue.toInt (priority.toInt + offset.toInt) := by
  have hlow := priority.minValue_le_toInt
  have hoffset : 0 ≤ offset.toInt := Int64.le_iff_toInt_le.1 h
  have hrange : Int64.minValue.toInt ≤ Int64.maxValue.toInt := by decide
  rw [toInt_liftPriority]
  omega

namespace PlacedRule

variable {offset : Int64}

/-- The rule with its priority lifted, at its old place. -/
def lift (offset : Int64) (r : PlacedRule) : PlacedRule := (r.1.lift offset, r.2)

/-- With the offset, the priority of the rule reaches the end of the range. -/
def ReachesTop (offset : Int64) (r : PlacedRule) : Prop :=
  Int64.maxValue.toInt ≤ r.1.priority.toInt + offset.toInt

/-- Outranking after the lift, through the sums of priority and offset. -/
theorem lift_outranks_iff (h : 0 ≤ offset) {a b : PlacedRule} :
    (a.lift offset).Outranks (b.lift offset) ↔
      min Int64.maxValue.toInt (b.1.priority.toInt + offset.toInt) <
          min Int64.maxValue.toInt (a.1.priority.toInt + offset.toInt) ∨
        min Int64.maxValue.toInt (a.1.priority.toInt + offset.toInt) =
          min Int64.maxValue.toInt (b.1.priority.toInt + offset.toInt) ∧ a.2 ≤ b.2 := by
  rw [outranks_iff]
  simp only [lift, Rule.lift, toInt_liftPriority_of_nonneg h]

variable {l : List PlacedRule} {written lifted : PlacedRule}

/-- Where another rule outranks all after the lift than before, it is the first of those that reach
the top. -/
theorem first_of_lift (h : 0 ≤ offset) (hwritten : written ∈ l)
    (hbefore : ∀ r ∈ l, written.Outranks r) (hlifted : lifted ∈ l)
    (hafter : ∀ r ∈ l, (lifted.lift offset).Outranks (r.lift offset))
    (hne : lifted.2 ≠ written.2) :
    lifted.2 < written.2 ∧ lifted.ReachesTop offset ∧
      ∀ r ∈ l, r.ReachesTop offset → lifted.2 ≤ r.2 := by
  have hold := outranks_iff.1 (hbefore lifted hlifted)
  have hnew := (lift_outranks_iff h).1 (hafter written hwritten)
  -- The lift turns no two rules round, so it made the two equal, and that happens at the top only.
  have htop : lifted.ReachesTop offset := by
    rw [ReachesTop]
    omega
  refine ⟨by omega, htop, fun r hr hrtop ↦ ?_⟩
  have hfirst := (lift_outranks_iff h).1 (hafter r hr)
  rw [ReachesTop] at htop hrtop
  omega

/-- The same rule outranks all before and after the lift if and only if no rule in front of it
reaches the top. -/
theorem place_eq_iff_of_lift (h : 0 ≤ offset) (hwritten : written ∈ l)
    (hbefore : ∀ r ∈ l, written.Outranks r) (hlifted : lifted ∈ l)
    (hafter : ∀ r ∈ l, (lifted.lift offset).Outranks (r.lift offset)) :
    lifted.2 = written.2 ↔ ∀ r ∈ l, r.2 < written.2 → ¬ r.ReachesTop offset := by
  refine ⟨fun heq r hr hlt htop ↦ ?_, fun hnone ↦ ?_⟩
  · have hfirst := (lift_outranks_iff h).1 (hafter r hr)
    rw [ReachesTop] at htop
    omega
  · by_contra hne
    obtain ⟨hlt, htop, -⟩ := first_of_lift h hwritten hbefore hlifted hafter hne
    exact hnone lifted hlifted hlt htop

end PlacedRule

namespace RuleSet

variable {s t : RuleSet} {offset : Int64} {taint : TaintLevel} {tool : ToolIdentity}
  {tags : TagSet}

/-- Lifting the rules of a set changes neither which of them apply nor where they stand. -/
theorem applicable_of_lift (h : t.rules = s.rules.map (Rule.lift offset)) (taint : TaintLevel)
    (tool : ToolIdentity) (tags : TagSet) :
    t.applicable taint tool tags =
      (s.applicable taint tool tags).map (PlacedRule.lift offset) := by
  rw [applicable, applicable, h, List.zipIdx_map, List.filter_map]
  rfl

/-- What decides before and after the lift, told by the rules that apply before it. -/
theorem rule_explain_lift_cases (h : t.rules = s.rules.map (Rule.lift offset))
    (tool : ToolIdentity) (tags : TagSet) (taint : TaintLevel) :
    (s.explain tool tags taint).rule = none ∧ (t.explain tool tags taint).rule = none ∨
      ∃ w ∈ s.applicable taint tool tags, ∃ e ∈ s.applicable taint tool tags,
        (∀ r ∈ s.applicable taint tool tags, w.Outranks r) ∧
        (∀ r ∈ s.applicable taint tool tags, (e.lift offset).Outranks (r.lift offset)) ∧
        (s.explain tool tags taint).rule = w.evaluation.rule ∧
        (t.explain tool tags taint).rule = (e.lift offset).evaluation.rule := by
  have hlift := applicable_of_lift h taint tool tags
  by_cases hnone : s.applicable taint tool tags = []
  · have hnone' : t.applicable taint tool tags = [] := by rw [hlift, hnone, List.map_nil]
    rw [explain_eq_fallback hnone, explain_eq_fallback hnone']
    exact Or.inl ⟨rfl, rfl⟩
  · have hnone' : t.applicable taint tool tags ≠ [] := by rwa [hlift, Ne, List.map_eq_nil_iff]
    obtain ⟨w, hw, hbefore⟩ := s.exists_outranks_all hnone
    obtain ⟨e', he', hafter⟩ := t.exists_outranks_all hnone'
    rw [explain_of_outranks_all hw hbefore, explain_of_outranks_all he' hafter]
    rw [hlift] at he' hafter
    obtain ⟨e, he, rfl⟩ := List.mem_map.1 he'
    exact Or.inr ⟨w, hw, e, he, hbefore, List.forall_mem_map.1 hafter, rfl, rfl⟩

end RuleSet

/-! ### Among the overrides -/

/-- The rule at this place applies to the tool, and with the offset its priority reaches the end of
the range. -/
def Layer.ReachesTop (layer : Layer) (offset : Int64) (taint : TaintLevel) (tool : ToolIdentity)
    (tags : TagSet) (place : Nat) : Prop :=
  ∃ r, layer.rules[place]? = some r ∧ r.applies taint tool tags = true ∧
    Int64.maxValue.toInt ≤ r.priority.toInt + offset.toInt

theorem Layer.reachesTop_iff (layer : Layer) (offset : Int64) (taint : TaintLevel)
    (tool : ToolIdentity) (tags : TagSet) (fallback : Decision) (place : Nat) :
    layer.ReachesTop offset taint tool tags place ↔
      ∃ r ∈ (RuleSet.mk layer.rules fallback).applicable taint tool tags,
        r.2 = place ∧ r.ReachesTop offset := by
  constructor
  · rintro ⟨rule, hrule, happlies, htop⟩
    exact ⟨(rule, place), RuleSet.mem_applicable_iff.2 ⟨hrule, happlies⟩, rfl, htop⟩
  · rintro ⟨⟨rule, place⟩, hr, rfl, htop⟩
    obtain ⟨hrule, happlies⟩ := RuleSet.mem_applicable_iff.1 hr
    exact ⟨rule, hrule, happlies, htop⟩

namespace LayerStack

/-- The overrides alone, without defaults and without a profile. -/
def ofOverrides (overrides : Layer) : LayerStack := ⟨.empty, overrides, none⟩

theorem rules_merge_ofOverrides (overrides : Layer) (offset : Int64) :
    ((ofOverrides overrides).merge offset).rules = overrides.rules.map (Rule.lift offset) := by
  simp [merge, ofOverrides, profileRules, Layer.empty]

/-- **The lift keeps the precedence of the overrides, up to the top of the range.** Take any
overrides, any offset that is not negative, any tool and taint, and compare the merged overrides
with the overrides as they are written, under any fallback.

* The fallback counts for both or for neither.
* Where rules decide, they stand at the same place if and only if no override in front of the one
  that decides as written applies and reaches the top of the range.
* Where they differ, the merged overrides are decided by the first of all those that apply and reach
  the top of the range. -/
theorem lift_keeps_precedence (overrides : Layer) (offset : Int64) (hoffset : 0 ≤ offset)
    (fallback : Decision) (tool : ToolIdentity) (tags : TagSet) (taint : TaintLevel) :
    let merged := ((ofOverrides overrides).merge offset).explain tool tags taint
    let written := (RuleSet.mk overrides.rules fallback).explain tool tags taint
    (merged.rule = none ↔ written.rule = none) ∧
      ∀ a b, merged.rule = some a → written.rule = some b →
        (a.index = b.index ↔
          ∀ i < b.index, ¬ overrides.ReachesTop offset taint tool tags i) ∧
        (a.index ≠ b.index →
          IsLeast {i | overrides.ReachesTop offset taint tool tags i} a.index) := by
  intro merged written
  have htop := overrides.reachesTop_iff offset taint tool tags fallback
  rcases RuleSet.rule_explain_lift_cases (s := RuleSet.mk overrides.rules fallback)
      (rules_merge_ofOverrides overrides offset) tool tags taint with
    ⟨hwritten, hmerged⟩ | ⟨w, hw, e, he, hbefore, hafter, hwritten, hmerged⟩
  · refine ⟨iff_of_true hmerged hwritten, fun a b ha hb ↦ ?_⟩
    rw [hwritten] at hb
    cases hb
  refine ⟨?_, fun a b ha hb ↦ ?_⟩
  · rw [hwritten, hmerged]
    exact iff_of_false (Option.some_ne_none _) (Option.some_ne_none _)
  obtain rfl := Option.some.inj (hmerged.symm.trans ha)
  obtain rfl := Option.some.inj (hwritten.symm.trans hb)
  show (e.2 = w.2 ↔ ∀ i < w.2, ¬ overrides.ReachesTop offset taint tool tags i) ∧
    (e.2 ≠ w.2 → IsLeast {i | overrides.ReachesTop offset taint tool tags i} e.2)
  constructor
  · rw [PlacedRule.place_eq_iff_of_lift hoffset hw hbefore he hafter]
    refine ⟨fun hnone i hi hreaches ↦ ?_, fun hnone r hr hlt hreaches ↦ ?_⟩
    · obtain ⟨r, hr, rfl, hrtop⟩ := (htop i).1 hreaches
      exact hnone r hr hi hrtop
    · exact hnone r.2 hlt ((htop r.2).2 ⟨r, hr, rfl, hreaches⟩)
  · intro hne
    obtain ⟨-, hreaches, hfirst⟩ :=
      PlacedRule.first_of_lift hoffset hw hbefore he hafter hne
    refine ⟨(htop e.2).2 ⟨e, he, rfl, hreaches⟩, fun i hi ↦ ?_⟩
    obtain ⟨r, hr, rfl, hreaches⟩ := (htop i).1 hi
    exact hfirst r hr hreaches

/-- Two overrides at the upper end of the priorities, the stronger one declared last. -/
def topOverrides : Layer :=
  ⟨[⟨ToolMatcher.empty.withOrigins ["web"], .confirm, Int64.maxValue - 1, none, "ask"⟩,
    ⟨ToolMatcher.empty.withOrigins ["web"], .deny, Int64.maxValue, none, "refuse"⟩], none⟩

/-- The two reach the top together, so the merged overrides are decided by the first of them, and
not by the one that decides as written. -/
theorem topOverrides_are_decided_by_the_first :
    (((ofOverrides topOverrides).merge 1).explain (.fromOrigin "web" "fetch") ∅ .trusted).rule =
        some ⟨0, Int64.maxValue, "ask"⟩ ∧
      ((RuleSet.mk topOverrides.rules .deny).explain (.fromOrigin "web" "fetch") ∅ .trusted).rule =
        some ⟨1, Int64.maxValue, "refuse"⟩ ∧
      IsLeast {i | topOverrides.ReachesTop 1 .trusted (.fromOrigin "web" "fetch") ∅ i} 0 := by
  obtain ⟨-, h⟩ := lift_keeps_precedence topOverrides 1 (by decide) .deny
    (.fromOrigin "web" "fetch") ∅ .trusted
  obtain ⟨-, hfirst⟩ := h ⟨0, Int64.maxValue, "ask"⟩ ⟨1, Int64.maxValue, "refuse"⟩ (by decide)
    (by decide)
  exact ⟨by decide, by decide, hfirst (by decide)⟩

/-- **The lift does not always keep the precedence**: at the top of the range it may hand the
decision to an override that is weaker as written. -/
theorem saturation_reorders :
    ¬ ∀ (overrides : Layer) (offset : Int64), 0 ≤ offset → ∀ (fallback : Decision)
        (tool : ToolIdentity) (tags : TagSet) (taint : TaintLevel),
      (((ofOverrides overrides).merge offset).explain tool tags taint).rule.map (·.index) =
        ((RuleSet.mk overrides.rules fallback).explain tool tags taint).rule.map (·.index) := by
  intro h
  have hsame := h topOverrides 1 (by decide) .deny (.fromOrigin "web" "fetch") ∅ .trusted
  revert hsame
  decide

/-! ### Against the other layers -/

variable {l : LayerStack} {overrides : Layer} {offset : Int64} {taint : TaintLevel}
  {tool : ToolIdentity} {tags : TagSet}

/-- No rule of the profile or of the defaults that applies to the tool has a higher priority than
the bound. -/
def OthersWithin (l : LayerStack) (bound : Int) (taint : TaintLevel) (tool : ToolIdentity)
    (tags : TagSet) : Prop :=
  ∀ r ∈ l.profileRules ++ l.defaults.rules, r.applies taint tool tags = true →
    r.priority.toInt ≤ bound

instance (l : LayerStack) (bound : Int) (taint : TaintLevel) (tool : ToolIdentity)
    (tags : TagSet) : Decidable (l.OthersWithin bound taint tool tags) :=
  inferInstanceAs (Decidable (∀ r ∈ l.profileRules ++ l.defaults.rules,
    r.applies taint tool tags = true → r.priority.toInt ≤ bound))

theorem contends_iff {c : Contender} :
    l.Contends taint tool tags c ↔ l.Declares c ∧ c.rule.applies taint tool tags = true := by
  rw [Rule.applies, Bool.and_eq_true]
  constructor
  · intro h
    exact ⟨h.declared, h.active, h.matching⟩
  · rintro ⟨hdeclared, hactive, hmatching⟩
    exact ⟨hdeclared, hactive, hmatching⟩

/-- Where overrides stand alone, no other rule is declared. -/
theorem Declares.tier_eq {c : Contender} (h : (ofOverrides overrides).Declares c) :
    c.tier = .overrides := by
  obtain ⟨tier, place, rule⟩ := c
  cases tier with
  | overrides => rfl
  | profile => cases h
  | defaults => cases h

theorem Declares.getElem?_place {c : Contender} (h : (ofOverrides overrides).Declares c) :
    overrides.rules[c.place]? = some c.rule := by
  have htier := h.tier_eq
  rwa [Declares, htier] at h

/-- An override contends in a stack of layers if and only if it does where overrides stand alone. -/
theorem contends_ofOverrides_iff {c : Contender} (hc : c.tier = .overrides) :
    (ofOverrides l.overrides).Contends taint tool tags c ↔ l.Contends taint tool tags c := by
  rw [contends_iff, contends_iff, Declares, Declares, hc]
  rfl

/-- A contender that is no override stays within the bound. -/
theorem OthersWithin.effectivePriority_le {bound : Int} (h : l.OthersWithin bound taint tool tags)
    {c : Contender} (hc : l.Contends taint tool tags c) (htier : c.tier ≠ .overrides) :
    c.effectivePriority offset ≤ bound := by
  obtain ⟨hdeclared, happlies⟩ := contends_iff.1 hc
  obtain ⟨tier, place, rule⟩ := c
  cases tier with
  | overrides => exact absurd rfl htier
  | profile => exact h rule (List.mem_append_left _ (List.mem_of_getElem? hdeclared)) happlies
  | defaults => exact h rule (List.mem_append_right _ (List.mem_of_getElem? hdeclared)) happlies

/-- The override that prevails among the overrides prevails over other rules within its effective
priority too: where the priorities are equal, its tier is the first. -/
theorem Prevails.of_othersWithin {c : Contender}
    (hc : (ofOverrides l.overrides).Prevails offset taint tool tags c)
    (h : l.OthersWithin (c.effectivePriority offset) taint tool tags) :
    l.Prevails offset taint tool tags c := by
  have htier := hc.contends.declared.tier_eq
  refine ⟨(contends_ofOverrides_iff htier).1 hc.contends, fun d hd ↦ ?_⟩
  by_cases hoverride : d.tier = .overrides
  · exact hc.first d ((contends_ofOverrides_iff hoverride).2 hd)
  · have hle : d.effectivePriority offset ≤ c.effectivePriority offset :=
      h.effectivePriority_le hd hoverride
    have hrank : c.tier.rank < d.tier.rank := by
      have hne : d.tier.rank ≠ Tier.rank .overrides := mt Tier.rank_inj.1 hoverride
      rw [htier]
      exact Nat.pos_of_ne_zero hne
    rw [Contender.Precedes]
    omega

/-- An override is reported with its place among the overrides and its lifted priority. -/
theorem evaluation_placed_of_override {c : Contender} (hc : c.tier = .overrides) :
    (l.placed offset c).evaluation = ⟨c.rule.decision,
      some ⟨c.place, liftPriority offset c.rule.priority, c.rule.description⟩⟩ := by
  obtain ⟨tier, place, rule⟩ := c
  obtain rfl : tier = .overrides := hc
  simp only [PlacedRule.evaluation, placed, position, ahead, Nat.zero_add]
  rfl

/-- Among overrides alone one prevails, and its effective priority is at least that of any override
that applies. -/
theorem exists_prevails_ofOverrides {r : Rule} (hr : r ∈ overrides.rules)
    (happlies : r.applies taint tool tags = true) (offset : Int64) :
    ∃ c, (ofOverrides overrides).Prevails offset taint tool tags c ∧
      min (r.priority.toInt + offset.toInt) Int64.maxValue.toInt ≤ c.effectivePriority offset := by
  obtain ⟨place, hplace⟩ := List.mem_iff_getElem?.1 hr
  have hcontends : (ofOverrides overrides).Contends taint tool tags ⟨.overrides, place, r⟩ :=
    contends_iff.2 ⟨hplace, happlies⟩
  obtain ⟨c, hc⟩ := exists_prevails hcontends offset
  refine ⟨c, hc, ?_⟩
  have hfirst := hc.first _ hcontends
  rw [Contender.Precedes] at hfirst
  have heffective : (⟨.overrides, place, r⟩ : Contender).effectivePriority offset =
      max Int64.minValue.toInt (min Int64.maxValue.toInt (r.priority.toInt + offset.toInt)) := rfl
  omega

/-- **Overrides are supreme within their lifted priority.** Take an override of priority `p` that
applies to a tool; the strongest of them gives the widest bound. Any two stacks of layers with these
overrides give the same evaluation, with the same decision, index, priority and description, if in
both of them no rule of the profile or of the defaults that applies to the tool has a priority above
`p` raised by the offset and cut off at the top of the range. And the rule that decides is an
override, reported with its place among the overrides. -/
theorem overrides_prevail_within (l l' : LayerStack) (hsame : l'.overrides = l.overrides)
    (offset : Int64) (tool : ToolIdentity) (tags : TagSet) (taint : TaintLevel) (p : Int64)
    (hp : ∃ r ∈ l.overrides.rules, r.applies taint tool tags = true ∧ r.priority = p)
    (h : l.OthersWithin (min (p.toInt + offset.toInt) Int64.maxValue.toInt) taint tool tags)
    (h' : l'.OthersWithin (min (p.toInt + offset.toInt) Int64.maxValue.toInt) taint tool tags) :
    (l.merge offset).explain tool tags taint = (l'.merge offset).explain tool tags taint ∧
      ∃ i r, l.overrides.rules[i]? = some r ∧ r.applies taint tool tags = true ∧
        (l.merge offset).explain tool tags taint =
          ⟨r.decision, some ⟨i, liftPriority offset r.priority, r.description⟩⟩ := by
  obtain ⟨r, hr, happlies, rfl⟩ := hp
  obtain ⟨c, hc, hbound⟩ := exists_prevails_ofOverrides hr happlies offset
  have hdecides : ∀ m : LayerStack, m.overrides = l.overrides →
      m.OthersWithin (min (r.priority.toInt + offset.toInt) Int64.maxValue.toInt) taint tool tags →
      (m.merge offset).explain tool tags taint = ⟨c.rule.decision,
        some ⟨c.place, liftPriority offset c.rule.priority, c.rule.description⟩⟩ := by
    intro m hm hwithin
    have hprevails : m.Prevails offset taint tool tags c :=
      Prevails.of_othersWithin (hm ▸ hc) fun q hq hqapplies ↦
        Int.le_trans (hwithin q hq hqapplies) hbound
    rw [explain_merge_of_prevails hprevails]
    exact evaluation_placed_of_override hc.contends.declared.tier_eq
  have hdeclared : l.overrides.rules[c.place]? = some c.rule := hc.contends.declared.getElem?_place
  refine ⟨(hdecides l rfl h).trans (hdecides l' hsame h').symm, c.place, c.rule, hdeclared,
    (contends_iff.1 hc.contends).2, hdecides l rfl h⟩

/-- An override that asks about the tools of the web, under an offset of 1000, and other layers that
would allow them with a priority of 1000 or refuse them with one of 999. -/
theorem askingOverride_prevails :
    let ask : Rule := ⟨ToolMatcher.empty.withOrigins ["web"], .confirm, 0, none, "ask"⟩
    let allow : Rule := ⟨ToolMatcher.empty.withOrigins ["web"], .allow, 1000, none, "allow"⟩
    let refuse : Rule := ⟨ToolMatcher.empty.withOrigins ["web"], .deny, 999, none, "refuse"⟩
    let allowing : LayerStack := ⟨⟨[allow], some .allow⟩, ⟨[ask], none⟩, none⟩
    let refusing : LayerStack := ⟨.empty, ⟨[ask], none⟩, some ⟨[refuse], some .deny⟩⟩
    (allowing.merge 1000).explain (.fromOrigin "web" "fetch") ∅ .trusted =
        (refusing.merge 1000).explain (.fromOrigin "web" "fetch") ∅ .trusted ∧
      (allowing.merge 1000).evaluate (.fromOrigin "web" "fetch") ∅ .trusted = .confirm := by
  intro ask allow refuse allowing refusing
  obtain ⟨hsame, -⟩ := overrides_prevail_within allowing refusing rfl 1000
    (.fromOrigin "web" "fetch") ∅ .trusted 0 ⟨ask, by decide, by decide, rfl⟩
    (by decide) (by decide)
  exact ⟨hsame, by decide⟩

end LayerStack

end ToolAccess
