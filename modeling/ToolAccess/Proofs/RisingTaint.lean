import ToolAccess.Proofs.DecidingRule
import ToolAccess.Proofs.SessionRun

/-!
# Decisions under a rising taint

When the taint of a turn rises, rules with a gate join those that were active before, and no rule
leaves. So what is decided about a tool can change in one way only: a rule whose gate has opened
meanwhile takes over (`RuleSet.explain_eq_or_newly_active`). Such a rule may come before the old one
at any place of the order. Where it does not, the old rule is still active, and still outranks all
rules that apply.

In a policy whose gates all deny, a rise can therefore only take permissions away, and the tools
that the agent is shown become fewer without changing their order.

The main result is `RuleSet.rising_taint_only_opens_gates`.
-/

namespace ToolAccess

/-! ### Gates that open -/

/-- A rule is active if and only if the taint has reached its threshold, where it has one. -/
theorem Rule.isActiveAt_iff {r : Rule} {taint : TaintLevel} :
    r.isActiveAt taint = true ↔ ∀ level, r.threshold = some level → level ≤ taint := by
  rw [isActiveAt]
  rcases r.threshold with - | level <;> simp

/-- An active rule stays active when the taint rises. -/
theorem Rule.isActiveAt_mono {r : Rule} {low high : TaintLevel} (h : low ≤ high)
    (hactive : r.isActiveAt low = true) : r.isActiveAt high = true := by
  rw [isActiveAt_iff] at hactive ⊢
  exact fun level hlevel ↦ Nat.le_trans (hactive level hlevel) h

/-- A rule that is active only after a rise has a gate that opens between the two levels. -/
theorem Rule.exists_threshold_of_newly_active {r : Rule} {low high : TaintLevel}
    (hlow : ¬ r.isActiveAt low = true) (hhigh : r.isActiveAt high = true) :
    ∃ level, r.threshold = some level ∧ low < level ∧ level ≤ high := by
  rw [isActiveAt_iff] at hlow hhigh
  push Not at hlow
  obtain ⟨level, hthreshold, hnot⟩ := hlow
  exact ⟨level, hthreshold, Nat.lt_of_not_le hnot, hhigh level hthreshold⟩

namespace RuleSet

variable {s : RuleSet} {low high : TaintLevel} {tool : ToolIdentity} {tags : TagSet}

theorem mem_applicable_of_le (h : low ≤ high) {r : PlacedRule}
    (hr : r ∈ s.applicable low tool tags) : r ∈ s.applicable high tool tags := by
  rw [mem_applicable_iff, Rule.applies, Bool.and_eq_true] at hr ⊢
  exact ⟨hr.1, Rule.isActiveAt_mono h hr.2.1, hr.2.2⟩

/-- **What a rise can change.** The evaluation is the same at both levels, or the rule that decides
at the higher one has a gate that opens between them. -/
theorem explain_eq_or_newly_active (h : low ≤ high) (tool : ToolIdentity) (tags : TagSet) :
    s.explain tool tags high = s.explain tool tags low ∨
      ∃ w level, s.explain tool tags high = PlacedRule.evaluation w ∧
        s.rules[w.2]? = some w.1 ∧ w.1.threshold = some level ∧ low < level ∧ level ≤ high := by
  by_cases hnone : s.applicable high tool tags = []
  · have hnone' : s.applicable low tool tags = [] :=
      List.eq_nil_iff_forall_not_mem.2 fun r hr ↦ by
        have hhigh : r ∈ s.applicable high tool tags := mem_applicable_of_le h hr
        rw [hnone] at hhigh
        exact List.not_mem_nil hhigh
    rw [explain_eq_fallback hnone, explain_eq_fallback hnone']
    exact Or.inl rfl
  obtain ⟨w, hw, hout⟩ := s.exists_outranks_all hnone
  obtain ⟨hplaced, happlies⟩ := mem_applicable_iff.1 hw
  rw [Rule.applies, Bool.and_eq_true] at happlies
  rw [explain_of_outranks_all hw hout]
  by_cases hlow : w.1.isActiveAt low = true
  -- A rule that was active before outranks, among others, all rules that applied before.
  · have hw' : w ∈ s.applicable low tool tags := by
      rw [mem_applicable_iff, Rule.applies, hlow, happlies.2]
      exact ⟨hplaced, rfl⟩
    rw [explain_of_outranks_all hw' fun r hr ↦ hout r (mem_applicable_of_le h hr)]
    exact Or.inl rfl
  · obtain ⟨level, hlevel⟩ := Rule.exists_threshold_of_newly_active hlow happlies.1
    exact Or.inr ⟨w, level, rfl, hplaced, hlevel⟩

/-! ### Gates that deny -/

/-- Every rule that waits for some taint denies. -/
def GatesDeny (s : RuleSet) : Prop :=
  ∀ r ∈ s.rules, ∀ level, r.threshold = some level → .trusted < level → r.decision = .deny

theorem GatesDeny.evaluate_eq_or_deny (hs : s.GatesDeny) (h : low ≤ high) (tool : ToolIdentity)
    (tags : TagSet) :
    s.evaluate tool tags high = s.evaluate tool tags low ∨ s.evaluate tool tags high = .deny := by
  rcases explain_eq_or_newly_active (s := s) h tool tags with
    hsame | ⟨w, level, hw, hplaced, hthreshold, hlow, -⟩
  · exact Or.inl (congrArg Evaluation.decision hsame)
  · have hwaits : TaintLevel.trusted < level := Nat.lt_of_le_of_lt (Nat.zero_le _) hlow
    rw [evaluate, hw]
    exact Or.inr (hs w.1 (List.mem_of_getElem? hplaced) level hthreshold hwaits)

end RuleSet

/-- Where all gates deny, a tool that is shown after a rise was shown before. -/
theorem Guard.shows_of_shows_later {g : Guard} {earlier later : Turn}
    (hgates : (g.engine.ruleSet earlier.profile).GatesDeny)
    (hprofile : later.profile = earlier.profile) (hrise : earlier.taint ≤ later.taint)
    {d : ToolDefinition} (hshown : g.shows later d = true) : g.shows earlier d = true := by
  rw [shows, decide_eq_true_iff] at hshown ⊢
  have hlater : (g.evaluate later d.identity).decision =
      (g.engine.ruleSet earlier.profile).evaluate d.identity (g.engine.tagsFor d.identity)
        later.taint := by
    rw [← hprofile]
    rfl
  rw [hlater] at hshown
  rcases hgates.evaluate_eq_or_deny hrise d.identity (g.engine.tagsFor d.identity)
    with hsame | hdeny
  · rw [hsame] at hshown
    exact hshown
  · exact absurd hdeny hshown

namespace RuleSet

/-- **A rising taint only opens gates.** Take any rule set and two taint levels, the second of which
is no lower.

* What is decided about a tool, and by which rule, is the same at both levels, or the rule that
  decides at the second one has a threshold above the first level and not above the second.
* If every rule with a threshold above `trusted` denies, then the decision about a tool at the
  second level is the one at the first, or to deny; and the tools that a guard with these rules
  lists in a turn at the second level are a sublist of those that it lists in one at the first. -/
theorem rising_taint_only_opens_gates (s : RuleSet) (low high : TaintLevel) (h : low ≤ high) :
    (∀ tool tags, s.explain tool tags high = s.explain tool tags low ∨
      ∃ index rule level, s.explain tool tags high =
          ⟨rule.decision, some ⟨index, rule.priority, rule.description⟩⟩ ∧
        s.rules[index]? = some rule ∧ rule.threshold = some level ∧ low < level ∧ level ≤ high) ∧
    ((∀ r ∈ s.rules, ∀ level, r.threshold = some level → .trusted < level → r.decision = .deny) →
      (∀ tool tags, s.evaluate tool tags high = s.evaluate tool tags low ∨
        s.evaluate tool tags high = .deny) ∧
      ∀ (g : Guard) (earlier later : Turn) (definitions : List ToolDefinition),
        g.engine.ruleSet earlier.profile = s → later.profile = earlier.profile →
        earlier.taint = low → later.taint = high →
        (g.list later definitions).Sublist (g.list earlier definitions)) := by
  refine ⟨fun tool tags ↦ ?_, fun hgates ↦ ⟨fun tool tags ↦ ?_, ?_⟩⟩
  · rcases explain_eq_or_newly_active (s := s) h tool tags with
      hsame | ⟨⟨rule, index⟩, level, hopened⟩
    · exact Or.inl hsame
    · exact Or.inr ⟨index, rule, level, hopened⟩
  · exact GatesDeny.evaluate_eq_or_deny hgates h tool tags
  · rintro g earlier later definitions rfl hprofile rfl rfl
    exact List.monotone_filter_right definitions fun d ↦
      Guard.shows_of_shows_later hgates hprofile h

/-- When a turn becomes untrusted the gate of the web takes over from the question, and the tool is
listed no more. -/
theorem web_gate_takes_over :
    (∃ index rule level, Session.webGuard.engine.base.explain (.fromOrigin "web" "fetch") ∅
        .untrusted = ⟨rule.decision, some ⟨index, rule.priority, rule.description⟩⟩ ∧
      Session.webGuard.engine.base.rules[index]? = some rule ∧ rule.threshold = some level ∧
      TaintLevel.trusted < level ∧ level ≤ .untrusted) ∧
    (Session.webGuard.list (Session.webTurn .untrusted) [⟨"fetch", "", .null, some "web"⟩]).Sublist
      (Session.webGuard.list (Session.webTurn .trusted) [⟨"fetch", "", .null, some "web"⟩]) := by
  obtain ⟨hchange, hgates⟩ := rising_taint_only_opens_gates Session.webGuard.engine.base .trusted
    .untrusted (by decide)
  obtain ⟨-, hlist⟩ := hgates (by simp [Session.webGuard, Engine.ofRuleSet, Session.webGate,
    Session.webQuestion])
  refine ⟨?_, hlist Session.webGuard (Session.webTurn .trusted) (Session.webTurn .untrusted) _ rfl
    rfl rfl rfl⟩
  rcases hchange (.fromOrigin "web" "fetch") ∅ with hsame | hopened
  · exact absurd hsame (by decide)
  · exact hopened

example : Session.webGuard.list (Session.webTurn .trusted) [⟨"fetch", "", .null, some "web"⟩] =
      [⟨"fetch", "", .null, some "web"⟩] ∧
    Session.webGuard.list (Session.webTurn .untrusted) [⟨"fetch", "", .null, some "web"⟩] = [] := by
  decide

end RuleSet

end ToolAccess
