import ToolAccess.Proofs.DecidingRule

/-!
# The order of evaluation

The deciding rule can be found in two ways. One is a single pass over the rules in the order of
declaration, which passes over a rule that is not active, then over one that is no stronger than the
best so far, and only then tries its matcher (`RuleSet.scan`). The other is to sort the active rules
and to take the first one that accepts the tool (`RuleSet.ordered`). Both find the same rule.

## What the proof rests on

* **The pass.** To compare before matching or after makes no difference: either way a rule takes the
  place of the best so far if it applies and its priority is higher (`RuleSet.scan_eq_strongest?`).
* **The sort.** In the sorted list each rule outranks those behind it
  (`RuleSet.pairwise_ordered`). For rules of equal priority this is where the sort has to be stable,
  and it is proved by induction on the list: the first rule is put into the sorted rest behind rules
  of higher priority only.

So the first of the sorted rules that accepts the tool outranks every rule that applies, which is
what the deciding rule is (`RuleSet.explain_of_outranks_all`). The main result is
`RuleSet.explain_eq_first_of_ordered`.
-/

namespace ToolAccess

namespace PlacedRule

/-! ### The pass that compares first -/

/-- One step of the pass. A rule that is not active is passed over, and so is one whose priority is
not higher than that of the rule found so far. Only then is the matcher tried. -/
def challenge (taint : TaintLevel) (tool : ToolIdentity) (tags : TagSet)
    (found : Option PlacedRule) (r : PlacedRule) : Option PlacedRule :=
  if !r.1.isActiveAt taint then found
  else if found.any (fun best ↦ decide (r.1.priority ≤ best.1.priority)) then found
  else if r.1.matcher.accepts tool tags then some r
  else found

/-- A rule that applies is compared with the one found so far, and any other changes nothing. -/
theorem challenge_eq (taint : TaintLevel) (tool : ToolIdentity) (tags : TagSet)
    (found : Option PlacedRule) (r : PlacedRule) :
    challenge taint tool tags found r =
      if r.1.applies taint tool tags then stronger found r else found := by
  rw [challenge, Rule.applies]
  rcases r.1.isActiveAt taint with - | -
  · rfl
  rcases r.1.matcher.accepts tool tags with - | -
  · simp
  rcases found with - | best
  · rfl
  -- Not to be of higher priority is to be of the same or a lower one.
  have hle : r.1.priority ≤ best.1.priority ↔ ¬ best.1.priority < r.1.priority := by
    rw [Int64.le_iff_toInt_le, Int64.lt_iff_toInt_lt, Int.not_lt]
  by_cases h : best.1.priority < r.1.priority <;> simp [stronger, hle, h]

/-! ### The sort -/

theorem precedes_iff {a b : PlacedRule} :
    a.precedes b = true ↔ b.1.priority.toInt ≤ a.1.priority.toInt := by
  rw [precedes, decide_eq_true_iff, Int64.le_iff_toInt_le]

theorem precedes_trans (a b c : PlacedRule) (hab : a.precedes b = true)
    (hbc : b.precedes c = true) : a.precedes c = true := by
  rw [precedes_iff] at *
  exact Int.le_trans hbc hab

theorem precedes_total (a b : PlacedRule) : (a.precedes b || b.precedes a) = true := by
  rw [Bool.or_eq_true, precedes_iff, precedes_iff]
  exact Int.le_total _ _

/-- **The sort is stable.** Sorted by priority, rules whose places ascend stand in the order in
which they outrank one another. -/
theorem pairwise_mergeSort_outranks {l : List PlacedRule} (hl : l.Pairwise (fun a b ↦ a.2 < b.2)) :
    (l.mergeSort precedes).Pairwise Outranks := by
  induction l with
  | nil => simp
  | cons a l ih =>
    obtain ⟨hfirst, hrest⟩ := List.pairwise_cons.1 hl
    obtain ⟨front, back, hsorted, hback, hfront⟩ :=
      List.mergeSort_cons precedes_trans precedes_total a l
    have hmem : ∀ r ∈ back, r ∈ l := fun r hr ↦
      List.mem_mergeSort.1 (hback ▸ List.mem_append_right front hr)
    have hpriority := List.pairwise_mergeSort precedes_trans precedes_total (a :: l)
    rw [hsorted] at hpriority ⊢
    obtain ⟨-, hafter, -⟩ := List.pairwise_append.1 hpriority
    have hranked := ih hrest
    rw [hback] at hranked
    obtain ⟨hfronts, hbacks, hacross⟩ := List.pairwise_append.1 hranked
    refine List.pairwise_append.2 ⟨hfronts, List.pairwise_cons.2 ⟨fun r hr ↦ ?_, hbacks⟩, ?_⟩
    -- Behind the new rule: no rule of higher priority, and all of them declared later.
    · have hle := precedes_iff.1 ((List.pairwise_cons.1 hafter).1 r hr)
      have hplace := hfirst r (hmem r hr)
      rw [outranks_iff]
      omega
    -- In front of it: rules of higher priority only.
    · intro e he r hr
      rcases List.mem_cons.1 hr with rfl | hr
      · have hnot := hfront e he
        rw [Bool.not_eq_true', ← Bool.not_eq_true, precedes_iff] at hnot
        rw [outranks_iff]
        omega
      · exact hacross e he r hr

end PlacedRule

namespace RuleSet

variable {s : RuleSet} {taint : TaintLevel} {tool : ToolIdentity} {tags : TagSet}

/-- The rule that one pass over all rules finds. -/
def scan (s : RuleSet) (taint : TaintLevel) (tool : ToolIdentity) (tags : TagSet) :
    Option PlacedRule :=
  s.rules.zipIdx.foldl (PlacedRule.challenge taint tool tags) none

/-- To compare before matching finds the strongest rule that applies. -/
theorem scan_eq_strongest? (s : RuleSet) (taint : TaintLevel) (tool : ToolIdentity)
    (tags : TagSet) :
    s.scan taint tool tags = PlacedRule.strongest? (s.applicable taint tool tags) := by
  rw [scan, PlacedRule.strongest?, applicable, List.foldl_filter]
  exact congrArg (fun step ↦ s.rules.zipIdx.foldl step none)
    (funext fun found ↦ funext fun r ↦ PlacedRule.challenge_eq taint tool tags found r)

theorem mem_ordered_iff {r : PlacedRule} :
    r ∈ s.ordered taint ↔ s.rules[r.2]? = some r.1 ∧ r.1.isActiveAt taint = true := by
  rw [ordered, List.mem_mergeSort, List.mem_filter, List.mem_zipIdx_iff_getElem?]

theorem mem_applicable_iff_mem_ordered {r : PlacedRule} :
    r ∈ s.applicable taint tool tags ↔
      r ∈ s.ordered taint ∧ r.1.matcher.accepts tool tags = true := by
  rw [mem_applicable_iff, mem_ordered_iff, Rule.applies, Bool.and_eq_true, and_assoc]

/-- Each of the sorted rules outranks those behind it. -/
theorem pairwise_ordered (s : RuleSet) (taint : TaintLevel) :
    (s.ordered taint).Pairwise PlacedRule.Outranks :=
  PlacedRule.pairwise_mergeSort_outranks (s.pairwise_zipIdx.filter _)

/-- **The first of the sorted rules that accepts the tool** is the strongest of those that apply. -/
theorem find?_ordered (s : RuleSet) (taint : TaintLevel) (tool : ToolIdentity) (tags : TagSet) :
    (s.ordered taint).find? (fun r ↦ r.1.matcher.accepts tool tags) =
      PlacedRule.strongest? (s.applicable taint tool tags) := by
  rcases h : (s.ordered taint).find? (fun r ↦ r.1.matcher.accepts tool tags) with - | first
  · have hnone : s.applicable taint tool tags = [] :=
      List.eq_nil_iff_forall_not_mem.2 fun r hr ↦ by
        obtain ⟨hr, haccepts⟩ := mem_applicable_iff_mem_ordered.1 hr
        exact List.find?_eq_none.1 h r hr haccepts
    rw [h, PlacedRule.strongest?_eq_none_iff.2 hnone]
  · obtain ⟨haccepts, front, back, hsplit, hfront⟩ := List.find?_eq_some_iff_append.1 h
    have hmem : first ∈ s.ordered taint := hsplit ▸ List.mem_append_right front List.mem_cons_self
    rw [h, eq_comm, PlacedRule.strongest?_eq_some_iff (s.pairwise_applicable taint tool tags)]
    refine ⟨mem_applicable_iff_mem_ordered.2 ⟨hmem, haccepts⟩, fun r hr ↦ ?_⟩
    obtain ⟨hr, hraccepts⟩ := mem_applicable_iff_mem_ordered.1 hr
    have hranked := s.pairwise_ordered taint
    rw [hsplit] at hr hranked
    obtain ⟨-, hback, -⟩ := List.pairwise_append.1 hranked
    -- In front of the first rule that accepts the tool there is none that applies.
    rcases List.mem_append.1 hr with hr | hr
    · have hnot := hfront r hr
      rw [hraccepts] at hnot
      cases hnot
    rcases List.mem_cons.1 hr with rfl | hr
    · exact .refl r
    · exact (List.pairwise_cons.1 hback).1 r hr

/-- **The scan is sort, then first match.** For every rule set, tool and taint level:

* The first of the rules in the order of evaluation whose matcher accepts the tool decides, and it
  is reported with its place, its priority and its description. If there is none, the fallback
  counts.
* No rule is reported exactly when none of the rules in the order of evaluation accepts the tool.
* The decision is the one of that rule, or the fallback.
* The pass in the order of declaration that compares before it matches finds the same rule. -/
theorem explain_eq_first_of_ordered (s : RuleSet) (tool : ToolIdentity) (tags : TagSet)
    (taint : TaintLevel) :
    let first? := (s.ordered taint).find? fun r ↦ r.1.matcher.accepts tool tags
    s.explain tool tags taint = (first?.map fun r ↦ ⟨r.1.decision,
        some ⟨r.2, r.1.priority, r.1.description⟩⟩).getD ⟨s.fallback, none⟩ ∧
      ((s.explain tool tags taint).rule = none ↔
        ∀ r ∈ s.ordered taint, r.1.matcher.accepts tool tags = false) ∧
      s.evaluate tool tags taint = (first?.map (·.1.decision)).getD s.fallback ∧
      s.scan taint tool tags = first? := by
  intro first?
  have hfirst : first? = PlacedRule.strongest? (s.applicable taint tool tags) :=
    s.find?_ordered taint tool tags
  have hnone : first? = none ↔ ∀ r ∈ s.ordered taint, r.1.matcher.accepts tool tags = false := by
    simp only [first?, List.find?_eq_none, Bool.not_eq_true]
  rw [← hnone, hfirst, scan_eq_strongest?, evaluate, explain]
  rcases PlacedRule.strongest? (s.applicable taint tool tags) with - | ⟨rule, index⟩
  · exact ⟨rfl, iff_of_true rfl rfl, rfl, rfl⟩
  · exact ⟨rfl, iff_of_false (Option.some_ne_none _) (Option.some_ne_none _), rfl, rfl⟩

/-- Three rules for the tools of the web: the first is gated, the other two are equally strong. -/
def webRules : RuleSet :=
  ⟨[⟨ToolMatcher.empty.withOrigins ["web"], .deny, 20, some .untrusted, "gate"⟩,
    ⟨ToolMatcher.empty.withOrigins ["mail", "web"], .confirm, 10, none, "ask"⟩,
    ⟨ToolMatcher.empty.withOrigins ["web"], .allow, 10, none, ""⟩], .deny⟩

example : (webRules.ordered .trusted).map (·.2) = [1, 2] ∧
    (webRules.ordered .untrusted).map (·.2) = [0, 1, 2] := by cbv

example :
    webRules.explain (.fromOrigin "web" "fetch") ∅ .trusted = ⟨.confirm, some ⟨1, 10, "ask"⟩⟩ ∧
    webRules.explain (.fromOrigin "web" "fetch") ∅ .untrusted = ⟨.deny, some ⟨0, 20, "gate"⟩⟩ ∧
    webRules.explain (.inHouse "notes") ∅ .trusted = ⟨.deny, none⟩ := by decide

end RuleSet

end ToolAccess
