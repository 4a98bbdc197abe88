import ToolAccess.CommandLine.Run
import ToolAccess.Proofs.EvaluationOrder
import ToolAccess.Proofs.RisingTaint

/-!
# One order for all taint levels

At each taint level the rules that are active there are considered in an order of their own. These
orders fit together: that of a lower level is what is left of that of a higher one when the rules
that are not yet active are taken out. So it is enough to read the order at the highest level.

## What the proof rests on

An order of evaluation is determined by the rules that stand in it (`RuleSet.eq_ordered_of_perm`):
rules that outrank one another stand at one place, so there is only one way to list the active rules
such that each outranks those behind it. This is what a sort that is not stable would break. To take
rules out of a list keeps what each rule outranks, and gives the rules that are active at the lower
level, since a rule that is active stays active when the taint rises.

The main result is `RuleSet.orders_fit_together`.
-/

namespace ToolAccess

/-- The first rule comes before the second: its priority is higher, or the priorities are equal and
it is declared earlier. -/
def PlacedRule.ComesBefore (a b : PlacedRule) : Prop :=
  b.1.priority < a.1.priority ∨ a.1.priority = b.1.priority ∧ a.2 < b.2

/-- The line that is printed for a rule. -/
def PlacedRule.line (r : PlacedRule) : String :=
  "#" ++ Text.pad .left 4 none (toString r.2) ++ " " ++ r.1.display ++ "\n"

/-- To outrank a rule at another place is to come before it. -/
theorem PlacedRule.Outranks.comesBefore {a b : PlacedRule} (h : a.Outranks b) (hne : a.2 ≠ b.2) :
    a.ComesBefore b :=
  h.imp_right fun ⟨hpriority, hplace⟩ ↦ ⟨hpriority, Nat.lt_of_le_of_ne hplace hne⟩

/-- No level is higher than `untrusted`. -/
theorem TaintLevel.le_untrusted (taint : TaintLevel) : taint ≤ .untrusted := by
  cases taint <;> decide

namespace RuleSet

variable {s : RuleSet} {low high taint : TaintLevel}

/-! ### The rules of one level -/

/-- The rules that are active at a taint level, with their places, in the order of declaration. -/
def active (s : RuleSet) (taint : TaintLevel) : List PlacedRule :=
  s.rules.zipIdx.filter fun r ↦ r.1.isActiveAt taint

theorem perm_ordered (s : RuleSet) (taint : TaintLevel) :
    (s.ordered taint).Perm (s.active taint) :=
  List.mergeSort_perm ..

theorem pairwise_active (s : RuleSet) (taint : TaintLevel) :
    (s.active taint).Pairwise fun a b ↦ a.2 < b.2 :=
  s.pairwise_zipIdx.filter _

/-- No place comes twice in the order of evaluation. -/
theorem nodup_places_ordered (s : RuleSet) (taint : TaintLevel) :
    ((s.ordered taint).map (·.2)).Nodup := by
  rw [((s.perm_ordered taint).map _).nodup_iff]
  exact (List.pairwise_map.2 (s.pairwise_active taint)).imp Nat.ne_of_lt

theorem pairwise_ordered_comesBefore (s : RuleSet) (taint : TaintLevel) :
    (s.ordered taint).Pairwise PlacedRule.ComesBefore := by
  have hplaces : (s.ordered taint).Pairwise fun a b ↦ a.2 ≠ b.2 :=
    List.pairwise_map.1 (s.nodup_places_ordered taint)
  exact ((s.pairwise_ordered taint).and hplaces).imp fun h ↦ h.1.comesBefore h.2

/-- **The order of evaluation is determined by its rules.** The active rules can be listed in only
one way such that each outranks those behind it. -/
theorem eq_ordered_of_perm {l : List PlacedRule} (hperm : l.Perm (s.active taint))
    (hl : l.Pairwise PlacedRule.Outranks) : l = s.ordered taint := by
  have hsame : l.Perm (s.ordered taint) := hperm.trans (s.perm_ordered taint).symm
  refine hsame.eq_of_pairwise (fun a b ha hb hab hba ↦ ?_) hl (s.pairwise_ordered taint)
  exact PlacedRule.eq_of_place_eq (s.pairwise_active taint) (hperm.mem_iff.1 ha)
    ((s.perm_ordered taint).mem_iff.1 hb) (hab.antisymm hba)

/-! ### Two levels -/

/-- The rules that are active at a lower level are among those of a higher one. -/
theorem filter_active (h : low ≤ high) :
    (s.active high).filter (fun r ↦ r.1.isActiveAt low) = s.active low := by
  rw [active, List.filter_filter]
  refine List.filter_congr fun r _ ↦ ?_
  rw [Bool.and_eq_left_iff_imp]
  exact Rule.isActiveAt_mono h

/-- **The order at a lower level** is that of a higher one, without the rules that are not
active. -/
theorem ordered_eq_filter_ordered (s : RuleSet) (h : low ≤ high) :
    s.ordered low = (s.ordered high).filter fun r ↦ r.1.isActiveAt low := by
  refine (eq_ordered_of_perm ?_ ((s.pairwise_ordered high).filter _)).symm
  rw [← filter_active h]
  exact (s.perm_ordered high).filter _

/-- Two rules that are active at the lower level stand in the same order at both. -/
theorem sublist_ordered_iff (h : low ≤ high) {a b : PlacedRule}
    (ha : a.1.isActiveAt low = true) (hb : b.1.isActiveAt low = true) :
    [a, b].Sublist (s.ordered low) ↔ [a, b].Sublist (s.ordered high) := by
  rw [s.ordered_eq_filter_ordered h]
  constructor
  · exact fun hab ↦ hab.trans List.filter_sublist
  · intro hab
    have hkept : [a, b].filter (fun r ↦ r.1.isActiveAt low) = [a, b] := by simp [ha, hb]
    exact hkept ▸ hab.filter _

/-- What is printed is a line for each rule in the order of evaluation, and the fallback. -/
theorem listing_eq (s : RuleSet) (taint : TaintLevel) :
    s.listing taint = String.join ((s.ordered taint).map PlacedRule.line) ++
      "default: " ++ s.fallback.spelling ++ "\n" :=
  rfl

/-- **The orders of the taint levels fit together.** For every rule set:

* The order at a level holds the rules that the taint has activated, each at the place where it is
  declared and no place twice, and nothing else. Of any two of them the earlier one has the higher
  priority, or the same priority and the lower place.
* The order at a lower level is that of a higher one without the rules that are not active at the
  lower level.
* So the order that is printed for `untrusted` refines the orders of all levels: rules that are
  active at a level stand there in the same order, and what is printed for the level is what is
  printed for `untrusted`, without the lines of the other rules. -/
theorem orders_fit_together (s : RuleSet) :
    (∀ taint,
      (∀ rule index, (rule, index) ∈ s.ordered taint ↔ s.rules[index]? = some rule ∧
        ∀ level, rule.threshold = some level → level ≤ taint) ∧
      ((s.ordered taint).map (·.2)).Nodup ∧
      (s.ordered taint).Pairwise fun a b ↦
        b.1.priority < a.1.priority ∨ a.1.priority = b.1.priority ∧ a.2 < b.2) ∧
    (∀ low high, low ≤ high →
      s.ordered low = (s.ordered high).filter fun r ↦ r.1.isActiveAt low) ∧
    ∀ taint,
      (∀ a b : PlacedRule, a.1.isActiveAt taint = true → b.1.isActiveAt taint = true →
        ([a, b].Sublist (s.ordered taint) ↔ [a, b].Sublist (s.ordered .untrusted))) ∧
      s.listing taint =
        String.join (((s.ordered .untrusted).filter fun r ↦ r.1.isActiveAt taint).map
          PlacedRule.line) ++ "default: " ++ s.fallback.spelling ++ "\n" := by
  refine ⟨fun taint ↦ ⟨fun rule index ↦ ?_, s.nodup_places_ordered taint,
    s.pairwise_ordered_comesBefore taint⟩, fun low high h ↦ s.ordered_eq_filter_ordered h,
    fun taint ↦ ⟨fun a b ha hb ↦ sublist_ordered_iff taint.le_untrusted ha hb, ?_⟩⟩
  · rw [mem_ordered_iff, Rule.isActiveAt_iff]
  · rw [listing_eq, s.ordered_eq_filter_ordered taint.le_untrusted]

/-- Four rules with priorities at both ends of the range, two of which are equally strong; one of
these waits for an untrusted turn, and so does the weakest. -/
def edgeRules : RuleSet :=
  ⟨[⟨.withTagsAny .empty [.destructive], .deny, Int64.minValue, some .untrusted, "last"⟩,
    ⟨.withTagsAny .empty [.readOnly], .allow, 0, none, "middle"⟩,
    ⟨.withOrigins .empty ["web"], .deny, Int64.maxValue, some .untrusted, "gate"⟩,
    ⟨.withOrigins .empty ["web"], .confirm, Int64.maxValue, none, "ask"⟩], .deny⟩

theorem edgeRules_fit_together :
    let middle : PlacedRule := (⟨.withTagsAny .empty [.readOnly], .allow, 0, none, "middle"⟩, 1)
    let ask : PlacedRule :=
      (⟨.withOrigins .empty ["web"], .confirm, Int64.maxValue, none, "ask"⟩, 3)
    (TaintLevel.trusted ≤ .untrusted ∧
      edgeRules.ordered .trusted =
        (edgeRules.ordered .untrusted).filter fun r ↦ r.1.isActiveAt .trusted) ∧
    (ask.1.isActiveAt .trusted = true ∧ middle.1.isActiveAt .trusted = true ∧
      ([ask, middle].Sublist (edgeRules.ordered .trusted) ↔
        [ask, middle].Sublist (edgeRules.ordered .untrusted))) ∧
    (edgeRules.ordered .untrusted).map (·.2) = [2, 3, 1, 0] ∧
    (edgeRules.ordered .trusted).map (·.2) = [3, 1] := by
  intro middle ask
  obtain ⟨-, hlevels, hrefines⟩ := orders_fit_together edgeRules
  obtain ⟨hpairs, -⟩ := hrefines .trusted
  -- The sort does not evaluate here, but each order is told by its rules.
  have huntrusted : [2, 3, 1, 0].filterMap (edgeRules.rules.zipIdx[·]?) =
      edgeRules.ordered .untrusted := eq_ordered_of_perm (by decide) (by decide)
  have htrusted : [3, 1].filterMap (edgeRules.rules.zipIdx[·]?) = edgeRules.ordered .trusted :=
    eq_ordered_of_perm (by decide) (by decide)
  exact ⟨⟨by decide, hlevels .trusted .untrusted (by decide)⟩,
    ⟨rfl, rfl, hpairs ask middle rfl rfl⟩, by rw [← huntrusted]; rfl, by rw [← htrusted]; rfl⟩

end RuleSet

end ToolAccess
