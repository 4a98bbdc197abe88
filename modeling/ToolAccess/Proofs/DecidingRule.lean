import Mathlib.Data.List.Induction
import Mathlib.Data.List.Nodup
import ToolAccess.Rule.Set

/-!
# The deciding rule

`RuleSet.explain` finds the deciding rule in one pass that remembers the strongest rule so far.
Here the rule is described without the pass: it is the rule that applies and that **outranks** every
rule that applies, where a rule outranks another when its priority is higher, or when the priorities
are equal and it is declared no later.

## What the description rests on

* `strongest?_spec` is the loop invariant: after a prefix of the list, the remembered rule is one of
  the prefix and outranks all of it. It is proved by induction from the end of the list, since the
  pass runs from the front.
* `Outranks.antisymm` makes the description exact: two rules that outrank each other stand at the
  same place, and the places of a list of rules are distinct.

`explain_of_outranks_all` and `explain_eq_fallback` turn the description into the two answers
`explain` can give, and `exists_outranks_all` says that one of the two always applies. Later modules
use these three and do not look at the pass.
-/

namespace ToolAccess

namespace PlacedRule

/-! ### Outranking -/

/-- The first rule counts before the second: its priority is higher, or the priorities are equal and
it is declared no later. -/
def Outranks (a b : PlacedRule) : Prop :=
  b.1.priority < a.1.priority ∨ a.1.priority = b.1.priority ∧ a.2 ≤ b.2

instance (a b : PlacedRule) : Decidable (a.Outranks b) :=
  inferInstanceAs
    (Decidable (b.1.priority < a.1.priority ∨ a.1.priority = b.1.priority ∧ a.2 ≤ b.2))

/-- Outranking through the numbers that the priorities stand for. -/
theorem outranks_iff {a b : PlacedRule} :
    a.Outranks b ↔ b.1.priority.toInt < a.1.priority.toInt ∨
      a.1.priority.toInt = b.1.priority.toInt ∧ a.2 ≤ b.2 := by
  rw [Outranks, Int64.lt_iff_toInt_lt, Int64.toInt_inj]

theorem Outranks.refl (a : PlacedRule) : a.Outranks a :=
  Or.inr ⟨rfl, Nat.le_refl _⟩

theorem Outranks.trans {a b c : PlacedRule} (hab : a.Outranks b) (hbc : b.Outranks c) :
    a.Outranks c := by
  rw [outranks_iff] at hab hbc ⊢
  omega

/-- Two rules that outrank each other stand at the same place. -/
theorem Outranks.antisymm {a b : PlacedRule} (hab : a.Outranks b) (hba : b.Outranks a) :
    a.2 = b.2 := by
  rw [outranks_iff] at hab hba
  omega

/-- The answer that a deciding rule gives. -/
def evaluation (r : PlacedRule) : Evaluation :=
  ⟨r.1.decision, some ⟨r.2, r.1.priority, r.1.description⟩⟩

/-! ### The pass -/

theorem strongest?_concat (l : List PlacedRule) (a : PlacedRule) :
    strongest? (l ++ [a]) = stronger (strongest? l) a := by
  rw [strongest?, List.foldl_append]
  rfl

theorem strongest?_eq_none_iff {l : List PlacedRule} : strongest? l = none ↔ l = [] := by
  induction l using List.reverseRecOn with
  | nil => simp [strongest?]
  | append_singleton l a =>
    rw [strongest?_concat]
    rcases strongest? l with - | e
    · simp [stronger]
    · rw [stronger]
      split <;> simp

/-- **The invariant of the pass.** The remembered rule is one of those seen, and it outranks all of
them. The induction takes the last rule off: it is declared after every other one, so a tie keeps
the remembered rule. -/
theorem strongest?_spec {l : List PlacedRule} (hl : l.Pairwise (fun a b ↦ a.2 < b.2)) :
    ∀ {w : PlacedRule}, strongest? l = some w → w ∈ l ∧ ∀ r ∈ l, w.Outranks r := by
  induction l using List.reverseRecOn with
  | nil => simp [strongest?]
  | append_singleton l a ih =>
    obtain ⟨hl', -, hla⟩ := List.pairwise_append.1 hl
    intro w hw
    rw [strongest?_concat] at hw
    rcases he : strongest? l with - | e
    · obtain rfl := strongest?_eq_none_iff.1 he
      rw [he, stronger, Option.some.injEq] at hw
      subst hw
      simp [Outranks.refl]
    · obtain ⟨hmem, hout⟩ := ih hl' he
      have hplace : e.2 < a.2 := hla e hmem a (List.mem_singleton.2 rfl)
      rw [he, stronger] at hw
      split at hw
      case isTrue hlt =>
        obtain rfl := Option.some.inj hw
        refine ⟨by simp, fun r hr ↦ ?_⟩
        rcases List.mem_append.1 hr with hr | hr
        · exact Outranks.trans (Or.inl hlt) (hout r hr)
        · rw [List.mem_singleton.1 hr]
          exact Outranks.refl _
      -- The earlier rule stays, also where the priorities are equal: its place is lower.
      case isFalse hge =>
        obtain rfl := Option.some.inj hw
        refine ⟨List.mem_append_left _ hmem, fun r hr ↦ ?_⟩
        rcases List.mem_append.1 hr with hr | hr
        · exact hout r hr
        · rw [List.mem_singleton.1 hr, outranks_iff]
          rw [Int64.lt_iff_toInt_lt] at hge
          omega

/-- In a list whose places ascend, two rules at one place are one rule. -/
theorem eq_of_place_eq {l : List PlacedRule} (hl : l.Pairwise (fun a b ↦ a.2 < b.2))
    {a b : PlacedRule} (ha : a ∈ l) (hb : b ∈ l) (hab : a.2 = b.2) : a = b := by
  have hnodup : (l.map (·.2)).Nodup :=
    (List.pairwise_map.2 hl).imp Nat.ne_of_lt
  exact List.inj_on_of_nodup_map hnodup ha hb hab

/-- **The pass finds the rule that outranks all others**, whichever way that rule was found. -/
theorem strongest?_eq_some_iff {l : List PlacedRule} (hl : l.Pairwise (fun a b ↦ a.2 < b.2))
    {w : PlacedRule} : strongest? l = some w ↔ w ∈ l ∧ ∀ r ∈ l, w.Outranks r := by
  refine ⟨strongest?_spec hl, fun ⟨hmem, hout⟩ ↦ ?_⟩
  rcases he : strongest? l with - | e
  · rw [strongest?_eq_none_iff.1 he] at hmem
    exact absurd hmem List.not_mem_nil
  · obtain ⟨hmem', hout'⟩ := strongest?_spec hl he
    rw [eq_of_place_eq hl hmem' hmem ((hout' w hmem).antisymm (hout e hmem'))]

end PlacedRule

namespace RuleSet

variable {s : RuleSet} {taint : TaintLevel} {tool : ToolIdentity} {tags : TagSet}

/-! ### Applicable rules -/

theorem mem_applicable_iff {r : PlacedRule} :
    r ∈ s.applicable taint tool tags ↔
      s.rules[r.2]? = some r.1 ∧ r.1.applies taint tool tags = true := by
  rw [applicable, List.mem_filter, List.mem_zipIdx_iff_getElem?]

/-- The places of the rules of a set ascend. -/
theorem pairwise_zipIdx (s : RuleSet) : s.rules.zipIdx.Pairwise (fun a b ↦ a.2 < b.2) := by
  rw [← List.pairwise_map (R := (· < ·)) (f := fun r : PlacedRule ↦ r.2), List.zipIdx_map_snd]
  exact List.pairwise_lt_range'

theorem pairwise_applicable (s : RuleSet) (taint : TaintLevel) (tool : ToolIdentity)
    (tags : TagSet) : (s.applicable taint tool tags).Pairwise (fun a b ↦ a.2 < b.2) :=
  s.pairwise_zipIdx.filter _

/-! ### The two answers -/

/-- A rule that applies and outranks every rule that applies decides. -/
theorem explain_of_outranks_all {w : PlacedRule} (hw : w ∈ s.applicable taint tool tags)
    (hout : ∀ r ∈ s.applicable taint tool tags, w.Outranks r) :
    s.explain tool tags taint = w.evaluation := by
  rw [explain, (PlacedRule.strongest?_eq_some_iff (s.pairwise_applicable taint tool tags)).2
    ⟨hw, hout⟩]
  rfl

/-- Where no rule applies, the fallback counts. -/
theorem explain_eq_fallback (h : s.applicable taint tool tags = []) :
    s.explain tool tags taint = ⟨s.fallback, none⟩ := by
  rw [explain, h]
  rfl

/-- Where some rule applies, one of them outranks all that do. -/
theorem exists_outranks_all (h : s.applicable taint tool tags ≠ []) :
    ∃ w ∈ s.applicable taint tool tags, ∀ r ∈ s.applicable taint tool tags, w.Outranks r := by
  obtain ⟨w, hw⟩ := Option.ne_none_iff_exists'.1 (mt PlacedRule.strongest?_eq_none_iff.1 h)
  exact ⟨w, PlacedRule.strongest?_spec (s.pairwise_applicable taint tool tags) hw⟩

end RuleSet

end ToolAccess
