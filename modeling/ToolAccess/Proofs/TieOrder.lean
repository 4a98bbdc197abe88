import Mathlib.Logic.Relation
import ToolAccess.Proofs.DecidingRule

/-!
# Only matching rules and their ties count

A policy is edited all the time: rules are added for other tools, switched off, moved to where they
read better. Which of these edits can change what is decided about a given tool? Only those that
touch the rules that apply to it, and among these only the order of rules of equal priority.

## Rearranging without touching ties

`KeepsTies` compares two lists of rules: the second has the rules of the first, each with the place
that it had there, in any order in which the places of rules of equal priority ascend. This is the
same as to say that for each priority both lists have the same rules of this priority, in the same
order (`keepsTies_iff`), which is the form that the proofs use.

## What the invariance rests on

The deciding rule is described without the pass that finds it and without places: it **leads** the
rules that apply, being the first of its priority, with none of a higher priority (`Rule.Leads`).
Leading is a property of the lists of the single priorities, so it is the same in two lists that
keep their ties (`Rule.Leads.congr`). The main result is `RuleSet.only_ties_count`.
-/

namespace ToolAccess

/-! ### Rearrangements that keep ties -/

/-- The rules of one priority, in their order. -/
def ofPriority (p : Int64) (rules : List Rule) : List Rule :=
  rules.filter fun r ↦ r.priority == p

/-- The second list is a rearrangement of the first in which rules of equal priority keep their
order. -/
def KeepsTies (rules rules' : List Rule) : Prop :=
  ∃ taken : List PlacedRule, taken.Perm rules.zipIdx ∧ taken.map (·.1) = rules' ∧
    taken.Pairwise fun a b ↦ a.1.priority = b.1.priority → a.2 < b.2

theorem mem_ofPriority {p : Int64} {rules : List Rule} {r : Rule} :
    r ∈ ofPriority p rules ↔ r ∈ rules ∧ r.priority = p := by
  rw [ofPriority, List.mem_filter, beq_iff_eq]

@[simp] theorem ofPriority_append (p : Int64) (l m : List Rule) :
    ofPriority p (l ++ m) = ofPriority p l ++ ofPriority p m :=
  List.filter_append ..

theorem ofPriority_cons_of_eq {p : Int64} {r : Rule} (h : r.priority = p) (l : List Rule) :
    ofPriority p (r :: l) = r :: ofPriority p l :=
  List.filter_cons_of_pos (beq_iff_eq.2 h)

theorem ofPriority_cons_of_ne {p : Int64} {r : Rule} (h : r.priority ≠ p) (l : List Rule) :
    ofPriority p (r :: l) = ofPriority p l :=
  List.filter_cons_of_neg (mt beq_iff_eq.1 h)

theorem ofPriority_map_fst (p : Int64) (l : List PlacedRule) :
    ofPriority p (l.map (·.1)) = (l.filter fun r ↦ r.1.priority == p).map (·.1) := by
  rw [ofPriority, List.filter_map]
  rfl

/-- Rules of one priority whose places ascend where priorities are equal stand in the order of their
places. -/
theorem pairwise_filter_priority {l : List PlacedRule}
    (hl : l.Pairwise fun a b ↦ a.1.priority = b.1.priority → a.2 < b.2) (p : Int64) :
    (l.filter fun r ↦ r.1.priority == p).Pairwise fun a b ↦ a.2 < b.2 := by
  refine (hl.filter _).imp_of_mem fun {a b} ha hb hab ↦ hab ?_
  have ha' := (List.mem_filter.1 ha).2
  have hb' := (List.mem_filter.1 hb).2
  rw [beq_iff_eq] at ha' hb'
  rw [ha', hb']

/-- Rules that agree in each priority can be taken from their places, one after the other. The
induction is on the second list: its first rule is the first of its priority in the first list, so
what stands in front of it there has other priorities and may be passed over. -/
theorem exists_taken {l : List PlacedRule} {rules' : List Rule}
    (hl : l.Pairwise fun a b ↦ a.1.priority = b.1.priority → a.2 < b.2)
    (h : ∀ p, ofPriority p (l.map (·.1)) = ofPriority p rules') :
    ∃ taken : List PlacedRule, taken.Perm l ∧ taken.map (·.1) = rules' ∧
      taken.Pairwise fun a b ↦ a.1.priority = b.1.priority → a.2 < b.2 := by
  induction rules' generalizing l with
  | nil =>
    have hnil : l = [] := List.eq_nil_iff_forall_not_mem.2 fun a ha ↦ by
      have hmem := mem_ofPriority.2 ⟨List.mem_map_of_mem (f := (·.1)) ha, rfl⟩
      rw [h a.1.priority] at hmem
      cases hmem
    exact ⟨[], by rw [hnil], rfl, .nil⟩
  | cons r rules' ih =>
    have hfirst := h r.priority
    rw [ofPriority_map_fst, ofPriority_cons_of_eq rfl] at hfirst
    obtain ⟨a, ends, hsplit, rfl, -⟩ := List.map_eq_cons_iff.1 hfirst
    obtain ⟨front, back, rfl, hfront, -, -⟩ := List.filter_eq_cons_iff.1 hsplit
    simp only [beq_iff_eq] at hfront
    obtain ⟨hfronts, hafter, hacross⟩ := List.pairwise_append.1 hl
    obtain ⟨hback, hbacks⟩ := List.pairwise_cons.1 hafter
    have hrest : ∀ p, ofPriority p ((front ++ back).map (·.1)) = ofPriority p rules' := by
      intro p
      have hp := h p
      rw [List.map_append, ofPriority_append, List.map_cons] at hp
      rw [List.map_append, ofPriority_append]
      by_cases hap : a.1.priority = p
      · have hnone : ofPriority p (front.map (·.1)) = [] := by
          rw [ofPriority_map_fst, List.map_eq_nil_iff, List.filter_eq_nil_iff]
          exact fun b hb ↦ by rw [beq_iff_eq, ← hap]; exact hfront b hb
        rw [hnone, ofPriority_cons_of_eq hap, ofPriority_cons_of_eq hap] at hp
        rw [hnone]
        exact (List.cons.inj hp).2
      · rwa [ofPriority_cons_of_ne hap, ofPriority_cons_of_ne hap] at hp
    obtain ⟨taken, hperm, htaken, hordered⟩ := ih
      (List.pairwise_append.2 ⟨hfronts, hbacks, fun x hx y hy ↦
        hacross x hx y (List.mem_cons_of_mem a hy)⟩) hrest
    refine ⟨a :: taken, (hperm.cons a).trans List.perm_middle.symm, by rw [List.map_cons, htaken],
      List.pairwise_cons.2 ⟨fun b hb hpriority ↦ ?_, hordered⟩⟩
    rcases List.mem_append.1 (hperm.mem_iff.1 hb) with hb | hb
    · exact absurd hpriority.symm (hfront b hb)
    · exact hback b hb hpriority

/-- **Keeping ties is agreeing in each priority.** -/
theorem keepsTies_iff {rules rules' : List Rule} :
    KeepsTies rules rules' ↔ ∀ p, ofPriority p rules = ofPriority p rules' := by
  have hplaces : rules.zipIdx.Pairwise fun a b ↦ a.1.priority = b.1.priority → a.2 < b.2 :=
    (RuleSet.pairwise_zipIdx ⟨rules, .deny⟩).imp fun {a b} (hab : a.2 < b.2) _ ↦ hab
  constructor
  · rintro ⟨taken, hperm, rfl, hordered⟩ p
    have hsame := List.Perm.eq_of_pairwise
      (fun a b _ _ hab hba ↦ absurd hab (Nat.lt_asymm hba))
      (pairwise_filter_priority hplaces p) (pairwise_filter_priority hordered p)
      (hperm.symm.filter fun r ↦ r.1.priority == p)
    have hrules : rules.zipIdx.map (·.1) = rules := List.zipIdx_map_fst ..
    rw [ofPriority_map_fst, ← hsame, ← ofPriority_map_fst, hrules]
  · intro h
    refine exists_taken hplaces fun p ↦ ?_
    have hrules : rules.zipIdx.map (·.1) = rules := List.zipIdx_map_fst ..
    rw [hrules, h p]

/-! ### The leading rule -/

/-- The rule is the first of its priority in the list, and no rule of the list has a higher one. -/
structure Rule.Leads (w : Rule) (rules : List Rule) : Prop where
  first : (ofPriority w.priority rules).head? = some w
  highest : ∀ r ∈ rules, r.priority ≤ w.priority

namespace Rule.Leads

variable {v w : Rule} {rules rules' : List Rule}

theorem mem (h : w.Leads rules) : w ∈ rules :=
  (mem_ofPriority.1 (List.mem_of_head? h.first)).1

/-- Only one rule leads. -/
theorem eq (hv : v.Leads rules) (hw : w.Leads rules) : v = w := by
  have hpriority : v.priority = w.priority :=
    Int64.le_antisymm (hw.highest v hv.mem) (hv.highest w hw.mem)
  exact Option.some.inj (hv.first.symm.trans (hpriority ▸ hw.first))

/-- Who leads is told by the rules of each priority. -/
theorem congr (h : ∀ p, ofPriority p rules = ofPriority p rules') (hw : w.Leads rules) :
    w.Leads rules' := by
  refine ⟨h w.priority ▸ hw.first, fun r hr ↦ ?_⟩
  have hmem := mem_ofPriority.2 ⟨hr, rfl⟩
  rw [← h r.priority] at hmem
  exact hw.highest r (mem_ofPriority.1 hmem).1

end Rule.Leads

namespace RuleSet

variable {s t : RuleSet} {taint : TaintLevel} {tool : ToolIdentity} {tags : TagSet}

/-- The rules that apply to a tool, in the order of declaration. -/
def matching (s : RuleSet) (taint : TaintLevel) (tool : ToolIdentity) (tags : TagSet) :
    List Rule :=
  s.rules.filter fun r ↦ r.applies taint tool tags

theorem map_fst_applicable (s : RuleSet) (taint : TaintLevel) (tool : ToolIdentity)
    (tags : TagSet) : (s.applicable taint tool tags).map (·.1) = s.matching taint tool tags := by
  have hrules : s.rules.zipIdx.map (·.1) = s.rules := List.zipIdx_map_fst ..
  rw [matching, ← hrules, List.filter_map]
  rfl

/-- The rule that outranks all that apply leads them: a rule of its priority is declared behind
it. -/
theorem leads_of_outranks_all {w : PlacedRule} (hw : w ∈ s.applicable taint tool tags)
    (hout : ∀ r ∈ s.applicable taint tool tags, w.Outranks r) :
    w.1.Leads (s.matching taint tool tags) := by
  rw [← map_fst_applicable]
  constructor
  · obtain ⟨front, back, hsplit⟩ := List.append_of_mem hw
    have hplaces := s.pairwise_applicable taint tool tags
    rw [hsplit] at hplaces hout
    obtain ⟨-, -, hacross⟩ := List.pairwise_append.1 hplaces
    have hnone : ofPriority w.1.priority (front.map (·.1)) = [] := by
      rw [ofPriority_map_fst, List.map_eq_nil_iff, List.filter_eq_nil_iff]
      intro r hr hpriority
      have hplace : r.2 < w.2 := hacross r hr w List.mem_cons_self
      have hranks := PlacedRule.outranks_iff.1 (hout r (List.mem_append_left _ hr))
      rw [beq_iff_eq.1 hpriority] at hranks
      omega
    rw [hsplit, List.map_append, ofPriority_append, hnone, List.map_cons,
      ofPriority_cons_of_eq rfl]
    rfl
  · intro r hr
    obtain ⟨a, ha, rfl⟩ := List.mem_map.1 hr
    have hranks := PlacedRule.outranks_iff.1 (hout a ha)
    rw [Int64.le_iff_toInt_le]
    omega

/-- The evaluation is that of the rule that leads those that apply, or the fallback where none
does. -/
theorem explain_cases (s : RuleSet) (tool : ToolIdentity) (tags : TagSet) (taint : TaintLevel) :
    s.matching taint tool tags = [] ∧ s.explain tool tags taint = ⟨s.fallback, none⟩ ∨
      ∃ w : PlacedRule, w.1.Leads (s.matching taint tool tags) ∧
        s.explain tool tags taint = w.evaluation := by
  by_cases hnone : s.applicable taint tool tags = []
  · exact Or.inl ⟨by rw [← map_fst_applicable, hnone, List.map_nil], explain_eq_fallback hnone⟩
  · obtain ⟨w, hw, hout⟩ := s.exists_outranks_all hnone
    exact Or.inr ⟨w, leads_of_outranks_all hw hout, explain_of_outranks_all hw hout⟩

/-- Rule sets with one fallback whose matching rules agree in each priority decide alike. -/
theorem explain_congr (hfallback : t.fallback = s.fallback)
    (h : ∀ p, ofPriority p (s.matching taint tool tags) =
      ofPriority p (t.matching taint tool tags)) :
    (t.explain tool tags taint).decision = (s.explain tool tags taint).decision ∧
      (t.explain tool tags taint).rule.map (fun r ↦ (r.priority, r.description)) =
        (s.explain tool tags taint).rule.map fun r ↦ (r.priority, r.description) := by
  rcases s.explain_cases tool tags taint with ⟨hnil, hs⟩ | ⟨w, hw, hs⟩
  · rcases t.explain_cases tool tags taint with ⟨-, ht⟩ | ⟨v, hv, -⟩
    · rw [hs, ht, hfallback]
      exact ⟨rfl, rfl⟩
    · have hmem := (hv.congr fun p ↦ (h p).symm).mem
      rw [hnil] at hmem
      cases hmem
  · rcases t.explain_cases tool tags taint with ⟨hnil, -⟩ | ⟨v, hv, ht⟩
    · have hmem := (hw.congr h).mem
      rw [hnil] at hmem
      cases hmem
    · rw [hs, ht, PlacedRule.evaluation, PlacedRule.evaluation, hv.eq (hw.congr h)]
      exact ⟨rfl, rfl⟩

end RuleSet

/-! ### Edits that touch no tie -/

/-- The rule takes no part in the decision about a tool: it is not active, it does not accept the
tool, or it has no criteria and accepts nothing. -/
def Rule.IsAside (r : Rule) (taint : TaintLevel) (tool : ToolIdentity) (tags : TagSet) : Prop :=
  r.isActiveAt taint = false ∨ r.matcher.accepts tool tags = false ∨ r.matcher.isEmpty = true

theorem Rule.isAside_iff {r : Rule} {taint : TaintLevel} {tool : ToolIdentity} {tags : TagSet} :
    r.IsAside taint tool tags ↔ r.applies taint tool tags = false := by
  have hempty : r.matcher.isEmpty = true → r.matcher.accepts tool tags = false := by
    intro h
    simp [ToolMatcher.accepts, h]
  rw [IsAside, applies, Bool.and_eq_false_iff]
  exact or_congr_right ⟨fun h ↦ h.elim id hempty, Or.inl⟩

/-- One edit of a list of rules: a rule that takes no part is put in or taken out anywhere, or two
neighbours of different priority change places. -/
inductive RuleEdit (taint : TaintLevel) (tool : ToolIdentity) (tags : TagSet) :
    List Rule → List Rule → Prop where
  | insert (front back : List Rule) {r : Rule} (h : r.IsAside taint tool tags) :
      RuleEdit taint tool tags (front ++ back) (front ++ r :: back)
  | delete (front back : List Rule) {r : Rule} (h : r.IsAside taint tool tags) :
      RuleEdit taint tool tags (front ++ r :: back) (front ++ back)
  | swap (front back : List Rule) {a b : Rule} (h : a.priority ≠ b.priority) :
      RuleEdit taint tool tags (front ++ a :: b :: back) (front ++ b :: a :: back)

/-- In each priority, rules that change places stand as before. -/
theorem ofPriority_swap {a b : Rule} (h : a.priority ≠ b.priority) (p : Int64) (l : List Rule) :
    ofPriority p (a :: b :: l) = ofPriority p (b :: a :: l) := by
  by_cases hap : a.priority = p
  · have hbp : b.priority ≠ p := fun hbp ↦ h (hap.trans hbp.symm)
    rw [ofPriority_cons_of_eq hap, ofPriority_cons_of_ne hbp, ofPriority_cons_of_ne hbp,
      ofPriority_cons_of_eq hap]
  · by_cases hbp : b.priority = p
    · rw [ofPriority_cons_of_ne hap, ofPriority_cons_of_eq hbp, ofPriority_cons_of_eq hbp,
        ofPriority_cons_of_ne hap]
    · simp only [ofPriority_cons_of_ne hap, ofPriority_cons_of_ne hbp]

namespace RuleSet

variable {s t : RuleSet} {taint : TaintLevel} {tool : ToolIdentity} {tags : TagSet}

/-- An edit leaves the matching rules of each priority as they are. -/
theorem ofPriority_matching_of_edit {rules rules' : List Rule}
    (h : RuleEdit taint tool tags rules rules') (p : Int64) :
    ofPriority p (rules.filter fun r ↦ r.applies taint tool tags) =
      ofPriority p (rules'.filter fun r ↦ r.applies taint tool tags) := by
  cases h with
  | insert front back h => simp [Rule.isAside_iff.1 h]
  | delete front back h => simp [Rule.isAside_iff.1 h]
  | @swap front back a b h =>
    simp only [List.filter_append, List.filter_cons, ofPriority_append]
    -- Where one of the two does not apply, there is nothing to swap among the rules that do.
    by_cases ha : a.applies taint tool tags = true
    · by_cases hb : b.applies taint tool tags = true
      · simp only [if_pos ha, if_pos hb]
        rw [ofPriority_swap h]
      · simp only [if_neg hb]
    · simp only [if_neg ha]

/-- So does any number of edits. -/
theorem ofPriority_matching_of_edits {rules rules' : List Rule}
    (h : Relation.ReflTransGen (RuleEdit taint tool tags) rules rules') (p : Int64) :
    ofPriority p (rules.filter fun r ↦ r.applies taint tool tags) =
      ofPriority p (rules'.filter fun r ↦ r.applies taint tool tags) := by
  induction h with
  | refl => rfl
  | tail _ hedit ih => rw [ih, ofPriority_matching_of_edit hedit]

/-- **Only the matching rules and their ties count.** Take two rule sets with the same fallback, and
any tool and taint.

* If the rules that apply in the second are those that apply in the first, rearranged so that rules
  of equal priority keep their order, then the decision is the same, a rule of the same priority and
  description decides in both, and the fallback counts in both or in neither.
* This is so in particular if the second set is made from the first by edits that put in or take out
  rules that are not active, do not match or never match, and by swaps of neighbours of different
  priority. -/
theorem only_ties_count (s t : RuleSet) (hfallback : t.fallback = s.fallback)
    (tool : ToolIdentity) (tags : TagSet) (taint : TaintLevel) :
    (KeepsTies (s.matching taint tool tags) (t.matching taint tool tags) →
      (t.explain tool tags taint).decision = (s.explain tool tags taint).decision ∧
        (t.explain tool tags taint).rule.map (fun r ↦ (r.priority, r.description)) =
          (s.explain tool tags taint).rule.map fun r ↦ (r.priority, r.description)) ∧
    (Relation.ReflTransGen (RuleEdit taint tool tags) s.rules t.rules →
      KeepsTies (s.matching taint tool tags) (t.matching taint tool tags)) := by
  constructor
  · intro h
    exact explain_congr hfallback (keepsTies_iff.1 h)
  · intro h
    exact keepsTies_iff.2 (ofPriority_matching_of_edits h)

/-- The rules for the web in another order, with a rule that never matches: the question and the
permission, which are equally strong, still follow one another. -/
theorem reorderedWeb_decides_alike :
    let web := ToolMatcher.empty.withOrigins ["web"]
    let ask : Rule := ⟨web, .confirm, 10, none, "ask"⟩
    let allow : Rule := ⟨web, .allow, 10, none, "allow"⟩
    let refuse : Rule := ⟨web, .deny, 5, none, "refuse"⟩
    let idle : Rule := ⟨.empty, .deny, 99, none, "idle"⟩
    let s : RuleSet := ⟨[ask, allow, refuse], .deny⟩
    let t : RuleSet := ⟨[idle, ask, refuse, allow], .deny⟩
    KeepsTies (s.matching .trusted (.fromOrigin "web" "fetch") ∅)
        (t.matching .trusted (.fromOrigin "web" "fetch") ∅) ∧
      (t.explain (.fromOrigin "web" "fetch") ∅ .trusted).decision =
        (s.explain (.fromOrigin "web" "fetch") ∅ .trusted).decision ∧
      (t.explain (.fromOrigin "web" "fetch") ∅ .trusted).rule.map (·.description) =
        some "ask" := by
  intro web ask allow refuse idle s t
  obtain ⟨halike, hedits⟩ := only_ties_count s t rfl (.fromOrigin "web" "fetch") ∅ .trusted
  have hkeeps := hedits ((Relation.ReflTransGen.single
    (.swap [ask] [] (by decide))).tail (.insert [] [ask, refuse, allow] (Or.inr (Or.inr rfl))))
  exact ⟨hkeeps, (halike hkeeps).1, by decide⟩

end RuleSet

end ToolAccess
