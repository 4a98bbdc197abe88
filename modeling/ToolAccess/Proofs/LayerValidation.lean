import Mathlib.Data.List.Basic
import ToolAccess.Proofs.EvaluationOrder
import ToolAccess.Proofs.LayeredRules
import ToolAccess.Proofs.ReportedFaults

/-!
# Reading the document of a layer

The document of a layer is read once, from the top to the bottom: what can be read becomes the
layer, and what cannot is noted on a list of problems that other documents have written on before
and will write on after. Here the list is carried along as it is in that one pass
(`LayerDocument.validate`): a rule is dropped if the list is longer after the rule than it was
before it, whoever wrote the entries that were there.

## What the proof rests on

* **Work that adds to a list** is told by what it gives and what it adds (`Noting.Adds`), and this
  composes. So the pass gives the layer and adds the problems that `LayerDocument.toLayer` and
  `LayerDocument.problems` give without any list (`LayerDocument.adds_validate`); in particular the
  earlier problems stay, in front, and a comparison of lengths asks whether the rule is at fault.
* **Places.** A document is a list of places in their order (`LayerDocument.places`). Problems are
  found place by place, so they come in the order of the places and each place has one at most
  (`LayerDocument.inOrder_problems`).
* **Rules.** A rule of the layer says what a rule of the document says (`RuleDocument.Means`), and
  there is such a rule just if all words and patterns of the document's rule can be read
  (`RuleDocument.toRule?_eq_some_iff`).

The main result is `LayerDocument.validation_is_faithful`.
-/

namespace ToolAccess

/-! ### Lists in the order of places -/

/-- The list has one entry for each finding and nothing else, in the order of the places. -/
def InOrder {P X : Type} (before : P → P → Prop) (list : List X) (finding : P → X → Prop) : Prop :=
  ∃ found : List (P × X), found.Pairwise (fun a b ↦ before a.1 b.1) ∧
    (∀ place x, (place, x) ∈ found ↔ finding place x) ∧ found.map (·.2) = list

/-- What is looked up at places one after the other is found in their order. -/
theorem InOrder.filterMap {P X : Type} {before : P → P → Prop} {places : List P}
    {look : P → Option X} {finding : P → X → Prop} (hplaces : places.Pairwise before)
    (hlook : ∀ place x, look place = some x ↔ finding place x)
    (hmem : ∀ place x, finding place x → place ∈ places) :
    InOrder before (places.filterMap look) finding := by
  refine ⟨places.filterMap fun place ↦ (look place).map (place, ·), ?_, fun place x ↦ ?_, ?_⟩
  · refine hplaces.filterMap _ fun a b hab x hx y hy ↦ ?_
    obtain ⟨_, -, rfl⟩ := Option.map_eq_some_iff.1 hx
    obtain ⟨_, -, rfl⟩ := Option.map_eq_some_iff.1 hy
    exact hab
  · rw [List.mem_filterMap, ← hlook]
    constructor
    · rintro ⟨place', -, hx⟩
      obtain ⟨_, hx, heq⟩ := Option.map_eq_some_iff.1 hx
      cases heq
      exact hx
    · intro hx
      exact ⟨place, hmem place x ((hlook place x).1 hx), by rw [hx, Option.map_some]⟩
  · rw [List.map_filterMap]
    refine List.filterMap_congr fun place _ ↦ ?_
    rw [Option.map_map]
    exact congrFun Option.map_id (look place)

/-- Looking at the entries of a list by their indices is going through the list. -/
theorem filterMap_range {α β : Type} (f : Nat → α → Option β) (l : List α) :
    ((List.range l.length).filterMap fun i ↦ l[i]?.bind (f i)) =
      l.zipIdx.filterMap fun e ↦ f e.2 e.1 := by
  rw [List.range_eq_range', ← List.zipIdx_map_snd 0 l, List.filterMap_map]
  refine List.filterMap_congr fun e he ↦ ?_
  rw [Function.comp_apply, List.mk_mem_zipIdx_iff_getElem?.1 he, Option.bind_some]

theorem filterMap_range_const {α β : Type} (f : α → Option β) (l : List α) :
    ((List.range l.length).filterMap fun i ↦ l[i]?.bind f) = l.filterMap f := by
  rw [filterMap_range fun _ ↦ f]
  conv_rhs => rw [← List.zipIdx_map_fst 0 l, List.filterMap_map]
  rfl

/-- Where every entry gives something, entries and what they give stand at the same places. -/
theorem map_some_filterMap {α β : Type} {f : α → Option β} {l : List α}
    (h : ∀ a ∈ l, (f a).isSome = true) : (l.filterMap f).map some = l.map f := by
  induction l with
  | nil => rfl
  | cons a l ih =>
    obtain ⟨ha, hl⟩ := List.forall_mem_cons.1 h
    obtain ⟨b, hb⟩ := Option.isSome_iff_exists.1 ha
    rw [List.filterMap_cons_some hb, List.map_cons, List.map_cons, hb, ih hl]

/-! ### Work that notes problems -/

/-- Work that may add to a list of problems. -/
abbrev Noting := StateM (List Problem)

namespace Noting

/-- The value that was read, or else a problem more. -/
def ofParsed {ε α : Type} (problem : ε → Problem) : Except ε α → Noting (Option α)
  | .ok a => pure (some a)
  | .error e => do
    modify (· ++ [problem e])
    return none

/-- Reads a word that may be left out. -/
def ofWord? {α : Type} (location : Location) (parse : String → Except UnknownWord α) :
    Option String → Noting (Option α)
  | some word => ofParsed (.unknownWord location) (parse word)
  | none => pure none

/-- Reads the texts of a list. -/
def ofTexts {ε α : Type} (parse : String → Except ε α) (problem : String → ε → Problem)
    (texts : List String) : Noting (List α) :=
  texts.filterMapM fun text ↦ ofParsed (problem text) (parse text)

end Noting

/-- Reads a rule: the rule, unless there are more problems after it than before. -/
def RuleDocument.validate (v : TagVocabulary) (location : Location) (r : RuleDocument) :
    Noting (Option Rule) := do
  let before := (← get).length
  let decision ← Noting.ofParsed (.unknownWord location) (Decision.parse r.decision)
  let threshold ← Noting.ofWord? location TaintLevel.parse r.threshold
  let tagsAll ← Noting.ofTexts v.parse (fun _ ↦ .unknownWord location) r.tagsAll
  let tagsAny ← Noting.ofTexts v.parse (fun _ ↦ .unknownWord location) r.tagsAny
  let names ← Noting.ofTexts NamePattern.parse (.invalidPattern location) r.names
  let matcher := ToolMatcher.empty.withNames names |>.withTagsAll tagsAll |>.withTagsAny tagsAny
    |>.withOrigins r.origins
  if before < (← get).length then
    return none
  return decision.map fun decision ↦ ⟨matcher, decision, r.priority, threshold, r.description⟩

/-- Reads the document of a layer. -/
def LayerDocument.validate (v : TagVocabulary) (layer : String) (d : LayerDocument) :
    Noting Layer := do
  let fallback ← Noting.ofWord? (.fallback layer) Decision.parse d.fallback
  let rules ← d.rules.zipIdx.filterMapM fun r ↦ r.1.validate v (.rule layer r.2)
  return ⟨rules, fallback⟩

/-- The problem of something that cannot be read. -/
def problemOf? {ε α : Type} (problem : ε → Problem) : Except ε α → Option Problem
  | .ok _ => none
  | .error e => some (problem e)

theorem problemOf?_eq_some_iff {ε α : Type} {problem : ε → Problem} {parsed : Except ε α}
    {p : Problem} : problemOf? problem parsed = some p ↔
      ∃ e, parsed = .error e ∧ problem e = p := by
  rcases parsed with e | a
  · simp [problemOf?]
  · simp [problemOf?]

/-- The problem of a text that need not be there. -/
theorem bind_problemOf?_eq_some_iff {ε α : Type} {problem : String → ε → Problem}
    {parse : String → Except ε α} {text? : Option String} {p : Problem} :
    (text?.bind fun text ↦ problemOf? (problem text) (parse text)) = some p ↔
      ∃ text e, text? = some text ∧ parse text = .error e ∧ problem text e = p := by
  simp only [Option.bind_eq_some_iff, problemOf?_eq_some_iff, exists_and_left]

theorem wordProblems_eq {α : Type} (location : Location) (parsed : Except UnknownWord α) :
    wordProblems location parsed = (problemOf? (.unknownWord location) parsed).toList := by
  cases parsed <;> rfl

theorem TagVocabulary.problemsOf_eq (v : TagVocabulary) (location : Location)
    (words : List String) : v.problemsOf location words =
      words.filterMap fun word ↦ problemOf? (.unknownWord location) (v.parse word) := by
  refine List.filterMap_congr fun word _ ↦ ?_
  cases v.parse word <;> rfl

theorem patternProblem?_eq (location : Location) (text : String) :
    patternProblem? location text =
      problemOf? (.invalidPattern location text) (NamePattern.parse text) := by
  rw [patternProblem?]
  cases NamePattern.parse text <;> rfl

/-- All texts can be read, to these values, if none has a problem and these are what is read. -/
theorem map_eq_map_ok_iff {ε α : Type} {parse : String → Except ε α}
    (problem : String → ε → Problem) {texts : List String} {values : List α} :
    texts.map parse = values.map .ok ↔
      (texts.filterMap fun text ↦ problemOf? (problem text) (parse text)) = [] ∧
        (texts.filterMap fun text ↦ (parse text).toOption) = values := by
  induction texts generalizing values with
  | nil => simp [eq_comm]
  | cons text texts ih =>
    rcases hparse : parse text with e | a
    · rcases values with - | ⟨value, values⟩ <;> simp [hparse, problemOf?]
    · rcases values with - | ⟨value, values⟩ <;>
        simp [hparse, problemOf?, Except.toOption, ih, and_left_comm]

namespace Noting

/-- The work gives a value and adds problems behind those that are there, whatever these are. -/
def Adds {α : Type} (work : Noting α) (value : α) (problems : List Problem) : Prop :=
  ∀ earlier, work.run earlier = (value, earlier ++ problems)

variable {α β : Type} {work : Noting α} {value : α} {problems more : List Problem}

theorem run_get_bind (next : List Problem → Noting β) (earlier : List Problem) :
    (get >>= next : Noting β).run earlier = (next earlier).run earlier := rfl

theorem adds_pure (value : α) : Adds (pure value) value [] :=
  fun earlier ↦ congrArg (Prod.mk value) (List.append_nil earlier).symm

theorem Adds.run_bind (h : work.Adds value problems) (next : α → Noting β)
    (earlier : List Problem) :
    (work >>= next).run earlier = (next value).run (earlier ++ problems) := by
  show (next (work.run earlier).1).run (work.run earlier).2 = _
  rw [h earlier]

theorem Adds.bind {next : α → Noting β} {result : β} (h : work.Adds value problems)
    (hnext : (next value).Adds result more) : (work >>= next).Adds result (problems ++ more) := by
  intro earlier
  rw [h.run_bind, hnext, List.append_assoc]

theorem Adds.map {problems : List Problem} (h : work.Adds value problems) (f : α → β) :
    (do return f (← work)).Adds (f value) problems := by
  have hbind : (work >>= fun a ↦ pure (f a)).Adds (f value) (problems ++ []) :=
    h.bind (adds_pure (f value))
  rwa [List.append_nil] at hbind

theorem adds_ofParsed {ε : Type} (problem : ε → Problem) (parsed : Except ε α) :
    (ofParsed problem parsed).Adds parsed.toOption (problemOf? problem parsed).toList := by
  rcases parsed with e | a
  · exact fun _ ↦ rfl
  · exact adds_pure (some a)

theorem adds_ofWord? (location : Location) (parse : String → Except UnknownWord α)
    (word? : Option String) :
    (ofWord? location parse word?).Adds (word?.bind fun word ↦ (parse word).toOption)
      (word?.toList.flatMap fun word ↦ wordProblems location (parse word)) := by
  rcases word? with - | word
  · exact adds_pure none
  · rw [Option.toList_some, List.flatMap_singleton, wordProblems_eq]
    exact adds_ofParsed _ (parse word)

/-- Work on the entries of a list, one after the other. -/
theorem adds_filterMapM {f : α → Noting (Option β)} {g : α → Option β} {h : α → List Problem}
    {l : List α} (hf : ∀ a ∈ l, (f a).Adds (g a) (h a)) :
    (l.filterMapM f).Adds (l.filterMap g) (l.flatMap h) := by
  induction l with
  | nil => exact adds_pure []
  | cons a l ih =>
    obtain ⟨ha, hl⟩ := List.forall_mem_cons.1 hf
    rw [List.filterMapM_cons, List.flatMap_cons]
    refine ha.bind ?_
    rcases hg : g a with - | b
    · rw [List.filterMap_cons_none hg]
      exact ih hl
    · rw [List.filterMap_cons_some hg]
      exact (ih hl).map (b :: ·)

theorem adds_ofTexts {ε : Type} (parse : String → Except ε α) (problem : String → ε → Problem)
    (texts : List String) :
    (ofTexts parse problem texts).Adds (texts.filterMap fun text ↦ (parse text).toOption)
      (texts.filterMap fun text ↦ problemOf? (problem text) (parse text)) := by
  rw [List.filterMap_eq_flatMap_toList (fun text ↦ problemOf? (problem text) (parse text))]
  exact adds_filterMapM fun text _ ↦ adds_ofParsed (problem text) (parse text)

end Noting

/-! ### Rules -/

/-- The field of a place, in the order in which the fields are read. -/
def RulePlace.field : RulePlace → Nat
  | decision => 0
  | threshold => 1
  | tagAll _ => 2
  | tagAny _ => 3
  | name _ => 4

/-- The index of a place within its field. -/
def RulePlace.index : RulePlace → Nat
  | tagAll i | tagAny i | name i => i
  | decision | threshold => 0

/-- By field, then by index. -/
def RulePlace.Before (a b : RulePlace) : Prop :=
  a.field < b.field ∨ a.field = b.field ∧ a.index < b.index

namespace RuleDocument

variable {v : TagVocabulary} {location : Location} {r : RuleDocument}

/-- The places of a rule, in the order in which they are read. -/
def places (r : RuleDocument) : List RulePlace :=
  [.decision, .threshold] ++ (List.range r.tagsAll.length).map .tagAll ++
    (List.range r.tagsAny.length).map .tagAny ++ (List.range r.names.length).map .name

/-- The problem of what stands at a place, if something does and it cannot be read. -/
def problemAt? (v : TagVocabulary) (location : Location) (r : RuleDocument) :
    RulePlace → Option Problem
  | .decision => problemOf? (.unknownWord location) (Decision.parse r.decision)
  | .threshold => r.threshold.bind fun word ↦
    problemOf? (.unknownWord location) (TaintLevel.parse word)
  | .tagAll i => r.tagsAll[i]?.bind fun word ↦ problemOf? (.unknownWord location) (v.parse word)
  | .tagAny i => r.tagsAny[i]?.bind fun word ↦ problemOf? (.unknownWord location) (v.parse word)
  | .name i => r.names[i]?.bind fun text ↦
    problemOf? (.invalidPattern location text) (NamePattern.parse text)

theorem problemAt?_eq_some_iff {place : RulePlace} {problem : Problem} :
    r.problemAt? v location place = some problem ↔ r.Fault v location place problem := by
  constructor
  · intro h
    cases place with
    | decision =>
      obtain ⟨e, hparse, rfl⟩ := problemOf?_eq_some_iff.1 h
      exact .decision hparse
    | threshold =>
      obtain ⟨word, e, hword, hparse, rfl⟩ := bind_problemOf?_eq_some_iff.1 h
      exact .threshold hword hparse
    | tagAll i =>
      obtain ⟨word, e, hword, hparse, rfl⟩ := bind_problemOf?_eq_some_iff.1 h
      exact .tagAll hword hparse
    | tagAny i =>
      obtain ⟨word, e, hword, hparse, rfl⟩ := bind_problemOf?_eq_some_iff.1 h
      exact .tagAny hword hparse
    | name i =>
      obtain ⟨text, e, htext, hparse, rfl⟩ := bind_problemOf?_eq_some_iff.1 h
      exact .name htext hparse
  · rintro (hparse | ⟨hword, hparse⟩ | ⟨hword, hparse⟩ | ⟨hword, hparse⟩ | ⟨htext, hparse⟩)
    · exact problemOf?_eq_some_iff.2 ⟨_, hparse, rfl⟩
    · exact bind_problemOf?_eq_some_iff.2 ⟨_, _, hword, hparse, rfl⟩
    · exact bind_problemOf?_eq_some_iff.2 ⟨_, _, hword, hparse, rfl⟩
    · exact bind_problemOf?_eq_some_iff.2 ⟨_, _, hword, hparse, rfl⟩
    · exact bind_problemOf?_eq_some_iff.2 ⟨_, _, htext, hparse, rfl⟩

/-- The problems of a rule are those of its places. -/
theorem problems_eq_filterMap_places :
    r.problems v location = r.places.filterMap (r.problemAt? v location) := by
  have hthreshold : (r.threshold.toList.flatMap fun word ↦
      wordProblems location (TaintLevel.parse word)) =
        (r.problemAt? v location .threshold).toList := by
    rw [problemAt?]
    rcases r.threshold with - | word
    · rfl
    · rw [Option.toList_some, List.flatMap_singleton, wordProblems_eq, Option.bind_some]
  have hall : ((List.range r.tagsAll.length).map RulePlace.tagAll).filterMap
      (r.problemAt? v location) = v.problemsOf location r.tagsAll := by
    rw [List.filterMap_map, v.problemsOf_eq]
    exact filterMap_range_const _ r.tagsAll
  have hany : ((List.range r.tagsAny.length).map RulePlace.tagAny).filterMap
      (r.problemAt? v location) = v.problemsOf location r.tagsAny := by
    rw [List.filterMap_map, v.problemsOf_eq]
    exact filterMap_range_const _ r.tagsAny
  have hnames : ((List.range r.names.length).map RulePlace.name).filterMap
      (r.problemAt? v location) = r.names.filterMap (patternProblem? location) := by
    rw [List.filterMap_map, funext (patternProblem?_eq location)]
    exact filterMap_range_const _ r.names
  have hfirst : [RulePlace.decision, .threshold].filterMap (r.problemAt? v location) =
      (r.problemAt? v location .decision).toList ++
        (r.problemAt? v location .threshold).toList := by
    rw [List.filterMap_eq_flatMap_toList]
    simp
  rw [places, List.filterMap_append, List.filterMap_append, List.filterMap_append, hfirst, hall,
    hany, hnames, ← hthreshold, problemAt?, ← wordProblems_eq]
  rfl

/-- The rule says what the document's rule says, word for word. -/
structure Means (v : TagVocabulary) (r : RuleDocument) (rule : Rule) : Prop where
  decision : Decision.parse r.decision = .ok rule.decision
  priority : rule.priority = r.priority
  threshold : r.threshold.map TaintLevel.parse = rule.threshold.map .ok
  description : rule.description = r.description
  names : r.names.map NamePattern.parse = rule.matcher.names.map .ok
  tagsAll : ∃ tags, r.tagsAll.map v.parse = tags.map .ok ∧ rule.matcher.tagsAll = .of tags
  tagsAny : ∃ tags, r.tagsAny.map v.parse = tags.map .ok ∧ rule.matcher.tagsAny = .of tags
  origins : rule.matcher.origins = .ofList r.origins

theorem mem_places_of_fault {place : RulePlace} {problem : Problem}
    (h : r.Fault v location place problem) : place ∈ r.places := by
  have hlt {texts : List String} {i : Nat} {text : String} (htext : texts[i]? = some text) :
      i ∈ List.range texts.length :=
    List.mem_range.2 (List.getElem?_eq_some_iff.1 htext).1
  simp only [places, List.mem_append, List.mem_map]
  rcases h with hparse | ⟨hword, -⟩ | ⟨hword, -⟩ | ⟨hword, -⟩ | ⟨htext, -⟩
  · simp
  · simp
  · exact .inl (.inl (.inr ⟨_, hlt hword, rfl⟩))
  · exact .inl (.inr ⟨_, hlt hword, rfl⟩)
  · exact .inr ⟨_, hlt htext, rfl⟩

/-- The places of a rule are listed in their order. -/
theorem pairwise_places (r : RuleDocument) : r.places.Pairwise RulePlace.Before := by
  simp [places, List.pairwise_append, List.pairwise_map, RulePlace.Before, RulePlace.field,
    RulePlace.index, or_imp, forall_and, List.pairwise_lt_range]

/-! ### Rules of the layer -/

theorem problems_eq_nil_iff : r.problems v location = [] ↔
    wordProblems location (Decision.parse r.decision) = [] ∧
    (r.threshold.toList.flatMap fun word ↦ wordProblems location (TaintLevel.parse word)) = [] ∧
    v.problemsOf location r.tagsAll = [] ∧ v.problemsOf location r.tagsAny = [] ∧
    r.names.filterMap (patternProblem? location) = [] := by
  rw [problems]
  simp only [List.append_eq_nil_iff, and_assoc]

theorem parse_eq_ok_iff {α : Type} (location : Location) {parsed : Except UnknownWord α} {a : α} :
    parsed = .ok a ↔ wordProblems location parsed = [] ∧ parsed.toOption = some a := by
  rcases parsed with e | b
  · simp [wordProblems]
  · simp [wordProblems, Except.toOption]

theorem map_parse_eq_iff {α : Type} (location : Location)
    {parse : String → Except UnknownWord α} {word? : Option String} {value? : Option α} :
    word?.map parse = value?.map .ok ↔
      (word?.toList.flatMap fun word ↦ wordProblems location (parse word)) = [] ∧
        (word?.bind fun word ↦ (parse word).toOption) = value? := by
  rcases word? with - | word
  · simp [eq_comm]
  · rcases hparse : parse word with e | a <;> rcases value? with - | value <;>
      simp [hparse, wordProblems, Except.toOption]

/-- **A rule of the layer** is what the document's rule means: there is one if no word and no
pattern has a problem, and it is made of what they stand for. -/
theorem toRule?_eq_some_iff {rule : Rule} :
    r.toRule? v location = some rule ↔ r.Means v rule := by
  have htags (words : List String) (tags : TagSet) :
      (∃ values, words.map v.parse = values.map .ok ∧ tags = .of values) ↔
        v.problemsOf location words = [] ∧ tags = .of (v.tagsOf words) := by
    rw [v.problemsOf_eq, TagVocabulary.tagsOf]
    simp only [map_eq_map_ok_iff fun _ ↦ .unknownWord location]
    exact ⟨fun ⟨_, ⟨hnil, rfl⟩, htags⟩ ↦ ⟨hnil, htags⟩, fun ⟨hnil, htags⟩ ↦ ⟨_, ⟨hnil, rfl⟩, htags⟩⟩
  constructor
  · intro h
    rw [toRule?] at h
    split at h
    case h_1 decision hnil hdecision =>
      obtain rfl := Option.some.inj h
      obtain ⟨-, hthreshold, hall, hany, hnames⟩ := problems_eq_nil_iff.1 hnil
      rw [funext (patternProblem?_eq location)] at hnames
      exact {
        decision := hdecision
        priority := rfl
        threshold := (map_parse_eq_iff location).2 ⟨hthreshold, rfl⟩
        description := rfl
        names := (map_eq_map_ok_iff (.invalidPattern location)).2 ⟨hnames, rfl⟩
        tagsAll := (htags _ _).2 ⟨hall, rfl⟩
        tagsAny := (htags _ _).2 ⟨hany, rfl⟩
        origins := rfl }
    case h_2 => cases h
  · intro h
    obtain ⟨hdecision, hdecisionValue⟩ := (parse_eq_ok_iff location).1 h.decision
    obtain ⟨hthreshold, hthresholdValue⟩ := (map_parse_eq_iff location).1 h.threshold
    obtain ⟨hall, hallValue⟩ := (htags _ _).1 h.tagsAll
    obtain ⟨hany, hanyValue⟩ := (htags _ _).1 h.tagsAny
    obtain ⟨hnames, hnamesValue⟩ :=
      (map_eq_map_ok_iff (.invalidPattern location)).1 h.names
    rw [← funext (patternProblem?_eq location)] at hnames
    have hnil : r.problems v location = [] :=
      problems_eq_nil_iff.2 ⟨hdecision, hthreshold, hall, hany, hnames⟩
    obtain ⟨⟨names, tagsAll, tagsAny, origins⟩, decision, priority, threshold, description⟩ := rule
    obtain rfl : priority = r.priority := h.priority
    obtain rfl : description = r.description := h.description
    obtain rfl : origins = .ofList r.origins := h.origins
    obtain rfl : tagsAll = _ := hallValue
    obtain rfl : tagsAny = _ := hanyValue
    obtain rfl : _ = names := hnamesValue
    obtain rfl : _ = threshold := hthresholdValue
    simp only [toRule?, hnil, show Decision.parse r.decision = .ok decision from h.decision]
    rfl

/-- There is a rule just if the document's rule has no problem. -/
theorem exists_means_iff (location : Location) :
    (∃ rule, r.Means v rule) ↔ r.problems v location = [] := by
  have hread : (∃ rule, r.Means v rule) ↔ (r.toRule? v location).isSome = true := by
    simp only [Option.isSome_iff_exists, toRule?_eq_some_iff]
  rw [hread]
  constructor
  · intro h
    rw [toRule?] at h
    split at h
    · assumption
    · cases h
  · intro hnil
    rcases hdecision : Decision.parse r.decision with e | decision
    · have hnone := (problems_eq_nil_iff.1 hnil).1
      rw [hdecision] at hnone
      cases hnone
    · rw [toRule?, hnil, hdecision]
      rfl

theorem toRule?_eq_none_iff : r.toRule? v location = none ↔ r.problems v location ≠ [] := by
  rw [Option.eq_none_iff_forall_ne_some, ← not_exists, Ne, ← exists_means_iff]
  simp only [toRule?_eq_some_iff]

/-- **One rule.** The list of problems is longer after a rule just if the rule has problems of its
own, so the comparison of lengths drops the rules that `toRule?` drops. -/
theorem adds_validate (v : TagVocabulary) (location : Location) (r : RuleDocument) :
    (r.validate v location).Adds (r.toRule? v location) (r.problems v location) := by
  intro earlier
  have hdecision := Noting.adds_ofParsed (.unknownWord location) (Decision.parse r.decision)
  have hthreshold := Noting.adds_ofWord? location TaintLevel.parse r.threshold
  have hall := Noting.adds_ofTexts v.parse (fun _ ↦ .unknownWord location) r.tagsAll
  have hany := Noting.adds_ofTexts v.parse (fun _ ↦ .unknownWord location) r.tagsAny
  have hnames := Noting.adds_ofTexts NamePattern.parse (.invalidPattern location) r.names
  rw [← wordProblems_eq] at hdecision
  rw [← v.problemsOf_eq] at hall hany
  rw [← funext (patternProblem?_eq location)] at hnames
  rw [validate, Noting.run_get_bind, hdecision.run_bind, hthreshold.run_bind, hall.run_bind,
    hany.run_bind, hnames.run_bind]
  have hproblems : earlier ++ wordProblems location (Decision.parse r.decision) ++
      (r.threshold.toList.flatMap fun word ↦ wordProblems location (TaintLevel.parse word)) ++
      v.problemsOf location r.tagsAll ++ v.problemsOf location r.tagsAny ++
      r.names.filterMap (patternProblem? location) = earlier ++ r.problems v location := by
    rw [problems]
    simp only [List.append_assoc]
  rw [hproblems, Noting.run_get_bind, List.length_append]
  by_cases hnil : r.problems v location = []
  · rw [if_neg (by rw [hnil]; exact Nat.lt_irrefl _)]
    obtain ⟨rule, hrule⟩ := (exists_means_iff location).2 hnil
    simp only [toRule?, hnil, hrule.decision]
    rfl
  · have hlength := List.length_pos_of_ne_nil hnil
    rw [if_pos (by omega), toRule?_eq_none_iff.2 hnil]
    rfl

end RuleDocument

/-! ### Documents -/

/-- In the order of the document: the fallback, then the rules, each with its places. -/
inductive LayerPlace.Before : LayerPlace → LayerPlace → Prop
  | fallback {i : Nat} {place : RulePlace} : Before .fallback (.rule i place)
  | rule {i j : Nat} {a b : RulePlace} (h : i < j) : Before (.rule i a) (.rule j b)
  | within {i : Nat} {a b : RulePlace} (h : a.Before b) : Before (.rule i a) (.rule i b)

namespace LayerDocument

variable {v : TagVocabulary} {layer : String} {d : LayerDocument}

/-- The places of a document, in the order in which they are read. -/
def places (d : LayerDocument) : List LayerPlace :=
  .fallback :: d.rules.zipIdx.flatMap fun r ↦ r.1.places.map (.rule r.2)

/-- The problem of what stands at a place, if something does and it cannot be read. -/
def problemAt? (v : TagVocabulary) (layer : String) (d : LayerDocument) :
    LayerPlace → Option Problem
  | .fallback => d.fallback.bind fun word ↦
    problemOf? (.unknownWord (.fallback layer)) (Decision.parse word)
  | .rule i place => d.rules[i]?.bind fun r ↦ r.problemAt? v (.rule layer i) place

theorem problemAt?_eq_some_iff {place : LayerPlace} {problem : Problem} :
    d.problemAt? v layer place = some problem ↔ d.Fault v layer place problem := by
  constructor
  · intro h
    cases place with
    | fallback =>
      obtain ⟨word, e, hword, hparse, rfl⟩ := bind_problemOf?_eq_some_iff.1 h
      exact .fallback hword hparse
    | rule i place =>
      obtain ⟨r, hr, hproblem⟩ := Option.bind_eq_some_iff.1 h
      exact .rule hr (RuleDocument.problemAt?_eq_some_iff.1 hproblem)
  · rintro (⟨hword, hparse⟩ | ⟨hr, hfault⟩)
    · exact bind_problemOf?_eq_some_iff.2 ⟨_, _, hword, hparse, rfl⟩
    · exact Option.bind_eq_some_iff.2 ⟨_, hr, RuleDocument.problemAt?_eq_some_iff.2 hfault⟩

theorem mem_places_of_fault {place : LayerPlace} {problem : Problem}
    (h : d.Fault v layer place problem) : place ∈ d.places := by
  rcases h with - | ⟨hr, hfault⟩
  · exact List.mem_cons_self
  · exact List.mem_cons_of_mem _ (List.mem_flatMap.2 ⟨_, List.mk_mem_zipIdx_iff_getElem?.2 hr,
      List.mem_map_of_mem (RuleDocument.mem_places_of_fault hfault)⟩)

theorem pairwise_places (d : LayerDocument) : d.places.Pairwise LayerPlace.Before := by
  rw [places, List.pairwise_cons, List.pairwise_flatMap]
  refine ⟨fun place hplace ↦ ?_, fun r _ ↦ ?_, ?_⟩
  · obtain ⟨r, -, hr⟩ := List.mem_flatMap.1 hplace
    obtain ⟨place, -, rfl⟩ := List.mem_map.1 hr
    exact .fallback
  · exact List.pairwise_map.2 (r.1.pairwise_places.imp .within)
  · have hindices : d.rules.zipIdx.Pairwise fun r r' ↦ r.2 < r'.2 := by
      rw [← List.pairwise_map (f := Prod.snd), List.zipIdx_map_snd, ← List.range_eq_range']
      exact List.pairwise_lt_range
    refine hindices.imp fun hlt a ha b hb ↦ ?_
    obtain ⟨_, -, rfl⟩ := List.mem_map.1 ha
    obtain ⟨_, -, rfl⟩ := List.mem_map.1 hb
    exact .rule hlt

/-- The problems of a document are those of its places. -/
theorem problems_eq_filterMap_places :
    d.problems v layer = d.places.filterMap (d.problemAt? v layer) := by
  have hfallback : (d.fallback.toList.flatMap fun word ↦
      wordProblems (.fallback layer) (Decision.parse word)) =
        (d.problemAt? v layer .fallback).toList := by
    rw [problemAt?]
    rcases d.fallback with - | word
    · rfl
    · rw [Option.toList_some, List.flatMap_singleton, wordProblems_eq, Option.bind_some]
  have hrules : ((d.located layer).flatMap fun r ↦ r.2.problems v r.1) =
      (d.rules.zipIdx.flatMap fun r ↦ r.1.places.map (.rule r.2)).filterMap
        (d.problemAt? v layer) := by
    rw [located, List.flatMap_map, List.filterMap_flatMap]
    refine List.flatMap_congr fun r hr ↦ ?_
    rw [List.filterMap_map, RuleDocument.problems_eq_filterMap_places]
    refine List.filterMap_congr fun place _ ↦ ?_
    rw [Function.comp_apply, problemAt?, List.mk_mem_zipIdx_iff_getElem?.1 hr, Option.bind_some]
  rw [problems, hfallback, hrules, places, ← List.singleton_append, List.filterMap_append]
  congr 1

/-- **The problems of a document** are its faults, in the order of the document. -/
theorem inOrder_problems (v : TagVocabulary) (layer : String) (d : LayerDocument) :
    InOrder LayerPlace.Before (d.problems v layer) (d.Fault v layer) := by
  rw [problems_eq_filterMap_places]
  exact .filterMap d.pairwise_places (fun _ _ ↦ problemAt?_eq_some_iff)
    fun _ _ ↦ mem_places_of_fault

/-- **One pass.** The document is read to its layer, and its problems are added to the list. -/
theorem adds_validate (v : TagVocabulary) (layer : String) (d : LayerDocument) :
    (d.validate v layer).Adds (d.toLayer v layer) (d.problems v layer) := by
  have hfallback := Noting.adds_ofWord? (.fallback layer) Decision.parse d.fallback
  have hrules := Noting.adds_filterMapM (l := d.rules.zipIdx) fun r _ ↦
    r.1.adds_validate v (.rule layer r.2)
  rw [validate, problems, toLayer, located, List.filterMap_map, List.flatMap_map]
  exact hfallback.bind (hrules.map fun rules ↦
    Layer.mk rules (d.fallback.bind fun word ↦ (Decision.parse word).toOption))

/-- The rule that stands at a place of the document says this. -/
def Yields (v : TagVocabulary) (d : LayerDocument) (i : Nat) (rule : Rule) : Prop :=
  ∃ r, d.rules[i]? = some r ∧ r.Means v rule

/-- **The rules of the layer** are those of the document that can be read, in their order. -/
theorem inOrder_rules (v : TagVocabulary) (layer : String) (d : LayerDocument) :
    InOrder (· < ·) (d.toLayer v layer).rules (d.Yields v) := by
  have hrules : (d.toLayer v layer).rules = (List.range d.rules.length).filterMap fun i ↦
      d.rules[i]?.bind fun r ↦ r.toRule? v (.rule layer i) := by
    rw [filterMap_range fun i r ↦ RuleDocument.toRule? v (.rule layer i) r, toLayer, located,
      List.filterMap_map]
    rfl
  rw [hrules]
  refine .filterMap List.pairwise_lt_range (fun i rule ↦ ?_) fun i rule ↦ ?_
  · rw [Option.bind_eq_some_iff]
    exact exists_congr fun r ↦ and_congr_right fun _ ↦ RuleDocument.toRule?_eq_some_iff
  · rintro ⟨r, hr, -⟩
    exact List.mem_range.2 (List.getElem?_eq_some_iff.1 hr).1

end LayerDocument

/-! ### Indices -/

/-- The rule that decides stands at the index of the answer. -/
theorem RuleSet.exists_rule_of_explain {s : RuleSet} {tool : ToolIdentity} {tags : TagSet}
    {taint : TaintLevel} {decision : Decision} {deciding : DecidingRule}
    (h : s.explain tool tags taint = ⟨decision, some deciding⟩) :
    ∃ rule, s.rules[deciding.index]? = some rule ∧ rule.applies taint tool tags = true ∧
      rule.decision = decision ∧ deciding = ⟨deciding.index, rule.priority, rule.description⟩ := by
  by_cases hnil : s.applicable taint tool tags = []
  · rw [explain_eq_fallback hnil] at h
    cases h
  · obtain ⟨⟨rule, index⟩, hmem, hout⟩ := exists_outranks_all hnil
    rw [explain_of_outranks_all hmem hout] at h
    obtain ⟨hrule, happlies⟩ := mem_applicable_iff.1 hmem
    cases h
    exact ⟨rule, hrule, happlies, rfl, rfl⟩

/-- Behind the rules of the earlier tiers, a merged list has the rules of a tier at their places. -/
theorem LayerStack.exists_rule_of_merge {l : LayerStack} {tier : Tier} {offset : Int64} {i : Nat}
    {merged : Rule} (hi : i < (l.rulesOf tier).length)
    (h : (l.merge offset).rules[l.ahead tier + i]? = some merged) :
    ∃ rule, (l.rulesOf tier)[i]? = some rule ∧
      merged = Contender.merged offset ⟨tier, i, rule⟩ := by
  obtain ⟨c, hc, hposition, rfl⟩ := getElem?_append_iff.1 h
  obtain ⟨rule, hrule⟩ : ∃ rule, (l.rulesOf tier)[i]? = some rule :=
    ⟨_, List.getElem?_eq_getElem hi⟩
  let d : Contender := ⟨tier, i, rule⟩
  have hd : l.Declares d := hrule
  have hsame : l.position c = l.position d := hposition
  -- Two rules of a stack do not share their position.
  have hcd := (position_le_iff hc hd).1 (Nat.le_of_eq hsame)
  have hdc := (position_le_iff hd hc).1 (Nat.le_of_eq hsame.symm)
  rw [← Tier.rank_inj] at hcd hdc
  have htier : c.tier = d.tier := Tier.rank_inj.1 (by omega)
  obtain rfl : c = d := hc.eq hd htier (by omega)
  exact ⟨rule, hrule, rfl⟩

namespace LayerDocument

variable {v : TagVocabulary} {layer : String} {d : LayerDocument}

/-- Take any stack of layers in which the rules stand at a tier. Counted behind the rules of the
earlier tiers, the index of a rule that decides, and of a rule that is listed, is its place in the
document. -/
def IndicesRefer (v : TagVocabulary) (d : LayerDocument) (rules : List Rule) : Prop :=
  ∀ (l : LayerStack) (tier : LayerStack.Tier) (offset : Int64) (taint : TaintLevel),
    l.rulesOf tier = rules → ∀ i < d.rules.length,
      (∀ tool tags decision deciding,
        (l.merge offset).explain tool tags taint = ⟨decision, some deciding⟩ →
        deciding.index = l.ahead tier + i →
        ∃ rule, d.Yields v i rule ∧ rule.applies taint tool tags = true ∧
          rule.decision = decision ∧ rule.description = deciding.description) ∧
      ∀ listed, (listed, l.ahead tier + i) ∈ (l.merge offset).ordered taint →
        ∃ rule, d.Yields v i rule ∧ listed = LayerStack.Contender.merged offset ⟨tier, i, rule⟩

/-- Where nothing is wrong, no rule of the document is passed over. -/
theorem map_some_rules (hnil : d.problems v layer = []) :
    (d.toLayer v layer).rules.map some = (d.located layer).map fun r ↦ r.2.toRule? v r.1 := by
  refine map_some_filterMap fun r hr ↦ ?_
  have hgood := List.flatMap_eq_nil_iff.1 (List.append_eq_nil_iff.1 hnil).2 r hr
  obtain ⟨rule, hrule⟩ := (RuleDocument.exists_means_iff r.1).2 hgood
  exact Option.isSome_iff_exists.2 ⟨rule, RuleDocument.toRule?_eq_some_iff.2 hrule⟩

theorem length_rules (hnil : d.problems v layer = []) :
    (d.toLayer v layer).rules.length = d.rules.length := by
  have hlength := congrArg List.length (map_some_rules hnil)
  rwa [List.length_map, List.length_map, located, List.length_map, List.length_zipIdx] at hlength

theorem getElem?_rules_iff (hnil : d.problems v layer = []) {i : Nat} {rule : Rule} :
    (d.toLayer v layer).rules[i]? = some rule ↔ d.Yields v i rule := by
  have hplace := congrArg (·[i]?) (map_some_rules hnil)
  simp only [located, List.getElem?_map, List.getElem?_zipIdx, Option.map_map] at hplace
  constructor
  · intro hrule
    rw [hrule] at hplace
    obtain ⟨r, hr, hread⟩ := Option.map_eq_some_iff.1 hplace.symm
    exact ⟨r, hr, RuleDocument.toRule?_eq_some_iff.1 hread⟩
  · rintro ⟨r, hr, hmeans⟩
    rw [hr] at hplace
    obtain ⟨_, hrule, hread⟩ := Option.map_eq_some_iff.1 hplace
    rw [hrule]
    exact hread.trans (RuleDocument.toRule?_eq_some_iff.2 hmeans)

/-- A rule of the document yields one of the layer just if none of its places is at fault. -/
theorem exists_yields_iff {i : Nat} (hi : i < d.rules.length) : (∃ rule, d.Yields v i rule) ↔
    ∀ place problem, ¬ d.Fault v layer (.rule i place) problem := by
  obtain ⟨r, hr⟩ : ∃ r, d.rules[i]? = some r := ⟨_, List.getElem?_eq_getElem hi⟩
  have hyields : (∃ rule, d.Yields v i rule) ↔ ∃ rule, r.Means v rule := by
    refine exists_congr fun rule ↦ ⟨?_, fun hmeans ↦ ⟨r, hr, hmeans⟩⟩
    rintro ⟨r', hr', hmeans⟩
    rw [hr] at hr'
    cases hr'
    exact hmeans
  have hfault (place : RulePlace) (problem : Problem) :
      d.Fault v layer (.rule i place) problem ↔ r.Fault v (.rule layer i) place problem := by
    rw [← problemAt?_eq_some_iff, problemAt?, hr, Option.bind_some,
      RuleDocument.problemAt?_eq_some_iff]
  rw [hyields, RuleDocument.exists_means_iff (.rule layer i),
    (r.reports_problems v (.rule layer i)).eq_nil_iff]
  simp only [hfault]

/-- What is wrong with a rule is shown behind the location of the rule. -/
theorem exists_message_of_fault {location : Location} {r : RuleDocument} {place : RulePlace}
    {problem : Problem} (h : r.Fault v location place problem) :
    ∃ rest, problem.message = location.display ++ ": " ++ rest := by
  cases h with
  | decision | threshold | tagAll | tagAny => exact ⟨_, rfl⟩
  | @name i text e =>
    refine ⟨"invalid name pattern '" ++ (text ++ ("': " ++ e.message)), ?_⟩
    show location.display ++ ": invalid name pattern '" ++ text ++ "': " ++ e.message = _
    rw [show ": invalid name pattern '" = ": " ++ "invalid name pattern '" from rfl]
    simp only [String.append_assoc]

theorem indicesRefer (hnil : d.problems v layer = []) :
    d.IndicesRefer v (d.toLayer v layer).rules := by
  intro l tier offset taint hrules i hi
  have hi' : i < (l.rulesOf tier).length := by rwa [hrules, length_rules hnil]
  have hyields {rule : Rule} (h : (l.rulesOf tier)[i]? = some rule) : d.Yields v i rule := by
    rwa [hrules, getElem?_rules_iff hnil] at h
  constructor
  · intro tool tags decision deciding hexplain hindex
    obtain ⟨merged, hmerged, happlies, hdecision, hdeciding⟩ :=
      RuleSet.exists_rule_of_explain hexplain
    rw [hindex] at hmerged
    obtain ⟨rule, hrule, rfl⟩ := LayerStack.exists_rule_of_merge hi' hmerged
    rw [LayerStack.Contender.merged_eq] at happlies hdecision hdeciding
    exact ⟨rule, hyields hrule, happlies, hdecision, by rw [hdeciding]⟩
  · intro listed hlisted
    obtain ⟨rule, hrule, hmerged⟩ :=
      LayerStack.exists_rule_of_merge hi' (RuleSet.mem_ordered_iff.1 hlisted).1
    exact ⟨rule, hyields hrule, hmerged⟩

/-- **Reading a layer is faithful.** Take any document of a layer, any vocabulary and any problems
that are on the list already.

* Reading keeps these problems in front and adds the problems of the document: one for each fault,
  in the order of the document, that is the fallback first, then rule by rule the decision, the
  threshold, the tags that must all be present, those of which one must be, and the patterns.
* The text about a fault in a rule begins with the name of the layer and the index of the rule.
* The layer has one rule for each rule of the document without a fault, in the order of the
  document, which says what that one says.
* If nothing was added, the layer has the fallback of the document, as many rules as the document,
  and each at its place; so the indices of evaluations and listings are places in the document. -/
theorem validation_is_faithful (v : TagVocabulary) (layer : String) (d : LayerDocument)
    (earlier : List Problem) :
    let added := d.problems v layer
    let read := d.toLayer v layer
    (d.validate v layer).run earlier = (read, earlier ++ added) ∧
    InOrder LayerPlace.Before added (d.Fault v layer) ∧
    (∀ i place problem, d.Fault v layer (.rule i place) problem →
      ∃ rest, problem.message = layer ++ s!": rule #{i}" ++ ": " ++ rest) ∧
    InOrder (· < ·) read.rules (d.Yields v) ∧
    (∀ i < d.rules.length, (∃ rule, d.Yields v i rule) ↔
      ∀ place problem, ¬ d.Fault v layer (.rule i place) problem) ∧
    (added = [] →
      d.fallback.map Decision.parse = read.fallback.map .ok ∧
      read.rules.length = d.rules.length ∧
      (∀ i rule, read.rules[i]? = some rule ↔ d.Yields v i rule) ∧
      d.IndicesRefer v read.rules) := by
  intro added read
  refine ⟨d.adds_validate v layer earlier, d.inOrder_problems v layer, ?_, d.inOrder_rules v layer,
    fun i hi ↦ exists_yields_iff hi, fun hnil ↦ ?_⟩
  · intro i place problem h
    cases h with
    | rule _ hfault =>
      have hmessage := exists_message_of_fault hfault
      exact hmessage
  · have hfallback := (List.append_eq_nil_iff.1 hnil).1
    exact ⟨(RuleDocument.map_parse_eq_iff (.fallback layer)).2 ⟨hfallback, rfl⟩,
      length_rules hnil, fun _ _ ↦ getElem?_rules_iff hnil, indicesRefer hnil⟩

end LayerDocument

end ToolAccess
