import ToolAccess.Proofs.Reports
import ToolAccess.Settings.Load

/-!
# Which faults are reported

All that is wrong with a configuration is to be shown at once. What is wrong is said here without
the lists in which the problems are collected: `Settings.Fault` has one constructor for each kind of
fault, and names the place where it is, down to the single word.

The problems of a configuration are a report (`Reports`) on all faults but those that are hidden: in
an origin whose own name is refused, the tags are not looked at. `Settings.reportsEveryFault_iff`
says this, and that every fault is reported exactly when no fault is hidden.
-/

namespace ToolAccess

/-! ### What is wrong, and where -/

/-- A place in a rule where a word or a pattern stands. -/
inductive RulePlace where
  | decision
  | threshold
  | tagAll (index : Nat)
  | tagAny (index : Nat)
  | name (index : Nat)

/-- A place in the document of a layer. -/
inductive LayerPlace where
  | fallback
  | rule (index : Nat) (place : RulePlace)

/-- A place in what is said about an origin. -/
inductive OriginPlace where
  | id
  | tag (tool : String) (index : Nat)

/-- A place in a configuration, its documents included. -/
inductive SettingsPlace where
  | offset
  | group (name : String)
  | tag (tool : String) (index : Nat)
  | origin (index : Nat) (place : OriginPlace)
  | layer (index : Nat) (place : LayerPlace)

/-- What is wrong with a rule. -/
inductive RuleDocument.Fault (v : TagVocabulary) (location : Location) (r : RuleDocument) :
    RulePlace → Problem → Prop
  | decision {e : UnknownWord} (hparse : Decision.parse r.decision = .error e) :
    Fault v location r .decision (.unknownWord location e)
  | threshold {word : String} {e : UnknownWord} (hword : r.threshold = some word)
    (hparse : TaintLevel.parse word = .error e) :
    Fault v location r .threshold (.unknownWord location e)
  | tagAll {i : Nat} {word : String} {e : UnknownWord} (hword : r.tagsAll[i]? = some word)
    (hparse : v.parse word = .error e) :
    Fault v location r (.tagAll i) (.unknownWord location e)
  | tagAny {i : Nat} {word : String} {e : UnknownWord} (hword : r.tagsAny[i]? = some word)
    (hparse : v.parse word = .error e) :
    Fault v location r (.tagAny i) (.unknownWord location e)
  | name {i : Nat} {text : String} {e : Glob.PatternError} (htext : r.names[i]? = some text)
    (hparse : NamePattern.parse text = .error e) :
    Fault v location r (.name i) (.invalidPattern location text e)

/-- What is wrong with the document of a layer. -/
inductive LayerDocument.Fault (v : TagVocabulary) (layer : String) (d : LayerDocument) :
    LayerPlace → Problem → Prop
  | fallback {word : String} {e : UnknownWord} (hword : d.fallback = some word)
    (hparse : Decision.parse word = .error e) :
    Fault v layer d .fallback (.unknownWord (.fallback layer) e)
  | rule {i : Nat} {r : RuleDocument} {place : RulePlace} {problem : Problem}
    (hrule : d.rules[i]? = some r) (hfault : r.Fault v (.rule layer i) place problem) :
    Fault v layer d (.rule i place) problem

/-- What is wrong with an origin, after origins with the given names. -/
inductive OriginSettings.Fault (v : TagVocabulary) (earlier : List String) (o : OriginSettings) :
    OriginPlace → Problem → Prop
  | empty (hempty : o.id = "") : Fault v earlier o .id .emptyOrigin
  | repeated (hnonempty : o.id ≠ "") (hearlier : o.id ∈ earlier) :
    Fault v earlier o .id (.repeatedOrigin o.id)
  | tag {tool : String} {words : List String} {i : Nat} {word : String} {e : UnknownWord}
    (htool : o.tools.find? tool = some words) (hword : words[i]? = some word)
    (hparse : v.parse word = .error e) :
    Fault v earlier o (.tag tool i) (.unknownWord (o.location tool) e)

/-- The names of the origins before the one with an index. -/
def Settings.originsBefore (s : Settings) (i : Nat) : List String := (s.origins.take i).map (·.id)

/-- What is wrong with a configuration. -/
inductive Settings.Fault (s : Settings) (docs : List NamedDocument) :
    SettingsPlace → Problem → Prop
  | offset (hnegative : s.policy.overrideOffset < 0) :
    Fault s docs .offset (.negativeOffset s.policy.overrideOffset)
  | group {name : String} {tag : Tag} (hdeclared : name ∈ s.metadata.groups)
    (hbuiltin : Tag.builtin? name = some tag) :
    Fault s docs (.group name) (.shadowingGroup name)
  | tag {tool : String} {words : List String} {i : Nat} {word : String} {e : UnknownWord}
    (htool : s.metadata.tools.find? tool = some words) (hword : words[i]? = some word)
    (hparse : s.vocabulary.parse word = .error e) :
    Fault s docs (.tag tool i) (.unknownWord (.tool tool) e)
  | origin {i : Nat} {o : OriginSettings} {place : OriginPlace} {problem : Problem}
    (horigin : s.origins[i]? = some o)
    (hfault : o.Fault s.vocabulary (s.originsBefore i) place problem) :
    Fault s docs (.origin i place) problem
  | layer {i : Nat} {d : NamedDocument} {place : LayerPlace} {problem : Problem}
    (hdoc : docs[i]? = some d)
    (hfault : d.document.Fault s.vocabulary d.name.display place problem) :
    Fault s docs (.layer i place) problem

/-- The places of the tags of an origin whose own name is empty or that of an earlier one. -/
inductive OriginSettings.Hidden (earlier : List String) (o : OriginSettings) : OriginPlace → Prop
  | tag (hname : o.id = "" ∨ o.id ∈ earlier) (tool : String) (index : Nat) :
    Hidden earlier o (.tag tool index)

/-- The places in a configuration that are not looked at. -/
inductive Settings.Hidden (s : Settings) : SettingsPlace → Prop
  | origin {i : Nat} {o : OriginSettings} {place : OriginPlace} (horigin : s.origins[i]? = some o)
    (hhidden : o.Hidden (s.originsBefore i) place) :
    Hidden s (.origin i place)

/-- For every live list of tools: if anything is wrong, the engine is refused, with a report on all
that is wrong; and if nothing is wrong, it is not refused for problems. -/
def Settings.ReportsEveryFault (s : Settings) (files : FileView) (docs : List NamedDocument) :
    Prop :=
  ∀ inUse : List String,
    ((∃ place problem, s.Fault docs place problem) →
      ∃ problems, s.buildEngine files inUse = .error (.invalid problems) ∧
        Reports problems (s.Fault docs)) ∧
    ((∀ place problem, ¬ s.Fault docs place problem) →
      ∀ problems, s.buildEngine files inUse ≠ .error (.invalid problems))

/-! ### Words and patterns -/

/-- A word is a fault if its vocabulary does not have it. -/
theorem reports_wordProblems {P α : Type} (place : P) (location : Location)
    (parsed : Except UnknownWord α) :
    Reports (wordProblems location parsed)
      (fun p problem ↦ p = place ∧ ∃ e, parsed = .error e ∧ problem = .unknownWord location e) := by
  rcases parsed with e | a
  · refine (Reports.ofOption place (some _)).congr fun p problem ↦ and_congr_right fun _ ↦ ?_
    constructor
    · intro h
      exact ⟨e, rfl, (Option.some.inj h).symm⟩
    · rintro ⟨_, ⟨⟩, rfl⟩
      rfl
  · refine Reports.nil.congr fun p problem ↦ ⟨False.elim, ?_⟩
    rintro ⟨-, _, ⟨⟩, -⟩

/-- So is a word that may be left out. -/
theorem reports_optionalWordProblems {P α : Type} (place : P) (location : Location)
    (parse : String → Except UnknownWord α) (word? : Option String) :
    Reports (word?.toList.flatMap fun word ↦ wordProblems location (parse word))
      (fun p problem ↦ p = place ∧ ∃ word e, word? = some word ∧ parse word = .error e ∧
        problem = .unknownWord location e) := by
  rcases word? with - | word
  · refine Reports.nil.congr fun p problem ↦ ⟨False.elim, ?_⟩
    rintro ⟨-, _, _, ⟨⟩, -⟩
  · rw [Option.toList_some, List.flatMap_singleton]
    refine (reports_wordProblems place location (parse word)).congr fun p problem ↦
      and_congr_right fun _ ↦ ?_
    constructor
    · rintro ⟨e, hparse, hproblem⟩
      exact ⟨word, e, rfl, hparse, hproblem⟩
    · rintro ⟨_, e, ⟨⟩, hparse, hproblem⟩
      exact ⟨e, hparse, hproblem⟩

/-- In a list, each text that cannot be read is a fault. -/
theorem reports_parseProblems {ε α : Type} {parse : String → Except ε α}
    {problem : String → ε → Problem} {problem? : String → Option Problem}
    (hok : ∀ text a, parse text = .ok a → problem? text = none)
    (herror : ∀ text e, parse text = .error e → problem? text = some (problem text e))
    (texts : List String) :
    Reports (texts.filterMap problem?) (fun (i : Nat) p ↦ ∃ text e, texts[i]? = some text ∧
      parse text = .error e ∧ p = problem text e) := by
  refine (Reports.filterMap problem? texts).congr fun i p ↦ ?_
  constructor
  · rintro ⟨text, htext, hproblem⟩
    rcases hparse : parse text with e | a
    · rw [herror text e hparse] at hproblem
      exact ⟨text, e, htext, hparse, (Option.some.inj hproblem).symm⟩
    · rw [hok text a hparse] at hproblem
      cases hproblem
  · rintro ⟨text, e, htext, hparse, rfl⟩
    exact ⟨text, htext, herror text e hparse⟩

theorem TagVocabulary.reports_problemsOf (v : TagVocabulary) (location : Location)
    (words : List String) :
    Reports (v.problemsOf location words)
      (fun (i : Nat) problem ↦ ∃ word e, words[i]? = some word ∧ v.parse word = .error e ∧
        problem = .unknownWord location e) := by
  refine reports_parseProblems (fun word tag hparse ↦ ?_) (fun word e hparse ↦ ?_) words
  · simp only [hparse]
  · simp only [hparse]

theorem reports_patternProblems (location : Location) (texts : List String) :
    Reports (texts.filterMap (patternProblem? location))
      (fun (i : Nat) problem ↦ ∃ text e, texts[i]? = some text ∧
        NamePattern.parse text = .error e ∧ problem = .invalidPattern location text e) := by
  refine reports_parseProblems (fun text pattern hparse ↦ ?_) (fun text e hparse ↦ ?_) texts
  · simp only [patternProblem?, hparse]
  · simp only [patternProblem?, hparse]

/-- The tags of a table of tools, with the tool and the index of the word. -/
theorem TagVocabulary.reports_tools (v : TagVocabulary) (location : String → Location)
    (tools : SortedMap String (List String)) :
    Reports (tools.entries.flatMap fun e ↦ v.problemsOf (location e.1) e.2)
      (fun (place : String × Nat) problem ↦ ∃ words word e, tools.find? place.1 = some words ∧
        words[place.2]? = some word ∧ v.parse word = .error e ∧
        problem = .unknownWord (location place.1) e) := by
  refine (Reports.flatMap tools.nodup_keys fun e _ ↦
    v.reports_problemsOf (location e.1) e.2).congr ?_
  rintro ⟨tool, i⟩ problem
  constructor
  · rintro ⟨⟨_, words⟩, htool, rfl, word, e, hword, hparse, hproblem⟩
    exact ⟨words, word, e, SortedMap.mem_entries_iff.1 htool, hword, hparse, hproblem⟩
  · rintro ⟨words, word, e, htool, hword, hparse, hproblem⟩
    exact ⟨(tool, words), SortedMap.mem_entries_iff.2 htool, rfl, word, e, hword, hparse, hproblem⟩

/-! ### Documents -/

theorem RuleDocument.reports_problems (v : TagVocabulary) (location : Location) (r : RuleDocument) :
    Reports (r.problems v location) (r.Fault v location) := by
  have hdecision := reports_wordProblems RulePlace.decision location (Decision.parse r.decision)
  have hthreshold := reports_optionalWordProblems RulePlace.threshold location TaintLevel.parse
    r.threshold
  have hall := (v.reports_problemsOf location r.tagsAll).within
    (f := RulePlace.tagAll) fun _ _ h ↦ RulePlace.tagAll.inj h
  have hany := (v.reports_problemsOf location r.tagsAny).within
    (f := RulePlace.tagAny) fun _ _ h ↦ RulePlace.tagAny.inj h
  have hnames := (reports_patternProblems location r.names).within
    (f := RulePlace.name) fun _ _ h ↦ RulePlace.name.inj h
  refine ((((hdecision.append hthreshold ?_).append hall ?_).append hany ?_).append
    hnames ?_).congr fun place problem ↦ ?_
  -- The places of two fields differ in their constructors.
  · rintro _ _ _ ⟨rfl, -⟩ ⟨⟨⟩, -⟩
  · rintro _ _ _ (⟨rfl, -⟩ | ⟨rfl, -⟩) ⟨_, ⟨⟩, -⟩
  · rintro _ _ _ ((⟨rfl, -⟩ | ⟨rfl, -⟩) | ⟨_, rfl, -⟩) ⟨_, ⟨⟩, -⟩
  · rintro _ _ _ (((⟨rfl, -⟩ | ⟨rfl, -⟩) | ⟨_, rfl, -⟩) | ⟨_, rfl, -⟩) ⟨_, ⟨⟩, -⟩
  · constructor
    · rintro ((((⟨rfl, e, hparse, rfl⟩ | ⟨rfl, word, e, hword, hparse, rfl⟩) |
        ⟨i, rfl, word, e, hword, hparse, rfl⟩) | ⟨i, rfl, word, e, hword, hparse, rfl⟩) |
        ⟨i, rfl, text, e, htext, hparse, rfl⟩)
      · exact .decision hparse
      · exact .threshold hword hparse
      · exact .tagAll hword hparse
      · exact .tagAny hword hparse
      · exact .name htext hparse
    · rintro (hparse | ⟨hword, hparse⟩ | ⟨hword, hparse⟩ | ⟨hword, hparse⟩ | ⟨htext, hparse⟩)
      · exact .inl (.inl (.inl (.inl ⟨rfl, _, hparse, rfl⟩)))
      · exact .inl (.inl (.inl (.inr ⟨rfl, _, _, hword, hparse, rfl⟩)))
      · exact .inl (.inl (.inr ⟨_, rfl, _, _, hword, hparse, rfl⟩))
      · exact .inl (.inr ⟨_, rfl, _, _, hword, hparse, rfl⟩)
      · exact .inr ⟨_, rfl, _, _, htext, hparse, rfl⟩

theorem LayerDocument.reports_problems (v : TagVocabulary) (layer : String) (d : LayerDocument) :
    Reports (d.problems v layer) (d.Fault v layer) := by
  have hfallback := reports_optionalWordProblems LayerPlace.fallback (.fallback layer)
    Decision.parse d.fallback
  have hrule (i : Nat) (r : RuleDocument) (_ : d.rules[i]? = some r) :=
    r.reports_problems v (.rule layer i)
  have hrules := (Reports.flatMap_zipIdx hrule).within (f := fun p ↦ LayerPlace.rule p.1 p.2) <| by
    rintro ⟨i, p⟩ ⟨j, q⟩ ⟨⟩
    rfl
  rw [LayerDocument.problems, located, List.flatMap_map]
  refine (hfallback.append hrules ?_).congr fun place problem ↦ ?_
  · rintro _ _ _ ⟨rfl, -⟩ ⟨_, ⟨⟩, -⟩
  · constructor
    · rintro (⟨rfl, word, e, hword, hparse, rfl⟩ | ⟨⟨i, p⟩, rfl, r, hr, hfault⟩)
      · exact .fallback hword hparse
      · exact .rule hr hfault
    · rintro (⟨hword, hparse⟩ | ⟨hr, hfault⟩)
      · exact Or.inl ⟨rfl, _, _, hword, hparse, rfl⟩
      · exact Or.inr ⟨(_, _), rfl, _, hr, hfault⟩

/-! ### Origins -/

namespace OriginSettings

theorem judged_getElem? (earlier : List String) (origins : List OriginSettings) (i : Nat) :
    (judged earlier origins)[i]? = origins[i]?.map fun o ↦
      (o, o.nameProblem? (((origins.take i).map (·.id)).reverse ++ earlier)) := by
  induction origins generalizing earlier i with
  | nil => rfl
  | cons o origins ih =>
    cases i with
    | zero => rfl
    | succ i =>
      rw [judged, List.getElem?_cons_succ, List.getElem?_cons_succ, ih]
      simp

/-- What is wrong with the name of an origin depends on the earlier names as a set. -/
theorem nameProblem?_congr {names names' : List String} {o : OriginSettings}
    (h : o.id ∈ names ↔ o.id ∈ names') : o.nameProblem? names = o.nameProblem? names' := by
  rw [nameProblem?, nameProblem?]
  simp only [h]

theorem nameProblem?_eq_none_iff {earlier : List String} {o : OriginSettings} :
    o.nameProblem? earlier = none ↔ ¬ (o.id = "" ∨ o.id ∈ earlier) := by
  rw [nameProblem?]
  split_ifs <;> simp_all

theorem nameProblem?_eq_some_iff {v : TagVocabulary} {earlier : List String} {o : OriginSettings}
    {problem : Problem} :
    o.nameProblem? earlier = some problem ↔ o.Fault v earlier .id problem := by
  rw [nameProblem?]
  constructor
  · intro h
    split_ifs at h with hempty hearlier
    · obtain rfl := Option.some.inj h
      exact .empty (String.isEmpty_iff.1 hempty)
    · obtain rfl := Option.some.inj h
      exact .repeated (fun h ↦ hempty (String.isEmpty_iff.2 h)) hearlier
  · rintro (hempty | ⟨hnonempty, hearlier⟩)
    · rw [if_pos (String.isEmpty_iff.2 hempty)]
    · rw [if_neg (fun h ↦ hnonempty (String.isEmpty_iff.1 h)), if_pos hearlier]

/-- An origin whose name is refused is reported for its name, and for nothing else. -/
theorem reports_problems (v : TagVocabulary) (earlier : List String) (o : OriginSettings) :
    Reports (match o.nameProblem? earlier with
        | some problem => [problem]
        | none => o.tagProblems v)
      (fun place problem ↦ o.Fault v earlier place problem ∧ ¬ o.Hidden earlier place) := by
  rcases hname : o.nameProblem? earlier with - | nameProblem
  · have hgood := nameProblem?_eq_none_iff.1 hname
    have htags := (v.reports_tools o.location o.tools).within
      (f := fun p ↦ OriginPlace.tag p.1 p.2) <| by
        rintro ⟨tool, i⟩ ⟨tool', i'⟩ ⟨⟩
        rfl
    refine htags.congr fun place problem ↦ ?_
    constructor
    · rintro ⟨⟨tool, i⟩, rfl, words, word, e, htool, hword, hparse, rfl⟩
      refine ⟨.tag htool hword hparse, ?_⟩
      rintro ⟨hbad⟩
      exact hgood hbad
    · rintro ⟨hempty | ⟨-, hearlier⟩ | ⟨htool, hword, hparse⟩, -⟩
      · exact absurd (Or.inl hempty) hgood
      · exact absurd (Or.inr hearlier) hgood
      · exact ⟨(_, _), rfl, _, _, _, htool, hword, hparse, rfl⟩
  · have hbad : o.id = "" ∨ o.id ∈ earlier := by
      by_contra hgood
      rw [nameProblem?_eq_none_iff.2 hgood] at hname
      cases hname
    refine (Reports.ofOption OriginPlace.id (some nameProblem)).congr fun place problem ↦ ?_
    constructor
    · rintro ⟨rfl, hproblem⟩
      refine ⟨nameProblem?_eq_some_iff.1 (hname.trans hproblem), ?_⟩
      rintro ⟨⟩
    · rintro ⟨hfault, hvisible⟩
      rcases place with - | ⟨tool, i⟩
      · exact ⟨rfl, hname.symm.trans (nameProblem?_eq_some_iff.2 hfault)⟩
      · exact absurd (.tag hbad tool i) hvisible

end OriginSettings

namespace Settings

variable (s : Settings)

theorem judgedOrigins_getElem? (i : Nat) :
    s.judgedOrigins[i]? = s.origins[i]?.map fun o ↦ (o, o.nameProblem? (s.originsBefore i)) := by
  rw [judgedOrigins, OriginSettings.judged_getElem?]
  refine congrArg (fun f ↦ s.origins[i]?.map f) (funext fun o ↦ ?_)
  refine congrArg (Prod.mk o) (OriginSettings.nameProblem?_congr ?_)
  rw [List.append_nil, List.mem_reverse, originsBefore]

theorem reports_originProblems :
    Reports s.originProblems (fun (place : Nat × OriginPlace) problem ↦
      ∃ o, s.origins[place.1]? = some o ∧
        o.Fault s.vocabulary (s.originsBefore place.1) place.2 problem ∧
        ¬ o.Hidden (s.originsBefore place.1) place.2) := by
  rw [originProblems]
  refine (Reports.flatMap_index (F := fun i judged place problem ↦
    judged.1.Fault s.vocabulary (s.originsBefore i) place problem ∧
      ¬ judged.1.Hidden (s.originsBefore i) place) fun i judged hjudged ↦ ?_).congr ?_
  · rw [judgedOrigins_getElem?] at hjudged
    obtain ⟨o, ho, rfl⟩ := Option.map_eq_some_iff.1 hjudged
    have hreports := o.reports_problems s.vocabulary (s.originsBefore i)
    rcases hname : o.nameProblem? (s.originsBefore i) with - | problem
    · rwa [hname] at hreports
    · rwa [hname] at hreports
  · rintro ⟨i, place⟩ problem
    simp only [judgedOrigins_getElem?, Option.map_eq_some_iff]
    constructor
    · rintro ⟨_, ⟨o, ho, rfl⟩, hfault⟩
      exact ⟨o, ho, hfault⟩
    · rintro ⟨o, ho, hfault⟩
      exact ⟨_, ⟨o, ho, rfl⟩, hfault⟩

theorem reports_policyProblems :
    Reports s.policyProblems (fun place problem ↦ place = SettingsPlace.offset ∧
      s.policy.overrideOffset < 0 ∧ problem = .negativeOffset s.policy.overrideOffset) := by
  rw [policyProblems]
  split_ifs with hnegative
  · refine (Reports.ofOption SettingsPlace.offset (some _)).congr fun place problem ↦
      and_congr_right fun _ ↦ ?_
    constructor
    · intro h
      exact ⟨hnegative, (Option.some.inj h).symm⟩
    · rintro ⟨-, rfl⟩
      rfl
  · refine Reports.nil.congr fun place problem ↦ ⟨False.elim, ?_⟩
    rintro ⟨-, h, -⟩
    exact hnegative h

theorem reports_groupProblems :
    Reports s.groupProblems (fun place problem ↦ ∃ name, place = SettingsPlace.group name ∧
      name ∈ s.metadata.groups ∧ (∃ tag, Tag.builtin? name = some tag) ∧
      problem = .shadowingGroup name) := by
  have hnodup := s.vocabulary.groups.nodup_toList.filter fun g ↦ (Tag.builtin? g).isSome
  have hplace : Function.Injective SettingsPlace.group := fun _ _ h ↦ SettingsPlace.group.inj h
  have hdeclared (name : String) : name ∈ s.vocabulary.groups.toList ↔ name ∈ s.metadata.groups :=
    SortedSet.mem_ofList
  refine (Reports.map hnodup hplace Problem.shadowingGroup).congr fun place problem ↦ ?_
  constructor
  · rintro ⟨name, hname, rfl, rfl⟩
    obtain ⟨hmem, hbuiltin⟩ := List.mem_filter.1 hname
    exact ⟨name, rfl, (hdeclared name).1 hmem, Option.isSome_iff_exists.1 hbuiltin, rfl⟩
  · rintro ⟨name, rfl, hmem, hbuiltin, rfl⟩
    exact ⟨name, List.mem_filter.2 ⟨(hdeclared name).2 hmem, Option.isSome_iff_exists.2 hbuiltin⟩,
      rfl, rfl⟩

theorem reports_layerProblems (docs : List NamedDocument) :
    Reports (s.layerProblems docs) (fun (place : Nat × LayerPlace) problem ↦
      ∃ d, docs[place.1]? = some d ∧
        d.document.Fault s.vocabulary d.name.display place.2 problem) := by
  have hdoc (i : Nat) (d : NamedDocument) (_ : docs[i]? = some d) :
      Reports (d.problems s.vocabulary) (d.document.Fault s.vocabulary d.name.display) :=
    d.document.reports_problems s.vocabulary d.name.display
  exact Reports.flatMap_index hdoc

/-- **The problems of a configuration** are a report on its faults, but for the hidden ones. -/
theorem reports_problems (docs : List NamedDocument) :
    Reports (s.problems docs)
      (fun place problem ↦ s.Fault docs place problem ∧ ¬ s.Hidden place) := by
  have htools := (s.vocabulary.reports_tools .tool s.metadata.tools).within
    (f := fun p ↦ SettingsPlace.tag p.1 p.2) <| by
      rintro ⟨tool, i⟩ ⟨tool', i'⟩ ⟨⟩
      rfl
  have horigins := s.reports_originProblems.within (f := fun p ↦ SettingsPlace.origin p.1 p.2) <| by
    rintro ⟨i, place⟩ ⟨i', place'⟩ ⟨⟩
    rfl
  have hlayers := (s.reports_layerProblems docs).within
    (f := fun p ↦ SettingsPlace.layer p.1 p.2) <| by
      rintro ⟨i, place⟩ ⟨i', place'⟩ ⟨⟩
      rfl
  refine ((s.reports_policyProblems.append
    ((s.reports_groupProblems.append htools ?_).append horigins ?_) ?_).append hlayers ?_).congr
    fun place problem ↦ ?_
  -- The places of two parts differ in their constructors.
  · rintro _ _ _ ⟨_, rfl, -⟩ ⟨_, ⟨⟩, -⟩
  · rintro _ _ _ (⟨_, rfl, -⟩ | ⟨_, rfl, -⟩) ⟨_, ⟨⟩, -⟩
  · rintro _ _ _ ⟨rfl, -⟩ ((⟨_, ⟨⟩, -⟩ | ⟨_, ⟨⟩, -⟩) | ⟨_, ⟨⟩, -⟩)
  · rintro _ _ _ (⟨rfl, -⟩ | ((⟨_, rfl, -⟩ | ⟨_, rfl, -⟩) | ⟨_, rfl, -⟩)) ⟨_, ⟨⟩, -⟩
  · constructor
    · rintro ((⟨rfl, hnegative, rfl⟩ | ((⟨name, rfl, hdeclared, ⟨tag, hbuiltin⟩, rfl⟩ |
        ⟨⟨tool, i⟩, rfl, words, word, e, htool, hword, hparse, rfl⟩) |
        ⟨⟨i, place⟩, rfl, o, ho, hfault, hvisible⟩)) | ⟨⟨i, place⟩, rfl, d, hd, hfault⟩)
      · exact ⟨.offset hnegative, by rintro ⟨⟩⟩
      · exact ⟨.group hdeclared hbuiltin, by rintro ⟨⟩⟩
      · exact ⟨.tag htool hword hparse, by rintro ⟨⟩⟩
      · -- The origin with an index is one, so what is hidden in it is the same.
        refine ⟨.origin ho hfault, ?_⟩
        rintro ⟨ho', hhidden⟩
        obtain rfl := Option.some.inj (ho.symm.trans ho')
        exact hvisible hhidden
      · exact ⟨.layer hd hfault, by rintro ⟨⟩⟩
    · rintro ⟨hnegative | ⟨hdeclared, hbuiltin⟩ | ⟨htool, hword, hparse⟩ | ⟨ho, hfault⟩ |
        ⟨hd, hfault⟩, hvisible⟩
      · exact .inl (.inl ⟨rfl, hnegative, rfl⟩)
      · exact .inl (.inr (.inl (.inl ⟨_, rfl, hdeclared, ⟨_, hbuiltin⟩, rfl⟩)))
      · exact .inl (.inr (.inl (.inr ⟨(_, _), rfl, _, _, _, htool, hword, hparse, rfl⟩)))
      · exact .inl (.inr (.inr ⟨(_, _), rfl, _, ho, hfault, fun h ↦ hvisible (.origin ho h)⟩))
      · exact .inr ⟨(_, _), rfl, _, hd, hfault⟩

/-! ### The engine -/

variable {s : Settings} {files : FileView} {docs : List NamedDocument}

/-- With all documents read, the engine is refused for problems if there are any, and then with all
of them. -/
theorem buildEngine_eq_invalid_iff (hdocs : s.documents files = .ok docs) (inUse : List String)
    (problems : List Problem) :
    s.buildEngine files inUse = .error (.invalid problems) ↔
      s.problems docs ≠ [] ∧ problems = s.problems docs := by
  have hparts : s.engineParts files inUse = (do
      unlessProblems (s.problems docs) ()
      let registry ← (s.registrations.build inUse).mapError .registry
      return (registry, NamedDocument.layerTable s.vocabulary docs)) := by
    rw [engineParts, hdocs]
    rfl
  rw [buildEngine, hparts]
  rcases hproblems : s.problems docs with - | ⟨problem, more⟩
  · rw [unlessProblems, List.isEmpty_nil, if_pos rfl]
    rcases s.registrations.build inUse with e | registry
    · constructor
      · rintro ⟨⟩
      · rintro ⟨h, -⟩
        exact absurd rfl h
    · constructor
      · rintro ⟨⟩
      · rintro ⟨h, -⟩
        exact absurd rfl h
  · rw [unlessProblems, List.isEmpty_cons, if_neg Bool.false_ne_true]
    constructor
    · rintro ⟨⟩
      exact ⟨List.cons_ne_nil _ _, rfl⟩
    · rintro ⟨-, rfl⟩
      rfl

/-- **Every fault is reported exactly when none is hidden.** Whatever the files, once the documents
are read: the problems are a report on the faults at all places that are looked at; the engine is
refused with these problems if there are any, and never for problems otherwise; and nothing that is
wrong is left out, for any list of tools in use, just if no tag is wrong in an origin whose own name
is refused. -/
theorem reportsEveryFault_iff (hdocs : s.documents files = .ok docs) :
    Reports (s.problems docs) (fun place problem ↦ s.Fault docs place problem ∧ ¬ s.Hidden place) ∧
    (∀ inUse problems, s.buildEngine files inUse = .error (.invalid problems) ↔
      s.problems docs ≠ [] ∧ problems = s.problems docs) ∧
    (s.ReportsEveryFault files docs ↔
      ∀ place problem, s.Fault docs place problem → ¬ s.Hidden place) := by
  have hreports := s.reports_problems docs
  have hengine := buildEngine_eq_invalid_iff hdocs
  refine ⟨hreports, hengine, fun hevery place problem hfault ↦ ?_, fun hvisible inUse ↦ ?_⟩
  · -- The same list would be a report on all faults, and on those that are looked at.
    obtain ⟨problems, hinvalid, hall⟩ := (hevery []).1 ⟨place, problem, hfault⟩
    obtain ⟨-, rfl⟩ := (hengine [] problems).1 hinvalid
    exact (hreports.antisymm hall (fun _ _ h ↦ h.1) hfault).2
  · have hall : Reports (s.problems docs) (s.Fault docs) :=
      hreports.congr fun place problem ↦ and_iff_left_of_imp (hvisible place problem)
    constructor
    · rintro ⟨place, problem, hfault⟩
      have hsome : s.problems docs ≠ [] := List.ne_nil_of_mem (hall.mem hfault)
      exact ⟨_, (hengine inUse _).2 ⟨hsome, rfl⟩, hall⟩
    · intro hnone problems hinvalid
      exact ((hengine inUse problems).1 hinvalid).1 (hall.eq_nil_iff.2 hnone)

/-- A tool and an origin with a misspelled tag each. -/
def misspelled : Settings :=
  { blank with
    metadata := ⟨[], .ofList [("a", ["read-only", "sparkly"])]⟩
    origins := [⟨"mail", .ofList [("send", ["bogus"])]⟩] }

/-- Both misspelled tags are reported. -/
theorem misspelled_reportsEveryFault :
    misspelled.documents (.ofSnapshot [] []) = .ok [] ∧
    misspelled.ReportsEveryFault (.ofSnapshot [] []) [] ∧
    misspelled.buildEngine (.ofSnapshot [] []) ["a"] = .error (.invalid
      [.unknownWord (.tool "a") ⟨.tag, "sparkly"⟩,
        .unknownWord (.originTool "mail" "send") ⟨.tag, "bogus"⟩]) := by
  have hdocs : misspelled.documents (.ofSnapshot [] []) = .ok [] := rfl
  obtain ⟨-, hengine, hevery⟩ := reportsEveryFault_iff hdocs
  refine ⟨hdocs, hevery.2 ?_, (hengine _ _).2 ⟨by decide, by decide⟩⟩
  rintro _ problem - (@⟨i, o, _, horigin, ⟨hname, tool, index⟩⟩)
  cases i with
  | zero =>
    obtain rfl := Option.some.inj horigin
    revert hname
    decide
  | succ i => cases horigin

/-- An origin without a name, with a misspelled tag. -/
def nameless : Settings :=
  { blank with origins := [⟨"", .ofList [("x", ["bogus"])]⟩] }

/-- The tag of the nameless origin is not reported, though it is wrong. -/
theorem nameless_hides_tag :
    nameless.documents (.ofSnapshot [] []) = .ok [] ∧
    nameless.Fault [] (.origin 0 (.tag "x" 0))
      (.unknownWord (.originTool "" "x") ⟨.tag, "bogus"⟩) ∧
    nameless.buildEngine (.ofSnapshot [] []) [] = .error (.invalid [.emptyOrigin]) ∧
    ¬ nameless.ReportsEveryFault (.ofSnapshot [] []) [] := by
  have hdocs : nameless.documents (.ofSnapshot [] []) = .ok [] := rfl
  have hfault : nameless.Fault [] (.origin 0 (.tag "x" 0))
      (.unknownWord (.originTool "" "x") ⟨.tag, "bogus"⟩) :=
    .origin rfl (.tag rfl rfl rfl)
  have hproblems : nameless.problems [] = [.emptyOrigin] := by decide
  refine ⟨hdocs, hfault, (buildEngine_eq_invalid_iff hdocs [] _).2 ⟨by decide, hproblems.symm⟩,
    fun hevery ↦ ?_⟩
  obtain ⟨problems, hinvalid, hall⟩ := (hevery []).1 ⟨_, _, hfault⟩
  obtain ⟨-, rfl⟩ := (buildEngine_eq_invalid_iff hdocs [] problems).1 hinvalid
  have hmem := hall.mem hfault
  rw [hproblems, List.mem_singleton] at hmem
  cases hmem

end Settings

end ToolAccess
