import ToolAccess.Proofs.LayeredRules
import ToolAccess.Proofs.ProfileListing

/-!
# Tags and their spellings

A group of a deployment and a built-in tag are two tags, also when the group is named like the
built-in one, and then a rule and a tool could show one tag and yet not match. In an engine that a
configuration builds this does not happen: tags that are spelled alike are equal.

## What the proof rests on

* **Spellings.** A built-in tag is spelled in kebab case or in snake case, and in no other way
  (`Tag.builtin?_eq_some_iff`).
* **Words.** Each tag in an engine was read from some word by the configuration's vocabulary
  (`Settings.reads_of_occurs`): those of tools, of origins and of their catch-all entries, and those
  in the rules of every layer. The one exception is the tag of tools that nobody described, which is
  built in. A tag that was read from a word is read from its spelling again
  (`TagVocabulary.parse_spelling_of_reads`), and so is told by it.
* **Other spellings.** A word enters the result of loading through the tag it stands for only, so
  the engine stays the same when built-in tags are spelled the other way
  (`Settings.Respelled.buildEngine_eq`).

The main result is `Settings.tags_are_told_by_their_spelling`.
-/

namespace ToolAccess

/-! ### Spellings of built-in tags -/

namespace Tag

variable {t u : Tag} {word word' : String}

/-- The tag is not a group. -/
def IsBuiltin (t : Tag) : Prop := ∀ name, t ≠ .group name

/-- The spelling of a tag in snake case. -/
def snakeSpelling (t : Tag) : String :=
  .ofList (t.spelling.toList.map fun c ↦ if c = '-' then '_' else c)

/-- The word is a spelling of the built-in tag. -/
structure IsSpellingOf (word : String) (t : Tag) : Prop where
  isBuiltin : t.IsBuiltin
  spelled : word = t.spelling ∨ word = t.snakeSpelling

/-- **Built-in tags have two spellings**, which are the same for those of one word. -/
theorem builtin?_eq_some_iff : builtin? word = some t ↔ IsSpellingOf word t := by
  constructor
  · intro h
    unfold builtin? at h
    split at h <;> cases h <;> exact ⟨by rintro _ ⟨⟩, by decide⟩
  · rintro ⟨hbuiltin, rfl | rfl⟩ <;> cases t
    case inl.group name | inr.group name => exact absurd rfl (hbuiltin name)
    all_goals decide

theorem builtin?_spelling (h : t.IsBuiltin) : builtin? t.spelling = some t :=
  builtin?_eq_some_iff.2 ⟨h, .inl rfl⟩

end Tag

/-! ### Words and the tags they stand for -/

namespace TagVocabulary

variable {v : TagVocabulary} {t : Tag} {word word' : String} {words words' : List String}

/-- The tag is that of some word. -/
def Reads (v : TagVocabulary) (t : Tag) : Prop := ∃ word, v.parse word = .ok t

theorem parse_of_isSpellingOf (h : Tag.IsSpellingOf word t) : v.parse word = .ok t := by
  rw [parse, Tag.builtin?_eq_some_iff.2 h]

theorem reads_of_isBuiltin (h : t.IsBuiltin) : v.Reads t :=
  ⟨_, parse_of_isSpellingOf ⟨h, .inl rfl⟩⟩

/-- A tag is that of a word if it is built in, or is a declared group that is not spelled like a
built-in tag. -/
theorem reads_iff :
    v.Reads t ↔ t.IsBuiltin ∨ ∃ name, t = .group name ∧ name ∈ v.groups ∧
      Tag.builtin? name = none := by
  constructor
  · rintro ⟨word, hword⟩
    rw [parse] at hword
    rcases hbuiltin : Tag.builtin? word with - | u
    · rw [hbuiltin] at hword
      dsimp only at hword
      split at hword
      · next hgroup => exact .inr ⟨word, (Except.ok.inj hword).symm, hgroup, hbuiltin⟩
      · cases hword
    · rw [hbuiltin] at hword
      obtain rfl := Except.ok.inj hword
      exact .inl (Tag.builtin?_eq_some_iff.1 hbuiltin).isBuiltin
  · rintro (h | ⟨name, rfl, hgroup, hnone⟩)
    · exact reads_of_isBuiltin h
    · exact ⟨name, by rw [parse, hnone]; exact if_pos hgroup⟩

/-- **A tag that is that of a word** is that of its spelling. -/
theorem parse_spelling_of_reads (h : v.Reads t) : v.parse t.spelling = .ok t := by
  rcases reads_iff.1 h with hbuiltin | ⟨name, rfl, hgroup, hnone⟩
  · rw [parse, Tag.builtin?_spelling hbuiltin]
  · rw [Tag.spelling, parse, hnone]
    exact if_pos hgroup

theorem reads_of_map_parse_eq {tags : List Tag} (h : words.map v.parse = tags.map .ok)
    (ht : t ∈ tags) : v.Reads t := by
  have hmem : Except.ok t ∈ words.map v.parse := h ▸ List.mem_map_of_mem ht
  obtain ⟨word, -, hword⟩ := List.mem_map.1 hmem
  exact ⟨word, hword⟩

theorem reads_of_mem_tagsOf (h : t ∈ v.tagsOf words) : v.Reads t := by
  obtain ⟨word, -, hword⟩ := List.mem_filterMap.1 h
  rcases hparse : v.parse word with e | u
  · rw [hparse] at hword
    cases hword
  · rw [hparse] at hword
    exact ⟨word, hparse.trans (congrArg _ (Option.some.inj hword))⟩

end TagVocabulary

/-! ### Tags in an engine -/

/-- A tag stands in an engine: in the entry of a tool, among the tags looked up for a tool, or in a
condition of a rule, with or without a profile. -/
inductive Engine.Occurs (engine : Engine) (t : Tag) : Prop
  | entry {tool : ToolIdentity} {tags : TagSet}
    (hentry : (tool, tags) ∈ engine.registry.entries.entries) (htag : t ∈ tags)
  | tool {tool : ToolIdentity} (htag : t ∈ engine.tagsFor tool)
  | all {profile : Option String} {rule : Rule} (hrule : rule ∈ (engine.ruleSet profile).rules)
    (htag : t ∈ rule.matcher.tagsAll)
  | any {profile : Option String} {rule : Rule} (hrule : rule ∈ (engine.ruleSet profile).rules)
    (htag : t ∈ rule.matcher.tagsAny)

/-- The tags in a rule's conditions are those of words. -/
def Rule.ReadBy (v : TagVocabulary) (rule : Rule) : Prop :=
  ∀ t, t ∈ rule.matcher.tagsAll ∨ t ∈ rule.matcher.tagsAny → v.Reads t

theorem RuleDocument.readBy_of_toRule? {v : TagVocabulary} {location : Location}
    {r : RuleDocument} {rule : Rule} (h : r.toRule? v location = some rule) : rule.ReadBy v := by
  have hmeans := toRule?_eq_some_iff.1 h
  rintro t (ht | ht)
  · obtain ⟨tags, hwords, htags⟩ := hmeans.tagsAll
    rw [htags] at ht
    exact TagVocabulary.reads_of_map_parse_eq hwords (SortedSet.mem_ofList.1 ht)
  · obtain ⟨tags, hwords, htags⟩ := hmeans.tagsAny
    rw [htags] at ht
    exact TagVocabulary.reads_of_map_parse_eq hwords (SortedSet.mem_ofList.1 ht)

theorem NamedDocument.readBy_of_mem_toLayer {v : TagVocabulary} {d : NamedDocument} {rule : Rule}
    (h : rule ∈ (d.toLayer v).rules) : rule.ReadBy v := by
  obtain ⟨_, -, hrule⟩ := List.mem_filterMap.1 h
  exact RuleDocument.readBy_of_toRule? hrule

theorem NamedDocument.readBy_of_mem_layerNamed {v : TagVocabulary} {docs : List NamedDocument}
    {name : LayerName} {rule : Rule} (h : rule ∈ (layerNamed v docs name).rules) :
    rule.ReadBy v := by
  rw [layerNamed] at h
  split at h
  · exact readBy_of_mem_toLayer h
  · cases h

theorem LayerStack.readBy_of_mem_merge {v : TagVocabulary} {l : LayerStack} {offset : Int64}
    (hdefaults : ∀ rule ∈ l.defaults.rules, rule.ReadBy v)
    (hoverrides : ∀ rule ∈ l.overrides.rules, rule.ReadBy v)
    (hprofile : ∀ rule ∈ l.profileRules, rule.ReadBy v) :
    ∀ rule ∈ (l.merge offset).rules, rule.ReadBy v := by
  intro rule hrule
  rw [merge, List.mem_append, List.mem_append] at hrule
  rcases hrule with (hlifted | hrule) | hrule
  · obtain ⟨rule, hrule, rfl⟩ := List.mem_map.1 hlifted
    exact hoverrides rule hrule
  · exact hprofile rule hrule
  · exact hdefaults rule hrule

namespace Settings

variable {s s' : Settings} {files files' : FileView} {docs docs' : List NamedDocument}
  {inUse : List String} {engine : Engine} {t : Tag}

theorem reads_of_mem_declarations {tool : ToolIdentity} {tags : List Tag}
    (h : (tool, tags) ∈ s.toolDeclarations ++ s.originDeclarations) (ht : t ∈ tags) :
    s.vocabulary.Reads t := by
  rcases List.mem_append.1 h with htool | horigin
  · obtain ⟨_, -, hdeclared⟩ := List.mem_map.1 htool
    obtain ⟨rfl, rfl⟩ := Prod.mk.inj hdeclared
    exact TagVocabulary.reads_of_mem_tagsOf ht
  · obtain ⟨o, -, hown⟩ := mem_originDeclarations_iff.1 horigin
    obtain ⟨_, -, hdeclared⟩ := List.mem_map.1 hown
    obtain ⟨rfl, rfl⟩ := Prod.mk.inj hdeclared
    exact TagVocabulary.reads_of_mem_tagsOf ht

/-- The tags looked up in the registry of a configuration are those of words. -/
theorem reads_of_mem_tagsFor {tool : ToolIdentity}
    (h : t ∈ s.registrations.registry.tagsFor tool) : s.vocabulary.Reads t := by
  obtain ⟨given, hgives⟩ :=
    Registrations.exists_gives (s.toolDeclarations ++ s.originDeclarations) tool
  rw [registrations, hgives.tagsFor_eq s.nodup_declarations] at h
  cases hgives with
  | own hown => exact reads_of_mem_declarations hown (SortedSet.mem_ofList.1 h)
  | catchAll _ _ hcatchAll => exact reads_of_mem_declarations hcatchAll (SortedSet.mem_ofList.1 h)
  | unspecified =>
    obtain rfl := List.mem_singleton.1 (SortedSet.mem_ofList.1 h)
    refine TagVocabulary.reads_of_isBuiltin ?_
    rintro _ ⟨⟩

/-- The rules that a configuration has for a profile, or for none, have tags of words only. -/
theorem readBy_of_mem_stack (hdocs : s.documents files = .ok docs) {profile : Option String}
    {rule : Rule} (h : rule ∈ (((NamedDocument.layerTable s.vocabulary docs).stack
      (profile.bind (NamedDocument.layerTable s.vocabulary docs).profiles.find?)).merge
        s.policy.overrideOffset).rules) : rule.ReadBy s.vocabulary := by
  have hnamed : ∀ name, ∀ rule ∈ (NamedDocument.layerNamed s.vocabulary docs name).rules,
      rule.ReadBy s.vocabulary := fun _ _ ↦ NamedDocument.readBy_of_mem_layerNamed
  refine LayerStack.readBy_of_mem_merge (hnamed .defaults) (hnamed .overrides)
    (fun rule hrule ↦ ?_) rule h
  rcases hprofile : profile.bind (NamedDocument.layerTable s.vocabulary docs).profiles.find?
    with - | layer
  · rw [hprofile] at hrule
    cases hrule
  · rw [hprofile] at hrule
    obtain ⟨name, rfl, hfind⟩ := Option.bind_eq_some_iff.1 hprofile
    have hmem := SortedMap.mem_entries_iff.2 hfind
    rw [NamedDocument.layerTable, SortedMap.entries_ofList (pairwise_profiles hdocs)] at hmem
    obtain ⟨d, -, hd⟩ := List.mem_filterMap.1 hmem
    rw [NamedDocument.profile?] at hd
    split at hd
    · obtain ⟨rfl, rfl⟩ := Prod.mk.inj (Option.some.inj hd)
      exact NamedDocument.readBy_of_mem_toLayer hrule
    · cases hd
    · cases hd

/-- **Each tag in an engine is that of a word.** -/
theorem reads_of_occurs (hbuild : s.buildEngine files inUse = .ok engine) (h : engine.Occurs t) :
    s.vocabulary.Reads t := by
  obtain ⟨docs, hdocs, -, -, rfl⟩ := buildEngine_eq_ok_iff.1 hbuild
  cases h with
  | entry hentry htag =>
    have hfind : s.registrations.registry.entries.find? _ = some _ :=
      SortedMap.mem_entries_iff.1 hentry
    rw [registrations, (Registrations.keeps_ofList _).find?_eq] at hfind
    obtain ⟨⟨tool, tags⟩, hlast, rfl⟩ := Option.map_eq_some_iff.1 hfind
    have hmem := (List.mem_filter.1 (List.mem_of_getLast? hlast)).1
    exact reads_of_mem_declarations hmem (SortedSet.mem_ofList.1 htag)
  | tool htag => exact reads_of_mem_tagsFor htag
  | all hrule htag =>
    rw [Engine.ruleSet_ofLayers] at hrule
    exact readBy_of_mem_stack hdocs hrule t (.inl htag)
  | any hrule htag =>
    rw [Engine.ruleSet_ofLayers] at hrule
    exact readBy_of_mem_stack hdocs hrule t (.inr htag)

theorem mem_groups_iff {name : String} : name ∈ s.vocabulary.groups ↔ name ∈ s.metadata.groups :=
  SortedSet.mem_ofList

/-- Where there are no problems, no declared group is spelled like a built-in tag. -/
theorem builtin?_of_mem_groups (hnil : s.problems docs = []) {name : String}
    (h : name ∈ s.metadata.groups) : Tag.builtin? name = none := by
  simp only [problems, metadataProblems, groupProblems, List.append_eq_nil_iff,
    List.map_eq_nil_iff, List.filter_eq_nil_iff, Option.not_isSome_iff_eq_none] at hnil
  exact hnil.1.2.1.1 name (mem_groups_iff.2 h)

end Settings

/-! ### The same configuration in other spellings -/

/-- The second word is the first one, or both are spellings of one built-in tag. -/
def Tag.Respelled (word word' : String) : Prop :=
  word = word' ∨ ∃ t, IsSpellingOf word t ∧ IsSpellingOf word' t

/-- The words of the second table are those of the first one, some of them respelled. -/
def WordTable.Respelled (table table' : SortedMap String (List String)) : Prop :=
  List.Forall₂ (fun e e' ↦ e.1 = e'.1 ∧ List.Forall₂ Tag.Respelled e.2 e'.2) table.entries
    table'.entries

/-- The second rule is the first one, with some words for tags respelled. -/
structure RuleDocument.Respelled (r r' : RuleDocument) : Prop where
  tagsAll : List.Forall₂ Tag.Respelled r.tagsAll r'.tagsAll
  tagsAny : List.Forall₂ Tag.Respelled r.tagsAny r'.tagsAny
  rest : { r with tagsAll := [], tagsAny := [] } = { r' with tagsAll := [], tagsAny := [] }

/-- The second document is the first one, with some words for tags respelled. -/
structure NamedDocument.Respelled (d d' : NamedDocument) : Prop where
  name : d.name = d'.name
  fallback : d.document.fallback = d'.document.fallback
  rules : List.Forall₂ RuleDocument.Respelled d.document.rules d'.document.rules

/-- The second origin is the first one, with some words for tags respelled. -/
structure OriginSettings.Respelled (o o' : OriginSettings) : Prop where
  id : o.id = o'.id
  tools : WordTable.Respelled o.tools o'.tools

/-- The second configuration is the first one as far as an engine is concerned, with some words for
tags respelled. -/
structure Settings.Respelled (s s' : Settings) : Prop where
  policy : s.policy = s'.policy
  groups : s.metadata.groups = s'.metadata.groups
  tools : WordTable.Respelled s.metadata.tools s'.metadata.tools
  origins : List.Forall₂ OriginSettings.Respelled s.origins s'.origins

section Respelled

variable {α β γ : Type} {R : α → β → Prop} {l : List α} {l' : List β} {v : TagVocabulary}

theorem map_eq_map_of_forall₂ {f : α → γ} {g : β → γ} (h : List.Forall₂ R l l')
    (hfg : ∀ a b, R a b → f a = g b) : l.map f = l'.map g := by
  rw [← List.forall₂_eq_eq_eq, List.forall₂_map_left_iff, List.forall₂_map_right_iff]
  exact h.imp hfg

theorem flatMap_eq_flatMap_of_forall₂ {f : α → List γ} {g : β → List γ}
    (h : List.Forall₂ R l l') (hfg : ∀ a b, R a b → f a = g b) : l.flatMap f = l'.flatMap g := by
  rw [List.flatMap_def, List.flatMap_def, map_eq_map_of_forall₂ h hfg]

theorem filterMap_eq_filterMap_of_forall₂ {f : α → Option γ} {g : β → Option γ}
    (h : List.Forall₂ R l l') (hfg : ∀ a b, R a b → f a = g b) :
    l.filterMap f = l'.filterMap g := by
  have hmap := congrArg (List.filterMap id) (map_eq_map_of_forall₂ h hfg)
  rwa [List.filterMap_map, List.filterMap_map] at hmap

theorem forall₂_zipIdx (h : List.Forall₂ R l l') (n : Nat) :
    List.Forall₂ (fun a b ↦ R a.1 b.1 ∧ a.2 = b.2) (l.zipIdx n) (l'.zipIdx n) := by
  induction h generalizing n with
  | nil => exact .nil
  | cons hab _ ih => exact .cons ⟨hab, rfl⟩ (ih (n + 1))

/-- Words that are spellings of one tag are read alike. -/
theorem Tag.Respelled.parse_eq {word word' : String} (h : Tag.Respelled word word') :
    v.parse word = v.parse word' := by
  rcases h with rfl | ⟨t, hword, hword'⟩
  · rfl
  · rw [TagVocabulary.parse_of_isSpellingOf hword, TagVocabulary.parse_of_isSpellingOf hword']

variable {words words' : List String} (hwords : List.Forall₂ Tag.Respelled words words')
include hwords

theorem TagVocabulary.tagsOf_respelled : v.tagsOf words = v.tagsOf words' :=
  filterMap_eq_filterMap_of_forall₂ hwords fun _ _ h ↦ by rw [h.parse_eq]

theorem TagVocabulary.problemsOf_respelled (location : Location) :
    v.problemsOf location words = v.problemsOf location words' :=
  filterMap_eq_filterMap_of_forall₂ hwords fun _ _ h ↦ by rw [h.parse_eq]

end Respelled

namespace RuleDocument.Respelled

variable {r r' : RuleDocument} {v : TagVocabulary}

theorem problems_eq (h : r.Respelled r') (location : Location) :
    r.problems v location = r'.problems v location := by
  have hrest := h.rest
  simp only [mk.injEq] at hrest
  obtain ⟨hnames, -, -, -, hdecision, -, hthreshold, -⟩ := hrest
  rw [problems, problems, hnames, hdecision, hthreshold,
    TagVocabulary.problemsOf_respelled h.tagsAll, TagVocabulary.problemsOf_respelled h.tagsAny]

theorem matcher_eq (h : r.Respelled r') : r.matcher v = r'.matcher v := by
  have hrest := h.rest
  simp only [mk.injEq] at hrest
  obtain ⟨hnames, -, -, horigins, -⟩ := hrest
  rw [matcher, matcher, hnames, horigins, TagVocabulary.tagsOf_respelled h.tagsAll,
    TagVocabulary.tagsOf_respelled h.tagsAny]

theorem toRule?_eq (h : r.Respelled r') (location : Location) :
    r.toRule? v location = r'.toRule? v location := by
  have hrest := h.rest
  simp only [mk.injEq] at hrest
  obtain ⟨-, -, -, -, hdecision, hpriority, hthreshold, hdescription⟩ := hrest
  rw [toRule?, toRule?, h.problems_eq, h.matcher_eq, hdecision, hpriority, hthreshold,
    hdescription]

end RuleDocument.Respelled

namespace NamedDocument

variable {d d' : NamedDocument} {docs docs' : List NamedDocument} {v : TagVocabulary}

theorem Respelled.located (h : d.Respelled d') (layer : String) :
    List.Forall₂ (fun a b ↦ RuleDocument.Respelled a.2 b.2 ∧ a.1 = b.1)
      (d.document.located layer) (d'.document.located layer) := by
  rw [LayerDocument.located, LayerDocument.located, List.forall₂_map_left_iff,
    List.forall₂_map_right_iff]
  exact (forall₂_zipIdx h.rules 0).imp fun _ _ hplaced ↦
    ⟨hplaced.1, congrArg (Location.rule layer) hplaced.2⟩

theorem Respelled.problems_eq (h : d.Respelled d') : d.problems v = d'.problems v := by
  rw [problems, problems, LayerDocument.problems, LayerDocument.problems, h.name, h.fallback,
    flatMap_eq_flatMap_of_forall₂ (h.located _)]
  rintro a b ⟨hrule, hlocation⟩
  rw [hlocation, hrule.problems_eq]

theorem Respelled.toLayer_eq (h : d.Respelled d') : d.toLayer v = d'.toLayer v := by
  rw [toLayer, toLayer, LayerDocument.toLayer, LayerDocument.toLayer, h.name, h.fallback,
    filterMap_eq_filterMap_of_forall₂ (h.located _)]
  rintro a b ⟨hrule, hlocation⟩
  rw [hlocation, hrule.toRule?_eq]

theorem layerNamed_respelled (h : List.Forall₂ Respelled docs docs') (name : LayerName) :
    layerNamed v docs name = layerNamed v docs' name := by
  induction h with
  | nil => rfl
  | @cons d d' docs docs' hd _ ih =>
    rw [layerNamed, layerNamed] at ih ⊢
    by_cases hname : d'.name = name
    · simp [hd.name, hname, hd.toLayer_eq]
    · simpa [hd.name, hname] using ih

theorem layerTable_respelled (h : List.Forall₂ Respelled docs docs') :
    layerTable v docs = layerTable v docs' := by
  rw [layerTable, layerTable, layerNamed_respelled h, layerNamed_respelled h,
    filterMap_eq_filterMap_of_forall₂ h]
  intro d d' hd
  rw [profile?, profile?, hd.name, hd.toLayer_eq]

end NamedDocument

namespace Settings

variable {s s' : Settings} {files files' : FileView} {docs docs' : List NamedDocument}
  {inUse : List String} {engine : Engine}

theorem judged_respelled {origins origins' : List OriginSettings}
    (h : List.Forall₂ OriginSettings.Respelled origins origins') (earlier : List String) :
    List.Forall₂ (fun a b ↦ OriginSettings.Respelled a.1 b.1 ∧ a.2 = b.2)
      (OriginSettings.judged earlier origins) (OriginSettings.judged earlier origins') := by
  induction h generalizing earlier with
  | nil => exact .nil
  | @cons o o' _ _ ho _ ih =>
    rw [OriginSettings.judged, OriginSettings.judged, ho.id]
    refine .cons ⟨ho, ?_⟩ (ih _)
    rw [OriginSettings.nameProblem?, OriginSettings.nameProblem?, ho.id]

namespace Respelled

variable (h : s.Respelled s')
include h

theorem vocabulary_eq : s.vocabulary = s'.vocabulary := by
  rw [vocabulary, vocabulary, h.groups]

theorem toolProblems_eq : s.toolProblems = s'.toolProblems := by
  refine flatMap_eq_flatMap_of_forall₂ h.tools fun e e' ⟨hname, hwords⟩ ↦ ?_
  rw [h.vocabulary_eq, hname, TagVocabulary.problemsOf_respelled hwords]

theorem originProblems_eq : s.originProblems = s'.originProblems := by
  refine flatMap_eq_flatMap_of_forall₂ (judged_respelled h.origins []) ?_
  rintro ⟨o, problem?⟩ ⟨o', _⟩ ⟨ho, rfl⟩
  cases problem? with
  | some problem => rfl
  | none =>
    refine flatMap_eq_flatMap_of_forall₂ ho.tools fun e e' ⟨hname, hwords⟩ ↦ ?_
    rw [h.vocabulary_eq, OriginSettings.location, OriginSettings.location, ho.id, hname,
      TagVocabulary.problemsOf_respelled hwords]

theorem problems_eq (hdocs : List.Forall₂ NamedDocument.Respelled docs docs') :
    s.problems docs = s'.problems docs' := by
  have hlayers : s.layerProblems docs = s'.layerProblems docs' :=
    flatMap_eq_flatMap_of_forall₂ hdocs fun d d' hd ↦ by rw [h.vocabulary_eq, hd.problems_eq]
  rw [problems, problems, policyProblems, policyProblems, metadataProblems, metadataProblems,
    groupProblems, groupProblems, h.policy, h.vocabulary_eq, h.toolProblems_eq,
    h.originProblems_eq, hlayers]

theorem registrations_eq : s.registrations = s'.registrations := by
  have htools : s.toolDeclarations = s'.toolDeclarations := by
    refine map_eq_map_of_forall₂ h.tools fun e e' ⟨hname, hwords⟩ ↦ ?_
    rw [h.vocabulary_eq, hname, TagVocabulary.tagsOf_respelled hwords]
  have horigins : s.originDeclarations = s'.originDeclarations := by
    refine flatMap_eq_flatMap_of_forall₂ (judged_respelled h.origins []) ?_
    rintro ⟨o, problem?⟩ ⟨o', _⟩ ⟨ho, rfl⟩
    cases problem? with
    | some problem => rfl
    | none =>
      refine map_eq_map_of_forall₂ ho.tools fun e e' ⟨hname, hwords⟩ ↦ ?_
      rw [h.vocabulary_eq, ho.id, hname, TagVocabulary.tagsOf_respelled hwords]
  rw [registrations, registrations, htools, horigins]

/-- **Another spelling makes no difference** to the engine of a configuration, or to the reason why
there is none. -/
theorem buildEngine_eq (hdocs : s.documents files = .ok docs)
    (hdocs' : s'.documents files' = .ok docs')
    (hrespelled : List.Forall₂ NamedDocument.Respelled docs docs') :
    s'.buildEngine files' inUse = s.buildEngine files inUse := by
  rw [buildEngine, buildEngine, engineParts, engineParts, hdocs, hdocs', ← h.vocabulary_eq,
    ← h.registrations_eq, ← h.policy]
  show (do
    let parts ← (do
      unlessProblems (s'.problems docs') ()
      let registry ← (s.registrations.build inUse).mapError .registry
      return (registry, NamedDocument.layerTable s.vocabulary docs'))
    return Engine.ofLayers parts.1 s.policy.overrideOffset parts.2) = _
  rw [← h.problems_eq hrespelled, ← NamedDocument.layerTable_respelled hrespelled]
  rfl

end Respelled

/-! ### Tags are told by their spelling -/

/-- **Tags are told by their spelling.** Take any configuration and any files.

* In an engine that is built, each group among the tags of tools and the conditions of rules is
  declared, and none of the declared groups is spelled like a built-in tag, in neither of its two
  spellings.
* Two tags of the engine that are spelled alike are equal, and the configuration's vocabulary reads
  the spelling of each tag of the engine as this tag.
* Each of the two spellings of a built-in tag is read as this tag. If words in the tables of tools
  and of origins and in the rules of documents are replaced by the other spelling of the same tag,
  the same engine is built, or it is refused for the same reason. -/
theorem tags_are_told_by_their_spelling (s : Settings) (files : FileView) (inUse : List String) :
    (∀ engine, s.buildEngine files inUse = .ok engine →
      (∀ name, engine.Occurs (.group name) → name ∈ s.metadata.groups) ∧
      (∀ name ∈ s.metadata.groups, ∀ t : Tag, t.IsBuiltin →
        name ≠ t.spelling ∧ name ≠ t.snakeSpelling) ∧
      (∀ t u, engine.Occurs t → engine.Occurs u → t.spelling = u.spelling → t = u) ∧
      ∀ t, engine.Occurs t → s.vocabulary.parse t.spelling = .ok t) ∧
    (∀ t : Tag, t.IsBuiltin → s.vocabulary.parse t.spelling = .ok t ∧
      s.vocabulary.parse t.snakeSpelling = .ok t) ∧
    ∀ s' files' docs docs', s.Respelled s' → s.documents files = .ok docs →
      s'.documents files' = .ok docs' → List.Forall₂ NamedDocument.Respelled docs docs' →
      s'.buildEngine files' inUse = s.buildEngine files inUse := by
  refine ⟨fun engine hbuild ↦ ?_, fun t ht ↦ ⟨?_, ?_⟩,
    fun s' files' docs docs' h hdocs hdocs' hrespelled ↦ h.buildEngine_eq hdocs hdocs' hrespelled⟩
  · have hspelling : ∀ t, engine.Occurs t → s.vocabulary.parse t.spelling = .ok t := fun t ht ↦
      TagVocabulary.parse_spelling_of_reads (reads_of_occurs hbuild ht)
    obtain ⟨docs, -, hnil, -⟩ := buildEngine_eq_ok_iff.1 hbuild
    refine ⟨fun name hname ↦ ?_, fun name hname t ht ↦ ?_, fun t u ht hu heq ↦ ?_, hspelling⟩
    · rcases TagVocabulary.reads_iff.1 (reads_of_occurs hbuild hname) with
        hbuiltin | ⟨_, ⟨⟩, hgroup, -⟩
      · exact absurd rfl (hbuiltin name)
      · exact mem_groups_iff.1 hgroup
    · have hnone := builtin?_of_mem_groups hnil hname
      constructor
      · rintro rfl
        rw [Tag.builtin?_eq_some_iff.2 ⟨ht, .inl rfl⟩] at hnone
        cases hnone
      · rintro rfl
        rw [Tag.builtin?_eq_some_iff.2 ⟨ht, .inr rfl⟩] at hnone
        cases hnone
    · have hparse := hspelling t ht
      rw [heq, hspelling u hu] at hparse
      exact (Except.ok.inj hparse).symm
  · exact TagVocabulary.parse_of_isSpellingOf ⟨ht, .inl rfl⟩
  · exact TagVocabulary.parse_of_isSpellingOf ⟨ht, .inr rfl⟩

/-- A configuration of one tool with a built-in tag, spelled as given, and a declared group. -/
def notebook (word : String) : Settings :=
  { blank with metadata := ⟨["notes"], .ofList [("read", [word, "notes"])]⟩ }

/-- The group is a tag of the tool, and the engine is the same in both spellings of the other. -/
theorem notebook_in_both_spellings :
    (∃ engine, (notebook "read-only").buildEngine (.ofSnapshot [] []) ["read"] = .ok engine ∧
      engine.Occurs (.group "notes") ∧ "notes" ∈ (notebook "read-only").metadata.groups) ∧
    (notebook "read_only").buildEngine (.ofSnapshot [] []) ["read"] =
      (notebook "read-only").buildEngine (.ofSnapshot [] []) ["read"] := by
  have hdocs : ∀ word, (notebook word).documents (.ofSnapshot [] []) = .ok [] := fun _ ↦ rfl
  obtain ⟨htold, -, hrespelled⟩ :=
    tags_are_told_by_their_spelling (notebook "read-only") (.ofSnapshot [] []) ["read"]
  constructor
  · have hbuild : (notebook "read-only").buildEngine (.ofSnapshot [] []) ["read"] = .ok _ :=
      buildEngine_eq_ok_iff.2 ⟨[], hdocs "read-only", by decide, by decide, rfl⟩
    have htag : .group "notes" ∈
        (notebook "read-only").registrations.registry.tagsFor (.inHouse "read") := by decide
    exact ⟨_, hbuild, .tool htag, (htold _ hbuild).1 "notes" (.tool htag)⟩
  · have hwords : Tag.Respelled "read-only" "read_only" :=
      .inr ⟨.readOnly, Tag.builtin?_eq_some_iff.1 rfl, Tag.builtin?_eq_some_iff.1 rfl⟩
    refine hrespelled (notebook "read_only") _ [] [] ⟨rfl, rfl, ?_, .nil⟩ (hdocs _) (hdocs _) .nil
    exact .cons ⟨rfl, .cons hwords (.cons (.inl rfl) .nil)⟩ .nil

end Settings

end ToolAccess
