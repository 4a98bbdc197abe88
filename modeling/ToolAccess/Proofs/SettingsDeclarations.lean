import ToolAccess.CommandLine.Run
import ToolAccess.Guard.Startup
import ToolAccess.Proofs.Attempts
import ToolAccess.Proofs.LayerValidation
import ToolAccess.Proofs.ToolDeclarations

/-!
# What a configuration declares about tools

A configuration declares in-house tools in one table, and the tools of origins in one table for each
origin. A table has no key twice, but two tables may be about one origin. Then the second one is
refused and its tools are passed over, so whatever is registered has an identity of its own, also
when there are problems. This leaves one thing that can be wrong with the registry of a
configuration without problems: a tool is in use and not declared.

## What the proof rests on

* **Origins.** Of the origins whose name is not refused, no two have the same name
  (`OriginSettings.pairwise_judged`), so no tool is declared twice
  (`Settings.nodup_declarations`).
* **Two tables.** `Settings.Declares` has every declaration that a configuration makes, those that
  are passed over included. If two of them are of one tool, the name of the later origin is a fault
  (`Settings.Declares.exists_refused`).
* **Four ways to end.** A document cannot be had, or there are problems, or a tool in use is not
  declared, or the engine is built (`Settings.ends_buildEngine`).

The main result is `Settings.only_missing_tools_are_refused`.
-/

namespace ToolAccess

/-! ### Origins that are not refused -/

namespace OriginSettings

variable {earlier : List String} {origins : List OriginSettings} {o : OriginSettings}

/-- An origin that is not refused has another name than the earlier ones. -/
theorem not_mem_of_mem_judged (h : (o, none) ∈ judged earlier origins) : o.id ∉ earlier := by
  induction origins generalizing earlier with
  | nil => cases h
  | cons first rest ih =>
    rw [judged] at h
    rcases List.mem_cons.1 h with heq | hrest
    · obtain ⟨rfl, hname⟩ := Prod.mk.inj heq
      exact fun hearlier ↦ nameProblem?_eq_none_iff.1 hname.symm (.inr hearlier)
    · exact fun hearlier ↦ ih hrest (List.mem_cons_of_mem _ hearlier)

/-- Where origins are judged, each that is not refused has another name than all before it. -/
theorem pairwise_judged (earlier : List String) (origins : List OriginSettings) :
    (judged earlier origins).Pairwise fun a b ↦ b.2 = none → b.1.id ≠ a.1.id := by
  induction origins generalizing earlier with
  | nil => exact .nil
  | cons first rest ih =>
    rw [judged, List.pairwise_cons]
    refine ⟨?_, ih _⟩
    rintro ⟨o, _⟩ hmem rfl hsame
    exact not_mem_of_mem_judged hmem (List.mem_cons.2 (.inl hsame))

theorem mem_map_declarations {v : TagVocabulary} {tool : ToolIdentity}
    (h : tool ∈ (o.declarations v).map (·.1)) : tool.origin = some o.id := by
  rw [declarations, List.map_map] at h
  obtain ⟨_, -, rfl⟩ := List.mem_map.1 h
  rfl

theorem nodup_declarations (v : TagVocabulary) (o : OriginSettings) :
    ((o.declarations v).map (·.1)).Nodup := by
  have htools : (o.declarations v).map (·.1) = o.tools.keys.map (ToolIdentity.fromOrigin o.id) := by
    rw [declarations, SortedMap.keys, List.map_map, List.map_map]
    rfl
  rw [htools]
  refine o.tools.nodup_keys.map fun name name' hsame ↦ ?_
  exact congrArg ToolIdentity.name hsame

end OriginSettings

namespace Settings

variable {s : Settings} {files : FileView} {docs : List NamedDocument} {tool : ToolIdentity}
  {name : String} {words : List String} {inUse : List String}

/-! ### No tool twice -/

theorem map_toolDeclarations (s : Settings) :
    s.toolDeclarations.map (·.1) = s.declaredTools.map .inHouse := by
  rw [toolDeclarations, declaredTools, SortedMap.keys, List.map_map, List.map_map]
  rfl

theorem mem_originDeclarations_iff {tags : List Tag} : (tool, tags) ∈ s.originDeclarations ↔
    ∃ o, (o, none) ∈ s.judgedOrigins ∧ (tool, tags) ∈ o.declarations s.vocabulary := by
  rw [originDeclarations, List.mem_flatMap]
  constructor
  · rintro ⟨⟨o, _ | problem⟩, hmem, hdeclared⟩
    · exact ⟨o, hmem, hdeclared⟩
    · cases hdeclared
  · rintro ⟨o, hmem, hdeclared⟩
    exact ⟨(o, none), hmem, hdeclared⟩

theorem nodup_originDeclarations (s : Settings) : (s.originDeclarations.map (·.1)).Nodup := by
  rw [originDeclarations, List.map_flatMap, List.nodup_flatMap]
  constructor
  · rintro ⟨o, _ | problem⟩ -
    · exact o.nodup_declarations s.vocabulary
    · exact .nil
  · refine (OriginSettings.pairwise_judged [] s.origins).imp ?_
    rintro ⟨o, _ | _⟩ ⟨o', _ | _⟩ hname tool hmem hmem'
    · -- Both origins are kept, so a tool of both would have two origins.
      have horigin := OriginSettings.mem_map_declarations hmem
      rw [OriginSettings.mem_map_declarations hmem'] at horigin
      exact hname rfl (Option.some.inj horigin)
    · cases hmem'
    · cases hmem
    · cases hmem

/-- **No tool is declared twice** among the declarations that are registered. -/
theorem nodup_declarations (s : Settings) :
    ((s.toolDeclarations ++ s.originDeclarations).map (·.1)).Nodup := by
  rw [List.map_append, map_toolDeclarations, List.nodup_append]
  refine ⟨?_, s.nodup_originDeclarations, ?_⟩
  · exact s.metadata.tools.nodup_keys.map fun _ _ hsame ↦ congrArg ToolIdentity.name hsame
  · rintro _ hinHouse tool hmem rfl
    obtain ⟨name, -, rfl⟩ := List.mem_map.1 hinHouse
    obtain ⟨⟨_, tags⟩, hdeclared, rfl⟩ := List.mem_map.1 hmem
    obtain ⟨o, -, hown⟩ := mem_originDeclarations_iff.1 hdeclared
    cases OriginSettings.mem_map_declarations (List.mem_map_of_mem hown)

/-- The in-house tools among the declarations are those of the table. -/
theorem inHouse_mem_declarations_iff :
    .inHouse name ∈ (s.toolDeclarations ++ s.originDeclarations).map (·.1) ↔
      name ∈ s.declaredTools := by
  rw [List.map_append, List.mem_append, map_toolDeclarations]
  constructor
  · rintro (hinHouse | hmem)
    · obtain ⟨name', hname, hsame⟩ := List.mem_map.1 hinHouse
      obtain rfl : name' = name := congrArg ToolIdentity.name hsame
      exact hname
    · obtain ⟨⟨_, tags⟩, hdeclared, hsame⟩ := List.mem_map.1 hmem
      obtain ⟨o, -, hown⟩ := mem_originDeclarations_iff.1 hdeclared
      have horigin := OriginSettings.mem_map_declarations (List.mem_map_of_mem hown)
      rw [hsame] at horigin
      cases horigin
  · exact fun hname ↦ .inl (List.mem_map_of_mem hname)

/-! ### Everything that is declared -/

/-- A tool is declared with these words, in the table of the in-house tools or in that of the origin
with an index. -/
inductive Declares (s : Settings) : Option Nat → ToolIdentity → List String → Prop
  | tool {name : String} {words : List String} (htool : s.metadata.tools.find? name = some words) :
    Declares s none (.inHouse name) words
  | originTool {i : Nat} {o : OriginSettings} {name : String} {words : List String}
    (horigin : s.origins[i]? = some o) (htool : o.tools.find? name = some words) :
    Declares s (some i) (.fromOrigin o.id name) words

/-- What is wrong with an origin that has the name of an earlier one. -/
def refusedOrigin (id : String) : Problem := if id = "" then .emptyOrigin else .repeatedOrigin id

theorem refusedOrigin_mem_problems {i j : Nat} {o o' : OriginSettings} (hij : i < j)
    (ho : s.origins[i]? = some o) (ho' : s.origins[j]? = some o') (hsame : o'.id = o.id)
    (docs : List NamedDocument) : refusedOrigin o'.id ∈ s.problems docs := by
  have hearlier : o'.id ∈ s.originsBefore j := by
    rw [hsame]
    exact List.mem_map_of_mem (List.mem_of_getElem? ((List.getElem?_take_of_lt hij).trans ho))
  have hfault : o'.Fault s.vocabulary (s.originsBefore j) .id (refusedOrigin o'.id) := by
    rw [refusedOrigin]
    split
    · next hempty => exact .empty hempty
    · next hnonempty => exact .repeated hnonempty hearlier
  have hvisible : ¬ s.Hidden (.origin j .id) := by
    rintro ⟨-, ⟨⟩⟩
  exact (s.reports_problems docs).mem ⟨.origin ho' hfault, hvisible⟩

/-- A declaration is for an in-house tool or for one of the origin in whose table it is. -/
theorem Declares.origin_eq {place : Option Nat} (h : s.Declares place tool words) :
    place = none ∧ tool.origin = none ∨
      ∃ i o, place = some i ∧ s.origins[i]? = some o ∧ tool.origin = some o.id := by
  cases h with
  | tool => exact .inl ⟨rfl, rfl⟩
  | @originTool i o _ _ ho => exact .inr ⟨i, o, rfl, ho, rfl⟩

/-- **Two declarations of one tool** are in the tables of two origins of one name, and the name of
the later one is refused. -/
theorem Declares.exists_refused {place place' : Option Nat} {words' : List String}
    (h : s.Declares place tool words) (h' : s.Declares place' tool words') (hne : place ≠ place') :
    ∃ id, tool.origin = some id ∧ ∀ docs, refusedOrigin id ∈ s.problems docs := by
  rcases h.origin_eq with ⟨rfl, hinHouse⟩ | ⟨i, o, rfl, ho, horigin⟩ <;>
    rcases h'.origin_eq with ⟨rfl, hinHouse'⟩ | ⟨j, o', rfl, ho', horigin'⟩
  · exact absurd rfl hne
  · cases hinHouse.symm.trans horigin'
  · cases hinHouse'.symm.trans horigin
  · have hsame : o.id = o'.id := Option.some.inj (horigin.symm.trans horigin')
    have hij : i ≠ j := fun heq ↦ hne (congrArg some heq)
    rcases Nat.lt_or_gt_of_ne hij with hlt | hlt
    · exact ⟨o'.id, horigin', refusedOrigin_mem_problems hlt ho ho' hsame.symm⟩
    · exact ⟨o.id, horigin, refusedOrigin_mem_problems hlt ho' ho hsame⟩

/-- Where there are no problems, the words of a declaration are tags, and it is registered. -/
theorem Declares.registered {place : Option Nat} (h : s.Declares place tool words)
    (hnil : s.problems docs = []) : ∃ tags, words.map s.vocabulary.parse = tags.map .ok ∧
      (tool, tags) ∈ s.toolDeclarations ++ s.originDeclarations := by
  have hread {location : Location} (hwords : s.vocabulary.problemsOf location words = []) :
      words.map s.vocabulary.parse = (s.vocabulary.tagsOf words).map .ok := by
    rw [s.vocabulary.problemsOf_eq] at hwords
    exact (map_eq_map_ok_iff fun _ ↦ .unknownWord location).2 ⟨hwords, rfl⟩
  simp only [problems, metadataProblems, List.append_eq_nil_iff] at hnil
  obtain ⟨⟨-, ⟨-, htools⟩, horigins⟩, -⟩ := hnil
  cases h with
  | tool htool =>
    have hmem := SortedMap.mem_entries_iff.2 htool
    exact ⟨_, hread (List.flatMap_eq_nil_iff.1 htools _ hmem),
      List.mem_append_left _ (List.mem_map.2 ⟨_, hmem, rfl⟩)⟩
  | @originTool i o name _ ho htool =>
    have hjudged : s.judgedOrigins[i]? = some (o, o.nameProblem? (s.originsBefore i)) := by
      rw [judgedOrigins_getElem?, ho, Option.map_some]
    have hnone := List.flatMap_eq_nil_iff.1 horigins _ (List.mem_of_getElem? hjudged)
    rcases hname : o.nameProblem? (s.originsBefore i) with - | problem
    · rw [hname] at hnone hjudged
      have hmem := SortedMap.mem_entries_iff.2 htool
      exact ⟨_, hread (List.flatMap_eq_nil_iff.1 hnone _ hmem), List.mem_append_right _
        (mem_originDeclarations_iff.2 ⟨o, List.mem_of_getElem? hjudged,
          List.mem_map.2 ⟨_, hmem, rfl⟩⟩)⟩
    · rw [hname] at hnone
      cases hnone

/-! ### How building the engine ends -/

/-- The error is about a document that cannot be had. -/
inductive IsUnread : SettingsError → Prop
  | unreadable (path : Path) (error : FileError) : IsUnread (.unreadable path error)
  | unparsable (path : Path) (error : DocumentError) : IsUnread (.unparsable path error)

theorem isUnread_of_document {α : Type} {parse : String → Except DocumentError α} {path : Path}
    {e : SettingsError} (h : files.document parse path = .error e) : IsUnread e := by
  rcases bind_eq_error h with hread | ⟨text, -, hparse⟩
  · obtain ⟨error, -, rfl⟩ := mapError_eq_error hread
    exact .unreadable path error
  · obtain ⟨error, -, rfl⟩ := mapError_eq_error hparse
    exact .unparsable path error

theorem isUnread_of_attempt {layer : LayerName} {path : Path} {e : SettingsError}
    (h : s.attempt files layer path = .error e) : IsUnread e := by
  rw [attempt] at h
  rcases hdocument : files.document LayerDocument.parse (s.resolve path) with e' | d
  · rw [hdocument] at h
    cases h
    exact isUnread_of_document hdocument
  · rw [hdocument] at h
    cases h

theorem isUnread_of_documents {e : SettingsError} (h : s.documents files = .error e) :
    IsUnread e := by
  have hmem := mem_of_mapM_eq_error h
  simp only [attempts, List.mem_append, List.mem_map, List.mem_flatMap] at hmem
  rcases hmem with (⟨path, -, hread⟩ | ⟨path, -, hread⟩) | ⟨directory, -, hread⟩
  · exact isUnread_of_attempt hread
  · exact isUnread_of_attempt hread
  · rw [profileAttempts, FileView.profiles] at hread
    rcases hlist : files.list directory with error | fileNames
    · rw [hlist] at hread
      cases List.mem_singleton.1 hread
      exact .unreadable directory error
    · rw [hlist] at hread
      obtain ⟨entry, -, hread⟩ := List.mem_map.1 hread
      exact isUnread_of_attempt hread

theorem buildEngine_of_unread {e : SettingsError} (h : s.documents files = .error e) :
    s.buildEngine files inUse = .error e := by
  rw [buildEngine, engineParts, h]
  rfl

/-- Without problems, the engine is built if the tools in use are declared. -/
theorem buildEngine_of_sound (hdocs : s.documents files = .ok docs) (hnil : s.problems docs = [])
    (inUse : List String) : s.buildEngine files inUse =
      if ∀ name ∈ inUse, name ∈ s.declaredTools then
        .ok (.ofLayers s.registrations.registry s.policy.overrideOffset
          (NamedDocument.layerTable s.vocabulary docs))
      else
        .error (.registry (.missing
          (s.registrations.registry.missingNames (inUse.map .inHouse)))) := by
  have hbuild := Registrations.build_of_nodup inUse s.nodup_declarations
  simp only [inHouse_mem_declarations_iff] at hbuild
  rw [buildEngine, engineParts, hdocs]
  show (do
    let parts ← (do
      unlessProblems (s.problems docs) ()
      let registry ← (s.registrations.build inUse).mapError .registry
      return (registry, NamedDocument.layerTable s.vocabulary docs))
    return Engine.ofLayers parts.1 s.policy.overrideOffset parts.2) = _
  rw [hnil, registrations, hbuild]
  split <;> rfl

/-- How building the engine ends. -/
inductive Ends (s : Settings) (files : FileView) (inUse : List String) :
    Except SettingsError Engine → Prop
  | unread {e : SettingsError} (hdocs : s.documents files = .error e) (hunread : IsUnread e) :
    Ends s files inUse (.error e)
  | invalid {docs : List NamedDocument} (hdocs : s.documents files = .ok docs)
    (hsome : s.problems docs ≠ []) : Ends s files inUse (.error (.invalid (s.problems docs)))
  | missing {docs : List NamedDocument} (hdocs : s.documents files = .ok docs)
    (hnil : s.problems docs = []) (hmissing : ∃ name ∈ inUse, name ∉ s.declaredTools) :
    Ends s files inUse (.error (.registry (.missing
      (s.registrations.registry.missingNames (inUse.map .inHouse)))))
  | built {docs : List NamedDocument} (hdocs : s.documents files = .ok docs)
    (hnil : s.problems docs = []) (hall : ∀ name ∈ inUse, name ∈ s.declaredTools) :
    Ends s files inUse (.ok (.ofLayers s.registrations.registry s.policy.overrideOffset
      (NamedDocument.layerTable s.vocabulary docs)))

/-- **Building the engine** ends in one of four ways. -/
theorem ends_buildEngine (s : Settings) (files : FileView) (inUse : List String) :
    s.Ends files inUse (s.buildEngine files inUse) := by
  rcases hdocs : s.documents files with e | docs
  · rw [buildEngine_of_unread hdocs]
    exact .unread hdocs (isUnread_of_documents hdocs)
  by_cases hnil : s.problems docs = []
  · rw [buildEngine_of_sound hdocs hnil]
    split
    · next hall => exact .built hdocs hnil hall
    · next hnot => exact .missing hdocs hnil (by simpa using hnot)
  · rw [(buildEngine_eq_invalid_iff hdocs inUse _).2 ⟨hnil, rfl⟩]
    exact .invalid hdocs hnil

/-- Errors of the registry are about tools in use that are not declared, once everything else is in
order. -/
theorem buildEngine_eq_registry_iff {e : RegistryError} :
    s.buildEngine files inUse = .error (.registry e) ↔
      (∃ docs, s.documents files = .ok docs ∧ s.problems docs = []) ∧
      (∃ name ∈ inUse, name ∉ s.declaredTools) ∧
      .missing (s.registrations.registry.missingNames (inUse.map .inHouse)) = e := by
  constructor
  · intro h
    have hends := s.ends_buildEngine files inUse
    rw [h] at hends
    cases hends with
    | unread _ hunread => cases hunread
    | missing hdocs hnil hmissing => exact ⟨⟨_, hdocs, hnil⟩, hmissing, rfl⟩
  · rintro ⟨⟨docs, hdocs, hnil⟩, ⟨name, hmem, hnot⟩, rfl⟩
    rw [buildEngine_of_sound hdocs hnil, if_neg fun hall ↦ hnot (hall name hmem)]

/-- An engine is built of the declarations, once everything is in order. -/
theorem buildEngine_eq_ok_iff {engine : Engine} : s.buildEngine files inUse = .ok engine ↔
    ∃ docs, s.documents files = .ok docs ∧ s.problems docs = [] ∧
      (∀ name ∈ inUse, name ∈ s.declaredTools) ∧
      .ofLayers s.registrations.registry s.policy.overrideOffset
        (NamedDocument.layerTable s.vocabulary docs) = engine := by
  constructor
  · intro h
    have hends := s.ends_buildEngine files inUse
    rw [h] at hends
    cases hends with
    | built hdocs hnil hall => exact ⟨_, hdocs, hnil, hall, rfl⟩
  · rintro ⟨docs, hdocs, hnil, hall, rfl⟩
    rw [buildEngine_of_sound hdocs hnil, if_pos hall]

/-- With the tools that the configuration declares in use, no tool is missing. -/
theorem buildEngine_declaredTools_ne_registry (e : RegistryError) :
    s.buildEngine files s.declaredTools ≠ .error (.registry e) := by
  rw [Ne, buildEngine_eq_registry_iff]
  rintro ⟨-, ⟨name, hmem, hnot⟩, -⟩
  exact hnot hmem

/-- The engine of a guard is the one for the tools that the configuration declares. -/
theorem buildEngine_of_startGuard {e : SettingsError} {definitions : List ToolDefinition}
    {openLog : Path → Except FileError Unit}
    (h : s.startGuard files definitions openLog = .error (.policy e)) :
    s.buildEngine files s.declaredTools = .error e := by
  rcases bind_eq_error h with hbuild | ⟨engine, -, hrest⟩
  · obtain ⟨e', hbuild, ⟨⟩⟩ := mapError_eq_error hbuild
    exact hbuild
  -- Once there is an engine, the errors are those of the check and of the log.
  · rcases bind_eq_error hrest with hlive | ⟨_, -, hlog⟩
    · obtain ⟨_, -, ⟨⟩⟩ := mapError_eq_error hlive
    · dsimp only at hlog
      split at hlog
      · rcases bind_eq_error hlog with hopen | ⟨_, -, ⟨⟩⟩
        obtain ⟨_, -, ⟨⟩⟩ := mapError_eq_error hopen
      · cases hlog

/-- A command that names no tools has the declared ones in use. -/
theorem inUse_eq_declaredTools {c : Command} (h : ∀ name names, c ≠ .validate (name :: names)) :
    c.inUse s = s.declaredTools := by
  cases c with
  | evaluate | rules => rfl
  | validate names =>
    cases names with
    | nil => rfl
    | cons name names => exact absurd rfl (h name names)

/-- The error of a command is that of the engine. -/
theorem buildEngine_of_run {c : Command} {error : CommandError}
    (h : (c.run files s).result = .error error) : ∃ e, s.buildEngine files (c.inUse s) = .error e ∧
      error = .ofSettings "invalid policy configuration" e := by
  rw [Command.run] at h
  rcases hbuild : s.buildEngine files (c.inUse s) with e | engine
  · rw [hbuild] at h
    cases h
    exact ⟨e, rfl, rfl⟩
  · rw [hbuild] at h
    cases h

/-! ### Only missing tools are refused -/

/-- **Only missing tools are refused.** Take any configuration and any files.

* No engine is refused for tools that are declared twice. If two tables declare one tool, they are
  those of two origins of one name; the name of the later one is among the problems, whatever the
  documents say, and once these are read the engine is refused with the problems.
* For any tools in use, the registry is refused exactly if all documents are read, there are no
  problems, and some tool in use is not declared. The error then has the names of these tools,
  ascending, each once.
* With the declared tools in use the registry is never refused, and the engine is built if and only
  if all documents are read and there are no problems. So neither the start of a guard nor a command
  that names no tools ends with an error of the registry.
* In an engine that is built, each declared tool has the tags that its words stand for. -/
theorem only_missing_tools_are_refused (s : Settings) (files : FileView) :
    (∀ inUse shown, s.buildEngine files inUse ≠ .error (.registry (.repeated shown))) ∧
    (∀ place place' tool words words', s.Declares place tool words →
      s.Declares place' tool words' → place ≠ place' →
      ∃ id, tool.origin = some id ∧ ∀ docs, refusedOrigin id ∈ s.problems docs ∧
        (s.documents files = .ok docs → ∀ inUse,
          s.buildEngine files inUse = .error (.invalid (s.problems docs)))) ∧
    (∀ inUse,
      ((∃ e, s.buildEngine files inUse = .error (.registry e)) ↔
        (∃ docs, s.documents files = .ok docs ∧ s.problems docs = []) ∧
          ∃ name ∈ inUse, name ∉ s.declaredTools) ∧
      ∀ e, s.buildEngine files inUse = .error (.registry e) →
        ∃ names, e = .missing names ∧ names.Pairwise (· < ·) ∧
          ∀ name, name ∈ names ↔ name ∈ inUse ∧ name ∉ s.declaredTools) ∧
    ((∀ e, s.buildEngine files s.declaredTools ≠ .error (.registry e)) ∧
      ((∃ engine, s.buildEngine files s.declaredTools = .ok engine) ↔
        ∃ docs, s.documents files = .ok docs ∧ s.problems docs = []) ∧
      (∀ definitions openLog e,
        s.startGuard files definitions openLog ≠ .error (.policy (.registry e))) ∧
      ∀ c : Command, (∀ name names, c ≠ .validate (name :: names)) →
        ∀ error, (c.run files s).result = .error error →
          ∃ e, error = .ofSettings "invalid policy configuration" e ∧ ∀ r, e ≠ .registry r) ∧
    ∀ inUse engine, s.buildEngine files inUse = .ok engine →
      ∀ place tool words, s.Declares place tool words →
        ∃ tags, words.map s.vocabulary.parse = tags.map .ok ∧ engine.tagsFor tool = .of tags := by
  refine ⟨fun inUse shown h ↦ ?_, fun place place' tool words words' h h' hne ↦ ?_,
    fun inUse ↦ ⟨?_, fun e h ↦ ?_⟩, ⟨fun _ ↦ buildEngine_declaredTools_ne_registry _, ?_, ?_, ?_⟩,
    fun inUse engine hbuild place tool words h ↦ ?_⟩
  · cases (buildEngine_eq_registry_iff.1 h).2.2
  · obtain ⟨id, horigin, hrefused⟩ := h.exists_refused h' hne
    exact ⟨id, horigin, fun docs ↦ ⟨hrefused docs, fun hdocs inUse ↦
      (buildEngine_eq_invalid_iff hdocs inUse _).2 ⟨List.ne_nil_of_mem (hrefused docs), rfl⟩⟩⟩
  · simp only [buildEngine_eq_registry_iff, exists_and_left, exists_eq', and_true]
  · obtain ⟨-, -, rfl⟩ := buildEngine_eq_registry_iff.1 h
    refine ⟨_, rfl, SortedSet.pairwise_lt_toList _, fun name ↦ ?_⟩
    rw [registrations, Registrations.mem_missingNames_iff, inHouse_mem_declarations_iff]
  · simp only [buildEngine_eq_ok_iff]
    constructor
    · rintro ⟨_, docs, hdocs, hnil, -⟩
      exact ⟨docs, hdocs, hnil⟩
    · rintro ⟨docs, hdocs, hnil⟩
      exact ⟨_, docs, hdocs, hnil, fun _ hmem ↦ hmem, rfl⟩
  · intro definitions openLog e h
    exact buildEngine_declaredTools_ne_registry e (buildEngine_of_startGuard h)
  · intro c hnames error h
    obtain ⟨e, hbuild, herror⟩ := buildEngine_of_run h
    rw [inUse_eq_declaredTools hnames] at hbuild
    refine ⟨e, herror, ?_⟩
    rintro r rfl
    exact buildEngine_declaredTools_ne_registry r hbuild
  · obtain ⟨docs, -, hnil, -, rfl⟩ := buildEngine_eq_ok_iff.1 hbuild
    obtain ⟨tags, htags, hmem⟩ := h.registered hnil
    exact ⟨tags, htags, (Registrations.Gives.own hmem).tagsFor_eq s.nodup_declarations⟩

/-- Two origins of one name with one tool. -/
def twins : Settings :=
  { blank with
    origins := [⟨"mail", .ofList [("send", [])]⟩, ⟨"mail", .ofList [("send", ["bogus"])]⟩] }

example : twins.problems [] = [refusedOrigin "mail"] := by decide

end Settings

end ToolAccess
