import ToolAccess.Proofs.AuditSilence
import ToolAccess.Proofs.Listing
import ToolAccess.Proofs.ToolDeclarations

/-!
# Tools that were checked

The tools of an executor are checked against the registry once, before the guard is used: each
in-house tool must have an entry. From then on the registry is asked for tags whenever tools are
listed or called, and for an in-house tool without an entry it would fall back on tags that nobody
declared, with a warning. After the check it never does.

## What the proof rests on

* **The check** fails exactly if some tool on the list is lacked (`Registry.lacks`), and names these
  tools (`Registry.checkLive_eq_error_iff`, `Registry.mem_missingNames_iff`).
* **What is looked up.** `Session.LooksUp` has the tools whose tags an operation asks for. That it
  has all of them is told by a congruence: with another registry that says the same of these tools
  the operation does the same, and so does a run (`Session.step_withRegistry`,
  `Session.run_withRegistry`).
* **Names.** A name stands for a tool of the executor, so what is looked up was on the list that was
  checked (`Session.LooksUp.exists_mem`).
* **Warnings.** Whoever writes an event about missing tags, it is the look-up of a tool that is
  lacked or the confirmer (`Session.tagsMissing_mem_step`).

The main result is `Session.checked_tools_have_tags`.
-/

namespace ToolAccess

variable {σ : Type}

/-! ### The check -/

namespace Registry

variable {r other : Registry} {tool : ToolIdentity} {tools : List ToolIdentity} {name : String}

theorem lacks_iff : r.lacks tool = true ↔
    tool.origin = none ∧ r.entries.find? (.inHouse tool.name) = none := by
  simp [lacks, hasInHouse, SortedMap.contains, ToolIdentity.isInHouse]

theorem mem_missingNames_iff :
    name ∈ r.missingNames tools ↔ ∃ tool ∈ tools, r.lacks tool = true ∧ tool.name = name := by
  rw [missingNames, ← SortedSet.mem_def, SortedSet.mem_ofList]
  simp [and_assoc]

theorem missingNames_eq_nil_iff :
    r.missingNames tools = [] ↔ ∀ tool ∈ tools, r.lacks tool = false := by
  simp only [List.eq_nil_iff_forall_not_mem, mem_missingNames_iff, ← Bool.not_eq_true]
  exact ⟨fun h tool htool hlacks ↦ h _ ⟨tool, htool, hlacks, rfl⟩,
    fun h _ ⟨tool, htool, hlacks, _⟩ ↦ h tool htool hlacks⟩

theorem checkLive_eq (r : Registry) (tools : List ToolIdentity) : r.checkLive tools =
    if r.missingNames tools = [] then .ok () else .error (.missing (r.missingNames tools)) := by
  rw [checkLive]
  split
  · next hnil => rw [if_pos hnil]
  · next hsome => rw [if_neg hsome]

theorem checkLive_eq_ok_iff :
    r.checkLive tools = .ok () ↔ ∀ tool ∈ tools, r.lacks tool = false := by
  rw [← missingNames_eq_nil_iff, checkLive_eq]
  by_cases hnil : r.missingNames tools = []
  · rw [if_pos hnil]
    exact iff_of_true rfl hnil
  · rw [if_neg hnil]
    exact iff_of_false (fun h ↦ nomatch h) hnil

theorem checkLive_eq_error_iff {e : RegistryError} : r.checkLive tools = .error e ↔
    (∃ tool ∈ tools, r.lacks tool = true) ∧ .missing (r.missingNames tools) = e := by
  have hlacked : (∃ tool ∈ tools, r.lacks tool = true) ↔ r.missingNames tools ≠ [] := by
    rw [Ne, missingNames_eq_nil_iff]
    simp
  rw [hlacked, checkLive_eq]
  by_cases hnil : r.missingNames tools = []
  · rw [if_pos hnil]
    exact iff_of_false (fun h ↦ nomatch h) fun h ↦ h.1 hnil
  · rw [if_neg hnil, Except.error.injEq]
    exact (and_iff_right hnil).symm

/-! ### Two registries -/

/-- The two registries say the same of a tool: its tags, and whether it is lacked. -/
structure Agree (r other : Registry) (tool : ToolIdentity) : Prop where
  tagsFor_eq : other.tagsFor tool = r.tagsFor tool
  lacks_eq : other.lacks tool = r.lacks tool

/-- The registries may differ in what they say of in-house tools that the first one lacks. -/
def AgreeOnDeclared (r other : Registry) : Prop :=
  ∀ tool, r.lacks tool = false → other.declared? tool = r.declared? tool

/-- A tool is lacked if it is in-house and nothing is declared for it. -/
theorem lacks_iff_declared? :
    r.lacks tool = true ↔ tool.origin = none ∧ r.declared? tool = none := by
  obtain ⟨name, origin⟩ := tool
  rw [lacks_iff]
  cases origin with
  | none => exact Iff.rfl
  | some origin => simp

theorem AgreeOnDeclared.agree (h : r.AgreeOnDeclared other) (htool : r.lacks tool = false) :
    r.Agree other tool where
  tagsFor_eq := by rw [tagsFor, tagsFor, h tool htool]
  lacks_eq := by rw [Bool.eq_iff_iff, lacks_iff_declared?, lacks_iff_declared?, h tool htool]

end Registry

/-! ### A guard with another registry -/

namespace Guard

variable {g : Guard} {other : Registry} {turn : Turn} {tool : ToolIdentity}

/-- The guard with another registry. -/
def withRegistry (g : Guard) (r : Registry) : Guard :=
  { g with engine := { g.engine with registry := r } }

theorem evaluate_withRegistry (h : g.engine.registry.Agree other tool) :
    (g.withRegistry other).evaluate turn tool = g.evaluate turn tool := by
  show (g.engine.ruleSet turn.profile).explain tool (other.tagsFor tool) turn.taint = _
  rw [h.tagsFor_eq]
  rfl

theorem evaluateEvents_withRegistry (h : g.engine.registry.Agree other tool) :
    (g.withRegistry other).evaluateEvents turn tool = g.evaluateEvents turn tool := by
  have htags : (g.withRegistry other).engine.tagsEvents tool = g.engine.tagsEvents tool := by
    show (if other.lacks tool then [Event.tagsMissing tool.name] else []) = _
    rw [h.lacks_eq]
    rfl
  have hevaluated : (g.withRegistry other).engine.evaluateWithTagsEvents tool (other.tagsFor tool)
      turn.profile turn.taint =
        g.engine.evaluateWithTagsEvents tool (g.engine.tagsFor tool) turn.profile turn.taint := by
    rw [h.tagsFor_eq]
    rfl
  exact congrArg₂ (· ++ ·) htags hevaluated

variable {definitions : List ToolDefinition}

theorem list_withRegistry (h : ∀ d ∈ definitions, g.engine.registry.Agree other d.identity) :
    (g.withRegistry other).list turn definitions = g.list turn definitions := by
  refine List.filter_congr fun d hd ↦ ?_
  rw [shows, shows, evaluate_withRegistry (h d hd)]

theorem listEvents_withRegistry (h : ∀ d ∈ definitions, g.engine.registry.Agree other d.identity) :
    (g.withRegistry other).listEvents turn definitions = g.listEvents turn definitions :=
  List.flatMap_congr fun d hd ↦ evaluateEvents_withRegistry (h d hd)

variable {host : Surroundings σ} {cancelled : Bool} {called : String} {arguments : Json}
  {t : Trace σ}

theorem execute_withRegistry (h : ∀ tool, host.identityOf t.surroundings called = some tool →
      g.engine.registry.Agree other tool) :
    (g.withRegistry other).execute host turn cancelled called arguments t =
      g.execute host turn cancelled called arguments t := by
  rcases hidentity : host.identityOf t.surroundings called with - | tool
  · rw [execute_of_unknown hidentity, execute_of_unknown hidentity]
  · have hsame := h tool hidentity
    have htags : (g.withRegistry other).engine.tagsFor tool = g.engine.tagsFor tool :=
      hsame.tagsFor_eq
    simp only [execute, hidentity, htags, evaluate_withRegistry hsame,
      evaluateEvents_withRegistry hsame]

end Guard

/-! ### What is looked up -/

namespace Session

variable {g : Guard} {host : Surroundings σ} {s : Session σ} {op : Operation}
  {ops : List Operation} {tool : ToolIdentity} {other : Registry}

/-- The operation asks for the tags of the tool: a listing for those of every tool that the executor
has, and a call for those of the tool that the name stands for. -/
inductive LooksUp (host : Surroundings σ) (s : Session σ) : Operation → ToolIdentity → Prop
  | listed {name : String} {turn : Turn} {d : ToolDefinition}
    (hturn : s.forest.turn? name = some turn) (hd : d ∈ host.definitions s.surroundings) :
    LooksUp host s (.list name) d.identity
  | called {name called : String} {arguments : Json} {turn : Turn} {tool : ToolIdentity}
    (hturn : s.forest.turn? name = some turn)
    (hidentity : host.identityOf s.surroundings called = some tool) :
    LooksUp host s (.execute name called arguments) tool

/-- **One operation** depends on the registry only in what it looks up. -/
theorem step_withRegistry
    (h : ∀ tool, s.LooksUp host op tool → g.engine.registry.Agree other tool) :
    s.step (g.withRegistry other) host op = s.step g host op := by
  cases op with
  | create | delegate | cancel | escalate | observe | drop => rfl
  | list name =>
    rcases hturn : s.forest.turn? name with - | turn
    · exact (onTurn_of_none hturn).trans (onTurn_of_none hturn).symm
    · have hsame : ∀ d ∈ host.definitions s.surroundings,
          g.engine.registry.Agree other d.identity := fun d hd ↦ h _ (.listed hturn hd)
      rw [step_list hturn, step_list hturn, Guard.list_withRegistry hsame,
        Guard.listEvents_withRegistry hsame]
  | execute name called arguments =>
    rcases hturn : s.forest.turn? name with - | turn
    · exact (onTurn_of_none hturn).trans (onTurn_of_none hturn).symm
    · have hreport : s.report (g.withRegistry other) host turn called arguments =
          s.report g host turn called arguments :=
        Guard.execute_withRegistry fun tool hidentity ↦ h tool (.called hturn hidentity)
      rw [step_execute hturn, step_execute hturn, hreport]

theorem before_cons (g : Guard) (host : Surroundings σ) (s : Session σ) (first : Operation)
    (rest : List Operation) (i : Nat) :
    s.before g host (first :: rest) (i + 1) = (s.step g host first).1.before g host rest i := by
  rw [before, List.take_succ_cons, run_cons]
  rfl

/-- **A run** depends on the registry only in what its operations look up. -/
theorem run_withRegistry (h : ∀ i op tool, ops[i]? = some op →
      (s.before g host ops i).LooksUp host op tool → g.engine.registry.Agree other tool) :
    s.run (g.withRegistry other) host ops = s.run g host ops := by
  induction ops generalizing s with
  | nil => rfl
  | cons first rest ih =>
    have hfirst : s.step (g.withRegistry other) host first = s.step g host first :=
      step_withRegistry fun tool hlooks ↦ h 0 first tool rfl hlooks
    have hrest : (s.step g host first).1.run (g.withRegistry other) host rest =
        (s.step g host first).1.run g host rest := by
      refine ih fun i op tool hop hlooks ↦ h (i + 1) op tool hop ?_
      rwa [before_cons]
    rw [run_cons, run_cons, hfirst, hrest]

/-- Where names are looked up among the tools of the executor, these are all that is looked up. -/
theorem LooksUp.exists_mem (hidentityOf : ∀ surroundings name, host.identityOf surroundings name =
      identityAmong? (host.definitions surroundings) name) (h : s.LooksUp host op tool) :
    ∃ d ∈ host.definitions s.surroundings, d.identity = tool := by
  cases h with
  | @listed _ _ d _ hd => exact ⟨d, hd, rfl⟩
  | called _ hidentity =>
    rw [hidentityOf] at hidentity
    obtain ⟨d, hfind, htool⟩ := Option.map_eq_some_iff.1 hidentity
    exact ⟨d, List.mem_of_find?_eq_some hfind, htool⟩

end Session

/-! ### Warnings about missing tags -/

/-- The confirmer writes a warning about the tags of a tool by itself. -/
def Surroundings.WarnsOfTags (host : Surroundings σ) (name : String) : Prop :=
  ∃ surroundings question, .tagsMissing name ∈ (host.ask surroundings question).1.events

theorem Trace.mem_events_record {t : Trace σ} {entry : AuditEntry} {failed : String → Event}
    {e : Event} (h : ∀ failure, failed failure ≠ e) :
    e ∈ (t.record entry failed).events ↔ e ∈ t.events := by
  rw [record]
  split
  · rfl
  · simp [h]

theorem RequestEnd.tagsMissing_not_mem_events (finish : RequestEnd) (tool name : String) :
    .tagsMissing name ∉ finish.events tool := by
  rw [events]
  split
  · simp
  · cases finish.outcome <;> simp [ConfirmOutcome.events]

namespace Guard

variable {g : Guard} {host : Surroundings σ} {turn : Turn} {tool : ToolIdentity}
  {cancelled : Bool} {called name reason : String} {arguments : Json} {tags : TagSet}
  {question : Question} {t : Trace σ}

theorem tagsMissing_mem_refuse :
    .tagsMissing name ∈ (refuse turn called reason t).trace.events ↔
      .tagsMissing name ∈ t.events :=
  Trace.mem_events_record fun _ ↦ Event.noConfusion

theorem tagsMissing_mem_recordRise :
    .tagsMissing name ∈ (recordRise turn called tags t).events ↔ .tagsMissing name ∈ t.events := by
  rw [recordRise]
  split
  · exact Trace.mem_events_record fun _ ↦ Event.noConfusion
  · rfl

theorem tagsMissing_mem_perform :
    .tagsMissing name ∈ (perform host turn called arguments tags t).trace.events ↔
      .tagsMissing name ∈ t.events := by
  rcases hresult : (host.run t.surroundings ⟨called, arguments, turn⟩).1 with e | result
  · rw [perform_of_error hresult]
    rfl
  · rw [perform_of_ok hresult, tagsMissing_mem_recordRise,
      Trace.mem_events_record fun _ ↦ Event.noConfusion]
    rfl

theorem tagsMissing_mem_askHuman
    (h : .tagsMissing name ∈ (askHuman host turn cancelled question t).2.events) :
    .tagsMissing name ∈ t.events ∨ host.WarnsOfTags name := by
  rw [askHuman, Trace.mem_events_record fun _ ↦ Event.noConfusion] at h
  rcases List.mem_append.1 h with h | h
  · cases cancelled with
    | true => exact .inl h
    | false => exact (List.mem_append.1 h).imp_right fun hasked ↦ ⟨_, _, hasked⟩
  · exact absurd h (RequestEnd.tagsMissing_not_mem_events _ _ _)

/-- A call that needs a confirmation: the confirmer may warn, and nothing after it does. -/
theorem tagsMissing_mem_confirm (h : .tagsMissing name ∈
      (let asked := askHuman host turn cancelled question t
        if asked.1.dropped then (⟨.dropped, turn, asked.2⟩ : CallReport σ)
        else if asked.1.outcome.isApproved then perform host turn called arguments tags asked.2
        else ⟨.outcome (.notConfirmed called asked.1.outcome), turn, asked.2⟩).trace.events) :
    .tagsMissing name ∈ t.events ∨ host.WarnsOfTags name := by
  dsimp only at h
  split at h
  · exact tagsMissing_mem_askHuman h
  · split at h
    · exact tagsMissing_mem_askHuman (tagsMissing_mem_perform.1 h)
    · exact tagsMissing_mem_askHuman h

/-- The evaluation of a tool warns about its own tags only, and only if it is lacked. -/
theorem tagsMissing_mem_evaluateEvents :
    .tagsMissing name ∈ g.evaluateEvents turn tool ↔
      g.engine.registry.lacks tool = true ∧ tool.name = name := by
  have hrules : .tagsMissing name ∉ g.engine.ruleSetEvents turn.profile := by
    rcases turn.profile with - | profile
    · exact List.not_mem_nil
    · simp only [Engine.ruleSetEvents]
      split <;> simp
  have htags : .tagsMissing name ∈ g.engine.tagsEvents tool ↔
      g.engine.registry.lacks tool = true ∧ tool.name = name := by
    rw [Engine.tagsEvents]
    split
    · next hlacks => simp [hlacks, eq_comm]
    · next hlacks => simp [hlacks]
  simp [evaluateEvents, Engine.evaluateEvents, Engine.evaluateWithTagsEvents, hrules, htags]

/-- **One call** warns of missing tags if it did before, or if the tool that is called is lacked, or
else it was the confirmer. -/
theorem tagsMissing_mem_execute (h : .tagsMissing name ∈
      (g.execute host turn cancelled called arguments t).trace.events) :
    .tagsMissing name ∈ t.events ∨ host.WarnsOfTags name ∨
      ∃ tool, host.identityOf t.surroundings called = some tool ∧
        g.engine.registry.lacks tool = true ∧ tool.name = name := by
  rcases hidentity : host.identityOf t.surroundings called with - | tool
  · rw [execute_of_unknown hidentity, tagsMissing_mem_refuse] at h
    exact .inl (by simpa [Trace.emit] using h)
  let lacks := g.engine.registry.lacks tool = true ∧ tool.name = name
  have hbegin (hemit : .tagsMissing name ∈ (t.emit (g.evaluateEvents turn tool)).events) :
      .tagsMissing name ∈ t.events ∨ lacks :=
    (List.mem_append.1 hemit).imp_right tagsMissing_mem_evaluateEvents.1
  have hcall : (.tagsMissing name ∈ t.events ∨ lacks) ∨ host.WarnsOfTags name := by
    rcases hdecision : (g.evaluate turn tool).decision with - | - | -
    · rw [execute_of_allow hidentity hdecision, tagsMissing_mem_perform] at h
      exact .inl (hbegin h)
    · rw [execute_of_deny hidentity hdecision, tagsMissing_mem_refuse] at h
      exact .inl (hbegin (by simpa [Trace.emit] using h))
    · rw [execute_of_confirm hidentity hdecision] at h
      exact (tagsMissing_mem_confirm h).imp_left hbegin
  rcases hcall with (hold | hlacks) | hwarns
  · exact .inl hold
  · exact .inr (.inr ⟨tool, rfl, hlacks⟩)
  · exact .inr (.inl hwarns)

end Guard

namespace Session

variable {g : Guard} {host : Surroundings σ} {s : Session σ} {op : Operation}
  {ops : List Operation} {name : String}

/-- **One operation** warns of missing tags only if it looks up a tool that is lacked, unless it is
the confirmer that warns. -/
theorem tagsMissing_mem_step (h : .tagsMissing name ∈ (s.step g host op).2.events) :
    host.WarnsOfTags name ∨ ∃ tool, s.LooksUp host op tool ∧
      g.engine.registry.lacks tool = true ∧ tool.name = name := by
  have hturn {n : String} {act : Turn → Session σ × Effect σ}
      (hevent : .tagsMissing name ∈ (s.onTurn n act).2.events) :
      ∃ turn, s.forest.turn? n = some turn ∧ .tagsMissing name ∈ (act turn).2.events := by
    rcases hn : s.forest.turn? n with - | turn
    · rw [onTurn_of_none hn] at hevent
      cases hevent
    · rw [onTurn_of_some hn] at hevent
      exact ⟨turn, rfl, hevent⟩
  cases op with
  | create => cases h
  | delegate | cancel | escalate | observe | drop =>
    obtain ⟨_, -, hevent⟩ := hturn h
    cases hevent
  | list n =>
    obtain ⟨turn, hn, hevent⟩ := hturn h
    obtain ⟨d, hd, hwarns⟩ := List.mem_flatMap.1 hevent
    exact .inr ⟨d.identity, .listed hn hd, Guard.tagsMissing_mem_evaluateEvents.1 hwarns⟩
  | execute n called arguments =>
    obtain ⟨turn, hn, hevent⟩ := hturn h
    rcases Guard.tagsMissing_mem_execute hevent with hold | hwarns | ⟨tool, hidentity, hlacks⟩
    · cases hold
    · exact .inl hwarns
    · exact .inr ⟨tool, .called hn hidentity, hlacks⟩

/-! ### Runs after the check -/

/-- What comes of a run comes of its operations, each in the session before it. -/
theorem exists_step_of_mem_effects {effect : Effect σ} (h : effect ∈ (s.run g host ops).2) :
    ∃ i op, ops[i]? = some op ∧ ((s.before g host ops i).step g host op).2 = effect := by
  obtain ⟨i, hi, rfl⟩ := List.mem_iff_getElem.1 h
  have hop := List.getElem?_eq_getElem (length_run_effects g host s ops ▸ hi)
  refine ⟨i, _, hop, Option.some.inj ?_⟩
  rw [← List.getElem?_eq_getElem hi, run_effects_getElem? g host s hop]
  rfl

/-- **Tools that were checked have tags.** Take any guard and any list of tools.

* The check fails if and only if some tool on the list is in-house and has no entry. The error then
  has the names of these tools, ascending, each once, and no others.
* Suppose that the check succeeds. Take any executor that looks names up among its tools, and any
  run of a session in which it has the tools of the list. Then every in-house tool whose tags an
  operation asks for has an entry, and its tags are those of the entry; there is no warning about
  missing tags but what the confirmer itself may write; and the run is the same with any other
  registry that agrees on the tools with an entry and on those of origins, whatever it says of the
  other in-house tools. -/
theorem checked_tools_have_tags (g : Guard) (definitions : List ToolDefinition) :
    let registry := g.engine.registry
    let lacked : ToolDefinition → Prop := fun d ↦
      d.origin = none ∧ registry.entries.find? (.inHouse d.name) = none
    ((∃ e, g.checkLive definitions = .error e) ↔ ∃ d ∈ definitions, lacked d) ∧
    (∀ e, g.checkLive definitions = .error e →
      ∃ names, e = .missing names ∧ names.Pairwise (· < ·) ∧
        ∀ name, name ∈ names ↔ ∃ d ∈ definitions, lacked d ∧ d.name = name) ∧
    (g.checkLive definitions = .ok () → ∀ {σ : Type} (host : Surroundings σ) (s : Session σ)
      (ops : List Operation),
      (∀ surroundings name, host.identityOf surroundings name =
        identityAmong? (host.definitions surroundings) name) →
      (∀ i < ops.length, host.definitions (s.before g host ops i).surroundings = definitions) →
      (∀ i op tool, ops[i]? = some op → (s.before g host ops i).LooksUp host op tool →
        tool.origin = none →
          ∃ tags, registry.entries.find? tool = some tags ∧ g.engine.tagsFor tool = tags) ∧
      (∀ effect ∈ (s.run g host ops).2, ∀ name, .tagsMissing name ∈ effect.events →
        host.WarnsOfTags name) ∧
      ∀ other, registry.AgreeOnDeclared other →
        s.run (g.withRegistry other) host ops = s.run g host ops) := by
  intro registry lacked
  have hlacked (d : ToolDefinition) : registry.lacks d.identity = true ↔ lacked d :=
    Registry.lacks_iff
  refine ⟨?_, ?_, ?_⟩
  · simp only [Guard.checkLive, Registry.checkLive_eq_error_iff, exists_and_left, exists_eq',
      and_true, List.mem_map, exists_exists_and_eq_and]
    exact exists_congr fun d ↦ and_congr_right fun _ ↦ hlacked d
  · intro e he
    obtain ⟨-, rfl⟩ := Registry.checkLive_eq_error_iff.1 he
    refine ⟨_, rfl, SortedSet.pairwise_lt_toList _, fun name ↦ ?_⟩
    show name ∈ registry.missingNames _ ↔ _
    simp only [Registry.mem_missingNames_iff, List.mem_map, exists_exists_and_eq_and]
    exact exists_congr fun d ↦ and_congr_right fun _ ↦ and_congr_left fun _ ↦ hlacked d
  · intro hchecked σ host s ops hidentityOf hsame
    have hcovered {i : Nat} {op : Operation} {tool : ToolIdentity} (hop : ops[i]? = some op)
        (hlooks : (s.before g host ops i).LooksUp host op tool) : registry.lacks tool = false := by
      obtain ⟨d, hd, rfl⟩ := hlooks.exists_mem hidentityOf
      rw [hsame i (List.getElem?_eq_some_iff.1 hop).1] at hd
      exact Registry.checkLive_eq_ok_iff.1 hchecked _ (List.mem_map_of_mem hd)
    refine ⟨fun i op tool hop hlooks horigin ↦ ?_, fun effect heffect name hwarns ↦ ?_,
      fun other hother ↦ run_withRegistry fun i op tool hop hlooks ↦
        hother.agree (hcovered hop hlooks)⟩
    · have hentry := hcovered hop hlooks
      rw [← Bool.not_eq_true, Registry.lacks_iff_declared?, not_and] at hentry
      obtain ⟨tags, htags⟩ := Option.ne_none_iff_exists'.1 (hentry horigin)
      have hfind : registry.declared? tool = registry.entries.find? tool := by
        rw [Registry.declared?, horigin]
      refine ⟨tags, hfind ▸ htags, ?_⟩
      show (registry.declared? tool).getD .unspecified = tags
      rw [htags, Option.getD_some]
    · obtain ⟨i, op, hop, rfl⟩ := exists_step_of_mem_effects heffect
      refine (tagsMissing_mem_step hwarns).resolve_right ?_
      rintro ⟨tool, hlooks, hlacks, -⟩
      exact Bool.false_ne_true ((hcovered hop hlooks).symm.trans hlacks)

/-- An in-house tool, and a tool of an origin that has the same name and no entry. -/
def twoOfOneName : List ToolDefinition := [⟨"ls", "", .null, none⟩, ⟨"ls", "", .null, some "web"⟩]

/-- An executor with these tools that looks names up among them. Its human never answers. -/
def twoOfOneNameHost : Surroundings Unit where
  definitions _ := twoOfOneName
  identityOf _ := identityAmong? twoOfOneName
  run _ _ := (.ok ⟨"README", false⟩, ())
  ask _ _ := (⟨⟨false, none, true⟩, [], []⟩, ())

/-- A guard that knows the in-house tool and allows everything. -/
def listingGuard : Guard :=
  ⟨.ofRuleSet (Registrations.ofList [(.inHouse "ls", [.readOnly])]).registry ⟨[], .allow⟩,
    defaultConfirmMilliseconds⟩

/-- A turn that looks at the tools and calls the one of the name. -/
def lookAndCall : List Operation :=
  [.create "t" none .trusted, .list "t", .execute "t" "ls" .null]

/-- The check passes over the tool of the origin and names the tool without an entry. In the run
after it nobody is warned, and the call uses the tags of the entry. -/
theorem lookAndCall_has_tags :
    listingGuard.checkLive (⟨"rm", "", .null, none⟩ :: twoOfOneName) ≠ .ok () ∧
    (∃ tags, listingGuard.engine.registry.entries.find? (.inHouse "ls") = some tags ∧
      listingGuard.engine.tagsFor (.inHouse "ls") = tags) ∧
    ∀ effect ∈ ((⟨.empty, (), none⟩ : Session Unit).run listingGuard twoOfOneNameHost
      lookAndCall).2, ∀ name, .tagsMissing name ∉ effect.events := by
  obtain ⟨hfails, -, -⟩ := checked_tools_have_tags listingGuard
    (⟨"rm", "", .null, none⟩ :: twoOfOneName)
  obtain ⟨-, -, hruns⟩ := checked_tools_have_tags listingGuard twoOfOneName
  obtain ⟨htags, hwarns, -⟩ := hruns (by decide) twoOfOneNameHost ⟨.empty, (), none⟩ lookAndCall
    (fun _ _ ↦ rfl) (fun _ _ ↦ rfl)
  have hturn : ((⟨.empty, (), none⟩ : Session Unit).before listingGuard twoOfOneNameHost lookAndCall
      2).forest.turn? "t" = some ⟨.ofNat 1, none, .trusted, 0⟩ := by decide
  refine ⟨fun hok ↦ ?_, htags 2 _ (.inHouse "ls") rfl (.called hturn (by decide)) rfl, ?_⟩
  · obtain ⟨e, he⟩ := hfails.2 ⟨_, List.mem_cons_self, by decide⟩
    exact nomatch hok.symm.trans he
  · intro effect heffect name hmem
    obtain ⟨_, _, hasked⟩ := hwarns effect heffect name hmem
    cases hasked

end Session

end ToolAccess
