import Mathlib.Data.List.Induction
import Mathlib.Data.List.Nodup
import Mathlib.Data.String.Basic
import ToolAccess.Registry

/-!
# What a registry says of declared tools

Declarations are made one after the other, and of two declarations of one tool the later takes the
place of the earlier. So the tags that are kept of a tool are those of its last declaration, and
that an earlier one was there is known only from the list of repeated tools. This list holds texts,
and two tools may be shown alike: an in-house tool whose name contains a slash is shown like a tool
of an origin.

`Registrations.Keeps` says what is kept of declarations, as a whole: one lemma for the next
declaration (`Keeps.register`), and the law for a list of them follows (`keeps_ofList`). Building
and looking up are told from that law alone.

The main result is `Registrations.registry_is_as_declared`.
-/

namespace ToolAccess

theorem SortedSet.pairwise_lt_toList (s : SortedSet String) : s.toList.Pairwise (· < ·) :=
  s.ascending.imp fun h ↦ compare_lt_iff_lt.1 h

theorem SortedSet.toList_eq_nil_iff {α : Type} [Ord α] {s : SortedSet α} :
    s.toList = [] ↔ ∀ a, a ∉ s :=
  List.eq_nil_iff_forall_not_mem

namespace Registrations

variable {l : List (ToolIdentity × List Tag)} {tool : ToolIdentity} {tags : List Tag}

/-! ### What is kept of declarations -/

/-- The last declaration of a tool. -/
def last? (l : List (ToolIdentity × List Tag)) (tool : ToolIdentity) :
    Option (ToolIdentity × List Tag) :=
  (l.filter (·.1 = tool)).getLast?

/-- What is kept of a list of declarations: for each tool the tags of its last one, and how the
tools are shown that have more than one. -/
structure Keeps (l : List (ToolIdentity × List Tag)) (b : Registrations) : Prop where
  find?_eq : ∀ tool, b.registry.entries.find? tool = (last? l tool).map fun e ↦ .of e.2
  mem_repeated_iff : ∀ shown, shown ∈ b.repeated ↔
    ∃ tool, 2 ≤ (l.map (·.1)).count tool ∧ tool.display = shown

theorem last?_concat (l : List (ToolIdentity × List Tag)) (tool other : ToolIdentity)
    (tags : List Tag) :
    last? (l ++ [(tool, tags)]) other =
      if other = tool then some (tool, tags) else last? l other := by
  rw [last?, List.filter_append]
  by_cases h : other = tool
  · simp [h]
  · simp [h, Ne.symm h, last?]

theorem isSome_last?_iff : (last? l tool).isSome = true ↔ tool ∈ l.map (·.1) := by
  rw [last?, List.getLast?_isSome, Ne, List.filter_eq_nil_iff]
  simp

/-- A tool is repeated after one more declaration if it was before, or has been declared again. -/
theorem two_le_count_concat_iff {other : ToolIdentity} :
    2 ≤ ((l ++ [(tool, tags)]).map (·.1)).count other ↔
      2 ≤ (l.map (·.1)).count other ∨ other = tool ∧ tool ∈ l.map (·.1) := by
  rw [List.map_append, List.count_append, ← List.count_pos_iff]
  by_cases h : other = tool
  · subst h
    simp only [List.map_cons, List.map_nil, List.count_singleton_self, true_and]
    omega
  · simp [h, Ne.symm h]

theorem keeps_none : Keeps [] none where
  find?_eq _ := rfl
  mem_repeated_iff shown := by
    refine iff_of_false (fun h ↦ ?_) (by simp)
    cases h

namespace Keeps

variable {b : Registrations}

theorem contains_iff (h : Keeps l b) :
    b.registry.entries.contains tool = true ↔ tool ∈ l.map (·.1) := by
  rw [SortedMap.contains, h.find?_eq, Option.isSome_map, isSome_last?_iff]

/-- **One more declaration.** -/
theorem register (h : Keeps l b) (tool : ToolIdentity) (tags : List Tag) :
    Keeps (l ++ [(tool, tags)]) (b.register tool tags) where
  find?_eq other := by
    rw [Registrations.register, SortedMap.find?_insert, last?_concat, h.find?_eq]
    split <;> rfl
  mem_repeated_iff shown := by
    simp only [two_le_count_concat_iff, ← h.contains_iff, or_and_right, exists_or,
      ← h.mem_repeated_iff]
    rw [Registrations.register]
    by_cases hcontains : b.registry.entries.contains tool = true
    · simp [hcontains, or_comm, eq_comm]
    · simp [hcontains]

end Keeps

/-- **All declarations.** -/
theorem keeps_ofList (l : List (ToolIdentity × List Tag)) : Keeps l (ofList l) := by
  induction l using List.reverseRecOn with
  | nil => exact keeps_none
  | append_singleton l e ih =>
    rw [ofList, List.foldl_append]
    exact ih.register e.1 e.2

/-! ### Building -/

theorem not_nodup_iff_exists_repeated :
    ¬ (l.map (·.1)).Nodup ↔ ∃ tool, 2 ≤ (l.map (·.1)).count tool := by
  rw [List.nodup_iff_count_le_one, not_forall]
  exact exists_congr fun tool ↦ Nat.not_le

theorem toList_repeated_eq_nil_iff :
    (ofList l).repeated.toList = [] ↔ (l.map (·.1)).Nodup := by
  rw [SortedSet.toList_eq_nil_iff, ← not_iff_not, not_nodup_iff_exists_repeated, not_forall]
  simp only [not_not, (keeps_ofList l).mem_repeated_iff]
  exact ⟨fun ⟨_, tool, htwice, _⟩ ↦ ⟨tool, htwice⟩, fun ⟨tool, htwice⟩ ↦ ⟨_, tool, htwice, rfl⟩⟩

/-- The missing names are those in use that are not declared. -/
theorem mem_missingNames_iff {inUse : List String} {name : String} :
    name ∈ (ofList l).registry.missingNames (inUse.map .inHouse) ↔
      name ∈ inUse ∧ .inHouse name ∉ l.map (·.1) := by
  rw [Registry.missingNames, ← SortedSet.mem_def, SortedSet.mem_ofList, List.filter_map,
    List.map_map, ← (keeps_ofList l).contains_iff]
  simp [Function.comp_def, Registry.lacks, Registry.hasInHouse, ToolIdentity.inHouse,
    ToolIdentity.isInHouse]

theorem missingNames_eq_nil_iff {inUse : List String} :
    (ofList l).registry.missingNames (inUse.map .inHouse) = [] ↔
      ∀ name ∈ inUse, .inHouse name ∈ l.map (·.1) := by
  simp only [List.eq_nil_iff_forall_not_mem, mem_missingNames_iff, not_and, not_not]

theorem build_of_repeated (inUse : List String) (h : ¬ (l.map (·.1)).Nodup) :
    (ofList l).build inUse = .error (.repeated (ofList l).repeated.toList) := by
  rw [build]
  split
  · next hnone => exact absurd (toList_repeated_eq_nil_iff.1 hnone) h
  · rfl

/-- Missing tools are looked for once no tool is repeated. -/
theorem build_of_nodup (inUse : List String) (h : (l.map (·.1)).Nodup) :
    (ofList l).build inUse =
      if ∀ name ∈ inUse, .inHouse name ∈ l.map (·.1) then .ok (ofList l).registry
      else .error (.missing ((ofList l).registry.missingNames (inUse.map .inHouse))) := by
  rw [build]
  split
  · split
    · next hnone => rw [if_pos (missingNames_eq_nil_iff.1 hnone)]
    · next hsome => rw [if_neg (mt missingNames_eq_nil_iff.2 hsome)]
  · next hrepeated => exact absurd (toList_repeated_eq_nil_iff.2 h) hrepeated

theorem build_eq_ok_iff {inUse : List String} {r : Registry} :
    (ofList l).build inUse = .ok r ↔
      ((l.map (·.1)).Nodup ∧ ∀ name ∈ inUse, .inHouse name ∈ l.map (·.1)) ∧
        (ofList l).registry = r := by
  by_cases hnodup : (l.map (·.1)).Nodup
  · rw [build_of_nodup inUse hnodup]
    by_cases hall : ∀ name ∈ inUse, .inHouse name ∈ l.map (·.1)
    · rw [if_pos hall, Except.ok.injEq]
      exact (and_iff_right ⟨hnodup, hall⟩).symm
    · rw [if_neg hall]
      exact iff_of_false (by simp) fun h ↦ hall h.1.2
  · rw [build_of_repeated inUse hnodup]
    exact iff_of_false (by simp) fun h ↦ hnodup h.1.1

/-! ### Looking up -/

/-- The tags that declarations give a tool: its own, or else those of the catch-all entry of its
origin, or else the tag of tools that nobody described. -/
inductive Gives (l : List (ToolIdentity × List Tag)) (tool : ToolIdentity) : TagSet → Prop
  | own {tags : List Tag} (hown : (tool, tags) ∈ l) : Gives l tool (.of tags)
  | catchAll {origin : String} {tags : List Tag} (hown : tool ∉ l.map (·.1))
    (horigin : tool.origin = some origin)
    (hcatchAll : (.fromOrigin origin catchAllName, tags) ∈ l) : Gives l tool (.of tags)
  | unspecified (hown : tool ∉ l.map (·.1))
    (hcatchAll : ∀ origin, tool.origin = some origin →
      .fromOrigin origin catchAllName ∉ l.map (·.1)) : Gives l tool (.of [.trustUnspecified])

/-- Where no tool is declared twice, the last declaration of a tool is any declaration of it. -/
theorem last?_of_mem (h : (l.map (·.1)).Nodup) (hmem : (tool, tags) ∈ l) :
    last? l tool = some (tool, tags) := by
  obtain ⟨e, he⟩ := Option.isSome_iff_exists.1
    (isSome_last?_iff.2 (List.mem_map.2 ⟨(tool, tags), hmem, rfl⟩))
  obtain ⟨hel, htool⟩ := List.mem_filter.1 (List.mem_of_getLast? he)
  rw [he, List.inj_on_of_nodup_map h hel hmem (of_decide_eq_true htool)]

theorem last?_of_not_mem (h : tool ∉ l.map (·.1)) : last? l tool = Option.none :=
  Option.not_isSome_iff_eq_none.1 (mt isSome_last?_iff.1 h)

theorem exists_mem_of_mem_map (h : tool ∈ l.map (·.1)) : ∃ tags, (tool, tags) ∈ l := by
  obtain ⟨⟨_, tags⟩, hmem, rfl⟩ := List.mem_map.1 h
  exact ⟨tags, hmem⟩

/-- The tags that the declarations give a tool are those looked up. -/
theorem Gives.tagsFor_eq {given : TagSet} (h : Gives l tool given) (hnodup : (l.map (·.1)).Nodup) :
    (ofList l).registry.tagsFor tool = given := by
  have hfind := (keeps_ofList l).find?_eq
  rw [Registry.tagsFor, Registry.declared?]
  cases h with
  | own hown =>
    have hlast := last?_of_mem hnodup hown
    split <;> simp [hfind, hlast]
  | catchAll hown horigin hcatchAll =>
    simp [horigin, hfind, last?_of_not_mem hown, last?_of_mem hnodup hcatchAll]
  | unspecified hown hcatchAll =>
    split
    · simp [hfind, last?_of_not_mem hown, TagSet.unspecified]
    · next origin horigin =>
      simp [hfind, last?_of_not_mem hown, last?_of_not_mem (hcatchAll origin horigin),
        TagSet.unspecified]

/-- Declarations give every tool some tags. -/
theorem exists_gives (l : List (ToolIdentity × List Tag)) (tool : ToolIdentity) :
    ∃ given, Gives l tool given := by
  by_cases hown : tool ∈ l.map (·.1)
  · obtain ⟨tags, hmem⟩ := exists_mem_of_mem_map hown
    exact ⟨_, .own hmem⟩
  by_cases hcatchAll : ∃ origin, tool.origin = some origin ∧
      .fromOrigin origin catchAllName ∈ l.map (·.1)
  · obtain ⟨origin, horigin, hdeclared⟩ := hcatchAll
    obtain ⟨tags, hmem⟩ := exists_mem_of_mem_map hdeclared
    exact ⟨_, .catchAll hown horigin hmem⟩
  · exact ⟨_, .unspecified hown fun origin horigin hdeclared ↦
      hcatchAll ⟨origin, horigin, hdeclared⟩⟩

/-- The last declaration of a tool is one of those for its origin. -/
theorem last?_eq_of_filter_eq {l l' : List (ToolIdentity × List Tag)} {tool : ToolIdentity}
    (h : l'.filter (·.1.origin = tool.origin) = l.filter (·.1.origin = tool.origin)) :
    last? l' tool = last? l tool := by
  have hpart : ∀ l : List (ToolIdentity × List Tag),
      l.filter (·.1 = tool) = (l.filter (·.1.origin = tool.origin)).filter (·.1 = tool) := by
    intro l
    rw [List.filter_filter]
    refine List.filter_congr fun e _ ↦ ?_
    by_cases he : e.1 = tool <;> simp [he]
  rw [last?, last?, hpart l', hpart l, h]

/-- The tags of a tool are those that the declarations for its origin give it. -/
theorem tagsFor_eq_of_filter_eq {l l' : List (ToolIdentity × List Tag)} {tool : ToolIdentity}
    (h : l'.filter (·.1.origin = tool.origin) = l.filter (·.1.origin = tool.origin)) :
    (ofList l').registry.tagsFor tool = (ofList l).registry.tagsFor tool := by
  have hfind : ∀ other : ToolIdentity, other.origin = tool.origin →
      (ofList l').registry.entries.find? other = (ofList l).registry.entries.find? other := by
    intro other hother
    rw [(keeps_ofList l').find?_eq, (keeps_ofList l).find?_eq]
    rw [← hother] at h
    rw [last?_eq_of_filter_eq h]
  rw [Registry.tagsFor, Registry.tagsFor, Registry.declared?, Registry.declared?]
  split
  · rw [hfind tool rfl]
  · next origin horigin =>
    rw [hfind tool rfl, hfind (.fromOrigin origin catchAllName) horigin.symm]

/-! ### The registry is as declared -/

/-- **A registry is as declared.** Take any declarations, made one after the other, and any in-house
tools in use, by name.

* A registry is built if and only if no tool is declared twice and every tool in use is declared.
* If some tool is declared twice, the error lists how such tools are shown, ascending, each text
  once, whatever tools are missing. Otherwise, if some are, it lists their names, ascending, each
  once.
* The registry that is built gives a tool the tags that were declared for it; or else, to a tool of
  an origin, those declared for the catch-all entry of this origin; or else `trust-unspecified`. Two
  registries whose declarations for an origin are the same, in-house tools being those without one,
  agree on all tools of that origin. -/
theorem registry_is_as_declared (l : List (ToolIdentity × List Tag)) (inUse : List String) :
    let declared := l.map (·.1)
    ((∃ r, (ofList l).build inUse = .ok r) ↔
      declared.Nodup ∧ ∀ name ∈ inUse, .inHouse name ∈ declared) ∧
    (¬ declared.Nodup → ∃ shown, (ofList l).build inUse = .error (.repeated shown) ∧
      shown.Pairwise (· < ·) ∧
      ∀ text, text ∈ shown ↔ ∃ tool, 2 ≤ declared.count tool ∧ tool.display = text) ∧
    (declared.Nodup → (∃ name ∈ inUse, .inHouse name ∉ declared) →
      ∃ names, (ofList l).build inUse = .error (.missing names) ∧ names.Pairwise (· < ·) ∧
        ∀ name, name ∈ names ↔ name ∈ inUse ∧ .inHouse name ∉ declared) ∧
    ∀ r, (ofList l).build inUse = .ok r →
      (∀ tool given, r.tagsFor tool = given ↔ Gives l tool given) ∧
      ∀ l' inUse' r', (ofList l').build inUse' = .ok r' → ∀ tool : ToolIdentity,
        l'.filter (·.1.origin = tool.origin) = l.filter (·.1.origin = tool.origin) →
        r'.tagsFor tool = r.tagsFor tool := by
  intro declared
  refine ⟨?_, ?_, ?_, ?_⟩
  · simp only [build_eq_ok_iff, exists_and_left, exists_eq', and_true]
    rfl
  · intro hrepeated
    exact ⟨_, build_of_repeated inUse hrepeated, SortedSet.pairwise_lt_toList _,
      (keeps_ofList l).mem_repeated_iff⟩
  · rintro hnodup ⟨name, hmem, hnot⟩
    refine ⟨_, ?_, SortedSet.pairwise_lt_toList _, fun name ↦ mem_missingNames_iff⟩
    rw [build_of_nodup inUse hnodup, if_neg fun hall ↦ hnot (hall name hmem)]
    rfl
  · intro r hbuilt
    obtain ⟨⟨hnodup, -⟩, rfl⟩ := build_eq_ok_iff.1 hbuilt
    refine ⟨fun tool given ↦ ⟨?_, fun hgiven ↦ hgiven.tagsFor_eq hnodup⟩, ?_⟩
    · rintro rfl
      obtain ⟨given, hgiven⟩ := exists_gives l tool
      rwa [hgiven.tagsFor_eq hnodup]
    · intro l' inUse' r' hbuilt' tool hsame
      obtain ⟨-, rfl⟩ := build_eq_ok_iff.1 hbuilt'
      exact tagsFor_eq_of_filter_eq hsame

/-- Two tools that are shown alike, and the catch-all entry of the origin of one of them. -/
def lookalikes : List (ToolIdentity × List Tag) :=
  [(.inHouse "gh/search", [.readOnly]), (.fromOrigin "gh" "search", [.outputTrusted]),
    (.fromOrigin "gh" catchAllName, [.externalComm])]

/-- Tools that are shown alike are declared and looked up apart; declared once more, both of them
are one text of the error. -/
theorem lookalikes_are_told_apart :
    (∃ r, (ofList lookalikes).build ["gh/search"] = .ok r ∧
      r.tagsFor (.inHouse "gh/search") = .of [.readOnly] ∧
      r.tagsFor (.fromOrigin "gh" "search") = .of [.outputTrusted] ∧
      r.tagsFor (.fromOrigin "gh" "issues") = .of [.externalComm] ∧
      r.tagsFor (.fromOrigin "mail" "search") = .of [.trustUnspecified]) ∧
    ∃ shown,
      (ofList (lookalikes ++ lookalikes.take 2)).build ["absent"] = .error (.repeated shown) ∧
      "gh/search" ∈ shown ∧ shown.Pairwise (· < ·) := by
  obtain ⟨hbuilds, -, -, hgives⟩ := registry_is_as_declared lookalikes ["gh/search"]
  obtain ⟨-, hrepeats, -, -⟩ := registry_is_as_declared (lookalikes ++ lookalikes.take 2) ["absent"]
  constructor
  · obtain ⟨r, hr⟩ := hbuilds.2 (by decide)
    obtain ⟨htags, -⟩ := hgives r hr
    exact ⟨r, hr, (htags _ _).2 (.own (by decide)), (htags _ _).2 (.own (by decide)),
      (htags _ _).2 (.catchAll (by decide) rfl (by decide)),
      (htags _ _).2 (.unspecified (by decide) (by decide))⟩
  · obtain ⟨shown, hshown, hascending, hmem⟩ := hrepeats (by decide)
    exact ⟨shown, hshown, (hmem _).2 ⟨.inHouse "gh/search", by decide, by decide⟩, hascending⟩

end Registrations

end ToolAccess
