import Mathlib
import ToolAccess.Document.Basic
import ToolAccess.Proofs.RecordReading

/-!
# Documents are decoded without loss

The fields of the configuration file and of a policy layer, with their kinds and defaults, told
apart from the readers; the readers take exactly the documents with these fields, lose nothing of
them, and do not depend on the order of keys.

## What the proof rests on

* `isProper_of_parse?`: in a document that is read from a text, the keys of each table are
  distinct, and integers fit in 64 bits.
* `RecordShape.Follows.isFor`: a reader with a field for each part is right for a record of these
  parts. Each reader of a document follows its parts (`Settings.shape_follows`,
  `LayerDocument.shape_follows`), from the innermost records outwards.

The main result is `documents_are_decoded_without_loss`.
-/

namespace ToolAccess

open Toml

/-! ### The fields of documents -/

/-- The fields about the policy. -/
def PolicySettings.parts : List (Part PolicySettings) := [
  .optional "defaults" Kind.path.given (·.defaults) none,
  .optional "overrides" Kind.path.given (·.overrides) none,
  .optional "profiles_dir" Kind.path.given (·.profilesDirectory) none,
  .optional "override_offset" .int64 (·.overrideOffset) 1000]

/-- The one field about confirmations. -/
def confirmSecondsParts : List (Part UInt64) := [.optional "timeout_secs" .seconds id 120]

/-- The one field about the audit log. -/
def auditPathParts : List (Part (Option Path)) := [.optional "path" Kind.path.given id none]

/-- The fields about in-house tools. -/
def MetadataSettings.parts : List (Part MetadataSettings) := [
  .optional "groups" (.list .text) (·.groups) [],
  .optional "tools" .words (·.tools) ∅]

/-- The fields about an origin. -/
def OriginSettings.parts : List (Part OriginSettings) := [
  .required "id" .text (·.id),
  .optional "tools" .words (·.tools) ∅]

/-- The fields of the configuration file. -/
def Settings.parts : List (Part Settings) := [
  .optional "policy" (.record PolicySettings.parts) (·.policy) ⟨none, none, none, 1000⟩,
  .optional "confirmation" (.record confirmSecondsParts) (·.confirmSeconds) 120,
  .optional "audit" (.record auditPathParts) (·.auditPath) none,
  .optional "metadata" (.record MetadataSettings.parts) (·.metadata) ⟨[], ∅⟩,
  .optional "origins" (.list (.record OriginSettings.parts)) (·.origins) []]

/-- The fields of a rule. -/
def RuleDocument.parts : List (Part RuleDocument) := [
  .optional "names" (.list .text) (·.names) [],
  .optional "tags_all" (.list .text) (·.tagsAll) [],
  .optional "tags_any" (.list .text) (·.tagsAny) [],
  .optional "origins" (.list .text) (·.origins) [],
  .required "decision" .text (·.decision),
  .optional "priority" .int64 (·.priority) 0,
  .optional "taint_threshold" Kind.text.given (·.threshold) none,
  .optional "description" .text (·.description) ""]

/-- The fields of a layer. -/
def LayerDocument.parts : List (Part LayerDocument) := [
  .optional "default_decision" Kind.text.given (·.fallback) none,
  .optional "rules" (.list (.record RuleDocument.parts)) (·.rules) []]

/-! ### The records of documents -/

theorem PolicySettings.shape_follows : PolicySettings.shape.Follows parts where
  closed := rfl
  names := by decide
  fields := .cons (asPath_isFor.given fun _ _ ↦ rfl) <|
    .cons (asPath_isFor.given fun _ _ ↦ rfl) <|
    .cons (asPath_isFor.given fun _ _ ↦ rfl) <|
    .cons (int64_isFor.optional fun _ _ ↦ rfl) .nil
  separate := by simp [PolicySettings.shape, parts, Part.optional, separate_ofShape]
  blank := by simp [PolicySettings.shape, PolicySettings.blank, defaultOffset, parts,
    Part.optional]

theorem confirmSecondsShape_follows : confirmSecondsShape.Follows confirmSecondsParts where
  closed := rfl
  names := by decide
  fields := .cons (uint64_isFor.optional fun _ _ ↦ rfl) .nil
  separate := by simp [confirmSecondsShape, confirmSecondsParts]
  blank := by
    simp [confirmSecondsShape, confirmSecondsParts, defaultConfirmSeconds, Part.optional]

theorem auditPathShape_follows : auditPathShape.Follows auditPathParts where
  closed := rfl
  names := by decide
  fields := .cons (asPath_isFor.given fun _ _ ↦ rfl) .nil
  separate := by simp [auditPathShape, auditPathParts]
  blank := by simp [auditPathShape, auditPathParts, Part.optional]

theorem MetadataSettings.shape_follows : MetadataSettings.shape.Follows parts where
  closed := rfl
  names := by decide
  fields := .cons (asTexts_isFor.optional fun _ _ ↦ rfl) <|
    .cons (asWordTable_isFor.optional fun _ _ ↦ rfl) .nil
  separate := by simp [MetadataSettings.shape, parts, Part.optional, separate_ofShape]
  blank := by simp [MetadataSettings.shape, MetadataSettings.blank, parts, Part.optional]

theorem OriginSettings.shape_follows : OriginSettings.shape.Follows parts where
  closed := rfl
  names := by decide
  fields := .cons (asText_isFor.required fun _ _ ↦ rfl) <|
    .cons (asWordTable_isFor.optional fun _ _ ↦ rfl) .nil
  separate := by
    simp [OriginSettings.shape, parts, Part.required, Part.optional, separate_ofShape]
  blank := by simp [OriginSettings.shape, parts, Part.required, Part.optional]

theorem Settings.shape_follows : Settings.shape.Follows parts where
  closed := rfl
  names := by decide
  fields := .cons (PolicySettings.shape_follows.isFor.optional fun _ _ ↦ rfl) <|
    .cons (confirmSecondsShape_follows.isFor.optional fun _ _ ↦ rfl) <|
    .cons (auditPathShape_follows.isFor.optional fun _ _ ↦ rfl) <|
    .cons (MetadataSettings.shape_follows.isFor.optional fun _ _ ↦ rfl) <|
    .cons (OriginSettings.shape_follows.isFor.list.optional fun _ _ ↦ rfl) .nil
  separate := by simp [Settings.shape, parts, Part.optional, separate_ofShape]
  blank := by
    simp [Settings.shape, Settings.blank, PolicySettings.blank, MetadataSettings.blank,
      defaultOffset, defaultConfirmSeconds, parts, Part.optional]

theorem RuleDocument.shape_follows : RuleDocument.shape.Follows parts where
  closed := rfl
  names := by decide
  fields := .cons (asTexts_isFor.optional fun _ _ ↦ rfl) <|
    .cons (asTexts_isFor.optional fun _ _ ↦ rfl) <|
    .cons (asTexts_isFor.optional fun _ _ ↦ rfl) <|
    .cons (asTexts_isFor.optional fun _ _ ↦ rfl) <|
    .cons (asText_isFor.required fun _ _ ↦ rfl) <|
    .cons (int64_isFor.optional fun _ _ ↦ rfl) <|
    .cons (asText_isFor.given fun _ _ ↦ rfl) <|
    .cons (asText_isFor.optional fun _ _ ↦ rfl) .nil
  separate := by simp [RuleDocument.shape, parts, Part.required, Part.optional, separate_ofShape]
  blank := by simp [RuleDocument.shape, parts, Part.required, Part.optional]

theorem LayerDocument.shape_follows : LayerDocument.shape.Follows parts where
  closed := rfl
  names := by decide
  fields := .cons (asText_isFor.given fun _ _ ↦ rfl) <|
    .cons (RuleDocument.shape_follows.isFor.list.optional fun _ _ ↦ rfl) .nil
  separate := by simp [LayerDocument.shape, parts, Part.optional, separate_ofShape]
  blank := by simp [LayerDocument.shape, parts, Part.optional]

/-! ### Documents -/

/-- A reader of texts takes the documents that have these fields and no others, loses nothing of
them, and does not depend on the order of their keys. -/
structure Decodes {σ : Type} (parse : String → Except DocumentError σ) (parts : List (Part σ)) :
    Prop where
  succeeds_iff : ∀ text entries, parse? text = some entries →
    (Kind.record parts).isTabular (.table entries) →
      ((∃ s, parse text = .ok s) ↔ (Kind.record parts).fits (.table entries))
  means : ∀ text entries s, parse? text = some entries →
    (Kind.record parts).isTabular (.table entries) → parse text = .ok s →
      (Kind.record parts).means (.table entries) s
  permuted : ∀ text text' entries entries', parse? text = some entries →
    parse? text' = some entries' →
      Relation.ReflTransGen PermutesKeys (.table entries) (.table entries') →
        (parse text').toOption = (parse text).toOption

section Documents

variable {σ : Type} {r : RecordShape Toml σ} {parts : List (Part σ)} {text : String}
  {entries : List (String × Toml)} {s : σ}

theorem readDocument_eq_ok_iff (hparse : parse? text = some entries) :
    readDocument r text = .ok s ↔ r.ofMapping entries = .ok s := by
  rw [readDocument, hparse]
  exact mapError_eq_ok_iff

/-- A reader that is right for a kind does not depend on the order of keys, changed as often as
one likes. -/
theorem Shape.IsFor.eq_ok_iff_of_permuted {β : Type} {shape : Shape Toml β} {kind : Kind β}
    (h : shape.IsFor kind) {v v' : Toml} (hv : v.IsProper)
    (hpermuted : Relation.ReflTransGen PermutesKeys v v') {b : β} :
    shape v' = .ok b ↔ shape v = .ok b := by
  have hboth : v'.IsProper ∧ (shape v' = .ok b ↔ shape v = .ok b) := by
    induction hpermuted with
    | refl => exact ⟨hv, Iff.rfl⟩
    | @tail u w _ hstep ih =>
      obtain ⟨hu, ih⟩ := ih
      have hw := hstep.isProper hu
      have hsame : shape w = .ok b ↔ shape u = .ok b :=
        ⟨h.permuted w u b hw hstep.symm, h.permuted u w b hu hstep⟩
      exact ⟨hw, hsame.trans ih⟩
  exact hboth.2

theorem RecordShape.Follows.decodes (h : r.Follows parts) : Decodes (readDocument r) parts where
  succeeds_iff text entries hparse htabular := by
    simp only [readDocument_eq_ok_iff hparse]
    exact h.isFor.exists_iff _ (isProper_of_parse? hparse) htabular
  means text entries s hparse htabular hread :=
    h.isFor.means _ s (isProper_of_parse? hparse) htabular ((readDocument_eq_ok_iff hparse).1 hread)
  permuted text text' entries entries' hparse hparse' hpermuted := by
    refine Option.ext fun s ↦ ?_
    rw [toOption_eq_some_iff, toOption_eq_some_iff, readDocument_eq_ok_iff hparse,
      readDocument_eq_ok_iff hparse']
    exact h.isFor.eq_ok_iff_of_permuted (isProper_of_parse? hparse) hpermuted

end Documents

section Layers

variable {text : String} {entries : List (String × Toml)}

/-- The directory from which paths are seen is not read from the document. -/
theorem Settings.baseDirectory_of_parse {s : Settings} (hparse : parse? text = some entries)
    (hread : Settings.parse text = .ok s) :
    s.baseDirectory = .empty ∧ "base_dir" ∉ entries.map (·.1) := by
  have hshape := Settings.shape_follows
  obtain ⟨hread, -⟩ := hshape.ofMapping_eq_ok_iff.1 ((readDocument_eq_ok_iff hparse).1 hread)
  constructor
  · have hkeeps : ∀ f ∈ Settings.shape.fields, f.Keeps (·.baseDirectory) := by
      simp [Settings.shape, keeps_ofShape]
    exact hshape.foldlM_keeps hkeeps hread
  · intro hmem
    obtain ⟨e, he, hkey⟩ := List.mem_map.1 hmem
    have hname : "base_dir" ∈ Settings.parts.map (·.name) :=
      hkey ▸ hshape.name_mem_of_foldlM hread e he
    exact absurd hname (by decide)

/-- No entry in the table of a rule is ignored, and a threshold that is written there is kept. -/
def ReadsRule (rule : List (String × Toml)) (r : RuleDocument) : Prop :=
  (∀ e ∈ rule, e.1 ∈ ["names", "tags_all", "tags_any", "origins", "decision", "priority",
    "taint_threshold", "description"]) ∧
  ∀ v, ("taint_threshold", v) ∈ rule → ∃ word, v = .string word ∧ r.threshold = some word

theorem readsRule_of_fits {rule : List (String × Toml)} {r : RuleDocument}
    (hkeys : (rule.map (·.1)).Nodup) (hfits : (Kind.record RuleDocument.parts).fits (.table rule))
    (hmeans : (Kind.record RuleDocument.parts).means (.table rule) r) : ReadsRule rule r := by
  constructor
  · exact Kind.key_mem_of_fits hfits
  · intro v hv
    obtain ⟨_, ⟨⟩, hmeans⟩ := hmeans
    have hthreshold := hmeans (.optional "taint_threshold" Kind.text.given (·.threshold) none)
      (by simp [RuleDocument.parts])
    rcases hthreshold with ⟨w, hw, word, hword, rfl⟩ | ⟨habsent, -⟩
    · obtain ⟨-, rfl⟩ := Prod.mk.inj (List.inj_on_of_nodup_map hkeys hv hw rfl)
      exact ⟨word, rfl, hword⟩
    · exact absurd (List.mem_map_of_mem hv) habsent

/-- All tables are at their places in the table of a rule, since none is wanted there. -/
theorem RuleDocument.isTabular (rule : List (String × Toml)) :
    (Kind.record parts).isTabular (.table rule) := by
  have hparts : ∀ p ∈ parts, ∀ v, p.kind.isTabular v := by
    simp [parts, Part.optional, Part.required, Kind.list, Kind.text, Kind.int64, Kind.given]
  exact ⟨rule, rfl, fun e _ p hp _ ↦ hparts p hp e.2⟩

namespace LayerDocument

variable {rules : List (List (String × Toml))} {d : LayerDocument}

theorem isTabular (hrules : ∀ v, ("rules", v) ∈ entries → v = .array (rules.map .table)) :
    (Kind.record parts).isTabular (.table entries) := by
  refine ⟨entries, rfl, ?_⟩
  rintro ⟨key, v⟩ he p hp rfl
  simp only [parts, List.mem_cons, List.not_mem_nil, or_false] at hp
  rcases hp with rfl | rfl
  · trivial
  · rintro items rfl x hx
    obtain rfl := Toml.array.inj (hrules _ he)
    obtain ⟨rule, -, rfl⟩ := List.mem_map.1 hx
    exact RuleDocument.isTabular rule

/-- In a layer of the right kind, the tables of the rules are so. -/
theorem fits_rule (hfits : (Kind.record parts).fits (.table entries))
    (hrules : ("rules", .array (rules.map .table)) ∈ entries) :
    ∀ rule ∈ rules, (Kind.record RuleDocument.parts).fits (.table rule) := by
  obtain ⟨_, ⟨⟩, hfits, -⟩ := hfits
  obtain ⟨p, hp, hname, hfits⟩ := hfits _ hrules
  simp only [parts, List.mem_cons, List.not_mem_nil, or_false] at hp
  rcases hp with rfl | rfl
  · exact absurd (show "default_decision" = "rules" from hname) (by decide)
  · obtain ⟨_, ⟨⟩, hfits⟩ := hfits
    exact List.forall_mem_map.1 hfits

/-- The tables of the rules of a layer are read, each for itself. -/
theorem readsRule_of_parse (hparse : parse? text = some entries)
    (hrules : ("rules", .array (rules.map .table)) ∈ entries)
    (hread : LayerDocument.parse text = .ok d) : List.Forall₂ ReadsRule rules d.rules := by
  have hproper := isProper_of_parse? hparse
  cases hproper with
  | table hkeys hentries =>
    have hunique : ∀ v, ("rules", v) ∈ entries → v = .array (rules.map .table) := fun v hv ↦
      (Prod.mk.inj (List.inj_on_of_nodup_map hkeys hv hrules rfl)).2
    have hdecodes : Decodes LayerDocument.parse parts := shape_follows.decodes
    have hfits := (hdecodes.succeeds_iff _ _ hparse (isTabular hunique)).1 ⟨d, hread⟩
    have hmeans : List.Forall₂ (fun rule r ↦
        (Kind.record RuleDocument.parts).means (.table rule) r) rules d.rules := by
      obtain ⟨_, ⟨⟩, hmeans⟩ := hdecodes.means _ _ d hparse (isTabular hunique) hread
      rcases hmeans (.optional "rules" (.list (.record RuleDocument.parts)) (·.rules) [])
        (by simp [parts]) with ⟨v, hv, hmeans⟩ | ⟨habsent, -⟩
      · obtain rfl := hunique v hv
        obtain ⟨_, ⟨⟩, hmeans⟩ := hmeans
        exact List.forall₂_map_left_iff.1 hmeans
      · exact absurd (List.mem_map_of_mem hrules) habsent
    refine List.forall₂_iff_zip.2 ⟨hmeans.length_eq, fun {rule r} hzip ↦ ?_⟩
    have hrule := (List.of_mem_zip hzip).1
    refine readsRule_of_fits ?_ (fits_rule hfits hrules rule hrule)
      ((List.forall₂_iff_zip.1 hmeans).2 hzip)
    cases hentries _ hrules with
    | array hitems =>
      cases hitems _ (List.mem_map_of_mem hrule) with
      | table hkeys _ => exact hkeys

end LayerDocument

end Layers

/-- **Documents are decoded without loss**, those of the settings and those of the layers alike.

* A document with a table at each place of a record is read if and only if each of these tables
  has the fields that it should have and no others, with values of their kinds.
* What is read is what is written there, or else the default, and lists keep their order.
* It does not depend on the order in which the keys of any table are written.
* The base directory of the settings is never a field.
* No key in the table of a rule is ignored, so a threshold is either kept or reported.
-/
theorem documents_are_decoded_without_loss :
    Decodes Settings.parse Settings.parts ∧ Decodes LayerDocument.parse LayerDocument.parts ∧
      (∀ text entries s, parse? text = some entries → Settings.parse text = .ok s →
        s.baseDirectory = .empty ∧ "base_dir" ∉ entries.map (·.1)) ∧
      ∀ text entries rules d, parse? text = some entries →
        ("rules", .array (rules.map .table)) ∈ entries → LayerDocument.parse text = .ok d →
          List.Forall₂ ReadsRule rules d.rules :=
  ⟨Settings.shape_follows.decodes, LayerDocument.shape_follows.decodes,
    fun _ _ _ ↦ Settings.baseDirectory_of_parse,
    fun _ _ _ _ ↦ LayerDocument.readsRule_of_parse⟩

/-- A layer with a rule that has a threshold. -/
def thresholdText : String :=
  "[[rules]]\ndecision = \"deny\"\ntaint_threshold = \"untrusted\"\n"

/-- The same with the key of the threshold misspelled. -/
def misspelledText : String :=
  "[[rules]]\ndecision = \"deny\"\ntaint_treshold = \"untrusted\"\n"

/-- The table of such a rule, with the threshold under this key. -/
def thresholdRule (key : String) : List (String × Toml) :=
  [("decision", .string "deny"), (key, .string "untrusted")]

theorem threshold_is_read_or_refused :
    (∃ d, LayerDocument.parse thresholdText = .ok d ∧
      List.Forall₂ ReadsRule [thresholdRule "taint_threshold"] d.rules) ∧
      ¬∃ d, LayerDocument.parse misspelledText = .ok d := by
  have hspelled : parse? thresholdText =
      some [("rules", .array ([thresholdRule "taint_threshold"].map .table))] := by
    rw [thresholdText, thresholdRule]
    cbv
  have hmisspelled : parse? misspelledText =
      some [("rules", .array ([thresholdRule "taint_treshold"].map .table))] := by
    rw [misspelledText, thresholdRule]
    cbv
  have htabular : ∀ rules : List (List (String × Toml)),
      (Kind.record LayerDocument.parts).isTabular (.table [("rules", .array (rules.map .table))]) :=
    fun rules ↦ LayerDocument.isTabular fun v hv ↦ (Prod.mk.inj (List.mem_singleton.1 hv)).2
  obtain ⟨-, hdecodes, -, hrules⟩ := documents_are_decoded_without_loss
  constructor
  · have hread : LayerDocument.parse thresholdText =
        .ok ⟨none, [⟨[], [], [], [], "deny", 0, some "untrusted", ""⟩]⟩ := by
      rw [thresholdText]
      cbv
    exact ⟨_, hread, hrules _ _ _ _ hspelled List.mem_cons_self hread⟩
  · rw [hdecodes.succeeds_iff _ _ hmisspelled (htabular _)]
    intro hfits
    have hkeys := Kind.key_mem_of_fits
      (LayerDocument.fits_rule hfits List.mem_cons_self _ List.mem_cons_self)
    have hmem : "taint_treshold" ∈ RuleDocument.parts.map (·.name) :=
      hkeys ("taint_treshold", .string "untrusted") (by simp [thresholdRule])
    exact absurd hmem (by decide)

end ToolAccess
