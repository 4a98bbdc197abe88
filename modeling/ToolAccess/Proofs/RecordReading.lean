import ToolAccess.Proofs.RecordColumns
import ToolAccess.Proofs.ValueKinds

/-!
# Records are read field by field

A reader of records follows a list of parts if it has one field for each of them, in their order,
with a reader that is right for its kind, and if the fields have nothing to do with each other.

## What the proof rests on

* `putEntry_eq_ok_iff`: an entry is taken by the one field of its name, and by nothing else.
* `means_or_keeps`: after all entries, a part is what the entry of its name means, or as it was
  before; the other entries leave it alone.
* `foldlM_perm`: entries of different keys may change places, since fields commute.

The main result is `RecordShape.Follows.isFor`: such a reader is right for a record of these parts.
-/

namespace ToolAccess

open Toml

/-! ### Fields -/

section Records

variable {β σ : Type} {v v' : Toml} {s s' : σ} {entries entries' : List (String × Toml)}

/-- Reading the field leaves something of the record as it is. -/
def Field.Keeps {γ : Type} (f : Field Toml σ) (get : σ → γ) : Prop :=
  ∀ v s s', f.put v s = .ok s' → get s' = get s

/-- It makes no difference if the second field is read before the first. -/
def Field.Commutes (f g : Field Toml σ) : Prop :=
  ∀ v w s s₁ s₂, f.put v s = .ok s₁ → g.put w s₁ = .ok s₂ →
    ∃ s', g.put w s = .ok s' ∧ f.put v s' = .ok s₂

/-- Two fields with their parts of the record have nothing to do with each other. -/
structure Field.Separate (x y : Field Toml σ × Part σ) : Prop where
  keeps_right : x.1.Keeps y.2.get
  keeps_left : y.1.Keeps x.2.get
  commutes : x.1.Commutes y.1
  commutes' : y.1.Commutes x.1

instance : Std.Symm (Field.Separate (σ := σ)) where
  symm _ _ h := ⟨h.keeps_left, h.keeps_right, h.commutes', h.commutes⟩

/-- A field is right for a part of the record. -/
structure Field.IsFor (f : Field Toml σ) (p : Part σ) : Prop where
  name : f.name = p.name
  required_iff : f.presence = .required ↔ p.default = none
  exists_iff : ∀ v s, v.IsProper → p.kind.isTabular v →
    ((∃ s', f.put v s = .ok s') ↔ p.kind.fits v)
  means : ∀ v s s', v.IsProper → p.kind.isTabular v → f.put v s = .ok s' →
    p.kind.means v (p.get s')
  permuted : ∀ v v' s s', v.IsProper → v.PermutesKeys v' → f.put v s = .ok s' →
    f.put v' s = .ok s'

section Fields

variable {shape : Shape Toml β} {kind : Kind β} {name : String} {presence : Presence}
  {set : β → σ → σ}

theorem put_ofShape_iff :
    (Field.ofShape name presence shape set).put v s = .ok s' ↔
      ∃ b, shape v = .ok b ∧ set b s = s' :=
  map_eq_ok_iff

/-- A field with a reader that is right for a kind. -/
theorem Shape.IsFor.field (h : Shape.IsFor shape kind) {p : Part σ}
    (hname : name = p.name) (hrequired : presence = .required ↔ p.default = none)
    (htabular : p.kind.isTabular = kind.isTabular) (hfits : p.kind.fits = kind.fits)
    (hmeans : ∀ v b s, kind.means v b → p.kind.means v (p.get (set b s))) :
    (Field.ofShape name presence shape set).IsFor p where
  name := hname
  required_iff := hrequired
  exists_iff v s hv hv' := by
    rw [hfits, ← h.exists_iff v hv (htabular ▸ hv')]
    simp only [put_ofShape_iff, exists_comm (α := σ), exists_and_left, exists_eq', and_true]
  means v s s' hv hv' hput := by
    obtain ⟨b, hb, rfl⟩ := put_ofShape_iff.1 hput
    exact hmeans v b s (h.means v b hv (htabular ▸ hv') hb)
  permuted v v' s s' hv hpermutes hput := by
    obtain ⟨b, hb, rfl⟩ := put_ofShape_iff.1 hput
    exact put_ofShape_iff.2 ⟨b, h.permuted v v' b hv hpermutes hb, rfl⟩

theorem Shape.IsFor.required (h : shape.IsFor kind) {get : σ → β}
    (hget : ∀ b s, get (set b s) = b) :
    (Field.ofShape name .required shape set).IsFor (.required name kind get) :=
  h.field rfl (by simp [Part.required]) rfl rfl fun v b s hb ↦
    (congrArg (kind.means v) (hget b s)).mpr hb

theorem Shape.IsFor.optional (h : shape.IsFor kind) {get : σ → β} {default : β}
    (hget : ∀ b s, get (set b s) = b) :
    (Field.ofShape name .optional shape set).IsFor (.optional name kind get default) :=
  h.field rfl (by simp [Part.optional]) rfl rfl fun v b s hb ↦
    (congrArg (kind.means v) (hget b s)).mpr hb

/-- A field of which the record knows if it was given. -/
theorem Shape.IsFor.given (h : shape.IsFor kind) {get : σ → Option β}
    (hget : ∀ b s, get (set b s) = some b) :
    (Field.ofShape name .optional shape set).IsFor (.optional name kind.given get none) :=
  h.field rfl (by simp [Part.optional]) rfl rfl fun _ b s hb ↦ ⟨b, hget b s, hb⟩

theorem keeps_ofShape {γ : Type} {get : σ → γ} (h : ∀ b s, get (set b s) = get s) :
    (Field.ofShape name presence shape set).Keeps get := by
  intro v s s' hput
  obtain ⟨b, -, rfl⟩ := put_ofShape_iff.1 hput
  exact h b s

theorem commutes_ofShape {γ : Type} {other : Shape Toml γ} {name' : String}
    {presence' : Presence} {set' : γ → σ → σ}
    (h : ∀ b c s, set' c (set b s) = set b (set' c s)) :
    (Field.ofShape name presence shape set).Commutes
      (Field.ofShape name' presence' other set') := by
  intro v w s s₁ s₂ hput hput'
  obtain ⟨b, hb, rfl⟩ := put_ofShape_iff.1 hput
  obtain ⟨c, hc, rfl⟩ := put_ofShape_iff.1 hput'
  exact ⟨set' c s, put_ofShape_iff.2 ⟨c, hc, rfl⟩, put_ofShape_iff.2 ⟨b, hb, (h b c s).symm⟩⟩

/-- Two fields have nothing to do with each other if their setters have not. -/
theorem separate_ofShape {γ : Type} {other : Shape Toml γ} {name' : String}
    {presence' : Presence} {set' : γ → σ → σ} {p q : Part σ}
    (hq : ∀ b s, q.get (set b s) = q.get s) (hp : ∀ c s, p.get (set' c s) = p.get s)
    (hset : ∀ b c s, set' c (set b s) = set b (set' c s)) :
    Field.Separate (.ofShape name presence shape set, p)
      (.ofShape name' presence' other set', q) where
  keeps_right := keeps_ofShape hq
  keeps_left := keeps_ofShape hp
  commutes := commutes_ofShape hset
  commutes' := commutes_ofShape fun c b s ↦ (hset b c s).symm

end Fields

/-! ### Records -/

/-- The fields of a record are those of its parts. -/
structure RecordShape.Follows (r : RecordShape Toml σ) (parts : List (Part σ)) : Prop where
  closed : r.closed = true
  names : (parts.map (·.name)).Nodup
  fields : List.Forall₂ Field.IsFor r.fields parts
  separate : (r.fields.zip parts).Pairwise Field.Separate
  blank : ∀ p ∈ parts, p.default = none ∨ p.default = some (p.get r.blank)

namespace RecordShape.Follows

variable {r : RecordShape Toml σ} {parts : List (Part σ)} (h : r.Follows parts)
include h

theorem exists_part_zip {f : Field Toml σ} (hf : f ∈ r.fields) :
    ∃ p, (f, p) ∈ r.fields.zip parts := by
  obtain ⟨i, hi, rfl⟩ := List.getElem_of_mem hf
  have hi' : i < parts.length := h.fields.length_eq ▸ hi
  exact ⟨parts[i], List.mem_iff_getElem.2 ⟨i, by rw [List.length_zip]; omega, List.getElem_zip⟩⟩

theorem exists_field_zip {p : Part σ} (hp : p ∈ parts) :
    ∃ f, (f, p) ∈ r.fields.zip parts := by
  obtain ⟨i, hi, rfl⟩ := List.getElem_of_mem hp
  have hi' : i < r.fields.length := h.fields.length_eq ▸ hi
  exact ⟨r.fields[i], List.mem_iff_getElem.2 ⟨i, by rw [List.length_zip]; omega, List.getElem_zip⟩⟩

theorem exists_part {f : Field Toml σ} (hf : f ∈ r.fields) : ∃ p ∈ parts, f.IsFor p := by
  obtain ⟨p, hzip⟩ := h.exists_part_zip hf
  exact ⟨p, (List.of_mem_zip hzip).2, (List.forall₂_iff_zip.1 h.fields).2 hzip⟩

theorem exists_field {p : Part σ} (hp : p ∈ parts) : ∃ f ∈ r.fields, f.IsFor p := by
  obtain ⟨f, hzip⟩ := h.exists_field_zip hp
  exact ⟨f, (List.of_mem_zip hzip).1, (List.forall₂_iff_zip.1 h.fields).2 hzip⟩

/-- Reading a field leaves the parts of other names alone. -/
theorem keeps {f : Field Toml σ} {p : Part σ} (hf : f ∈ r.fields) (hp : p ∈ parts)
    (hne : f.name ≠ p.name) : f.Keeps p.get := by
  obtain ⟨own, hown⟩ := h.exists_part_zip hf
  obtain ⟨g, hg⟩ := h.exists_field_zip hp
  refine (h.separate.forall hown hg fun heq ↦ hne ?_).keeps_right
  exact (Prod.mk.inj heq).1 ▸ ((List.forall₂_iff_zip.1 h.fields).2 hg).name

/-- Fields of different names are read in any order. -/
theorem commutes {f g : Field Toml σ} (hf : f ∈ r.fields) (hg : g ∈ r.fields)
    (hne : f.name ≠ g.name) : f.Commutes g := by
  obtain ⟨p, hp⟩ := h.exists_part_zip hf
  obtain ⟨q, hq⟩ := h.exists_part_zip hg
  exact (h.separate.forall hp hq
    fun heq ↦ hne (congrArg (·.1.name) heq)).commutes

theorem map_name : r.fields.map (·.name) = parts.map (·.name) := by
  rw [← List.forall₂_eq_eq_eq, List.forall₂_map_left_iff, List.forall₂_map_right_iff]
  exact h.fields.imp fun _ _ hfield ↦ hfield.name

/-- A field with the name of a part is the one for it. -/
theorem isFor_of_name {f : Field Toml σ} {p : Part σ} (hf : f ∈ r.fields) (hp : p ∈ parts)
    (hname : f.name = p.name) : f.IsFor p := by
  obtain ⟨own, hown, hfor⟩ := h.exists_part hf
  obtain rfl := List.inj_on_of_nodup_map h.names hown hp (hfor.name.symm.trans hname)
  exact hfor

/-- An entry is taken by the field of its name, if there is one. -/
theorem putEntry_eq_ok_iff {e : String × Toml} :
    r.putEntry s e = .ok s' ↔ ∃ f ∈ r.fields, f.name = e.1 ∧ f.put e.2 s = .ok s' := by
  have hnames : (r.fields.map (·.name)).Nodup := h.map_name ▸ h.names
  rw [putEntry, h.closed]
  split
  · next f hfind =>
    obtain ⟨hname, hf⟩ : f.name = e.1 ∧ f ∈ r.fields :=
      ⟨by simpa using List.find?_some hfind, List.mem_of_find?_eq_some hfind⟩
    constructor
    · exact fun hput ↦ ⟨f, hf, hname, hput⟩
    · rintro ⟨g, hg, hname', hput⟩
      obtain rfl := List.inj_on_of_nodup_map hnames hg hf (hname'.trans hname.symm)
      exact hput
  · next hnone =>
    refine iff_of_false (by rintro ⟨⟩) ?_
    rintro ⟨f, hf, hname, -⟩
    simpa [hname] using List.find?_eq_none.1 hnone f hf

/-- All entries are taken if each is one of a part and of its kind. -/
theorem exists_foldlM_iff (hproper : ∀ e ∈ entries, e.2.IsProper)
    (htabular : ∀ e ∈ entries, ∀ p ∈ parts, p.name = e.1 → p.kind.isTabular e.2) :
    (∃ s', entries.foldlM r.putEntry s = .ok s') ↔
      ∀ e ∈ entries, ∃ p ∈ parts, p.name = e.1 ∧ p.kind.fits e.2 := by
  induction entries generalizing s with
  | nil => exact ⟨fun _ _ he ↦ absurd he List.not_mem_nil, fun _ ↦ ⟨s, rfl⟩⟩
  | cons e entries ih =>
    obtain ⟨he, hentries⟩ := List.forall_mem_cons.1 hproper
    obtain ⟨hte, htentries⟩ := List.forall_mem_cons.1 htabular
    have hput : (∃ s₁, r.putEntry s e = .ok s₁) ↔
        ∃ p ∈ parts, p.name = e.1 ∧ p.kind.fits e.2 := by
      simp only [h.putEntry_eq_ok_iff]
      constructor
      · rintro ⟨s₁, f, hf, hname, hput⟩
        obtain ⟨p, hp, hfor⟩ := h.exists_part hf
        have hpname : p.name = e.1 := hfor.name.symm.trans hname
        exact ⟨p, hp, hpname, (hfor.exists_iff e.2 s he (hte p hp hpname)).1 ⟨s₁, hput⟩⟩
      · rintro ⟨p, hp, hpname, hfits⟩
        obtain ⟨f, hf, hfor⟩ := h.exists_field hp
        obtain ⟨s₁, hput⟩ := (hfor.exists_iff e.2 s he (hte p hp hpname)).2 hfits
        exact ⟨s₁, f, hf, hfor.name.trans hpname, hput⟩
    rw [List.forall_mem_cons, ← hput]
    simp only [List.foldlM_cons, bind_eq_ok_iff]
    constructor
    · rintro ⟨s', s₁, hs₁, hs'⟩
      exact ⟨⟨s₁, hs₁⟩, (ih hentries htentries).1 ⟨s', hs'⟩⟩
    · rintro ⟨⟨s₁, hs₁⟩, hrest⟩
      obtain ⟨s', hs'⟩ := (ih (s := s₁) hentries htentries).2 hrest
      exact ⟨s', s₁, hs₁, hs'⟩

/-- An entry that is taken has the name of a part. -/
theorem name_mem_of_foldlM (hread : entries.foldlM r.putEntry s = .ok s') :
    ∀ e ∈ entries, e.1 ∈ parts.map (·.name) := by
  induction entries generalizing s with
  | nil => exact fun _ he ↦ absurd he List.not_mem_nil
  | cons e entries ih =>
    rw [List.foldlM_cons] at hread
    obtain ⟨s₁, hput, hrest⟩ := bind_eq_ok_iff.1 hread
    obtain ⟨f, hf, hname, -⟩ := h.putEntry_eq_ok_iff.1 hput
    exact List.forall_mem_cons.2 ⟨hname ▸ h.map_name ▸ List.mem_map_of_mem hf, ih hrest⟩

/-- What no field touches is as it was before. -/
theorem foldlM_keeps {γ : Type} {get : σ → γ} (hkeeps : ∀ f ∈ r.fields, f.Keeps get)
    (hread : entries.foldlM r.putEntry s = .ok s') : get s' = get s := by
  induction entries generalizing s with
  | nil => cases hread; rfl
  | cons e entries ih =>
    rw [List.foldlM_cons] at hread
    obtain ⟨s₁, hput, hrest⟩ := bind_eq_ok_iff.1 hread
    obtain ⟨f, hf, -, hput⟩ := h.putEntry_eq_ok_iff.1 hput
    exact (ih hrest).trans (hkeeps f hf _ _ _ hput)

/-- A part of the record is what the entry of its name means, or as it was before. -/
theorem means_or_keeps {p : Part σ} (hp : p ∈ parts) (hkeys : (entries.map (·.1)).Nodup)
    (hproper : ∀ e ∈ entries, e.2.IsProper)
    (htabular : ∀ e ∈ entries, p.name = e.1 → p.kind.isTabular e.2)
    (hread : entries.foldlM r.putEntry s = .ok s') :
    (∃ v, (p.name, v) ∈ entries ∧ p.kind.means v (p.get s')) ∨
      p.name ∉ entries.map (·.1) ∧ p.get s' = p.get s := by
  induction entries generalizing s with
  | nil =>
    cases hread
    exact .inr ⟨List.not_mem_nil, rfl⟩
  | cons e entries ih =>
    obtain ⟨key, v⟩ := e
    obtain ⟨he, hentries⟩ := List.forall_mem_cons.1 hproper
    obtain ⟨hte, htentries⟩ := List.forall_mem_cons.1 htabular
    rw [List.map_cons, List.nodup_cons] at hkeys
    rw [List.foldlM_cons] at hread
    obtain ⟨s₁, hput, hrest⟩ := bind_eq_ok_iff.1 hread
    obtain ⟨f, hf, hname, hput⟩ := h.putEntry_eq_ok_iff.1 hput
    have hrest := ih hkeys.2 hentries htentries hrest
    by_cases hkey : p.name = key
    · -- This is the entry of the part, and no later one is.
      have hmeans := (h.isFor_of_name hf hp (hname.trans hkey.symm)).means v s s₁ he (hte hkey) hput
      rcases hrest with ⟨w, hw, -⟩ | ⟨-, hkept⟩
      · exact absurd (List.mem_map_of_mem hw) (hkey ▸ hkeys.1)
      · exact .inl ⟨v, by rw [hkey]; exact List.mem_cons_self .., hkept ▸ hmeans⟩
    · have hkept := h.keeps hf hp (fun heq ↦ hkey (heq.symm.trans hname)) v s s₁ hput
      rcases hrest with ⟨w, hw, hmeans⟩ | ⟨habsent, hsame⟩
      · exact .inl ⟨w, List.mem_cons_of_mem _ hw, hmeans⟩
      · refine .inr ⟨?_, hsame.trans hkept⟩
        rw [List.map_cons, List.mem_cons]
        rintro (heq | hmem)
        · exact hkey heq
        · exact habsent hmem

/-- Every part that must be given is. -/
theorem missing?_eq_none_iff : r.missing? entries = none ↔
    ∀ p ∈ parts, p.default = none → p.name ∈ entries.map (·.1) := by
  have hany : ∀ name, (entries.any fun e ↦ e.1 == name) = true ↔ name ∈ entries.map (·.1) := by
    simp
  simp only [missing?, Option.map_eq_none_iff, List.find?_eq_none, Bool.and_eq_true, beq_iff_eq,
    Bool.not_eq_true', not_and, Bool.not_eq_false, hany]
  constructor
  · intro hall p hp hdefault
    obtain ⟨f, hf, hfor⟩ := h.exists_field hp
    exact hfor.name ▸ hall f hf (hfor.required_iff.2 hdefault)
  · intro hall f hf hrequired
    obtain ⟨p, hp, hfor⟩ := h.exists_part hf
    exact hfor.name ▸ hall p hp (hfor.required_iff.1 hrequired)

theorem ofMapping_eq_ok_iff : r.ofMapping entries = .ok s ↔
    entries.foldlM r.putEntry r.blank = .ok s ∧
      ∀ p ∈ parts, p.default = none → p.name ∈ entries.map (·.1) := by
  rw [RecordShape.ofMapping_eq_ok_iff, h.missing?_eq_none_iff]

/-- Entries of different keys are taken in any order. -/
theorem foldlM_perm (hperm : entries'.Perm entries) (hkeys : (entries.map (·.1)).Nodup)
    (hread : entries.foldlM r.putEntry s = .ok s') : entries'.foldlM r.putEntry s = .ok s' := by
  induction hperm generalizing s with
  | nil => exact hread
  | cons e _ ih =>
    rw [List.foldlM_cons] at hread ⊢
    obtain ⟨s₁, hput, hrest⟩ := bind_eq_ok_iff.1 hread
    exact bind_eq_ok_iff.2 ⟨s₁, hput, ih (List.nodup_cons.1 hkeys).2 hrest⟩
  | swap e e' rest =>
    simp only [List.foldlM_cons, bind_eq_ok_iff] at hread ⊢
    obtain ⟨s₁, hput, s₂, hput', hrest⟩ := hread
    obtain ⟨f, hf, hname, hput⟩ := h.putEntry_eq_ok_iff.1 hput
    obtain ⟨g, hg, hname', hput'⟩ := h.putEntry_eq_ok_iff.1 hput'
    have hne : f.name ≠ g.name := by
      rw [hname, hname']
      rw [List.map_cons, List.nodup_cons] at hkeys
      exact fun heq ↦ hkeys.1 (List.mem_cons.2 (.inl heq))
    obtain ⟨s₃, hfirst, hsecond⟩ := h.commutes hf hg hne _ _ _ _ _ hput hput'
    exact ⟨s₃, h.putEntry_eq_ok_iff.2 ⟨g, hg, hname', hfirst⟩, s₂,
      h.putEntry_eq_ok_iff.2 ⟨f, hf, hname, hsecond⟩, hrest⟩
  | trans _ hperm ih ih' => exact ih ((hperm.map _).nodup_iff.2 hkeys) (ih' hkeys hread)

/-- An entry whose value has its keys in another order is taken alike. -/
theorem foldlM_entry {before after : List (String × Toml)} {key : String} (hv : v.IsProper)
    (hvalue : v.PermutesKeys v')
    (hread : (before ++ (key, v) :: after).foldlM r.putEntry s = .ok s') :
    (before ++ (key, v') :: after).foldlM r.putEntry s = .ok s' := by
  simp only [List.foldlM_append, List.foldlM_cons, bind_eq_ok_iff] at hread ⊢
  obtain ⟨s₁, hbefore, s₂, hput, hafter⟩ := hread
  obtain ⟨f, hf, hname, hput⟩ := h.putEntry_eq_ok_iff.1 hput
  obtain ⟨p, -, hfor⟩ := h.exists_part hf
  exact ⟨s₁, hbefore, s₂,
    h.putEntry_eq_ok_iff.2 ⟨f, hf, hname, hfor.permuted _ _ _ _ hv hvalue hput⟩, hafter⟩

/-- So is an item, where the record is read from a sequence. -/
theorem putItems_item {allowsSurplus : Bool} {length : Nat} {fields : List (Field Toml σ)}
    {before after : List Toml} (hfields : fields ⊆ r.fields) (hv : v.IsProper)
    (hvalue : v.PermutesKeys v')
    (hread : r.putItems allowsSurplus length fields (before ++ v :: after) s = .ok s') :
    r.putItems allowsSurplus length fields (before ++ v' :: after) s = .ok s' := by
  induction fields generalizing before s with
  | nil =>
    cases before with
    | nil => exact hread
    | cons _ _ => exact hread
  | cons f fields ih =>
    obtain ⟨hf, hfields⟩ := List.cons_subset.1 hfields
    obtain ⟨p, -, hfor⟩ := h.exists_part hf
    cases before with
    | nil =>
      simp only [List.nil_append, putItems, bind_eq_ok_iff] at hread ⊢
      obtain ⟨s₁, hput, hrest⟩ := hread
      exact ⟨s₁, hfor.permuted _ _ _ _ hv hvalue hput, hrest⟩
    | cons w before =>
      simp only [List.cons_append, putItems, bind_eq_ok_iff] at hread ⊢
      obtain ⟨s₁, hput, hrest⟩ := hread
      exact ⟨s₁, hput, ih hfields hrest⟩

theorem exists_ofMapping_iff (hproper : ∀ e ∈ entries, e.2.IsProper)
    (htabular : ∀ e ∈ entries, ∀ p ∈ parts, p.name = e.1 → p.kind.isTabular e.2) :
    (∃ s, r.ofMapping entries = .ok s) ↔ (Kind.record parts).fits (.table entries) := by
  simp only [h.ofMapping_eq_ok_iff, exists_and_right, h.exists_foldlM_iff hproper htabular,
    Kind.record, Toml.table.injEq, exists_eq_left']

/-- Each part of a record that is read is what is written there, or else the default. -/
theorem isFrom_of_ofMapping (hkeys : (entries.map (·.1)).Nodup)
    (hproper : ∀ e ∈ entries, e.2.IsProper)
    (htabular : ∀ e ∈ entries, ∀ p ∈ parts, p.name = e.1 → p.kind.isTabular e.2)
    (hread : r.ofMapping entries = .ok s) {p : Part σ} (hp : p ∈ parts) : p.IsFrom entries s := by
  obtain ⟨hread, hgiven⟩ := h.ofMapping_eq_ok_iff.1 hread
  rcases h.means_or_keeps hp hkeys hproper (fun e he ↦ htabular e he p hp) hread with
    hmeans | ⟨habsent, hkept⟩
  · exact .inl hmeans
  · refine .inr ⟨habsent, ?_⟩
    rw [hkept]
    exact (h.blank p hp).resolve_left fun hnone ↦ habsent (hgiven p hp hnone)

theorem permuted (hv : v.IsProper) (hpermutes : v.PermutesKeys v')
    (hread : r.read dialect v = .ok s) : r.read dialect v' = .ok s := by
  cases hpermutes with
  | keys hperm =>
    cases hv with
    | table hkeys hentries =>
      obtain ⟨hread, hgiven⟩ := h.ofMapping_eq_ok_iff.1 hread
      exact h.ofMapping_eq_ok_iff.2 ⟨h.foldlM_perm hperm hkeys hread,
        fun p hp hnone ↦ (hperm.map _).mem_iff.2 (hgiven p hp hnone)⟩
  | entry hvalue =>
    cases hv with
    | table hkeys hentries =>
      obtain ⟨hread, hgiven⟩ := h.ofMapping_eq_ok_iff.1 hread
      refine h.ofMapping_eq_ok_iff.2
        ⟨h.foldlM_entry (hentries _ List.mem_append_cons_self) hvalue hread,
          fun p hp hnone ↦ ?_⟩
      simpa using hgiven p hp hnone
  | item hvalue =>
    cases hv with
    | array hitems =>
      have hlength : ∀ {before after : List Toml} {v v' : Toml},
          (before ++ v' :: after).length = (before ++ v :: after).length := by simp
      change r.putItems true _ r.fields _ r.blank = _ at hread
      show r.putItems true _ r.fields _ r.blank = _
      rw [hlength]
      exact h.putItems_item (List.Subset.refl _) (hitems _ (by simp)) hvalue hread

/-- A record is read from the tables with its fields and no others. -/
theorem isFor : Shape.IsFor (r.read dialect) (.record parts) where
  exists_iff v hv htabular := by
    obtain ⟨entries, rfl, htabular⟩ := htabular
    cases hv with
    | table hkeys hentries => exact h.exists_ofMapping_iff hentries htabular
  means v s hv htabular hread := by
    obtain ⟨entries, rfl, htabular⟩ := htabular
    cases hv with
    | table hkeys hentries =>
      exact ⟨entries, rfl, fun _ ↦ h.isFrom_of_ofMapping hkeys hentries htabular hread⟩
  permuted _ _ _ hv hpermutes hread := h.permuted hv hpermutes hread

end RecordShape.Follows

end Records

end ToolAccess
