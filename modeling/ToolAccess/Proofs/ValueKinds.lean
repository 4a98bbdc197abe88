import Mathlib.Data.List.Perm.Basic
import ToolAccess.Settings.Reader
import ToolAccess.Proofs.Attempts
import ToolAccess.Proofs.TomlTables

/-!
# What documents hold

What is wanted of the values in a document, told apart from how they are read: a kind says which
values belong to it and what they mean, and a record is a table with some fields, each of a kind.
A reader is right for a kind if it takes exactly the values of the kind, gives what they mean, and
does not depend on the order in which the keys of tables are written.

## What the proof rests on

* `Shape.IsFor.list`: a list is read item by item, so its reader is right if that of its items is.
* `asWordTable_isFor`: the keys of a table are distinct (`Toml.IsProper`), so the sorted map that
  is read from it holds each of its entries.

Records are in `ToolAccess.Proofs.RecordReading`.
-/

namespace ToolAccess

open Toml

/-! ### What is wanted of a value -/

/-- What is wanted of a value from which a `β` is read. -/
structure Kind (β : Type) where
  /-- Wherever a record is wanted in the value, there is a table. -/
  isTabular : Toml → Prop
  /-- The value is of this kind. -/
  fits : Toml → Prop
  /-- What the value means. -/
  means : Toml → β → Prop

/-- A field that is wanted in a record: its name, the kind of its value, and where the record has
it. -/
structure Part (σ : Type) where
  name : String
  Value : Type
  kind : Kind Value
  get : σ → Value
  /-- What the record has if the field is left out; without it, the field must be given. -/
  default : Option Value

namespace Part

variable {σ β : Type}

/-- A field that must be given. -/
def required (name : String) (kind : Kind β) (get : σ → β) : Part σ := ⟨name, β, kind, get, none⟩

/-- A field that may be left out. -/
def optional (name : String) (kind : Kind β) (get : σ → β) (default : β) : Part σ :=
  ⟨name, β, kind, get, some default⟩

/-- The record has in this field what is written in the entries of a table, or else the default. -/
def IsFrom (p : Part σ) (entries : List (String × Toml)) (s : σ) : Prop :=
  (∃ v, (p.name, v) ∈ entries ∧ p.kind.means v (p.get s)) ∨
    p.name ∉ entries.map (·.1) ∧ p.default = some (p.get s)

end Part

namespace Kind

variable {β σ : Type}

/-- A text. -/
def text : Kind String where
  isTabular _ := True
  fits v := ∃ s, v = .string s
  means v s := v = .string s

/-- A text that is a path. -/
def path : Kind Path where
  isTabular _ := True
  fits v := ∃ s, v = .string s
  means v p := v = .string p.text

/-- A whole number that fits in 64 bits with a sign. -/
def int64 : Kind Int64 where
  isTabular _ := True
  fits v := ∃ n, v = .integer n ∧ Fits64 n
  means v n := v = .integer n.toInt

/-- Such a number that is not negative. -/
def seconds : Kind UInt64 where
  isTabular _ := True
  fits v := ∃ n, v = .integer n ∧ Fits64 n ∧ 0 ≤ n
  means v n := v = .integer n.toNat

/-- A list, read item by item in its order. -/
def list (item : Kind β) : Kind (List β) where
  isTabular v := ∀ items, v = .array items → ∀ x ∈ items, item.isTabular x
  fits v := ∃ items, v = .array items ∧ ∀ x ∈ items, item.fits x
  means v l := ∃ items, v = .array items ∧ List.Forall₂ item.means items l

/-- A table of lists of texts, with free names. -/
def words : Kind (SortedMap String (List String)) where
  isTabular _ := True
  fits v := ∃ entries, v = .table entries ∧ ∀ e ∈ entries, (list text).fits e.2
  means v m := ∃ entries, v = .table entries ∧ ∃ l, m.entries.Perm l ∧
    List.Forall₂ (fun e x ↦ e.1 = x.1 ∧ (list text).means e.2 x.2) entries l

/-- A value that may be missing, if it is given. -/
def given (kind : Kind β) : Kind (Option β) where
  isTabular := kind.isTabular
  fits := kind.fits
  means v b? := ∃ b, b? = some b ∧ kind.means v b

/-- A table with these fields and no others. -/
def record (parts : List (Part σ)) : Kind σ where
  isTabular v := ∃ entries, v = .table entries ∧
    ∀ e ∈ entries, ∀ p ∈ parts, p.name = e.1 → p.kind.isTabular e.2
  fits v := ∃ entries, v = .table entries ∧
    (∀ e ∈ entries, ∃ p ∈ parts, p.name = e.1 ∧ p.kind.fits e.2) ∧
    ∀ p ∈ parts, p.default = none → p.name ∈ entries.map (·.1)
  means v s := ∃ entries, v = .table entries ∧ ∀ p ∈ parts, p.IsFrom entries s

/-- A table of the right kind has no keys but the names of the fields. -/
theorem key_mem_of_fits {parts : List (Part σ)} {entries : List (String × Toml)}
    (h : (record parts).fits (.table entries)) : ∀ e ∈ entries, e.1 ∈ parts.map (·.name) := by
  obtain ⟨_, ⟨⟩, hfits, -⟩ := h
  intro e he
  obtain ⟨p, hp, hname, -⟩ := hfits e he
  exact List.mem_map.2 ⟨p, hp, hname⟩

end Kind

/-! ### The order of keys -/

/-- The keys of one table are put in another order, somewhere in a value. -/
inductive Toml.PermutesKeys : Toml → Toml → Prop
  | keys {entries entries' : List (String × Toml)} (hperm : entries'.Perm entries) :
    PermutesKeys (.table entries) (.table entries')
  | entry {before after : List (String × Toml)} {key : String} {v v' : Toml}
    (hvalue : PermutesKeys v v') :
    PermutesKeys (.table (before ++ (key, v) :: after)) (.table (before ++ (key, v') :: after))
  | item {before after : List Toml} {v v' : Toml} (hitem : PermutesKeys v v') :
    PermutesKeys (.array (before ++ v :: after)) (.array (before ++ v' :: after))

theorem Toml.PermutesKeys.isProper {v v' : Toml} (h : v.PermutesKeys v') (hv : v.IsProper) :
    v'.IsProper := by
  induction h with
  | keys hperm =>
    cases hv with
    | table hkeys hentries =>
      exact .table ((hperm.map _).nodup_iff.2 hkeys) fun e he ↦ hentries e (hperm.mem_iff.1 he)
  | entry _ ih =>
    cases hv with
    | table hkeys hentries =>
      simp only [List.forall_mem_append, List.forall_mem_cons] at hentries
      obtain ⟨hbefore, hvalue, hafter⟩ := hentries
      refine .table (by simpa using hkeys) ?_
      simp only [List.forall_mem_append, List.forall_mem_cons]
      exact ⟨hbefore, ih hvalue, hafter⟩
  | item _ ih =>
    cases hv with
    | array hitems =>
      simp only [List.forall_mem_append, List.forall_mem_cons] at hitems
      obtain ⟨hbefore, hitem, hafter⟩ := hitems
      refine .array ?_
      simp only [List.forall_mem_append, List.forall_mem_cons]
      exact ⟨hbefore, ih hitem, hafter⟩

theorem Toml.PermutesKeys.symm {v v' : Toml} (h : v.PermutesKeys v') : v'.PermutesKeys v := by
  induction h with
  | keys hperm => exact .keys hperm.symm
  | entry _ ih => exact .entry ih
  | item _ ih => exact .item ih

/-! ### Readers -/

/-- A reader is right for a kind: it takes the values of this kind, gives what they say, and does
not depend on the order of keys. -/
structure Shape.IsFor {β : Type} (shape : Shape Toml β) (kind : Kind β) : Prop where
  exists_iff : ∀ v : Toml, v.IsProper → kind.isTabular v → ((∃ b, shape v = .ok b) ↔ kind.fits v)
  means : ∀ (v : Toml) b, v.IsProper → kind.isTabular v → shape v = .ok b → kind.means v b
  permuted : ∀ (v v' : Toml) b, v.IsProper → v.PermutesKeys v' → shape v = .ok b → shape v' = .ok b

section Readers

variable {β : Type} {shape : Shape Toml β} {kind : Kind β}

/-- A reader that takes neither tables nor arrays does not depend on keys. -/
theorem permuted_of_scalar (htable : ∀ entries b, shape (.table entries) ≠ .ok b)
    (harray : ∀ items b, shape (.array items) ≠ .ok b) (v v' : Toml) (b : β) (_ : v.IsProper)
    (h : v.PermutesKeys v') (hread : shape v = .ok b) : shape v' = .ok b := by
  cases h with
  | keys | entry => exact absurd hread (htable _ _)
  | item => exact absurd hread (harray _ _)

theorem asText_eq_ok_iff {v : Toml} {s : String} : asText v = .ok s ↔ v = .string s := by
  cases v <;> simp [asText, Shape.string, dialect, view]

theorem asText_isFor : Shape.IsFor asText .text where
  exists_iff _ _ _ := exists_congr fun _ ↦ asText_eq_ok_iff
  means _ _ _ _ h := asText_eq_ok_iff.1 h
  permuted := permuted_of_scalar (fun _ _ ↦ nofun) fun _ _ ↦ nofun

theorem asPath_eq_ok_iff {v : Toml} {p : Path} : asPath v = .ok p ↔ v = .string p.text := by
  obtain ⟨text⟩ := p
  cases v <;> simp [asPath, Shape.string, dialect, view, map_eq_ok_iff]

theorem asPath_isFor : Shape.IsFor asPath .path where
  exists_iff v _ _ := by
    simp only [asPath_eq_ok_iff, Kind.path]
    exact ⟨fun ⟨p, h⟩ ↦ ⟨p.text, h⟩, fun ⟨s, h⟩ ↦ ⟨⟨s⟩, h⟩⟩
  means _ _ _ _ h := asPath_eq_ok_iff.1 h
  permuted := permuted_of_scalar (fun _ _ ↦ nofun) fun _ _ ↦ nofun

theorem fits64_iff {n : Int} : Fits64 n ↔ ∃ m : Int64, n = m.toInt := by
  constructor
  · intro h
    have hrange : -2 ^ 63 ≤ n ∧ n < 2 ^ 63 := ⟨h.1, Int.lt_add_one_of_le h.2⟩
    exact ⟨Int64.ofInt n, (Int64.toInt_ofInt_of_le hrange.1 hrange.2).symm⟩
  · rintro ⟨m, rfl⟩
    exact ⟨Int64.minValue_le_toInt m, Int64.toInt_le m⟩

theorem int64_eq_ok_iff {v : Toml} {n : Int64} :
    Shape.int64 dialect v = .ok n ↔ v = .integer n.toInt := by
  cases v with
  | integer m =>
    simp only [Shape.int64, dialect, view, Toml.integer.injEq]
    split
    case isTrue hrange =>
      obtain ⟨k, rfl⟩ := fits64_iff.1 hrange
      rw [Except.ok.injEq, Int64.ofInt_toInt, Int64.toInt_inj]
    case isFalse hrange =>
      refine iff_of_false (by rintro ⟨⟩) ?_
      rintro rfl
      exact hrange (fits64_iff.2 ⟨n, rfl⟩)
  | _ => simp [Shape.int64, dialect, view]

theorem int64_isFor : Shape.IsFor (Shape.int64 dialect) .int64 where
  exists_iff v _ _ := by
    simp only [int64_eq_ok_iff, Kind.int64, fits64_iff]
    exact ⟨fun ⟨n, h⟩ ↦ ⟨_, h, n, rfl⟩, by rintro ⟨_, h, n, rfl⟩; exact ⟨n, h⟩⟩
  means _ _ _ _ h := int64_eq_ok_iff.1 h
  permuted := permuted_of_scalar (fun _ _ ↦ nofun) fun _ _ ↦ nofun

theorem uint64_eq_ok_iff {v : Toml} {n : UInt64} :
    Shape.uint64 dialect v = .ok n ↔ v = .integer n.toNat := by
  cases v with
  | integer m =>
    simp only [Shape.uint64, dialect, view, Toml.integer.injEq]
    split
    case isTrue hrange =>
      obtain ⟨k, rfl⟩ := Int.eq_ofNat_of_zero_le hrange.1
      have hk : k < UInt64.size := by exact_mod_cast hrange.2
      rw [Except.ok.injEq, ← UInt64.toNat_inj, Int.toNat_natCast, UInt64.toNat_ofNat_of_lt' hk,
        Int.natCast_inj]
    case isFalse hrange =>
      refine iff_of_false (by rintro ⟨⟩) ?_
      rintro rfl
      exact hrange ⟨Int.natCast_nonneg _, by exact_mod_cast n.toNat_lt⟩
  | _ => simp [Shape.uint64, dialect, view]

theorem uint64_isFor : Shape.IsFor (Shape.uint64 dialect) .seconds where
  exists_iff v hv _ := by
    simp only [uint64_eq_ok_iff, Kind.seconds]
    constructor
    · rintro ⟨n, rfl⟩
      cases hv with
      | integer hrange => exact ⟨_, rfl, hrange, Int.natCast_nonneg _⟩
    · rintro ⟨n, rfl, hrange, hnonneg⟩
      obtain ⟨k, rfl⟩ := Int.eq_ofNat_of_zero_le hnonneg
      have hk : k < UInt64.size := by
        have hmax : (k : Int) ≤ 2 ^ 63 - 1 := hrange.2
        rw [UInt64.size]
        omega
      exact ⟨UInt64.ofNat k, by rw [UInt64.toNat_ofNat_of_lt' hk]⟩
  means _ _ _ _ h := uint64_eq_ok_iff.1 h
  permuted := permuted_of_scalar (fun _ _ ↦ nofun) fun _ _ ↦ nofun

theorem exists_forall₂_iff {α γ : Type} {R : α → γ → Prop} {l : List α} :
    (∃ bs, List.Forall₂ R l bs) ↔ ∀ a ∈ l, ∃ b, R a b := by
  induction l with
  | nil => exact ⟨fun _ _ h ↦ absurd h List.not_mem_nil, fun _ ↦ ⟨[], .nil⟩⟩
  | cons a l ih =>
    rw [List.forall_mem_cons, ← ih]
    constructor
    · rintro ⟨_, hbs⟩
      cases hbs with
      | cons hab hl => exact ⟨⟨_, hab⟩, _, hl⟩
    · rintro ⟨⟨b, hab⟩, bs, hl⟩
      exact ⟨b :: bs, .cons hab hl⟩

/-- One element of a list is replaced by one that is related to the same. -/
theorem forall₂_replace {α γ : Type} {R : α → γ → Prop} {before after : List α} {a a' : α}
    {bs : List γ} (ha : ∀ b, R a b → R a' b) (h : List.Forall₂ R (before ++ a :: after) bs) :
    List.Forall₂ R (before ++ a' :: after) bs := by
  induction before generalizing bs with
  | nil =>
    cases h with
    | cons hab hl => exact .cons (ha _ hab) hl
  | cons c before ih =>
    cases h with
    | cons hcb hl => exact .cons hcb (ih hl)

/-! ### Lists -/

theorem list_eq_ok_iff {v : Toml} {l : List β} : Shape.list dialect shape v = .ok l ↔
    ∃ items, v = .array items ∧ List.Forall₂ (fun x b ↦ shape x = .ok b) items l := by
  cases v <;> simp [Shape.list, dialect, view, mapM_eq_ok_iff]

theorem Shape.IsFor.list (h : Shape.IsFor shape kind) :
    Shape.IsFor (Shape.list dialect shape) (.list kind) where
  exists_iff v hv htabular := by
    simp only [list_eq_ok_iff, exists_comm (α := List β), exists_and_left, exists_forall₂_iff]
    refine exists_congr fun items ↦ and_congr_right ?_
    rintro rfl
    cases hv with
    | array hitems =>
      exact forall₂_congr fun x hx ↦ h.exists_iff x (hitems x hx) (htabular items rfl x hx)
  means v l hv htabular hread := by
    obtain ⟨items, rfl, hitems⟩ := list_eq_ok_iff.1 hread
    cases hv with
    | array hproper =>
      refine ⟨items, rfl, List.forall₂_iff_zip.2 ⟨hitems.length_eq, fun hzip ↦ ?_⟩⟩
      have hx := (List.of_mem_zip hzip).1
      exact h.means _ _ (hproper _ hx) (htabular items rfl _ hx)
        ((List.forall₂_iff_zip.1 hitems).2 hzip)
  permuted v v' l hv hpermutes hread := by
    obtain ⟨items, rfl, hitems⟩ := list_eq_ok_iff.1 hread
    cases hpermutes with
    | item hitem =>
      cases hv with
      | array hproper =>
        exact list_eq_ok_iff.2 ⟨_, rfl, forall₂_replace
          (fun b ↦ h.permuted _ _ b (hproper _ (by simp)) hitem) hitems⟩

theorem asTexts_isFor : Shape.IsFor asTexts (.list .text) := asText_isFor.list

/-! ### Tables with free names -/

/-- The entry of a table of words is read as one of the map. -/
def ReadsWords (e : String × Toml) (x : String × List String) : Prop :=
  e.1 = x.1 ∧ asTexts e.2 = .ok x.2

theorem asWordTable_eq_ok_iff {v : Toml} {m : SortedMap String (List String)} :
    asWordTable v = .ok m ↔ ∃ entries, v = .table entries ∧
      ∃ l, List.Forall₂ ReadsWords entries l ∧ SortedMap.ofList l = m := by
  have hentry : ∀ e x, ((asTexts e.2).map (e.1, ·) : Except ShapeError _) = .ok x ↔
      ReadsWords e x := by
    rintro ⟨key, v⟩ ⟨name, words⟩
    simp [map_eq_ok_iff, ReadsWords, and_comm]
  rw [asWordTable, map_eq_ok_iff]
  cases v with
  | table entries =>
    simp only [Shape.table, dialect, view, mapM_eq_ok_iff, hentry]
    simp
  -- A date is seen as a table, but its one entry is no list.
  | datetime text =>
    have hdate : Shape.table dialect asTexts (.datetime text) =
        .error (.wrongKind (View.string text : View Toml).found "a sequence") := rfl
    simp [hdate]
  | _ => simp [Shape.table, dialect, view]

theorem keys_of_readsWords {entries : List (String × Toml)} {l : List (String × List String)}
    (h : List.Forall₂ ReadsWords entries l) : entries.map (·.1) = l.map (·.1) := by
  rw [← List.forall₂_eq_eq_eq, List.forall₂_map_left_iff, List.forall₂_map_right_iff]
  exact h.imp fun _ _ he ↦ he.1

theorem asWordTable_isFor : Shape.IsFor asWordTable .words where
  exists_iff v hv _ := by
    have htexts : ∀ e : String × Toml, e.2.IsProper →
        ((∃ x, ReadsWords e x) ↔ (Kind.list .text).fits e.2) := fun e he ↦ by
      rw [← asTexts_isFor.exists_iff e.2 he fun _ _ _ _ ↦ trivial]
      exact ⟨fun ⟨x, hx⟩ ↦ ⟨x.2, hx.2⟩, fun ⟨ws, hws⟩ ↦ ⟨(e.1, ws), rfl, hws⟩⟩
    constructor
    · rintro ⟨m, hread⟩
      obtain ⟨entries, rfl, l, hl, -⟩ := asWordTable_eq_ok_iff.1 hread
      cases hv with
      | table hkeys hentries =>
        exact ⟨entries, rfl, fun e he ↦
          (htexts e (hentries e he)).1 (exists_forall₂_iff.1 ⟨l, hl⟩ e he)⟩
    · rintro ⟨entries, rfl, hfits⟩
      cases hv with
      | table hkeys hentries =>
        obtain ⟨l, hl⟩ := exists_forall₂_iff.2 fun e he ↦
          (htexts e (hentries e he)).2 (hfits e he)
        exact ⟨_, asWordTable_eq_ok_iff.2 ⟨entries, rfl, l, hl, rfl⟩⟩
  means v m hv _ hread := by
    obtain ⟨entries, rfl, l, hl, rfl⟩ := asWordTable_eq_ok_iff.1 hread
    cases hv with
    | table hkeys hentries =>
      rw [keys_of_readsWords hl] at hkeys
      refine ⟨entries, rfl, l, SortedMap.perm_ofList hkeys,
        List.forall₂_iff_zip.2 ⟨hl.length_eq, fun hzip ↦ ?_⟩⟩
      have he := (List.of_mem_zip hzip).1
      obtain ⟨hname, hwords⟩ := (List.forall₂_iff_zip.1 hl).2 hzip
      exact ⟨hname, asTexts_isFor.means _ _ (hentries _ he) (fun _ _ _ _ ↦ trivial) hwords⟩
  permuted v v' m hv hpermutes hread := by
    obtain ⟨entries, rfl, l, hl, rfl⟩ := asWordTable_eq_ok_iff.1 hread
    cases hv with
    | table hkeys hentries =>
      cases hpermutes with
      | keys hperm =>
        obtain ⟨l', hl', hperm'⟩ := List.perm_comp_forall₂ hperm hl
        rw [keys_of_readsWords hl] at hkeys
        exact asWordTable_eq_ok_iff.2 ⟨_, rfl, l', hl', SortedMap.ofList_eq_of_perm hperm' hkeys⟩
      | entry hvalue =>
        refine asWordTable_eq_ok_iff.2 ⟨_, rfl, l, forall₂_replace (fun x hx ↦ ?_) hl, rfl⟩
        exact ⟨hx.1, asTexts_isFor.permuted _ _ _ (hentries _ (by simp)) hvalue hx.2⟩

end Readers

end ToolAccess
