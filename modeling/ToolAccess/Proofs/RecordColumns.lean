import Mathlib.Data.List.Pairwise
import ToolAccess.Shape.Record
import ToolAccess.Proofs.Attempts
import ToolAccess.Proofs.Lookups

/-!
# Records are read column by column

A record that ignores unknown names is told by its columns: for each of them a name, a reader of its
values, and where the record has it. Reading such a record, from a mapping or from a sequence, is
described here for each column by itself.

## What the proof rests on

* `putEntry_eq_ok_iff`: one entry sets the column of its name and leaves the others alone.
* `foldlM_putEntry_eq_ok_iff`: after all entries, a column has what the entry of its name says, or
  what it had before. The induction needs a record that is half read, which exists since a column
  can be set without touching the others (`exists_mixed`).
* `putItems_eq_ok_iff`: a sequence is read as the mapping that gives its items the names of the
  columns. Only at its end may columns be left out, and only optional ones.

The main results are `RecordShape.HasColumns.ofMapping_eq_ok_iff` and
`RecordShape.HasColumns.read_sequence_eq_ok_iff`.
-/

namespace ToolAccess

/-! ### Columns -/

/-- A column of a record: a name, a reader of its values, and where the record has it. -/
structure Column (α σ : Type) where
  name : String
  presence : Presence
  Value : Type
  shape : Shape α Value
  get : σ → Value
  set : Value → σ → σ

namespace Column

variable {α σ : Type}

/-- The field by which the column is read. -/
def field (c : Column α σ) : Field α σ := .ofShape c.name c.presence c.shape c.set

@[simp] theorem field_name (c : Column α σ) : c.field.name = c.name := rfl

@[simp] theorem field_presence (c : Column α σ) : c.field.presence = c.presence := rfl

/-- What the second record has in the column, if it is read over the first from a value, or without
one. -/
def Takes (c : Column α σ) (given : Option α) (before after : σ) : Prop :=
  match given with
  | some v => c.shape v = .ok (c.get after)
  | none => c.get after = c.get before

/-- What the record has in the column is what the value says, or without a value what a blank record
has, if the column may be left out. -/
def Reads (c : Column α σ) (blank : σ) (given : Option α) (s : σ) : Prop :=
  match given with
  | some v => c.shape v = .ok (c.get s)
  | none => c.presence ≠ .required ∧ c.get s = c.get blank

/-- Two columns have different names and are about different parts of the record. -/
@[mk_iff] structure Apart (c d : Column α σ) : Prop where
  name : c.name ≠ d.name
  get_set_right : ∀ b s, d.get (c.set b s) = d.get s
  get_set_left : ∀ b s, c.get (d.set b s) = c.get s

instance : Std.Symm (Apart (α := α) (σ := σ)) where
  symm _ _ h := ⟨h.name.symm, h.get_set_left, h.get_set_right⟩

section Takes

variable {c : Column α σ} {given given' : Option α} {v : α} {s s' t : σ}

theorem takes_some_iff : c.Takes (some v) s s' ↔ c.shape v = .ok (c.get s') := Iff.rfl

theorem takes_none_iff : c.Takes none s s' ↔ c.get s' = c.get s := Iff.rfl

/-- Of two readings in a row the later one counts, where it has a value. -/
theorem Takes.trans (h : c.Takes given s t) (h' : c.Takes given' t s') :
    c.Takes (given'.or given) s s' := by
  cases given' with
  | some v => exact h'
  | none =>
    rw [takes_none_iff] at h'
    cases given with
    | some v => rwa [Option.none_or, takes_some_iff, h']
    | none => rwa [Option.none_or, takes_none_iff, h']

/-- Of the record from which one starts, only this column counts. -/
theorem Takes.congr_left (h : c.Takes given s s') (hsame : c.get t = c.get s) :
    c.Takes given t s' := by
  cases given with
  | some v => exact h
  | none => rwa [takes_none_iff, hsame]

/-- So it does of the record at which one arrives. -/
theorem Takes.congr_right (h : c.Takes given s s') (hsame : c.get t = c.get s') :
    c.Takes given s t := by
  cases given with
  | some v => rwa [takes_some_iff, hsame]
  | none => rwa [takes_none_iff, hsame]

end Takes

theorem reads_iff {c : Column α σ} {blank s : σ} {given : Option α} :
    c.Reads blank given s ↔
      c.Takes given blank s ∧ (c.presence = .required → given.isSome = true) := by
  cases given with
  | some v => simp [Reads, Takes]
  | none => simp [Reads, Takes, and_comm]

end Column

namespace RecordShape

variable {α σ : Type}

/-- A record is read from a mapping if its entries can be put in and no required field is
missing. -/
theorem ofMapping_eq_ok_iff {r : RecordShape α σ} {entries : List (String × α)} {s : σ} :
    r.ofMapping entries = .ok s ↔
      entries.foldlM r.putEntry r.blank = .ok s ∧ r.missing? entries = none := by
  rw [ofMapping, bind_eq_ok_iff]
  constructor
  · rintro ⟨t, hread, hend⟩
    split at hend
    · cases hend
    · next hmissing =>
      cases hend
      exact ⟨hread, hmissing⟩
  · rintro ⟨hread, hmissing⟩
    exact ⟨s, hread, by rw [hmissing]⟩

/-- The record has these columns and ignores other names. -/
structure HasColumns (r : RecordShape α σ) (columns : List (Column α σ)) : Prop where
  ignores : r.closed = false
  fields : r.fields = columns.map Column.field
  apart : columns.Pairwise Column.Apart
  get_set : ∀ c ∈ columns, ∀ b s, c.get (c.set b s) = b
  ext : ∀ s t, (∀ c ∈ columns, c.get s = c.get t) → s = t

namespace HasColumns

variable {r : RecordShape α σ} {columns : List (Column α σ)} {s s' : σ} {v : α}
  {entries : List (String × α)} (h : r.HasColumns columns)
include h

theorem nodup_names : (columns.map (·.name)).Nodup :=
  List.pairwise_map.2 (h.apart.imp fun h ↦ h.name)

/-- A column is known by its name. -/
theorem eq_of_name {c d : Column α σ} (hc : c ∈ columns) (hd : d ∈ columns)
    (hname : c.name = d.name) : c = d :=
  List.inj_on_of_nodup_map h.nodup_names hc hd hname

theorem get_set_of_ne {c d : Column α σ} (hc : c ∈ columns) (hd : d ∈ columns)
    (hne : c.name ≠ d.name) (b : c.Value) (s : σ) : d.get (c.set b s) = d.get s :=
  (h.apart.forall hc hd fun heq ↦ hne (congrArg Column.name heq)).get_set_right b s

/-- There is a record that is like the second one in the column of a name and like the first one in
the others. -/
theorem exists_mixed (s s' : σ) (key : String) : ∃ t, ∀ c ∈ columns,
    c.get t = if c.name = key then c.get s' else c.get s := by
  by_cases hkey : ∃ d ∈ columns, d.name = key
  · obtain ⟨d, hd, rfl⟩ := hkey
    refine ⟨d.set (d.get s') s, fun c hc ↦ ?_⟩
    by_cases hname : c.name = d.name
    · obtain rfl := h.eq_of_name hc hd hname
      rw [if_pos rfl, h.get_set c hc]
    · rw [if_neg hname, h.get_set_of_ne hd hc (Ne.symm hname)]
  · exact ⟨s, fun c hc ↦ (if_neg fun hname ↦ hkey ⟨c, hc, hname⟩).symm⟩

/-! ### Mappings -/

/-- An entry with the name of a column is put into its field. -/
theorem putEntry_of_mem {c : Column α σ} (hc : c ∈ columns) (v : α) (s : σ) :
    r.putEntry s (c.name, v) = c.field.put v s := by
  have hfield : c.field ∈ r.fields := h.fields ▸ List.mem_map_of_mem hc
  rw [putEntry]
  split
  next f hfind =>
    obtain ⟨d, hd, rfl⟩ := List.mem_map.1 (h.fields ▸ List.mem_of_find?_eq_some hfind)
    have hname : d.name = c.name := by simpa using List.find?_some hfind
    rw [h.eq_of_name hd hc hname]
  next hnone => exact absurd (beq_self_eq_true c.name) (List.find?_eq_none.1 hnone _ hfield)

/-- An entry with another name is ignored. -/
theorem putEntry_of_forall_ne {key : String} (hkey : ∀ c ∈ columns, c.name ≠ key) (v : α) (s : σ) :
    r.putEntry s (key, v) = .ok s := by
  rw [putEntry]
  split
  next f hfind =>
    obtain ⟨d, hd, rfl⟩ := List.mem_map.1 (h.fields ▸ List.mem_of_find?_eq_some hfind)
    have hname : d.name = key := by simpa using List.find?_some hfind
    exact absurd hname (hkey d hd)
  next => rw [if_neg (by rw [h.ignores]; exact Bool.false_ne_true)]

/-- **One entry** sets the column of its name and leaves the others alone. -/
theorem putEntry_eq_ok_iff {key : String} : r.putEntry s (key, v) = .ok s' ↔
    ∀ c ∈ columns, c.Takes (if c.name = key then some v else none) s s' := by
  by_cases hkey : ∃ d ∈ columns, d.name = key
  · obtain ⟨d, hd, rfl⟩ := hkey
    rw [h.putEntry_of_mem hd, Column.field, Field.ofShape, map_eq_ok_iff]
    constructor
    · rintro ⟨b, hb, rfl⟩ c hc
      by_cases hname : c.name = d.name
      · obtain rfl := h.eq_of_name hc hd hname
        rw [if_pos rfl, Column.Takes, h.get_set c hc]
        exact hb
      · rw [if_neg hname]
        exact h.get_set_of_ne hd hc (Ne.symm hname) b s
    · intro htakes
      have hd' := htakes d hd
      rw [if_pos rfl] at hd'
      refine ⟨d.get s', hd', h.ext _ _ fun c hc ↦ ?_⟩
      by_cases hname : c.name = d.name
      · obtain rfl := h.eq_of_name hc hd hname
        rw [h.get_set c hc]
      · have hc' := htakes c hc
        rw [if_neg hname] at hc'
        rw [h.get_set_of_ne hd hc (Ne.symm hname)]
        exact hc'.symm
  · have hne : ∀ c ∈ columns, c.name ≠ key := fun c hc hname ↦ hkey ⟨c, hc, hname⟩
    rw [h.putEntry_of_forall_ne hne, Except.ok.injEq]
    constructor
    · rintro rfl c hc
      rw [if_neg (hne c hc)]
      exact rfl
    · refine fun htakes ↦ h.ext _ _ fun c hc ↦ ?_
      have hc' := htakes c hc
      rw [if_neg (hne c hc)] at hc'
      exact hc'.symm

/-- **All entries.** Each column has what the entry of its name says, or what it had before. -/
theorem foldlM_putEntry_eq_ok_iff (hkeys : (entries.map (·.1)).Nodup) :
    entries.foldlM r.putEntry s = .ok s' ↔
      ∀ c ∈ columns, c.Takes (entries.lookup c.name) s s' := by
  induction entries generalizing s with
  | nil =>
    rw [List.foldlM_nil]
    constructor
    · rintro ⟨⟩ c -
      exact rfl
    · exact fun htakes ↦ congrArg _ (h.ext _ _ fun c hc ↦ (htakes c hc).symm)
  | cons e entries ih =>
    obtain ⟨key, v⟩ := e
    obtain ⟨hnew, hkeys⟩ := List.nodup_cons.1 hkeys
    have hlater : entries.lookup key = none := lookup_eq_none_iff.2 hnew
    simp only [List.foldlM_cons, bind_eq_ok_iff, h.putEntry_eq_ok_iff, ih hkeys]
    constructor
    · rintro ⟨t, hfirst, hrest⟩ c hc
      have hboth := (hfirst c hc).trans (hrest c hc)
      by_cases hname : c.name = key
      -- This is the entry of the column, and no later one is.
      · rw [if_pos hname, hname, hlater] at hboth
        rwa [hname, List.lookup_cons_self]
      · rw [if_neg hname, Option.or_none] at hboth
        rwa [List.lookup_cons, beq_false_of_ne hname]
    · intro htakes
      obtain ⟨t, ht⟩ := h.exists_mixed s s' key
      have hboth : ∀ c ∈ columns, c.Takes (if c.name = key then some v else none) s t ∧
          c.Takes (entries.lookup c.name) t s' := by
        intro c hc
        have htc := ht c hc
        have htakes := htakes c hc
        rw [List.lookup_cons] at htakes
        by_cases hname : c.name = key
        · rw [if_pos hname] at htc ⊢
          rw [hname, beq_self_eq_true] at htakes
          rw [hname, hlater]
          exact ⟨htakes.congr_right htc, htc.symm⟩
        · rw [if_neg hname] at htc ⊢
          rw [beq_false_of_ne hname] at htakes
          exact ⟨htc, htakes.congr_left htc⟩
      exact ⟨t, fun c hc ↦ (hboth c hc).1, fun c hc ↦ (hboth c hc).2⟩

theorem missing?_eq_none_iff : r.missing? entries = none ↔
    ∀ c ∈ columns, c.presence = .required → (entries.lookup c.name).isSome = true := by
  rw [missing?, Option.map_eq_none_iff, List.find?_eq_none, h.fields, List.forall_mem_map]
  simp

/-- **A mapping is read column by column**: each column has what the entry of its name says, or its
default. -/
theorem ofMapping_eq_ok_iff (hkeys : (entries.map (·.1)).Nodup) : r.ofMapping entries = .ok s ↔
    ∀ c ∈ columns, c.Reads r.blank (entries.lookup c.name) s := by
  rw [RecordShape.ofMapping_eq_ok_iff, h.foldlM_putEntry_eq_ok_iff hkeys, h.missing?_eq_none_iff]
  simp only [Column.reads_iff, forall_and]

/-! ### Sequences -/

/-- The items of a sequence are put into the columns as entries with their names. Only the last
columns may be left out, if they are optional. -/
theorem putItems_eq_ok_iff {cs : List (Column α σ)} (hcs : cs ⊆ columns) {length : Nat}
    {items : List α} : r.putItems false length (cs.map Column.field) items s = .ok s' ↔
      (items.length ≤ cs.length ∧ ∀ c ∈ cs.drop items.length, c.presence = .optional) ∧
        ((cs.map (·.name)).zip items).foldlM r.putEntry s = .ok s' := by
  induction cs generalizing items s with
  | nil =>
    cases items with
    | nil => simp [putItems, pure, Except.pure]
    | cons v items => simp [putItems]
  | cons c cs ih =>
    obtain ⟨hc, hcs⟩ := List.cons_subset.1 hcs
    cases items with
    | nil =>
      have hrest := @ih s hcs []
      rw [List.zip_nil_right] at hrest ⊢
      rw [List.map_cons, putItems, Column.field_presence]
      split
      next hoptional => simpa [hoptional] using hrest
      next hrequired => exact iff_of_false nofun fun hall ↦ hrequired (hall.1.2 c (by simp))
    | cons v items =>
      simp only [List.map_cons, putItems, List.zip_cons_cons, List.foldlM_cons, bind_eq_ok_iff,
        h.putEntry_of_mem hc, ih hcs, List.length_cons, List.drop_succ_cons,
        Nat.add_le_add_iff_right, and_left_comm (b := _ ∧ _), exists_and_left]

/-- **A sequence is read as the mapping** that gives its items the names of the columns, if it is no
longer than the record and leaves out optional columns only. -/
theorem putItems_blank_eq_ok_iff {length : Nat} {items : List α} :
    r.putItems false length r.fields items r.blank = .ok s ↔
      (items.length ≤ columns.length ∧
        ∀ c ∈ columns.drop items.length, c.presence = .optional) ∧
      r.ofMapping ((columns.map (·.name)).zip items) = .ok s := by
  rw [h.fields, h.putItems_eq_ok_iff (List.Subset.refl _), RecordShape.ofMapping_eq_ok_iff]
  refine and_congr_right fun hends ↦ (and_iff_left ?_).symm
  obtain ⟨-, hoptional⟩ := hends
  rw [h.missing?_eq_none_iff]
  intro c hc hrequired
  rw [isSome_lookup_iff, map_fst_zip_eq_take, ← List.map_take]
  -- A required column is not among those that are left out.
  rw [← List.take_append_drop items.length columns, List.mem_append] at hc
  rcases hc with hc | hc
  · exact List.mem_map_of_mem hc
  · rw [hoptional c hc] at hrequired
    cases hrequired

/-! ### Values of a document language -/

variable {d : Dialect α}

theorem read_mapping_eq_ok_iff (hv : d.view v = .mapping entries)
    (hkeys : (entries.map (·.1)).Nodup) : r.read d v = .ok s ↔
      ∀ c ∈ columns, c.Reads r.blank (entries.lookup c.name) s := by
  rw [← h.ofMapping_eq_ok_iff hkeys, read, hv]

/-- Names that are given to items are not repeated. -/
theorem nodup_names_zip (items : List α) :
    (((columns.map (·.name)).zip items).map (·.1)).Nodup := by
  rw [map_fst_zip_eq_take]
  exact h.nodup_names.sublist (List.take_sublist ..)

theorem read_sequence_eq_ok_iff {items : List α} (hv : d.view v = .sequence items)
    (hd : d.allowsSurplus = false) : r.read d v = .ok s ↔
      (items.length ≤ columns.length ∧
        ∀ c ∈ columns.drop items.length, c.presence = .optional) ∧
      ∀ c ∈ columns, c.Reads r.blank (((columns.map (·.name)).zip items).lookup c.name) s := by
  rw [← h.ofMapping_eq_ok_iff (h.nodup_names_zip items), ← h.putItems_blank_eq_ok_iff, read, hv, hd]

end HasColumns

end RecordShape

end ToolAccess
