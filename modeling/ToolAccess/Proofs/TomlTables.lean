import ToolAccess.Toml.Reader
import ToolAccess.Proofs.Lookups

/-!
# The tables of a document

A document gives its tables piece by piece, and no table gets a key twice. This module proves it of
every document that can be read, for the tables at all levels and for those that are written as
values, and that every whole number in a document fits in 64 bits with a sign.

## What the proof rests on

* **Items.** Each way to change the entries of a table keeps their keys apart (`Item.IsProper`,
  `AllProper`): a new key is looked up first, and an item at a key is only replaced by another one
  at this key.
* **Paths.** The table that a path leads to (`tableAt`) is the one that `atPath?` changes
  (`atPath?_spec`).
* **Drafts.** A finished table is put at its key without another look. This is in order, since the
  key was taken out, or found to be free, when the table was begun (`Draft.IsProper.header`).

The main result is `isProper_of_parse?`.
-/

namespace ToolAccess.Toml

/-! ### Proper values -/

/-- The number fits in 64 bits with a sign. -/
def Fits64 (n : Int) : Prop := Int64.minValue.toInt ≤ n ∧ n ≤ Int64.maxValue.toInt

/-- A value as it can stand in a document: its whole numbers fit in 64 bits, and none of its tables
has a key twice. -/
inductive IsProper : Toml → Prop
  | string (s : String) : IsProper (.string s)
  | integer {n : Int} (hrange : Fits64 n) : IsProper (.integer n)
  | float (x : Binary64) : IsProper (.float x)
  | boolean (b : Bool) : IsProper (.boolean b)
  | datetime (text : String) : IsProper (.datetime text)
  | array {items : List Toml} (hitems : ∀ v ∈ items, IsProper v) : IsProper (.array items)
  | table {entries : List (String × Toml)} (hkeys : (entries.map (·.1)).Nodup)
    (hentries : ∀ e ∈ entries, IsProper e.2) : IsProper (.table entries)

/-- An item that becomes a proper value. -/
inductive Item.IsProper : Item → Prop
  | value {v : Toml} (hvalue : Toml.IsProper v) : IsProper (.value v)
  | table {isImplicit isDotted : Bool} {entries : Entries} (hkeys : (entries.map (·.1)).Nodup)
    (hentries : ∀ e ∈ entries, IsProper e.2) : IsProper (.table isImplicit isDotted entries)
  | tables {elements : Entries} (helements : ∀ e ∈ elements, IsProper e.2) :
    IsProper (.tables elements)

theorem entriesToToml_eq_map (entries : Entries) :
    entriesToToml entries = entries.map fun e ↦ (e.1, e.2.toToml) := by
  induction entries with
  | nil => rw [entriesToToml, List.map_nil]
  | cons e rest ih => rw [entriesToToml, List.map_cons, ih]

theorem elementsToToml_eq_map (elements : Entries) :
    elementsToToml elements = elements.map fun e ↦ e.2.toToml := by
  induction elements with
  | nil => rw [elementsToToml, List.map_nil]
  | cons e rest ih => rw [elementsToToml, List.map_cons, ih]

theorem map_fst_entriesToToml (entries : Entries) :
    (entriesToToml entries).map (·.1) = entries.map (·.1) := by
  rw [entriesToToml_eq_map, List.map_map]
  rfl

theorem Item.IsProper.toToml {item : Item} (h : item.IsProper) : Toml.IsProper item.toToml := by
  induction h with
  | value hvalue =>
    rw [Item.toToml]
    exact hvalue
  | @table _ _ entries hkeys _ ih =>
    rw [Item.toToml]
    refine .table (by rwa [map_fst_entriesToToml]) fun e he ↦ ?_
    rw [entriesToToml_eq_map] at he
    obtain ⟨own, hown, rfl⟩ := List.mem_map.1 he
    exact ih own hown
  | @tables elements _ ih =>
    rw [Item.toToml]
    refine .array fun v hv ↦ ?_
    rw [elementsToToml_eq_map] at hv
    obtain ⟨e, he, rfl⟩ := List.mem_map.1 hv
    exact ih e he

/-! ### Entries -/

/-- The entries have their keys apart and proper items. -/
structure AllProper (entries : Entries) : Prop where
  keys : (entries.map (·.1)).Nodup
  items : ∀ e ∈ entries, e.2.IsProper

variable {entries entries' elements sub sub' : Entries} {key part : String} {path : List String}
  {item : Item} {v : Toml}

theorem allProper_nil : AllProper [] := ⟨.nil, fun _ h ↦ absurd h List.not_mem_nil⟩

theorem AllProper.table (h : AllProper entries) {isImplicit isDotted : Bool} :
    (Item.table isImplicit isDotted entries).IsProper :=
  .table h.keys h.items

theorem Item.IsProper.allProper {isImplicit isDotted : Bool}
    (h : (Item.table isImplicit isDotted entries).IsProper) : AllProper entries := by
  cases h with
  | table hkeys hentries => exact ⟨hkeys, hentries⟩

theorem AllProper.isProper_entriesToToml (h : AllProper entries) :
    IsProper (.table (entriesToToml entries)) := by
  have hitem : (Item.table false false entries).IsProper := h.table
  have htable := hitem.toToml
  rwa [Item.toToml] at htable

theorem lookup_concat (h : entries.lookup key = none) :
    (entries ++ [(key, item)]).lookup key = some item := by
  rw [List.lookup_append, h]
  simp

theorem AllProper.of_lookup (h : AllProper entries) (hlookup : entries.lookup key = some item) :
    item.IsProper :=
  h.items _ (mem_of_lookup_eq_some hlookup)

/-- An item at a new key. -/
theorem AllProper.concat (h : AllProper entries) (hkey : key ∉ entries.map (·.1))
    (hitem : item.IsProper) : AllProper (entries ++ [(key, item)]) where
  keys := by
    rw [List.map_append, List.nodup_append]
    refine ⟨h.keys, List.nodup_singleton _, ?_⟩
    rintro a ha b hb rfl
    obtain rfl := List.mem_singleton.1 hb
    exact hkey ha
  items := by
    rintro e he
    rcases List.mem_append.1 he with he | he
    · exact h.items e he
    · obtain rfl := List.mem_singleton.1 he
      exact hitem

theorem map_fst_replaceItem : (replaceItem key item entries).map (·.1) = entries.map (·.1) := by
  rw [replaceItem, List.map_map]
  refine List.map_congr_left fun e _ ↦ ?_
  by_cases h : e.1 = key
  · simp [h]
  · simp [h]

/-- Another item at a key. -/
theorem AllProper.replace (h : AllProper entries) (hitem : item.IsProper) :
    AllProper (replaceItem key item entries) where
  keys := by rw [map_fst_replaceItem]; exact h.keys
  items := by
    rintro e he
    obtain ⟨old, hold, rfl⟩ := List.mem_map.1 he
    split
    · exact hitem
    · exact h.items old hold

theorem lookup_replaceItem {old : Item} (h : entries.lookup key = some old) :
    (replaceItem key item entries).lookup key = some item := by
  induction entries with
  | nil => cases h
  | cons e rest ih =>
    obtain ⟨k, i⟩ := e
    by_cases hkey : key = k
    · subst hkey
      simp [replaceItem]
    · rw [List.lookup_cons, beq_false_of_ne hkey] at h
      simpa [replaceItem, List.lookup_cons, beq_false_of_ne hkey, Ne.symm hkey] using ih h

theorem AllProper.addNew? (h : AllProper entries) (hitem : item.IsProper)
    (hadd : addNew? key item entries = some entries') : AllProper entries' := by
  rw [Toml.addNew?] at hadd
  split at hadd
  · cases hadd
  · next hnone =>
    obtain rfl := Option.some.inj hadd
    exact h.concat (lookup_eq_none_iff.1 hnone) hitem

/-! ### The last table of an array -/

/-- A change of the last table is one of its entries. -/
theorem onLast?_eq_some_iff {α : Type} {change : Entries → Option (Entries × α)}
    {elements' : Entries} {a : α} : onLast? change elements = some (elements', a) ↔
      ∃ name isImplicit isDotted sub sub',
        elements.getLast? = some (name, .table isImplicit isDotted sub) ∧
          change sub = some (sub', a) ∧
          elements' = elements.dropLast ++ [(name, .table isImplicit isDotted sub')] := by
  rw [onLast?]
  split
  · next name isImplicit isDotted sub hlast =>
    rw [Option.map_eq_some_iff]
    constructor
    · rintro ⟨⟨sub', a⟩, hchange, heq⟩
      obtain ⟨rfl, rfl⟩ := Prod.mk.inj heq
      exact ⟨name, isImplicit, isDotted, sub, sub', hlast, hchange, rfl⟩
    · rintro ⟨_, _, _, _, sub', hlast', hchange, rfl⟩
      cases hlast.symm.trans hlast'
      exact ⟨(sub', a), hchange, rfl⟩
  · next hnot =>
    constructor
    · rintro ⟨⟩
    · rintro ⟨name, isImplicit, isDotted, sub, _, hlast, -⟩
      exact absurd hlast (hnot _ _ _ _)

theorem Item.IsProper.of_mem_tables (h : (Item.tables elements).IsProper) :
    ∀ e ∈ elements, e.2.IsProper := by
  cases h with
  | tables helements => exact helements

/-- The last of an array of tables is replaced. -/
theorem Item.IsProper.replaceLast (h : (Item.tables elements).IsProper) {name : String}
    (hitem : item.IsProper) : (Item.tables (elements.dropLast ++ [(name, item)])).IsProper := by
  refine .tables fun e he ↦ ?_
  rcases List.mem_append.1 he with he | he
  · exact h.of_mem_tables e (List.dropLast_subset _ he)
  · obtain rfl := List.mem_singleton.1 he
    exact hitem

/-! ### Keys with points -/

theorem AllProper.setDotted? (hv : IsProper v) {isDotted : Bool} {u : Unit} (h : AllProper entries)
    (hset : setDotted? key v path isDotted entries = some (entries', u)) : AllProper entries' := by
  induction path generalizing isDotted entries entries' u with
  | nil =>
    rw [Toml.setDotted?] at hset
    split at hset
    · obtain ⟨added, hadd, heq⟩ := Option.map_eq_some_iff.1 hset
      obtain ⟨rfl, -⟩ := Prod.mk.inj heq
      exact h.addNew? (.value hv) hadd
    · cases hset
  | cons part path ih =>
    rw [Toml.setDotted?] at hset
    split at hset
    · next hnone =>
      obtain ⟨⟨sub, u⟩, hsub, heq⟩ := Option.map_eq_some_iff.1 hset
      obtain ⟨rfl, -⟩ := Prod.mk.inj heq
      exact h.concat (lookup_eq_none_iff.1 hnone) (ih allProper_nil hsub).table
    · next hlookup =>
      obtain ⟨⟨sub, u⟩, hsub, heq⟩ := Option.map_eq_some_iff.1 hset
      obtain ⟨rfl, -⟩ := Prod.mk.inj heq
      exact h.replace (ih (h.of_lookup hlookup).allProper hsub).table
    · next elements hlookup =>
      obtain ⟨⟨elements', u⟩, hchanged, heq⟩ := Option.map_eq_some_iff.1 hset
      obtain ⟨rfl, -⟩ := Prod.mk.inj heq
      obtain ⟨name, _, _, sub, sub', hlast, hsub, rfl⟩ := onLast?_eq_some_iff.1 hchanged
      have htables := h.of_lookup hlookup
      have hsubProper := htables.of_mem_tables _ (List.mem_of_getLast? hlast)
      exact h.replace (htables.replaceLast (ih hsubProper.allProper hsub).table)
    · cases hset
    · cases hset

theorem AllProper.setKey? (hv : IsProper v) (h : AllProper entries)
    (hset : setKey? path key v entries = some entries') : AllProper entries' := by
  cases path with
  | nil => exact h.addNew? (.value hv) hset
  | cons part path =>
    obtain ⟨⟨entries', u⟩, hdotted, rfl⟩ := Option.map_eq_some_iff.1 hset
    exact h.setDotted? hv hdotted

/-! ### Tables at paths -/

/-- The entries of the table that a path leads to; none where there is no such table yet. -/
def tableAt : List String → Entries → Entries
  | [], entries => entries
  | part :: path, entries =>
    match entries.lookup part with
    | some (.table _ _ sub) => tableAt path sub
    | some (.tables elements) =>
      match elements.getLast? with
      | some (_, .table _ _ sub) => tableAt path sub
      | _ => []
    | some (.value _) | none => []

theorem tableAt_nil (path : List String) : tableAt path [] = [] := by
  cases path <;> rfl

theorem AllProper.tableAt (h : AllProper entries) (path : List String) :
    AllProper (tableAt path entries) := by
  induction path generalizing entries with
  | nil => exact h
  | cons part path ih =>
    rw [Toml.tableAt]
    split
    · next hlookup => exact ih (h.of_lookup hlookup).allProper
    · next hlookup =>
      split
      · next hlast =>
        exact ih ((h.of_lookup hlookup).of_mem_tables _ (List.mem_of_getLast? hlast)).allProper
      · exact allProper_nil
    · exact allProper_nil
    · exact allProper_nil

/-- **A change at a path** is one of the table that the path leads to. If it keeps this table
proper, all entries stay proper. -/
theorem atPath?_spec {α : Type} {change : Entries → Option (Entries × α)} {a : α}
    (hproper : AllProper entries)
    (hchange : ∀ sub' a, change (tableAt path entries) = some (sub', a) → AllProper sub')
    (h : atPath? change path entries = some (entries', a)) :
    AllProper entries' ∧ change (tableAt path entries) = some (tableAt path entries', a) := by
  induction path generalizing entries entries' a with
  | nil =>
    rw [atPath?] at h
    exact ⟨hchange _ _ h, h⟩
  | cons part path ih =>
    rw [atPath?] at h
    rw [tableAt] at hchange ⊢
    split at h
    · next hnone =>
      simp only [hnone] at hchange ⊢
      obtain ⟨⟨sub, a⟩, hsub, heq⟩ := Option.map_eq_some_iff.1 h
      obtain ⟨rfl, rfl⟩ := Prod.mk.inj heq
      rw [← tableAt_nil path] at hchange
      obtain ⟨hproperSub, hat⟩ := ih allProper_nil hchange hsub
      rw [tableAt_nil] at hat
      refine ⟨hproper.concat (lookup_eq_none_iff.1 hnone) hproperSub.table, ?_⟩
      rw [hat, tableAt, lookup_concat hnone]
    · next isImplicit isDotted sub hlookup =>
      simp only [hlookup] at hchange ⊢
      obtain ⟨⟨sub', a⟩, hsub, heq⟩ := Option.map_eq_some_iff.1 h
      obtain ⟨rfl, rfl⟩ := Prod.mk.inj heq
      obtain ⟨hproperSub, hat⟩ := ih (hproper.of_lookup hlookup).allProper hchange hsub
      refine ⟨hproper.replace hproperSub.table, ?_⟩
      rw [hat, tableAt, lookup_replaceItem hlookup]
    · next elements hlookup =>
      simp only [hlookup] at hchange ⊢
      obtain ⟨⟨elements', a⟩, hchanged, heq⟩ := Option.map_eq_some_iff.1 h
      obtain ⟨rfl, rfl⟩ := Prod.mk.inj heq
      obtain ⟨name, _, _, sub, sub', hlast, hsub, rfl⟩ := onLast?_eq_some_iff.1 hchanged
      simp only [hlast] at hchange ⊢
      have htables := hproper.of_lookup hlookup
      have hsubProper := htables.of_mem_tables _ (List.mem_of_getLast? hlast)
      obtain ⟨hproperSub, hat⟩ := ih hsubProper.allProper hchange hsub
      refine ⟨hproper.replace (htables.replaceLast hproperSub.table), ?_⟩
      rw [hat, tableAt, lookup_replaceItem hlookup]
      simp
    · cases h

/-! ### Drafts -/

/-- A draft without a key that comes twice: the finished tables and the one at hand have none, and
the key of the table at hand is still free. -/
structure Draft.IsProper (d : Draft) : Prop where
  root : AllProper d.root
  current : AllProper d.current
  header : ∀ path key, d.header = some (path, key, false) →
    key ∉ (tableAt path d.root).map (·.1)

namespace Draft

variable {d d' : Draft}

theorem isProper_blank : blank.IsProper where
  root := allProper_nil
  current := allProper_nil
  header := by rintro _ _ ⟨⟩

theorem IsProper.set? (h : d.IsProper) (hv : Toml.IsProper v)
    (hset : d.set? path key v = some d') : d'.IsProper := by
  obtain ⟨current, hcurrent, rfl⟩ := Option.map_eq_some_iff.1 hset
  exact ⟨h.root, h.current.setKey? hv hcurrent, h.header⟩

/-- The table at hand is put where its key is free. -/
theorem IsProper.finish? (h : d.IsProper) (hfinish : d.finish? = some entries) :
    AllProper entries := by
  rw [Draft.finish?] at hfinish
  split at hfinish
  · obtain rfl := Option.some.inj hfinish
    exact h.current
  · next path key isElement hheader =>
    obtain ⟨⟨entries, u⟩, hat, rfl⟩ := Option.map_eq_some_iff.1 hfinish
    have hsub := h.root.tableAt path
    refine (atPath?_spec h.root (fun sub' _ hclose ↦ ?_) hat).1
    rw [closeTable?] at hclose
    split at hclose
    · split at hclose
      · next elements hlookup =>
        obtain ⟨rfl, -⟩ := Prod.mk.inj (Option.some.inj hclose)
        refine hsub.replace (.tables fun e he ↦ ?_)
        rcases List.mem_append.1 he with he | he
        · exact (hsub.of_lookup hlookup).of_mem_tables e he
        · obtain rfl := List.mem_singleton.1 he
          exact h.current.table
      · cases hclose
    · next hnot =>
      obtain ⟨rfl, -⟩ := Prod.mk.inj (Option.some.inj hclose)
      rw [Bool.eq_false_iff.2 hnot] at hheader
      exact hsub.concat (h.header _ _ hheader) h.current.table

/-- A table is begun: its key is free in its parent from then on. -/
theorem openTable?_spec {parent : Entries} (h : AllProper parent)
    (hopen : openTable? key parent = some (entries, sub)) :
    AllProper entries ∧ AllProper sub ∧ key ∉ entries.map (·.1) := by
  rw [openTable?] at hopen
  split at hopen
  · next hnone =>
    obtain ⟨rfl, rfl⟩ := Prod.mk.inj (Option.some.inj hopen)
    exact ⟨h, allProper_nil, lookup_eq_none_iff.1 hnone⟩
  · next hlookup =>
    obtain ⟨rfl, rfl⟩ := Prod.mk.inj (Option.some.inj hopen)
    refine ⟨⟨h.keys.sublist (List.filter_sublist.map _), fun e he ↦
      h.items e (List.mem_of_mem_filter he)⟩, (h.of_lookup hlookup).allProper, ?_⟩
    simp
  · cases hopen

theorem IsProper.beginTable? (h : d.IsProper) (hbegin : d.beginTable? path key = some d') :
    d'.IsProper := by
  obtain ⟨root, hfinish, hrest⟩ := Option.bind_eq_some_iff.1 hbegin
  obtain ⟨⟨root', current⟩, hat, heq⟩ := Option.bind_eq_some_iff.1 hrest
  obtain rfl := Option.some.inj heq
  have hfinished := h.finish? hfinish
  obtain ⟨hroot, hopen⟩ := atPath?_spec hfinished
    (fun _ _ hopen ↦ (openTable?_spec (hfinished.tableAt path) hopen).1) hat
  obtain ⟨-, hcurrent, hkey⟩ := openTable?_spec (hfinished.tableAt path) hopen
  refine ⟨hroot, hcurrent, fun path' key' hheader ↦ ?_⟩
  cases hheader
  exact hkey

theorem openTables?_spec {parent : Entries} (h : AllProper parent)
    (hopen : openTables? key parent = some (entries, sub)) : AllProper entries := by
  rw [openTables?] at hopen
  split at hopen
  · next hnone =>
    obtain ⟨rfl, -⟩ := Prod.mk.inj (Option.some.inj hopen)
    exact h.concat (lookup_eq_none_iff.1 hnone) (.tables fun _ he ↦ absurd he List.not_mem_nil)
  · obtain ⟨rfl, -⟩ := Prod.mk.inj (Option.some.inj hopen)
    exact h
  · cases hopen

theorem IsProper.beginElement? (h : d.IsProper) (hbegin : d.beginElement? path key = some d') :
    d'.IsProper := by
  obtain ⟨root, hfinish, hrest⟩ := Option.bind_eq_some_iff.1 hbegin
  obtain ⟨⟨root', current⟩, hat, heq⟩ := Option.bind_eq_some_iff.1 hrest
  obtain rfl := Option.some.inj heq
  have hfinished := h.finish? hfinish
  obtain ⟨hroot, -⟩ := atPath?_spec hfinished
    (fun _ _ hopen ↦ openTables?_spec (hfinished.tableAt path) hopen) hat
  exact ⟨hroot, allProper_nil, by rintro _ _ ⟨⟩⟩

end Draft

/-! ### Values in a text -/

section Texts

variable {s rest : List Char}

theorem isProper_of_boundedInteger? {n : Int}
    (h : boundedInteger? n s = some (v, rest)) : v.IsProper := by
  rw [boundedInteger?] at h
  split at h
  · next hrange =>
    obtain ⟨rfl, -⟩ := Prod.mk.inj (Option.some.inj h)
    exact .integer hrange
  · cases h

theorem isProper_of_readInteger? (h : readInteger? s = some (v, rest)) : v.IsProper := by
  unfold readInteger? at h
  dsimp only at h
  split at h
  all_goals
    obtain ⟨_, -, hbounded⟩ := Option.bind_eq_some_iff.1 h
    exact isProper_of_boundedInteger? hbounded

theorem isProper_of_readSpecialFloat? (h : readSpecialFloat? s = some (v, rest)) : v.IsProper := by
  rw [readSpecialFloat?] at h
  dsimp only at h
  split at h
  · cases h
    exact .float _
  · cases h
    exact .float _
  · cases h

theorem isProper_of_readDecimalFloat? (h : readDecimalFloat? s = some (some (v, rest))) :
    v.IsProper := by
  unfold readDecimalFloat? at h
  dsimp only at h
  split at h
  · cases h
  -- Wherever the number ends, it is a float unless it is too large for one.
  split at h
  · obtain ⟨_, -, hfraction⟩ := Option.bind_eq_some_iff.1 (Option.some.inj h)
    split at hfraction
    · obtain ⟨_, -, hpower⟩ := Option.bind_eq_some_iff.1 hfraction
      split at hpower <;> cases hpower
      exact .float _
    · obtain ⟨_, -, hpower⟩ := Option.bind_eq_some_iff.1 hfraction
      split at hpower <;> cases hpower
      exact .float _
    · split at hfraction <;> cases hfraction
      exact .float _
  · obtain ⟨_, -, hpower⟩ := Option.bind_eq_some_iff.1 (Option.some.inj h)
    split at hpower <;> cases hpower
    exact .float _
  · obtain ⟨_, -, hpower⟩ := Option.bind_eq_some_iff.1 (Option.some.inj h)
    split at hpower <;> cases hpower
    exact .float _
  · cases h

theorem isProper_of_readNumber? (h : readNumber? s = some (v, rest)) : v.IsProper := by
  rw [readNumber?] at h
  split at h
  · next hfloat => exact isProper_of_readDecimalFloat? (hfloat.trans (congrArg some h))
  · rcases Option.or_eq_some_iff.1 h with hspecial | ⟨-, hinteger⟩
    · exact isProper_of_readSpecialFloat? hspecial
    · exact isProper_of_readInteger? hinteger

theorem isProper_of_readDatetime? (h : readDatetime? s = some (some (v, rest))) : v.IsProper := by
  unfold readDatetime? at h
  split at h
  · cases h
  · split at h
    · split at h
      · split at h
        · cases h
          exact .datetime _
        · cases h
        · obtain ⟨_, -, heq⟩ := Option.map_eq_some_iff.1 (Option.some.inj h)
          cases heq
          exact .datetime _
      · cases h
        exact .datetime _
    · cases h
      exact .datetime _
  · obtain ⟨_, -, htime⟩ := Option.map_eq_some_iff.1 h
    obtain ⟨_, -, heq⟩ := Option.map_eq_some_iff.1 htime
    cases heq
    exact .datetime _

theorem isProper_of_tableOfPairs? {pairs : List ((List String × String) × Toml)}
    (hpairs : ∀ p ∈ pairs, p.2.IsProper) (h : tableOfPairs? pairs = some v) : v.IsProper := by
  have hfold : ∀ entries result : Entries, AllProper entries →
      pairs.foldlM (fun entries p ↦ setKey? p.1.1 p.1.2 p.2 entries) entries = some result →
      AllProper result := by
    clear h
    induction pairs with
    | nil =>
      intro entries result hentries hresult
      cases hresult
      exact hentries
    | cons p pairs ih =>
      intro entries result hentries hresult
      obtain ⟨hp, hpairs⟩ := List.forall_mem_cons.1 hpairs
      rw [List.foldlM_cons] at hresult
      obtain ⟨next, hnext, hresult⟩ := Option.bind_eq_some_iff.1 hresult
      exact ih hpairs next result (hentries.setKey? hp hnext) hresult
  obtain ⟨entries, hentries, rfl⟩ := Option.map_eq_some_iff.1 h
  exact (hfold [] entries allProper_nil hentries).isProper_entriesToToml

/-- What is read with this fuel is proper, whether a value, the items of an array or the pairs of a
table. -/
structure ReadsProper (fuel : Nat) : Prop where
  value : ∀ {depth s v rest}, readValue? depth fuel s = some (v, rest) → v.IsProper
  items : ∀ {depth s items rest}, readItems? depth fuel s = some (items, rest) →
    ∀ v ∈ items, v.IsProper
  pairs : ∀ {depth s pairs rest}, readPairs? depth fuel s = some (pairs, rest) →
    ∀ p ∈ pairs, p.2.IsProper

namespace ReadsProper

variable {fuel depth : Nat} (hfuel : ReadsProper fuel)
include hfuel

theorem value_succ (h : readValue? depth (fuel + 1) s = some (v, rest)) : v.IsProper := by
  unfold readValue? at h
  split at h
  case h_1 => cases h
  -- The first character tells which kind of value it is.
  split at h
  · obtain ⟨_, -, heq⟩ := Option.map_eq_some_iff.1 h
    cases heq
    exact .string _
  split at h
  · split at h
    · cases h
    · obtain ⟨_, hread, heq⟩ := Option.map_eq_some_iff.1 h
      cases heq
      exact .array (hfuel.items hread)
  split at h
  · split at h
    · cases h
    · split at h
      · cases h
        exact .table .nil fun _ he ↦ absurd he List.not_mem_nil
      · obtain ⟨_, hread, hrest⟩ := Option.bind_eq_some_iff.1 h
        obtain ⟨_, htable, heq⟩ := Option.map_eq_some_iff.1 hrest
        cases heq
        exact isProper_of_tableOfPairs? (hfuel.pairs hread) htable
  split at h
  · split at h
    · next hdate => exact isProper_of_readDatetime? (hdate.trans (congrArg some h))
    · exact isProper_of_readNumber? h
  split at h
  · cases h
    exact .boolean _
  · cases h
    exact .boolean _
  · exact isProper_of_readSpecialFloat? h

theorem items_succ {items : List Toml}
    (h : readItems? depth (fuel + 1) s = some (items, rest)) : ∀ v ∈ items, v.IsProper := by
  unfold readItems? at h
  split at h
  · cases h
  · cases h
    exact fun _ hv ↦ absurd hv List.not_mem_nil
  split at h
  · cases h
  · next hread =>
    split at h
    · obtain ⟨⟨vs, rest⟩, hrest, heq⟩ := Option.map_eq_some_iff.1 h
      cases heq
      exact List.forall_mem_cons.2 ⟨hfuel.value hread, hfuel.items hrest⟩
    · cases h
      exact List.forall_mem_singleton.2 (hfuel.value hread)
    · cases h

theorem pairs_succ {pairs : List ((List String × String) × Toml)}
    (h : readPairs? depth (fuel + 1) s = some (pairs, rest)) : ∀ p ∈ pairs, p.2.IsProper := by
  unfold readPairs? at h
  split at h
  · split at h
    · cases h
    · next hread =>
      split at h
      · obtain ⟨⟨ps, rest⟩, hrest, heq⟩ := Option.map_eq_some_iff.1 h
        cases heq
        exact List.forall_mem_cons.2 ⟨hfuel.value hread, hfuel.pairs hrest⟩
      · cases h
        exact List.forall_mem_singleton.2 (hfuel.value hread)
      · cases h
  · cases h

end ReadsProper

theorem readsProper (fuel : Nat) : ReadsProper fuel := by
  induction fuel with
  | zero => exact ⟨by simp [readValue?], by simp [readItems?], by simp [readPairs?]⟩
  | succ fuel ih => exact ⟨ih.value_succ, ih.items_succ, ih.pairs_succ⟩

/-! ### Documents -/

theorem isProper_of_readLineInto? {d d' : Draft} (hd : d.IsProper)
    (h : readLineInto? d s = some (d', rest)) : d'.IsProper := by
  unfold readLineInto? at h
  split at h
  · obtain ⟨_, -, heq⟩ := Option.map_eq_some_iff.1 h
    cases heq
    exact hd
  · obtain ⟨_, -, heq⟩ := Option.map_eq_some_iff.1 h
    cases heq
    exact hd
  · obtain ⟨_, -, heq⟩ := Option.map_eq_some_iff.1 h
    cases heq
    exact hd
  · split at h
    · obtain ⟨_, -, hrest⟩ := Option.bind_eq_some_iff.1 h
      obtain ⟨_, hbegin, heq⟩ := Option.bind_eq_some_iff.1 hrest
      cases heq
      exact hd.beginElement? hbegin
    · cases h
  · split at h
    · obtain ⟨_, -, hrest⟩ := Option.bind_eq_some_iff.1 h
      obtain ⟨_, hbegin, heq⟩ := Option.bind_eq_some_iff.1 hrest
      cases heq
      exact hd.beginTable? hbegin
    · cases h
  · split at h
    · obtain ⟨⟨v, _⟩, hread, hrest⟩ := Option.bind_eq_some_iff.1 h
      obtain ⟨_, -, hrest⟩ := Option.bind_eq_some_iff.1 hrest
      obtain ⟨_, hset, heq⟩ := Option.bind_eq_some_iff.1 hrest
      cases heq
      exact hd.set? ((readsProper _).value hread) hset
    · cases h

theorem isProper_of_readLines {fuel : Nat} {d d' : Draft} (hd : d.IsProper)
    (h : readLines fuel d s = some d') : d'.IsProper := by
  induction fuel generalizing d s with
  | zero =>
    unfold readLines at h
    split at h
    · cases h
      exact hd
    · cases h
  | succ fuel ih =>
    unfold readLines at h
    split at h
    · cases h
      exact hd
    · obtain ⟨⟨d, rest⟩, hline, hrest⟩ := Option.bind_eq_some_iff.1 h
      exact ih (isProper_of_readLineInto? hd hline) hrest

/-- **A document that can be read** has no key twice in any of its tables, and its whole numbers fit
in 64 bits. -/
theorem isProper_of_parse? {text : String} {entries : List (String × Toml)}
    (h : parse? text = some entries) : IsProper (.table entries) := by
  obtain ⟨d, hlines, hrest⟩ := Option.bind_eq_some_iff.1 h
  obtain ⟨finished, hfinish, heq⟩ := Option.bind_eq_some_iff.1 hrest
  cases heq
  exact ((isProper_of_readLines Draft.isProper_blank hlines).finish? hfinish).isProper_entriesToToml

end Texts

end ToolAccess.Toml
