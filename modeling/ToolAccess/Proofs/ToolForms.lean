import ToolAccess.Tool.Json
import ToolAccess.Proofs.RecordColumns

/-!
# The forms of tools as JSON

Definitions of tools, their results and their identities are written as JSON and read again. They
have several forms: a record is written as an object, and read from objects with further fields and
from arrays as well; an origin that is not there is left out of a definition and null in an
identity. All of this leads to one record and back to one form.

## What the proof rests on

* Each of the three records has columns (`ToolDefinition.shape_hasColumns` and its like), so what is
  read is told column by column, for objects (`RecordShape.HasColumns.read_object_eq_ok_iff`) and
  for arrays (`RecordShape.HasColumns.read_array_eq_ok_iff`).
* A column for an origin takes nothing, null and texts apart (`Json.tellsOrigin_of_reads`), whatever
  may be left out.

The main result is `tools_keep_their_forms`. It is about values of JSON and not about their texts.
-/

namespace ToolAccess

/-! ### Values -/

namespace Json

variable {v : Json} {wanted : String}

@[simp] theorem string_eq_ok_iff {s : String} :
    Shape.string dialect wanted v = .ok s ↔ v = .string s := by
  cases v <;> simp [Shape.string, dialect, view]

@[simp] theorem boolean_eq_ok_iff {b : Bool} : Shape.boolean dialect v = .ok b ↔ v = .bool b := by
  cases v <;> simp [Shape.boolean, dialect, view]

/-- A text that may be missing is read from what is written for it. -/
@[simp] theorem nullable_string_eq_ok_iff {text? : Option String} :
    Shape.nullable dialect (Shape.string dialect wanted) v = .ok text? ↔
      v = .optionalString text? := by
  cases v with
  | null => cases text? <;> simp [Shape.nullable, dialect, view, optionalString]
  | string s =>
    have hread : Shape.nullable dialect (Shape.string dialect wanted) (.string s) =
        .ok (some s) := rfl
    cases text? <;> simp [hread, optionalString]
  | _ => cases text? <;> simp [Shape.nullable, Shape.string, dialect, view, optionalString,
      Except.map]

/-- The entries of an object are found as they were given. -/
theorem lookup_ofList {fields : List (String × Json)} (h : (fields.map (·.1)).Nodup)
    (name : String) : (SortedMap.ofList fields).entries.lookup name = fields.lookup name := by
  refine Option.ext fun v ↦ ?_
  rw [lookup_eq_some_iff_mem h, ← (SortedMap.perm_ofList h).mem_iff, SortedMap.mem_entries_iff]
  rfl

end Json

/-! ### Records as JSON -/

namespace RecordShape.HasColumns

variable {σ : Type} {r : RecordShape Json σ} {columns : List (Column Json σ)} {s : σ}
  {fields : List (String × Json)} (h : r.HasColumns columns)
include h

theorem read_object_eq_ok_iff (hkeys : (fields.map (·.1)).Nodup) :
    r.read Json.dialect (.object fields) = .ok s ↔
      ∀ c ∈ columns, c.Reads r.blank (fields.lookup c.name) s :=
  h.read_mapping_eq_ok_iff rfl hkeys

/-- An object that is built from fields is read like these fields. -/
theorem read_ofFields_eq_ok_iff (hkeys : (fields.map (·.1)).Nodup) :
    r.read Json.dialect (.ofFields fields) = .ok s ↔
      ∀ c ∈ columns, c.Reads r.blank (fields.lookup c.name) s := by
  rw [Json.ofFields, h.read_object_eq_ok_iff (SortedMap.nodup_keys _)]
  simp only [Json.lookup_ofList hkeys]

/-- **An array is read as the object of its items**, if it has no more items than the record has
columns and leaves out optional columns only. Otherwise it is refused. -/
theorem read_array_eq_ok_iff {items : List Json} :
    r.read Json.dialect (.array items) = .ok s ↔
      (items.length ≤ columns.length ∧
        ∀ c ∈ columns.drop items.length, c.presence = .optional) ∧
      r.read Json.dialect (.ofFields ((columns.map (·.name)).zip items)) = .ok s := by
  rw [h.read_ofFields_eq_ok_iff (h.nodup_names_zip items), h.read_sequence_eq_ok_iff rfl rfl]

end RecordShape.HasColumns

/-! ### Origins -/

namespace Json

/-- What is said of an origin is understood: nothing and null say that there is none, and a text is
its name, the empty text too. -/
def TellsOrigin (said : Option Json) (origin : Option String) : Prop :=
  (origin = none ↔ said = none ∨ said = some .null) ∧
    ∀ name, origin = some name ↔ said = some (.string name)

theorem tellsOrigin_none : TellsOrigin none none := by
  simp [TellsOrigin]

theorem tellsOrigin_optionalString (origin : Option String) :
    TellsOrigin (some (.optionalString origin)) origin := by
  cases origin <;> simp [TellsOrigin, optionalString, eq_comm]

variable {σ : Type}

/-- A column for a text that must be given. -/
def textColumn (name : String) (get : σ → String) (set : String → σ → σ) : Column Json σ :=
  ⟨name, .required, String, Shape.string dialect "a string", get, set⟩

/-- A column for an origin. -/
def originColumn (presence : Presence) (get : σ → Option String) (set : Option String → σ → σ) :
    Column Json σ :=
  ⟨"origin", presence, Option String, Shape.nullable dialect (Shape.string dialect "a string"),
    get, set⟩

/-- An origin that is read is the one that is told. -/
theorem tellsOrigin_of_reads {presence : Presence} {get : σ → Option String}
    {set : Option String → σ → σ} {blank s : σ} {said : Option Json} (hblank : get blank = none)
    (h : (originColumn presence get set).Reads blank said s) : TellsOrigin said (get s) := by
  cases said with
  | none =>
    have hnone : get s = none := h.2.trans hblank
    rw [hnone]
    exact tellsOrigin_none
  | some v =>
    obtain rfl : v = .optionalString (get s) := nullable_string_eq_ok_iff.1 h
    exact tellsOrigin_optionalString _

/-! ### Forms -/

/-- A value that is read and written again. -/
def normalized (read : Json → Except ShapeError σ) (write : σ → Json) (j : Json) :
    Except ShapeError Json :=
  (read j).map write

/-- What is written is read again, and all forms that are read lead to it. The `names` are those of
the fields in the order of declaration, and the `lengths` are those of the arrays that are read. -/
structure RoundTrips (read : Json → Except ShapeError σ) (write : σ → Json) (names : List String)
    (lengths : List Nat) : Prop where
  /-- What is written for a record is read as this record. -/
  read_write : ∀ s, read (write s) = .ok s
  /-- To read a value and write it again changes neither what is read nor what is written then. -/
  normal : ∀ j n, normalized read write j = .ok n →
    read n = read j ∧ normalized read write n = .ok n
  /-- Of an object, which has no field twice, the values of these fields count. Their order does
  not, and further fields do not. -/
  object : ∀ fields fields' s, (fields.map (·.1)).Nodup → (fields'.map (·.1)).Nodup →
    (∀ name ∈ names, fields.lookup name = fields'.lookup name) →
      (read (.object fields) = .ok s ↔ read (.object fields') = .ok s)
  /-- An array is read as the object in which its items have the names of the fields. -/
  array : ∀ items s, read (.array items) = .ok s ↔
    items.length ∈ lengths ∧ read (.ofFields (names.zip items)) = .ok s

/-- No origin and the origin with the empty name are told apart, in what is written and in what is
read. The `place` is that of the origin in an array. -/
structure KeepsOrigin (read : Json → Except ShapeError σ) (write : σ → Json)
    (origin : σ → Option String) (place : Nat) : Prop where
  written : ∀ s, TellsOrigin ((write s).field? "origin") (origin s)
  object : ∀ fields s, (fields.map (·.1)).Nodup → read (.object fields) = .ok s →
    TellsOrigin (fields.lookup "origin") (origin s)
  array : ∀ items s, read (.array items) = .ok s → TellsOrigin items[place]? (origin s)

end Json

namespace RecordShape.HasColumns

variable {σ : Type} {r : RecordShape Json σ} {columns : List (Column Json σ)} {write : σ → Json}
  (h : r.HasColumns columns)
include h

theorem roundTrips (hwrite : ∀ s, r.read Json.dialect (write s) = .ok s) {lengths : List Nat}
    (hlengths : ∀ n ≤ columns.length,
      (∀ c ∈ columns.drop n, c.presence = .optional) ↔ n ∈ lengths)
    (hbound : ∀ n ∈ lengths, n ≤ columns.length) :
    Json.RoundTrips (r.read Json.dialect) write (columns.map (·.name)) lengths where
  read_write := hwrite
  normal j n hn := by
    obtain ⟨s, hread, rfl⟩ := map_eq_ok_iff.1 hn
    rw [hread, Json.normalized, hwrite]
    exact ⟨rfl, rfl⟩
  object fields fields' s hkeys hkeys' hsame := by
    rw [h.read_object_eq_ok_iff hkeys, h.read_object_eq_ok_iff hkeys']
    exact forall₂_congr fun c hc ↦ by rw [hsame c.name (List.mem_map_of_mem hc)]
  array items s := by
    rw [h.read_array_eq_ok_iff]
    refine and_congr_left' ⟨fun ⟨hle, hends⟩ ↦ (hlengths _ hle).1 hends, fun hmem ↦ ?_⟩
    have hle := hbound _ hmem
    exact ⟨hle, (hlengths _ hle).2 hmem⟩

theorem keepsOrigin {presence : Presence} {get : σ → Option String}
    {set : Option String → σ → σ} {place : Nat}
    (hplace : columns[place]? = some (Json.originColumn presence get set))
    (hblank : get r.blank = none)
    (hwritten : ∀ s, Json.TellsOrigin ((write s).field? "origin") (get s)) :
    Json.KeepsOrigin (r.read Json.dialect) write get place where
  written := hwritten
  object fields s hkeys hread :=
    Json.tellsOrigin_of_reads hblank
      ((h.read_object_eq_ok_iff hkeys).1 hread _ (List.mem_of_getElem? hplace))
  array items s hread := by
    have hreads := ((h.read_sequence_eq_ok_iff rfl rfl).1 hread).2 _ (List.mem_of_getElem? hplace)
    have hname : (columns.map (·.name))[place]? = some "origin" := by
      rw [List.getElem?_map, hplace]
      rfl
    rw [← lookup_zip_of_getElem? h.nodup_names items hname]
    exact Json.tellsOrigin_of_reads hblank hreads

end RecordShape.HasColumns

/-! ### The three records -/

namespace ToolDefinition

/-- The columns of a definition. -/
def columns : List (Column Json ToolDefinition) := [
  Json.textColumn "name" (·.name) fun v d ↦ { d with name := v },
  Json.textColumn "description" (·.description) fun v d ↦ { d with description := v },
  ⟨"input_schema", .required, Json, fun v ↦ .ok v, (·.inputSchema),
    fun v d ↦ { d with inputSchema := v }⟩,
  Json.originColumn .optional (·.origin) fun v d ↦ { d with origin := v }]

theorem shape_hasColumns : shape.HasColumns columns where
  ignores := rfl
  fields := rfl
  apart := by simp [columns, Json.textColumn, Json.originColumn, Column.apart_iff]
  get_set := by simp [columns, Json.textColumn, Json.originColumn]
  ext := by
    rintro ⟨⟩ ⟨⟩ h
    simpa [columns, Json.textColumn, Json.originColumn] using h

/-- The fields that are written for a definition. -/
def written (d : ToolDefinition) : List (String × Json) :=
  [("name", .string d.name), ("description", .string d.description),
    ("input_schema", d.inputSchema)] ++
  match d.origin with
  | some origin => [("origin", .string origin)]
  | none => []

theorem nodup_written (d : ToolDefinition) : (d.written.map (·.1)).Nodup := by
  cases h : d.origin <;> simp [written, h]

theorem ofJson_toJson (d : ToolDefinition) : ofJson d.toJson = .ok d := by
  refine (shape_hasColumns.read_ofFields_eq_ok_iff d.nodup_written).2 ?_
  cases h : d.origin <;>
    simp [columns, Json.textColumn, Json.originColumn, Column.Reads, written, h, List.lookup_cons,
      Json.optionalString, shape]

theorem tellsOrigin_toJson (d : ToolDefinition) :
    Json.TellsOrigin (d.toJson.field? "origin") d.origin := by
  have hsaid : d.toJson.field? "origin" = d.written.lookup "origin" :=
    Json.lookup_ofList d.nodup_written "origin"
  rw [hsaid]
  cases h : d.origin with
  | none =>
    have hlookup : d.written.lookup "origin" = none := by simp [written, h, List.lookup_cons]
    rw [hlookup]
    exact Json.tellsOrigin_none
  | some origin =>
    have hlookup : d.written.lookup "origin" = some (.optionalString (some origin)) := by
      simp [written, h, List.lookup_cons, Json.optionalString]
    rw [hlookup]
    exact Json.tellsOrigin_optionalString (some origin)

theorem roundTrips : Json.RoundTrips ofJson toJson
    ["name", "description", "input_schema", "origin"] [3, 4] :=
  shape_hasColumns.roundTrips ofJson_toJson (by decide) (by decide)

theorem keepsOrigin : Json.KeepsOrigin ofJson toJson (·.origin) 3 :=
  shape_hasColumns.keepsOrigin rfl rfl tellsOrigin_toJson

end ToolDefinition

namespace ToolResult

/-- The columns of a result. -/
def columns : List (Column Json ToolResult) := [
  Json.textColumn "content" (·.content) fun v r ↦ { r with content := v },
  ⟨"is_error", .required, Bool, Shape.boolean Json.dialect, (·.isError),
    fun v r ↦ { r with isError := v }⟩]

theorem shape_hasColumns : shape.HasColumns columns where
  ignores := rfl
  fields := rfl
  apart := by simp [columns, Json.textColumn, Column.apart_iff]
  get_set := by simp [columns, Json.textColumn]
  ext := by
    rintro ⟨⟩ ⟨⟩ h
    simpa [columns, Json.textColumn] using h

theorem ofJson_toJson (r : ToolResult) : ofJson r.toJson = .ok r := by
  refine (shape_hasColumns.read_ofFields_eq_ok_iff (by simp)).2 ?_
  simp [columns, Json.textColumn, Column.Reads, List.lookup_cons]

theorem roundTrips : Json.RoundTrips ofJson toJson ["content", "is_error"] [2] :=
  shape_hasColumns.roundTrips ofJson_toJson (by decide) (by decide)

end ToolResult

namespace ToolIdentity

/-- The columns of an identity. -/
def columns : List (Column Json ToolIdentity) := [
  Json.textColumn "name" (·.name) fun v t ↦ { t with name := v },
  Json.originColumn .nameable (·.origin) fun v t ↦ { t with origin := v }]

theorem shape_hasColumns : shape.HasColumns columns where
  ignores := rfl
  fields := rfl
  apart := by simp [columns, Json.textColumn, Json.originColumn, Column.apart_iff]
  get_set := by simp [columns, Json.textColumn, Json.originColumn]
  ext := by
    rintro ⟨⟩ ⟨⟩ h
    simpa [columns, Json.textColumn, Json.originColumn] using h

theorem ofJson_toJson (t : ToolIdentity) : ofJson t.toJson = .ok t := by
  refine (shape_hasColumns.read_ofFields_eq_ok_iff (by simp)).2 ?_
  simp [columns, Json.textColumn, Json.originColumn, Column.Reads, List.lookup_cons]

theorem tellsOrigin_toJson (t : ToolIdentity) :
    Json.TellsOrigin (t.toJson.field? "origin") t.origin := by
  have hsaid : t.toJson.field? "origin" = some (.optionalString t.origin) :=
    Json.lookup_ofList (by simp) "origin"
  rw [hsaid]
  exact Json.tellsOrigin_optionalString t.origin

theorem roundTrips : Json.RoundTrips ofJson toJson ["name", "origin"] [2] :=
  shape_hasColumns.roundTrips ofJson_toJson (by decide) (by decide)

theorem keepsOrigin : Json.KeepsOrigin ofJson toJson (·.origin) 1 :=
  shape_hasColumns.keepsOrigin rfl rfl tellsOrigin_toJson

end ToolIdentity

/-- **Tools keep their forms as JSON.** For definitions, results and identities alike:

* What is written for a record is read as this record, whatever its texts and its schema are.
* If a value is read and written again, then the new value is read as the same record, and is
  written as itself.
* An object is read by the values of these fields. An array of their values, in the order of
  declaration, is read as the object with these fields, with the same result. In the array of a
  definition the origin may be left out; an array of another length is refused.
* No origin and the origin with the empty name are told apart in all of these forms. -/
theorem tools_keep_their_forms :
    Json.RoundTrips ToolDefinition.ofJson ToolDefinition.toJson
        ["name", "description", "input_schema", "origin"] [3, 4] ∧
      Json.RoundTrips ToolResult.ofJson ToolResult.toJson ["content", "is_error"] [2] ∧
      Json.RoundTrips ToolIdentity.ofJson ToolIdentity.toJson ["name", "origin"] [2] ∧
      Json.KeepsOrigin ToolDefinition.ofJson ToolDefinition.toJson (·.origin) 3 ∧
      Json.KeepsOrigin ToolIdentity.ofJson ToolIdentity.toJson (·.origin) 1 :=
  ⟨ToolDefinition.roundTrips, ToolResult.roundTrips, ToolIdentity.roundTrips,
    ToolDefinition.keepsOrigin, ToolIdentity.keepsOrigin⟩

/-- A definition with an origin that has the empty name, read from an object with a further field
and from an array; and an identity without an origin. -/
theorem fetch_keeps_its_forms :
    let schema : Json := .object [("type", .string "object")]
    let fields : List (String × Json) := [("description", .string "Gets a page."),
      ("input_schema", schema), ("name", .string "fetch"), ("origin", .string "")]
    let given : Json := .object (("comment", .null) :: fields)
    let fetch : ToolDefinition := ⟨"fetch", "Gets a page.", schema, some ""⟩
    (Json.normalized ToolDefinition.ofJson ToolDefinition.toJson given = .ok (.object fields) ∧
      ToolDefinition.ofJson (.object fields) = ToolDefinition.ofJson given) ∧
    (ToolDefinition.ofJson
        (.array [.string "fetch", .string "Gets a page.", schema, .string ""]) = .ok fetch ∧
      Json.TellsOrigin (some (.string "")) fetch.origin) ∧
    (ToolIdentity.ofJson (.object [("name", .string "fetch")]) = .ok ⟨"fetch", none⟩ ∧
      Json.TellsOrigin none none) := by
  intro schema fields given fetch
  obtain ⟨hdefinitions, -, -, hdefinition, hidentity⟩ := tools_keep_their_forms
  have hwritten : fetch.toJson = .object fields := by decide +kernel
  have hnormal : Json.normalized ToolDefinition.ofJson ToolDefinition.toJson given =
      .ok (.object fields) := congrArg Except.ok hwritten
  have harray : ToolDefinition.ofJson
      (.array [.string "fetch", .string "Gets a page.", schema, .string ""]) = .ok fetch := by rfl
  exact ⟨⟨hnormal, (hdefinitions.normal _ _ hnormal).1⟩,
    ⟨harray, hdefinition.array _ _ harray⟩, rfl,
    hidentity.object [("name", .string "fetch")] ⟨"fetch", none⟩ (by decide) rfl⟩

end ToolAccess
