import ToolAccess.Shape.Basic

/-!
# Records in documents

A record is read from a mapping, whose names are the fields, or from a sequence, whose items are
the fields in their order. Reading starts from a record of default values and puts in one field
after the other, in the order of the document, so the first fault of the document is the one
reported. A field that is required and absent is noticed at the end.
-/

namespace ToolAccess

/-- Whether a field may be left out. -/
inductive Presence where
  /-- It must be given. -/
  | required
  /-- It may be left out of a mapping, and must have its place in a sequence. -/
  | nameable
  /-- It may be left out of a mapping, and at the end of a sequence. -/
  | optional
  deriving DecidableEq, Repr

/-- A field of a record of type `σ`, read from values of type `α`. -/
structure Field (α σ : Type) where
  name : String
  presence : Presence
  /-- Puts a value into the record. -/
  put : α → σ → Except ShapeError σ

/-- How a record of type `σ` is written down. -/
structure RecordShape (α σ : Type) where
  name : String
  /-- The record with every field at its default. -/
  blank : σ
  fields : List (Field α σ)
  /-- Whether a name that is not a field is refused. -/
  closed : Bool

namespace Field

variable {α β σ : Type}

/-- A field whose value a reader takes. -/
def ofShape (name : String) (presence : Presence) (value : Shape α β) (set : β → σ → σ) :
    Field α σ :=
  ⟨name, presence, fun v s ↦ (value v).map (set · s)⟩

end Field

namespace RecordShape

variable {α σ : Type}

/-- The names of the fields. -/
def fieldNames (r : RecordShape α σ) : List String := r.fields.map (·.name)

/-- What messages call the record when it was read from a sequence. -/
def lengthWanted (r : RecordShape α σ) : String :=
  let n := r.fields.length
  s!"struct {r.name} with {n} " ++ if n = 1 then "element" else "elements"

/-- Puts one entry of a mapping into the record. -/
def putEntry (r : RecordShape α σ) (s : σ) (entry : String × α) : Except ShapeError σ :=
  match r.fields.find? (·.name == entry.1) with
  | some field => field.put entry.2 s
  | none => if r.closed then .error (.unknownField entry.1 r.fieldNames) else .ok s

/-- The first required field that a mapping lacks. -/
def missing? (r : RecordShape α σ) (entries : List (String × α)) : Option String :=
  (r.fields.find? fun f ↦ f.presence == .required && !entries.any (·.1 == f.name)).map (·.name)

/-- Reads the record from a mapping. -/
def ofMapping (r : RecordShape α σ) (entries : List (String × α)) : Except ShapeError σ := do
  let s ← entries.foldlM r.putEntry r.blank
  match r.missing? entries with
  | some field => .error (.missingField field)
  | none => .ok s

/-- Puts the items of a sequence into the fields in their order; `length` is that of the whole
sequence. -/
def putItems (r : RecordShape α σ) (allowsSurplus : Bool) (length : Nat) :
    List (Field α σ) → List α → σ → Except ShapeError σ
  | [], [], s => .ok s
  | [], _ :: _, s =>
    if allowsSurplus then .ok s else .error (.wrongLength length "fewer elements in array")
  | field :: fields, v :: vs, s => do
    let s ← field.put v s
    r.putItems allowsSurplus length fields vs s
  | field :: fields, [], s =>
    if field.presence = .optional then r.putItems allowsSurplus length fields [] s
    else .error (.wrongLength length r.lengthWanted)

/-- Reads the record from a value. -/
def read (r : RecordShape α σ) (d : Dialect α) : Shape α σ := fun v ↦
  match d.view v with
  | .mapping entries => r.ofMapping entries
  | .sequence items => r.putItems d.allowsSurplus items.length r.fields items r.blank
  | other => .error (.wrongKind other.found ("struct " ++ r.name))

end RecordShape

end ToolAccess
