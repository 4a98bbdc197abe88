import ToolAccess.Text.Debug

/-!
# Values and the shapes wanted of them

Documents and messages arrive as values of a dynamic kind, JSON or TOML. A `View` shows what kind
a value has, and a `ShapeError` says how a value differs from what was wanted. Readers of plain
values (`Shape.string`, `Shape.list`, `Shape.table`) are given here; records are in
`ToolAccess.Shape.Record`.
-/

namespace ToolAccess

/-- What a dynamic value is, seen from outside. The parts of a compound value are of type `α`. -/
inductive View (α : Type) where
  | null
  | boolean (b : Bool)
  | integer (n : Int)
  /-- A floating-point number, by its text. -/
  | floating (shown : String)
  | string (s : String)
  | sequence (items : List α)
  | mapping (entries : List (String × α))

/-- The kind of a value, for messages. -/
def View.found {α : Type} : View α → String
  | .null => "null"
  | .boolean b => s!"boolean `{b}`"
  | .integer n => s!"integer `{n}`"
  | .floating shown => s!"floating point `{shown}`"
  | .string s => "string " ++ Text.debugQuote s
  | .sequence _ => "sequence"
  | .mapping _ => "map"

/-- A list of names as alternatives, each in backticks. -/
def alternatives (names : List String) : String :=
  let quoted := names.map fun n ↦ "`" ++ n ++ "`"
  match quoted with
  | [a] => a
  | [a, b] => a ++ " or " ++ b
  | _ => "one of " ++ ", ".intercalate quoted

/-- How a value differs from what was wanted. -/
inductive ShapeError where
  /-- A record has a field that is not known. -/
  | unknownField (field : String) (known : List String)
  /-- A record lacks a field. -/
  | missingField (field : String)
  /-- A value is of another kind. -/
  | wrongKind (found wanted : String)
  /-- A value is of the right kind and out of range. -/
  | wrongValue (found wanted : String)
  /-- A sequence has the wrong number of items. -/
  | wrongLength (length : Nat) (wanted : String)
  /-- A word is not one of those known. -/
  | unknownVariant (word : String) (known : List String)
  deriving DecidableEq, Repr

/-- The text shown for a shape error. -/
def ShapeError.message : ShapeError → String
  | .unknownField field known => s!"unknown field `{field}`, expected {alternatives known}"
  | .missingField field => s!"missing field `{field}`"
  | .wrongKind found wanted => s!"invalid type: {found}, expected {wanted}"
  | .wrongValue found wanted => s!"invalid value: {found}, expected {wanted}"
  | .wrongLength length wanted => s!"invalid length {length}, expected {wanted}"
  | .unknownVariant word known => s!"unknown variant `{word}`, expected {alternatives known}"

/-- A reader of values of type `α`. -/
abbrev Shape (α β : Type) := α → Except ShapeError β

/-- How the values of a document language are seen. -/
structure Dialect (α : Type) where
  view : α → View α
  /-- Whether a sequence read as a record may have more items than the record has fields. -/
  allowsSurplus : Bool

namespace Shape

variable {α β : Type}

/-- A string; `wanted` is what messages call it. -/
def string (d : Dialect α) (wanted : String) : Shape α String := fun v ↦
  match d.view v with
  | .string s => .ok s
  | other => .error (.wrongKind other.found wanted)

/-- A truth value. -/
def boolean (d : Dialect α) : Shape α Bool := fun v ↦
  match d.view v with
  | .boolean b => .ok b
  | other => .error (.wrongKind other.found "a boolean")

/-- A whole number in the signed 64-bit range. -/
def int64 (d : Dialect α) : Shape α Int64 := fun v ↦
  match d.view v with
  | .integer n =>
    if Int64.minValue.toInt ≤ n ∧ n ≤ Int64.maxValue.toInt then .ok (Int64.ofInt n)
    else .error (.wrongValue (View.found (.integer n : View α)) "i64")
  | other => .error (.wrongKind other.found "i64")

/-- A whole number in the unsigned 64-bit range. -/
def uint64 (d : Dialect α) : Shape α UInt64 := fun v ↦
  match d.view v with
  | .integer n =>
    if 0 ≤ n ∧ n < UInt64.size then .ok (UInt64.ofNat n.toNat)
    else .error (.wrongValue (View.found (.integer n : View α)) "u64")
  | other => .error (.wrongKind other.found "u64")

/-- Null, or what the given reader takes. -/
def nullable (d : Dialect α) (inner : Shape α β) : Shape α (Option β) := fun v ↦
  match d.view v with
  | .null => .ok none
  | _ => (inner v).map some

/-- A sequence of items. -/
def list (d : Dialect α) (item : Shape α β) : Shape α (List β) := fun v ↦
  match d.view v with
  | .sequence items => items.mapM item
  | other => .error (.wrongKind other.found "a sequence")

/-- A mapping with free names. -/
def table (d : Dialect α) (value : Shape α β) : Shape α (List (String × β)) := fun v ↦
  match d.view v with
  | .mapping entries => entries.mapM fun e ↦ (value e.2).map (e.1, ·)
  | other => .error (.wrongKind other.found "a map")

end Shape

end ToolAccess
