import ToolAccess.Decision
import ToolAccess.Json.Printer
import ToolAccess.Shape.Record
import ToolAccess.Taint
import ToolAccess.Tool.Basic

/-!
# Tools as JSON

The JSON forms of definitions, results, identities, decisions and taint levels. A record is
written as an object and read from an object, whose unknown fields are ignored, or from an array
of its fields. The origin of a definition is left out when there is none; that of an identity is
null.
-/

namespace ToolAccess

/-- The kind of a JSON value. -/
def Json.view : Json → View Json
  | .null => .null
  | .bool b => .boolean b
  | .int n => .integer n
  | .float x => .floating (String.ofList (floatChars x))
  | .string s => .string s
  | .array items => .sequence items
  | .object fields => .mapping fields

/-- JSON as a document language: an array may not have more items than a record has fields. -/
def Json.dialect : Dialect Json := ⟨Json.view, false⟩

namespace ToolDefinition

/-- The definition as JSON. -/
def toJson (d : ToolDefinition) : Json :=
  .ofFields <|
    [("name", .string d.name), ("description", .string d.description),
      ("input_schema", d.inputSchema)] ++
    match d.origin with
    | some origin => [("origin", .string origin)]
    | none => []

/-- The fields of a definition. -/
def shape : RecordShape Json ToolDefinition where
  name := "ToolDefinition"
  blank := ⟨"", "", .null, none⟩
  closed := false
  fields := [
    .ofShape "name" .required (Shape.string Json.dialect "a string") fun v d ↦ { d with name := v },
    .ofShape "description" .required (Shape.string Json.dialect "a string") fun v d ↦
      { d with description := v },
    .ofShape "input_schema" .required (fun v ↦ .ok v) fun v d ↦ { d with inputSchema := v },
    .ofShape "origin" .optional
      (Shape.nullable Json.dialect (Shape.string Json.dialect "a string")) fun v d ↦
      { d with origin := v }]

/-- Reads a definition. -/
def ofJson : Json → Except ShapeError ToolDefinition := shape.read Json.dialect

end ToolDefinition

namespace ToolResult

/-- The result as JSON. -/
def toJson (r : ToolResult) : Json :=
  .ofFields [("content", .string r.content), ("is_error", .bool r.isError)]

/-- The fields of a result. -/
def shape : RecordShape Json ToolResult where
  name := "ToolResult"
  blank := ⟨"", false⟩
  closed := false
  fields := [
    .ofShape "content" .required (Shape.string Json.dialect "a string") fun v r ↦
      { r with content := v },
    .ofShape "is_error" .required (Shape.boolean Json.dialect) fun v r ↦ { r with isError := v }]

/-- Reads a result. -/
def ofJson : Json → Except ShapeError ToolResult := shape.read Json.dialect

end ToolResult

namespace ToolIdentity

/-- The identity as JSON. -/
def toJson (t : ToolIdentity) : Json :=
  .ofFields [("name", .string t.name), ("origin", .optionalString t.origin)]

/-- The fields of an identity. -/
def shape : RecordShape Json ToolIdentity where
  name := "ToolIdentity"
  blank := ⟨"", none⟩
  closed := false
  fields := [
    .ofShape "name" .required (Shape.string Json.dialect "a string") fun v t ↦ { t with name := v },
    .ofShape "origin" .nameable
      (Shape.nullable Json.dialect (Shape.string Json.dialect "a string")) fun v t ↦
      { t with origin := v }]

/-- Reads an identity. -/
def ofJson : Json → Except ShapeError ToolIdentity := shape.read Json.dialect

end ToolIdentity

/-! ### Words -/

/-- Reads one of a list of words with a meaning. A word stands alone, or is the only field of an
object and has the value null. -/
def Json.readVariant {β : Type} (variants : List (String × β)) (j : Json) : Except ShapeError β :=
  let variant (word : String) : Except ShapeError β :=
    match variants.lookup word with
    | some v => .ok v
    | none => .error (.unknownVariant word (variants.map (·.1)))
  match j with
  | .string word => variant word
  | .object [(word, content)] => do
    let v ← variant word
    match content with
    | .null => .ok v
    | other => .error (.wrongKind other.view.found "unit")
  | .object _ => .error (.wrongValue "map" "map with a single key")
  | other => .error (.wrongKind other.view.found "string or map")

/-- Reads a decision. -/
def Decision.ofJson : Json → Except ShapeError Decision :=
  Json.readVariant (Decision.all.map fun d ↦ (d.spelling, d))

/-- The decision as JSON. -/
def Decision.toJson (d : Decision) : Json := .string d.spelling

/-- Reads a taint level. -/
def TaintLevel.ofJson : Json → Except ShapeError TaintLevel :=
  Json.readVariant (TaintLevel.all.map fun t ↦ (t.spelling, t))

/-- The taint level as JSON. -/
def TaintLevel.toJson (t : TaintLevel) : Json := .string t.spelling

/-- The outcome of a confirmation as JSON. -/
def ConfirmOutcome.toJson (o : ConfirmOutcome) : Json := .string o.code

end ToolAccess
