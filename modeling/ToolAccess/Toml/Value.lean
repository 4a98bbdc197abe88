import ToolAccess.Decimal.Shortest
import ToolAccess.Shape.Basic

/-!
# TOML values

The values of a TOML document. A table is a list of entries in the order in which the document
gives them. A date or time is kept as its canonical text.
-/

namespace ToolAccess

/-- A TOML value. -/
inductive Toml where
  | string (s : String)
  | integer (n : Int)
  | float (x : Binary64)
  | boolean (b : Bool)
  /-- A date, a time, or both, in canonical form. -/
  | datetime (text : String)
  | array (items : List Toml)
  | table (entries : List (String × Toml))
  deriving Inhabited, Repr

namespace Toml

/-- The text of a floating-point number: the fewest digits that read back, without an exponent,
and with a point. -/
def floatText : Binary64 → String
  | .finite negative m e =>
    let size := if m = 0 then ['0'] else Shortest.positional (Shortest.digits m e)
    String.ofList ((if negative then ['-'] else []) ++ size ++
      if size.contains '.' then [] else ['.', '0'])
  | .infinite negative => if negative then "-inf" else "inf"
  | .nan => "NaN"

/-- The name of the one field of the table that a date is seen as. -/
def datetimeField : String := "$__toml_private_datetime"

/-- The kind of a TOML value. A date is seen as a table with its text. -/
def view : Toml → View Toml
  | .string s => .string s
  | .integer n => .integer n
  | .float x => .floating (floatText x)
  | .boolean b => .boolean b
  | .datetime text => .mapping [(datetimeField, .string text)]
  | .array items => .sequence items
  | .table entries => .mapping entries

/-- TOML as a document language: an array may have more items than a record has fields. -/
def dialect : Dialect Toml := ⟨view, true⟩

end Toml

end ToolAccess
