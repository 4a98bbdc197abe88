import ToolAccess.Decimal.Binary64
import ToolAccess.Sorted.Map

/-!
# JSON values

Objects are lists of fields. `Json.ofFields` makes an object with its fields sorted by name, of
which the last one given counts when a name is repeated; every object that is read or built by
this library has that form.
-/

namespace ToolAccess

/-- A JSON value. A number is whole, or floating-point if it was written with a point or an
exponent or does not fit in 64 bits. -/
inductive Json where
  | null
  | bool (b : Bool)
  | int (n : Int)
  | float (x : Binary64)
  | string (s : String)
  | array (items : List Json)
  | object (fields : List (String × Json))
  deriving Inhabited, Repr

namespace Json

mutual

/-- Decides whether two values are equal. -/
def decEq : (a b : Json) → Decidable (a = b)
  | .null, .null => isTrue rfl
  | .bool a, .bool b => if h : a = b then isTrue (h ▸ rfl) else isFalse fun e ↦ h (by cases e; rfl)
  | .int a, .int b => if h : a = b then isTrue (h ▸ rfl) else isFalse fun e ↦ h (by cases e; rfl)
  | .float a, .float b =>
    if h : a = b then isTrue (h ▸ rfl) else isFalse fun e ↦ h (by cases e; rfl)
  | .string a, .string b =>
    if h : a = b then isTrue (h ▸ rfl) else isFalse fun e ↦ h (by cases e; rfl)
  | .array a, .array b =>
    match decEqItems a b with
    | isTrue h => isTrue (h ▸ rfl)
    | isFalse h => isFalse fun e ↦ h (by cases e; rfl)
  | .object a, .object b =>
    match decEqFields a b with
    | isTrue h => isTrue (h ▸ rfl)
    | isFalse h => isFalse fun e ↦ h (by cases e; rfl)
  | .null, .bool _ | .null, .int _ | .null, .float _ | .null, .string _ | .null, .array _
  | .null, .object _ | .bool _, .null | .bool _, .int _ | .bool _, .float _ | .bool _, .string _
  | .bool _, .array _ | .bool _, .object _ | .int _, .null | .int _, .bool _ | .int _, .float _
  | .int _, .string _ | .int _, .array _ | .int _, .object _ | .float _, .null
  | .float _, .bool _ | .float _, .int _ | .float _, .string _ | .float _, .array _
  | .float _, .object _ | .string _, .null | .string _, .bool _ | .string _, .int _
  | .string _, .float _ | .string _, .array _ | .string _, .object _ | .array _, .null
  | .array _, .bool _ | .array _, .int _ | .array _, .float _ | .array _, .string _
  | .array _, .object _ | .object _, .null | .object _, .bool _ | .object _, .int _
  | .object _, .float _ | .object _, .string _ | .object _, .array _ => isFalse (fun e ↦ by cases e)

/-- Decides whether two lists of values are equal. -/
def decEqItems : (a b : List Json) → Decidable (a = b)
  | [], [] => isTrue rfl
  | [], _ :: _ => isFalse (fun e ↦ by cases e)
  | _ :: _, [] => isFalse (fun e ↦ by cases e)
  | x :: a, y :: b =>
    match decEq x y, decEqItems a b with
    | isTrue h, isTrue h' => isTrue (h ▸ h' ▸ rfl)
    | isFalse h, _ => isFalse fun e ↦ h (by cases e; rfl)
    | _, isFalse h => isFalse fun e ↦ h (by cases e; rfl)

/-- Decides whether two lists of fields are equal. -/
def decEqFields : (a b : List (String × Json)) → Decidable (a = b)
  | [], [] => isTrue rfl
  | [], _ :: _ => isFalse (fun e ↦ by cases e)
  | _ :: _, [] => isFalse (fun e ↦ by cases e)
  | (k, x) :: a, (l, y) :: b =>
    if hk : k = l then
      match decEq x y, decEqFields a b with
      | isTrue h, isTrue h' => isTrue (hk ▸ h ▸ h' ▸ rfl)
      | isFalse h, _ => isFalse fun e ↦ h (by cases e; rfl)
      | _, isFalse h => isFalse fun e ↦ h (by cases e; rfl)
    else isFalse fun e ↦ hk (by cases e; rfl)

end

instance : DecidableEq Json := decEq

/-- The object with the given fields, sorted by name; the last of several with one name counts. -/
def ofFields (fields : List (String × Json)) : Json :=
  .object (SortedMap.ofList fields).entries

/-- The array of strings. -/
def strings (l : List String) : Json := .array (l.map .string)

/-- The string, or null. -/
def optionalString : Option String → Json
  | some s => .string s
  | none => .null

/-- The value of a field of an object; nothing for a missing field and for other values. -/
def field? (name : String) : Json → Option Json
  | .object fields => fields.lookup name
  | _ => none

end Json

end ToolAccess
