import ToolAccess.Identity
import ToolAccess.Tag

/-!
# The registry of tool tags

Which tags each tool carries is declared once, at start-up, and then fixed. Every in-house tool
must be declared. A tool of an origin falls back on the origin's catch-all entry, written with the
name `*`, and a tool without any entry on `trust-unspecified`.

A `Registrations` collects the entries and the identities that were declared more than once;
`Registrations.build` refuses those, and tools that are in use and not declared.
-/

namespace ToolAccess

/-- The name of an origin's catch-all entry. -/
def catchAllName : String := "*"

/-- The tags of every declared tool. -/
structure Registry where
  entries : SortedMap ToolIdentity TagSet
  deriving Inhabited

/-- What is wrong with the declarations of tools. -/
inductive RegistryError where
  /-- In-house tools without a declaration, by name. -/
  | missing (names : List String)
  /-- Tools declared more than once, as they are shown. -/
  | repeated (tools : List String)
  deriving DecidableEq, Repr

/-- The text shown for an error. -/
def RegistryError.message : RegistryError → String
  | .missing names => "missing metadata for in-house tools: " ++ ", ".intercalate names
  | .repeated tools => "duplicate metadata entries: " ++ ", ".intercalate tools

/-- The items an error is about. -/
def RegistryError.items : RegistryError → List String
  | .missing names => names
  | .repeated tools => tools

namespace Registry

/-- The registry without entries. -/
def empty : Registry := ⟨∅⟩

/-- Whether an in-house tool of this name is declared. -/
def hasInHouse (r : Registry) (name : String) : Bool := r.entries.contains (.inHouse name)

/-- The tags declared for a tool, or for all tools of its origin. -/
def declared? (r : Registry) (tool : ToolIdentity) : Option TagSet :=
  match tool.origin with
  | none => r.entries.find? tool
  | some origin => r.entries.find? tool <|> r.entries.find? (.fromOrigin origin catchAllName)

/-- The tags of a tool. -/
def tagsFor (r : Registry) (tool : ToolIdentity) : TagSet :=
  (r.declared? tool).getD .unspecified

/-- Whether a tool is in-house and has no entry. -/
def lacks (r : Registry) (tool : ToolIdentity) : Bool := tool.isInHouse && !r.hasInHouse tool.name

/-- The names of the in-house tools in use that have no entry, sorted, each once. -/
def missingNames (r : Registry) (tools : List ToolIdentity) : List String :=
  (SortedSet.ofList ((tools.filter r.lacks).map (·.name))).toList

/-- Checks that every in-house tool in use has an entry. Tools of origins are never missing. -/
def checkLive (r : Registry) (tools : List ToolIdentity) : Except RegistryError Unit :=
  match r.missingNames tools with
  | [] => .ok ()
  | names => .error (.missing names)

/-- The names of the declared in-house tools, sorted. -/
def inHouseNames (r : Registry) : List String :=
  (r.entries.keys.filter (·.isInHouse)).map (·.name)

/-- The origins with at least one entry, sorted. -/
def origins (r : Registry) : List String :=
  (SortedSet.ofList (r.entries.keys.filterMap (·.origin))).toList

end Registry

/-- The entries declared so far, and the tools that were declared more than once. -/
structure Registrations where
  registry : Registry
  /-- The repeated tools, as they are shown. -/
  repeated : SortedSet String
  deriving Inhabited

namespace Registrations

/-- Nothing declared. -/
def none : Registrations := ⟨.empty, ∅⟩

/-- Declares the tags of a tool. -/
def register (b : Registrations) (tool : ToolIdentity) (tags : List Tag) : Registrations where
  registry := ⟨b.registry.entries.insert tool (.of tags)⟩
  repeated :=
    if b.registry.entries.contains tool then b.repeated.insert tool.display else b.repeated

/-- Declares a list of tools, in order. -/
def ofList (l : List (ToolIdentity × List Tag)) : Registrations :=
  l.foldl (fun b e ↦ b.register e.1 e.2) none

/-- The registry of the declarations, for the in-house tools in use. Repeated declarations are
reported before missing ones. -/
def build (b : Registrations) (inUse : List String) : Except RegistryError Registry :=
  match b.repeated.toList with
  | [] =>
    match b.registry.missingNames (inUse.map .inHouse) with
    | [] => .ok b.registry
    | names => .error (.missing names)
  | tools => .error (.repeated tools)

end Registrations

end ToolAccess
