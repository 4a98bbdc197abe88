import ToolAccess.Document.Check
import ToolAccess.Engine
import ToolAccess.Files.Basic
import ToolAccess.Settings.Check

/-!
# Loading a configuration

The configuration file names the documents of the layers, and a directory with one document for
each profile. The documents are read one after the other, and reading stops at the first that
cannot be had. Only when all were read are the problems of the whole configuration looked at, and
only without any is the engine built.

The attempts to read a document form a list (`Settings.attempts`). Its first failure is the
failure of loading, and the warnings are those of the documents read before it.
-/

namespace ToolAccess

/-- Why a configuration cannot be used. -/
inductive SettingsError where
  /-- A file cannot be had. -/
  | unreadable (path : Path) (error : FileError)
  /-- The text of a file was refused. -/
  | unparsable (path : Path) (error : DocumentError)
  /-- The configuration has problems. -/
  | invalid (problems : List Problem)
  /-- The declarations of tools do not fit the tools in use. -/
  | registry (error : RegistryError)
  deriving DecidableEq, Repr

namespace SettingsError

/-- What stands in a message for the details of a refused document. -/
def documentMark : String := "<toml>"

/-- The text about a refused document, up to the details. -/
def parseHead (path : Path) : String := "failed to parse " ++ path.text ++ ": "

/-- The text shown for an error. -/
def message : SettingsError → String
  | unreadable path error => "failed to read " ++ path.text ++ ": " ++ error.message
  | unparsable path _ => parseHead path ++ documentMark
  | invalid problems =>
    "invalid policy configuration:\n  " ++ "\n  ".intercalate (problems.map (·.message))
  | registry error => error.message

/-- The text of the error, and of what caused it if that is shown apart. -/
def chain : SettingsError → List String
  | e@(unreadable _ error) => [e.message, error.message]
  | e => [e.message]

end SettingsError

/-- The text of a file. -/
def FileView.text (files : FileView) (path : Path) : Except SettingsError String :=
  (files.read path).mapError (.unreadable path)

/-- A file read as a document. -/
def FileView.document {α : Type} (files : FileView) (parse : String → Except DocumentError α)
    (path : Path) : Except SettingsError α := do
  let text ← files.text path
  (parse text).mapError (.unparsable path)

/-! ### Profiles -/

/-- How the name of a profile's file ends. -/
def profileEnding : List Char := ['.', 't', 'o', 'm', 'l']

/-- The profile that a file name stands for: the text before the ending, unless it is empty. -/
def profileName? (fileName : String) : Option String :=
  let cs := fileName.toList
  if profileEnding.isSuffixOf cs && profileEnding.length < cs.length then
    some (String.ofList (cs.take (cs.length - profileEnding.length)))
  else none

/-- The profiles among the files of a directory, with their paths. -/
def profilePaths (directory : Path) (fileNames : List String) : SortedMap String Path :=
  .ofList <| fileNames.filterMap fun fileName ↦
    (profileName? fileName).map fun profile ↦ (profile, directory.join ⟨fileName⟩)

/-- The profiles of a directory, with their paths. -/
def FileView.profiles (files : FileView) (directory : Path) :
    Except SettingsError (SortedMap String Path) :=
  match files.list directory with
  | .ok fileNames => .ok (profilePaths directory fileNames)
  | .error e => .error (.unreadable directory e)

/-! ### Documents -/

/-- The document of a layer, with the name of the layer. -/
structure NamedDocument where
  name : LayerName
  document : LayerDocument
  deriving DecidableEq, Repr

namespace NamedDocument

/-- The problems of the document. -/
def problems (v : TagVocabulary) (d : NamedDocument) : List Problem :=
  d.document.problems v d.name.display

/-- The warnings about the document. -/
def events (v : TagVocabulary) (d : NamedDocument) : List Event :=
  d.document.events v d.name.display

/-- The layer of the document. -/
def toLayer (v : TagVocabulary) (d : NamedDocument) : Layer := d.document.toLayer v d.name.display

/-- The layer with a name among those of a list of documents; the empty layer if there is none. -/
def layerNamed (v : TagVocabulary) (docs : List NamedDocument) (name : LayerName) : Layer :=
  match docs.find? (·.name = name) with
  | some d => d.toLayer v
  | none => .empty

/-- The document's profile, if it is that of one, with its layer. -/
def profile? (v : TagVocabulary) (d : NamedDocument) : Option (String × Layer) :=
  match d.name with
  | .profile name => some (name, d.toLayer v)
  | .defaults | .overrides => none

/-- The layers of a list of documents. -/
def layerTable (v : TagVocabulary) (docs : List NamedDocument) : LayerTable where
  defaults := layerNamed v docs .defaults
  overrides := layerNamed v docs .overrides
  profiles := .ofList (docs.filterMap (profile? v))

end NamedDocument

namespace Settings

/-- Reads the configuration file at a path. -/
def load (files : FileView) (path : Path) : Except SettingsError Settings := do
  let s ← files.document parse path
  return { s with baseDirectory := path.parent?.getD .empty }

/-- The directory of the profiles, seen from the base directory. -/
def profilesPath? (s : Settings) : Option Path := s.policy.profilesDirectory.map s.resolve

/-- The paths of all documents, when the directory of the profiles holds the given names. -/
def documentPaths (s : Settings) (names : List String) : List Path :=
  (s.policy.defaults.toList ++ s.policy.overrides.toList ++
    s.profilesPath?.toList.flatMap fun directory ↦
      (profilePaths directory names).entries.map (·.2)).map s.resolve

/-- Reads the document of a layer. -/
def attempt (s : Settings) (files : FileView) (name : LayerName) (path : Path) :
    Except SettingsError NamedDocument :=
  (files.document LayerDocument.parse (s.resolve path)).map (NamedDocument.mk name)

/-- Reads the documents of the profiles in a directory. -/
def profileAttempts (s : Settings) (files : FileView) (directory : Path) :
    List (Except SettingsError NamedDocument) :=
  match files.profiles directory with
  | .ok found => found.entries.map fun e ↦ s.attempt files (.profile e.1) e.2
  | .error e => [.error e]

/-- The attempts to read the documents: the defaults, the overrides, and the profiles by name. -/
def attempts (s : Settings) (files : FileView) : List (Except SettingsError NamedDocument) :=
  s.policy.defaults.toList.map (s.attempt files .defaults) ++
    s.policy.overrides.toList.map (s.attempt files .overrides) ++
    s.profilesPath?.toList.flatMap (s.profileAttempts files)

/-- All documents, or the first failure. -/
def documents (s : Settings) (files : FileView) : Except SettingsError (List NamedDocument) :=
  (s.attempts files).mapM id

/-- The documents that were read before the first failure. -/
def documentsRead (s : Settings) (files : FileView) : List NamedDocument :=
  ((s.attempts files).takeWhile (·.isOk)).filterMap (·.toOption)

/-- The problems of documents of layers. -/
def layerProblems (s : Settings) (docs : List NamedDocument) : List Problem :=
  docs.flatMap (·.problems s.vocabulary)

/-- The warnings of reading the documents. -/
def layerEvents (s : Settings) (files : FileView) : List Event :=
  (if s.policy.defaults.isNone then [.defaultsMissing] else []) ++
    (s.documentsRead files).flatMap (·.events s.vocabulary)

/-- The given value, unless there are problems. -/
def unlessProblems {α : Type} (problems : List Problem) (value : α) : Except SettingsError α :=
  if problems.isEmpty then .ok value else .error (.invalid problems)

/-- The layers of the configuration. -/
def loadLayers (s : Settings) (files : FileView) : Except SettingsError LayerTable := do
  let docs ← s.documents files
  unlessProblems (s.policyProblems ++ s.layerProblems docs)
    (NamedDocument.layerTable s.vocabulary docs)

/-! ### The engine -/

/-- The problems of the whole configuration. -/
def problems (s : Settings) (docs : List NamedDocument) : List Problem :=
  s.policyProblems ++ s.metadataProblems ++ s.layerProblems docs

/-- The registry and the layers of the configuration, for the in-house tools in use. -/
def engineParts (s : Settings) (files : FileView) (inUse : List String) :
    Except SettingsError (Registry × LayerTable) := do
  let docs ← s.documents files
  unlessProblems (s.problems docs) ()
  let registry ← (s.registrations.build inUse).mapError .registry
  return (registry, NamedDocument.layerTable s.vocabulary docs)

/-- The engine of the configuration, for the in-house tools in use. -/
def buildEngine (s : Settings) (files : FileView) (inUse : List String) :
    Except SettingsError Engine := do
  let (registry, layers) ← s.engineParts files inUse
  return Engine.ofLayers registry s.policy.overrideOffset layers

/-- The events of building the engine. -/
def engineEvents (s : Settings) (files : FileView) (inUse : List String) : List Event :=
  s.metadataEvents ++ s.layerEvents files ++
    match s.engineParts files inUse with
    | .ok (registry, layers) =>
      .registryBuilt registry.inHouseNames.length registry.origins.length ::
        layers.buildEvents s.policy.overrideOffset
    | .error _ => []

/-- The names of the in-house tools that the configuration declares. -/
def declaredTools (s : Settings) : List String := s.metadata.tools.keys

end Settings

end ToolAccess
