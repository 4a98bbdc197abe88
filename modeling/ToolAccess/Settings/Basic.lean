import ToolAccess.Files.Path
import ToolAccess.Layer
import ToolAccess.Vocabulary

/-!
# Settings

What the configuration file of a deployment says: where the documents of the policy layers are,
how long to wait for a human, where the audit log goes, and which tags the tools carry. The words
in it are not checked here (`ToolAccess.Settings.Check`). Relative paths are seen from the
directory that holds the file.
-/

namespace ToolAccess

/-- Where the policy comes from. -/
structure PolicySettings where
  /-- The document of the defaults layer. -/
  defaults : Option Path
  /-- The document of the overrides layer. -/
  overrides : Option Path
  /-- The directory with a document for each profile. -/
  profilesDirectory : Option Path
  /-- The lift of the overrides. -/
  overrideOffset : Int64
  deriving DecidableEq, Repr

/-- The tags of the in-house tools, as words. -/
structure MetadataSettings where
  /-- The names of the declared groups. -/
  groups : List String
  tools : SortedMap String (List String)
  deriving DecidableEq

/-- The tags of the tools of one origin, as words. -/
structure OriginSettings where
  id : String
  /-- The tags of each tool; the catch-all name stands for the others. -/
  tools : SortedMap String (List String)
  deriving DecidableEq

/-- The settings of a deployment. -/
structure Settings where
  policy : PolicySettings
  /-- The time in which a human has to answer. -/
  confirmSeconds : UInt64
  auditPath : Option Path
  metadata : MetadataSettings
  origins : List OriginSettings
  /-- The directory from which relative paths are seen. -/
  baseDirectory : Path
  deriving DecidableEq

/-- The time in which a human has to answer when none is configured. -/
def defaultConfirmSeconds : UInt64 := 120

/-- Settings of the policy when nothing is configured. -/
def PolicySettings.blank : PolicySettings := ⟨none, none, none, defaultOffset⟩

/-- Metadata when nothing is configured. -/
def MetadataSettings.blank : MetadataSettings := ⟨[], ∅⟩

namespace Settings

/-- The settings when nothing is configured. -/
def blank : Settings := ⟨.blank, defaultConfirmSeconds, none, .blank, [], .empty⟩

/-- The configured path seen from the base directory. -/
def resolve (s : Settings) (p : Path) : Path := if p.isAbsolute then p else s.baseDirectory.join p

/-- Where the audit log goes, seen from the base directory. -/
def auditFile? (s : Settings) : Option Path := s.auditPath.map s.resolve

/-- The tags that documents may use. -/
def vocabulary (s : Settings) : TagVocabulary := .withGroups s.metadata.groups

/-- The time in which a human has to answer, in milliseconds. -/
def confirmMilliseconds (s : Settings) : Nat := s.confirmSeconds.toNat * 1000

end Settings

end ToolAccess
