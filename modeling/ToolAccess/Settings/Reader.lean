import ToolAccess.Settings.Basic
import ToolAccess.Shape.Record
import ToolAccess.Toml.Reader

/-!
# Reading settings

The fields of the configuration file. Every field may be left out, except the identifier of an
origin, and no other fields are accepted.
-/

namespace ToolAccess

/-- Why the text of a document was refused. -/
inductive DocumentError where
  /-- The text is not TOML. -/
  | notToml
  /-- The document is not of the right shape. -/
  | misshapen (error : ShapeError)
  deriving DecidableEq, Repr

namespace Toml

/-- A text. -/
def asText : Shape Toml String := Shape.string dialect "a string"

/-- A list of texts. -/
def asTexts : Shape Toml (List String) := Shape.list dialect asText

/-- A path. -/
def asPath : Shape Toml Path := fun v ↦ (Shape.string dialect "path string" v).map Path.mk

/-- Lists of texts by name. -/
def asWordTable : Shape Toml (SortedMap String (List String)) := fun v ↦
  (Shape.table dialect asTexts v).map SortedMap.ofList

/-- Reads a document. -/
def readDocument {σ : Type} (shape : RecordShape Toml σ) (text : String) :
    Except DocumentError σ :=
  match parse? text with
  | none => .error .notToml
  | some entries => (shape.read dialect (.table entries)).mapError .misshapen

end Toml

open Toml

/-- The fields about the policy. -/
def PolicySettings.shape : RecordShape Toml PolicySettings where
  name := "PolicyConfig"
  blank := .blank
  closed := true
  fields := [
    .ofShape "defaults" .optional asPath fun v s ↦ { s with defaults := some v },
    .ofShape "overrides" .optional asPath fun v s ↦ { s with overrides := some v },
    .ofShape "profiles_dir" .optional asPath fun v s ↦ { s with profilesDirectory := some v },
    .ofShape "override_offset" .optional (Shape.int64 dialect) fun v s ↦
      { s with overrideOffset := v }]

/-- The fields about confirmations; there is one, the seconds to wait. -/
def confirmSecondsShape : RecordShape Toml UInt64 where
  name := "ConfirmationConfig"
  blank := defaultConfirmSeconds
  closed := true
  fields := [.ofShape "timeout_secs" .optional (Shape.uint64 dialect) fun v _ ↦ v]

/-- The fields about the audit log; there is one, its path. -/
def auditPathShape : RecordShape Toml (Option Path) where
  name := "AuditConfig"
  blank := none
  closed := true
  fields := [.ofShape "path" .optional asPath fun v _ ↦ some v]

/-- The fields about in-house tools. -/
def MetadataSettings.shape : RecordShape Toml MetadataSettings where
  name := "MetadataConfig"
  blank := .blank
  closed := true
  fields := [
    .ofShape "groups" .optional asTexts fun v s ↦ { s with groups := v },
    .ofShape "tools" .optional asWordTable fun v s ↦ { s with tools := v }]

/-- The fields about an origin. -/
def OriginSettings.shape : RecordShape Toml OriginSettings where
  name := "OriginConfig"
  blank := ⟨"", ∅⟩
  closed := true
  fields := [
    .ofShape "id" .required asText fun v s ↦ { s with id := v },
    .ofShape "tools" .optional asWordTable fun v s ↦ { s with tools := v }]

namespace Settings

/-- The fields of the configuration file. -/
def shape : RecordShape Toml Settings where
  name := "Config"
  blank := .blank
  closed := true
  fields := [
    .ofShape "policy" .optional (PolicySettings.shape.read dialect) fun v s ↦
      { s with policy := v },
    .ofShape "confirmation" .optional (confirmSecondsShape.read dialect) fun v s ↦
      { s with confirmSeconds := v },
    .ofShape "audit" .optional (auditPathShape.read dialect) fun v s ↦ { s with auditPath := v },
    .ofShape "metadata" .optional (MetadataSettings.shape.read dialect) fun v s ↦
      { s with metadata := v },
    .ofShape "origins" .optional (Shape.list dialect (OriginSettings.shape.read dialect))
      fun v s ↦ { s with origins := v }]

/-- Reads the text of a configuration file. -/
def parse (text : String) : Except DocumentError Settings := readDocument shape text

end Settings

end ToolAccess
