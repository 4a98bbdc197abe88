import ToolAccess.Settings.Reader

/-!
# Documents of policy layers

A policy layer as it is written down, its words unchecked. Every field may be left out, except the
decision of a rule, and no other fields are accepted.
-/

namespace ToolAccess

/-- A rule as it is written down. -/
structure RuleDocument where
  names : List String
  tagsAll : List String
  tagsAny : List String
  origins : List String
  decision : String
  priority : Int64
  threshold : Option String
  description : String
  deriving DecidableEq, Repr

/-- A policy layer as it is written down. -/
structure LayerDocument where
  fallback : Option String
  rules : List RuleDocument
  deriving DecidableEq, Repr

open Toml

/-- The fields of a rule. -/
def RuleDocument.shape : RecordShape Toml RuleDocument where
  name := "RuleDocument"
  blank := ⟨[], [], [], [], "", 0, none, ""⟩
  closed := true
  fields := [
    .ofShape "names" .optional asTexts fun v r ↦ { r with names := v },
    .ofShape "tags_all" .optional asTexts fun v r ↦ { r with tagsAll := v },
    .ofShape "tags_any" .optional asTexts fun v r ↦ { r with tagsAny := v },
    .ofShape "origins" .optional asTexts fun v r ↦ { r with origins := v },
    .ofShape "decision" .required asText fun v r ↦ { r with decision := v },
    .ofShape "priority" .optional (Shape.int64 dialect) fun v r ↦ { r with priority := v },
    .ofShape "taint_threshold" .optional asText fun v r ↦ { r with threshold := some v },
    .ofShape "description" .optional asText fun v r ↦ { r with description := v }]

namespace LayerDocument

/-- The fields of a layer. -/
def shape : RecordShape Toml LayerDocument where
  name := "LayerDocument"
  blank := ⟨none, []⟩
  closed := true
  fields := [
    .ofShape "default_decision" .optional asText fun v d ↦ { d with fallback := some v },
    .ofShape "rules" .optional (Shape.list dialect (RuleDocument.shape.read dialect)) fun v d ↦
      { d with rules := v }]

/-- Reads the text of a layer. -/
def parse (text : String) : Except DocumentError LayerDocument := readDocument shape text

end LayerDocument

end ToolAccess
