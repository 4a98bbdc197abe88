import ToolAccess.Document.Basic
import ToolAccess.Event
import ToolAccess.Problem

/-!
# From documents to layers

A document gives a layer and a list of problems, one for each word or pattern in it that means
nothing. A rule with a problem is left out of the layer; all others keep their order.
-/

namespace ToolAccess

/-- The problem of a word that a vocabulary does not have. -/
def wordProblems {α : Type} (location : Location) : Except UnknownWord α → List Problem
  | .ok _ => []
  | .error e => [.unknownWord location e]

/-- The problem of a text that is no pattern. -/
def patternProblem? (location : Location) (text : String) : Option Problem :=
  match NamePattern.parse text with
  | .ok _ => none
  | .error e => some (.invalidPattern location text e)

namespace RuleDocument

/-- The problems of a rule: those of its decision, its threshold, its tags and its patterns. -/
def problems (v : TagVocabulary) (location : Location) (r : RuleDocument) : List Problem :=
  wordProblems location (Decision.parse r.decision) ++
    (r.threshold.toList.flatMap fun word ↦ wordProblems location (TaintLevel.parse word)) ++
    v.problemsOf location r.tagsAll ++ v.problemsOf location r.tagsAny ++
    r.names.filterMap (patternProblem? location)

/-- The matcher of a rule, made from those of its words and patterns that mean something. -/
def matcher (v : TagVocabulary) (r : RuleDocument) : ToolMatcher :=
  ToolMatcher.empty.withNames (r.names.filterMap fun text ↦ (NamePattern.parse text).toOption)
    |>.withTagsAll (v.tagsOf r.tagsAll)
    |>.withTagsAny (v.tagsOf r.tagsAny)
    |>.withOrigins r.origins

/-- The rule of a document, if all its words and patterns mean something. -/
def toRule? (v : TagVocabulary) (location : Location) (r : RuleDocument) : Option Rule :=
  match r.problems v location, Decision.parse r.decision with
  | [], .ok decision =>
    some ⟨r.matcher v, decision, r.priority,
      r.threshold.bind fun word ↦ (TaintLevel.parse word).toOption, r.description⟩
  | _, _ => none

/-- The warning about a rule that is kept and has no criterion. -/
def events (v : TagVocabulary) (location : Location) (r : RuleDocument) : List Event :=
  match r.toRule? v location with
  | some rule =>
    if rule.matcher.isEmpty then [.ruleNeverMatches location.display r.description] else []
  | none => []

end RuleDocument

namespace LayerDocument

/-- The rules of a layer with their locations. -/
def located (layer : String) (d : LayerDocument) : List (Location × RuleDocument) :=
  d.rules.zipIdx.map fun r ↦ (.rule layer r.2, r.1)

/-- The problems of a layer: that of its fallback, then those of its rules in order. -/
def problems (v : TagVocabulary) (layer : String) (d : LayerDocument) : List Problem :=
  (d.fallback.toList.flatMap fun word ↦
      wordProblems (.fallback layer) (Decision.parse word)) ++
    (d.located layer).flatMap fun r ↦ r.2.problems v r.1

/-- The layer of a document. -/
def toLayer (v : TagVocabulary) (layer : String) (d : LayerDocument) : Layer where
  rules := (d.located layer).filterMap fun r ↦ r.2.toRule? v r.1
  fallback := d.fallback.bind fun word ↦ (Decision.parse word).toOption

/-- The warnings about a layer. -/
def events (v : TagVocabulary) (layer : String) (d : LayerDocument) : List Event :=
  (d.located layer).flatMap fun r ↦ r.2.events v r.1

end LayerDocument

end ToolAccess
