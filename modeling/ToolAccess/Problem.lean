import ToolAccess.Glob.Pattern
import ToolAccess.Vocabulary

/-!
# Problems of a configuration

A document that can be read may still say things that mean nothing: a word outside its vocabulary,
a pattern that is none, an origin that is declared twice. All such problems of a configuration are
collected and shown together, each with its location.
-/

namespace ToolAccess

/-- The name of a policy layer. -/
inductive LayerName where
  | defaults
  | overrides
  | profile (name : String)
  deriving DecidableEq, Repr

/-- How a layer is named in messages. -/
def LayerName.display : LayerName → String
  | .defaults => "defaults"
  | .overrides => "overrides"
  | .profile name => "profile '" ++ name ++ "'"

/-- A part of a configuration in which words and patterns stand. -/
inductive Location where
  /-- The fallback of the layer shown so. -/
  | fallback (layer : String)
  /-- A rule of the layer shown so, by its place in the document. -/
  | rule (layer : String) (index : Nat)
  /-- The tags of an in-house tool. -/
  | tool (name : String)
  /-- The tags of all other tools of an origin. -/
  | catchAll (origin : String)
  /-- The tags of a tool of an origin. -/
  | originTool (origin name : String)
  deriving DecidableEq, Repr

/-- How a location is shown. -/
def Location.display : Location → String
  | .fallback layer => layer ++ ": default_decision"
  | .rule layer index => layer ++ s!": rule #{index}"
  | .tool name => "metadata: tool '" ++ name ++ "'"
  | .catchAll origin => "origin '" ++ origin ++ "': wildcard"
  | .originTool origin name => "origin '" ++ origin ++ "': tool '" ++ name ++ "'"

/-- Something wrong with a configuration. -/
inductive Problem where
  /-- The lift of the overrides is below zero. -/
  | negativeOffset (offset : Int64)
  /-- A declared group is spelled like a built-in tag. -/
  | shadowingGroup (group : String)
  /-- A word is not in its vocabulary. -/
  | unknownWord (location : Location) (error : UnknownWord)
  /-- A pattern for names is none. -/
  | invalidPattern (location : Location) (pattern : String) (error : Glob.PatternError)
  /-- An origin has the empty name. -/
  | emptyOrigin
  /-- An origin has the name of an earlier one. -/
  | repeatedOrigin (id : String)
  deriving DecidableEq, Repr

/-- The text shown for a problem. -/
def Problem.message : Problem → String
  | .negativeOffset offset =>
    "policy: override_offset must not be negative (got " ++ toString offset.toInt ++ ")"
  | .shadowingGroup group => "metadata: group '" ++ group ++ "' shadows a built-in tag"
  | .unknownWord location error => location.display ++ ": " ++ error.message
  | .invalidPattern location pattern error =>
    location.display ++ ": invalid name pattern '" ++ pattern ++ "': " ++ error.message
  | .emptyOrigin => "origins: entry with empty id"
  | .repeatedOrigin id => "origins: duplicate origin '" ++ id ++ "'"

/-! ### Words in lists -/

namespace TagVocabulary

/-- The tags that words stand for, without the words that stand for none. -/
def tagsOf (v : TagVocabulary) (words : List String) : List Tag :=
  words.filterMap fun word ↦ (v.parse word).toOption

/-- The problems of a list of words: one for each that stands for no tag. -/
def problemsOf (v : TagVocabulary) (location : Location) (words : List String) : List Problem :=
  words.filterMap fun word ↦
    match v.parse word with
    | .ok _ => none
    | .error e => some (.unknownWord location e)

end TagVocabulary

end ToolAccess
