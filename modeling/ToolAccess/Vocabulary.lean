import ToolAccess.Tag

/-!
# Closed vocabularies

Tags, decisions and taint levels are closed sets of words. A word outside its vocabulary is
refused when it is read (`UnknownWord`), so that a misspelling can never turn into a rule that
silently matches nothing.
-/

namespace ToolAccess

/-- The closed sets of words. -/
inductive Vocabulary where
  | tag
  | decision
  | taintLevel
  deriving DecidableEq, Repr

/-- What the words of a vocabulary are called in messages. -/
def Vocabulary.noun : Vocabulary → String
  | .tag => "tag"
  | .decision => "decision"
  | .taintLevel => "taint level"

/-- A word that does not belong to its vocabulary. -/
structure UnknownWord where
  /-- The vocabulary that was expected. -/
  vocabulary : Vocabulary
  /-- The word as written. -/
  word : String
  deriving DecidableEq, Repr

/-- The text shown for an unknown word. -/
def UnknownWord.message (e : UnknownWord) : String :=
  s!"unknown {e.vocabulary.noun} '" ++ e.word ++ "'"

/-- The tags a deployment may use: the built-in ones and the groups it declares. -/
structure TagVocabulary where
  /-- The names of the declared groups. -/
  groups : SortedSet String
  deriving Inhabited

namespace TagVocabulary

/-- The vocabulary with the given groups declared. -/
def withGroups (names : List String) : TagVocabulary := ⟨SortedSet.ofList names⟩

/-- The tag that a word stands for. A built-in spelling wins over a group of the same name. -/
def parse (v : TagVocabulary) (word : String) : Except UnknownWord Tag :=
  match Tag.builtin? word with
  | some tag => .ok tag
  | none => if word ∈ v.groups then .ok (.group word) else .error ⟨.tag, word⟩

end TagVocabulary

end ToolAccess
