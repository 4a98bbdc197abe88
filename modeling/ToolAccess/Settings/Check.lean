import ToolAccess.Event
import ToolAccess.Problem
import ToolAccess.Registry
import ToolAccess.Settings.Basic

/-!
# Checking settings

The problems of the settings themselves, and the declarations of tools they make. An origin with
an empty or repeated name is a problem, and its tools are passed over.
-/

namespace ToolAccess

namespace OriginSettings

/-- The location of the tags of a tool. -/
def location (o : OriginSettings) (name : String) : Location :=
  if name = catchAllName then .catchAll o.id else .originTool o.id name

/-- The problems of the tags of an origin's tools. -/
def tagProblems (v : TagVocabulary) (o : OriginSettings) : List Problem :=
  o.tools.entries.flatMap fun e ↦ v.problemsOf (o.location e.1) e.2

/-- The tags of an origin's tools. -/
def declarations (v : TagVocabulary) (o : OriginSettings) : List (ToolIdentity × List Tag) :=
  o.tools.entries.map fun e ↦ (.fromOrigin o.id e.1, v.tagsOf e.2)

/-- What is wrong with the name of an origin, after origins with the given names. -/
def nameProblem? (earlier : List String) (o : OriginSettings) : Option Problem :=
  if o.id.isEmpty then some .emptyOrigin
  else if o.id ∈ earlier then some (.repeatedOrigin o.id)
  else none

/-- Each origin of a list with what is wrong with its name. -/
def judged (earlier : List String) : List OriginSettings → List (OriginSettings × Option Problem)
  | [] => []
  | o :: rest => (o, o.nameProblem? earlier) :: judged (o.id :: earlier) rest

end OriginSettings

namespace Settings

/-- The problems of the policy's numbers. -/
def policyProblems (s : Settings) : List Problem :=
  if s.policy.overrideOffset < 0 then [.negativeOffset s.policy.overrideOffset] else []

/-- The problems of the declared groups. -/
def groupProblems (s : Settings) : List Problem :=
  (s.vocabulary.groups.toList.filter fun g ↦ (Tag.builtin? g).isSome).map .shadowingGroup

/-- The problems of the tags of in-house tools. -/
def toolProblems (s : Settings) : List Problem :=
  s.metadata.tools.entries.flatMap fun e ↦ s.vocabulary.problemsOf (.tool e.1) e.2

/-- The origins with what is wrong with their names. -/
def judgedOrigins (s : Settings) : List (OriginSettings × Option Problem) :=
  OriginSettings.judged [] s.origins

/-- The problems of the origins. -/
def originProblems (s : Settings) : List Problem :=
  s.judgedOrigins.flatMap fun
    | (_, some problem) => [problem]
    | (o, none) => o.tagProblems s.vocabulary

/-- The problems of everything that is said about the tags of tools. -/
def metadataProblems (s : Settings) : List Problem :=
  s.groupProblems ++ s.toolProblems ++ s.originProblems

/-- The tags of the in-house tools. -/
def toolDeclarations (s : Settings) : List (ToolIdentity × List Tag) :=
  s.metadata.tools.entries.map fun e ↦ (.inHouse e.1, s.vocabulary.tagsOf e.2)

/-- The tags of the tools of origins. -/
def originDeclarations (s : Settings) : List (ToolIdentity × List Tag) :=
  s.judgedOrigins.flatMap fun
    | (_, some _) => []
    | (o, none) => o.declarations s.vocabulary

/-- All declarations of tools. -/
def registrations (s : Settings) : Registrations :=
  .ofList (s.toolDeclarations ++ s.originDeclarations)

/-- The warnings about in-house tools without a tag on the trust of their output. -/
def metadataEvents (s : Settings) : List Event :=
  (s.toolDeclarations.filter fun e ↦ !e.2.any (·.family == .outputTrust)).map fun e ↦
    .outputTrustAssumed e.1.name

end Settings

end ToolAccess
