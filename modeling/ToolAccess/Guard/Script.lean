import ToolAccess.Confirmation.Queue
import ToolAccess.Confirmation.Timeline
import ToolAccess.Guard.Basic

/-!
# Scripted surroundings

Surroundings that follow a script, for trying out a policy without tools or humans: what each tool
does is fixed, and the human's answers are listed beforehand, one for each question. The answers
come from the confirmer itself after a while, or from a listener who acts on a queue of questions.
-/

namespace ToolAccess

/-- What a scripted tool does. -/
inductive ScriptedResult where
  | success (text : String)
  | failure (text : String)
  | notFound
  | invalidArguments (reason : String)
  | executionFailed (reason : String)
  deriving DecidableEq, Repr

/-- A tool that always does the same. -/
structure ScriptedTool where
  definition : ToolDefinition
  result : ScriptedResult
  deriving DecidableEq

/-- What a listener does about the announcement of a question. -/
inductive ListenerAct where
  | resolve (approves : Bool)
  | rejectAll
  | ignore
  deriving DecidableEq, Repr

/-- The answers to come. -/
inductive Replies where
  /-- Those of the confirmer itself; nothing stands for no answer. -/
  | direct (answers : List (Option TimedAnswer))
  /-- The acts of a listener to a queue. -/
  | queued (acts : List ListenerAct)
  deriving DecidableEq

/-- The state of scripted surroundings. -/
structure Script where
  tools : List ScriptedTool
  replies : Replies
  /-- The time in which an answer has to come. -/
  timeout : Nat
  /-- How long after its start the call's turn is cancelled, if it is. -/
  cancelAfter : Option Nat
  /-- How long after its start the call is given up, if it is. -/
  dropAfter : Option Nat
  deriving DecidableEq

/-- What a scripted tool gives back. -/
def ScriptedResult.toResult (name : String) : ScriptedResult → Except ToolError ToolResult
  | success text => .ok ⟨text, false⟩
  | failure text => .ok ⟨text, true⟩
  | notFound => .error (.notFound name)
  | invalidArguments reason => .error (.invalidArguments name reason)
  | executionFailed reason => .error (.executionFailed name reason)

namespace ListenerAct

/-- Does something about the only question in a queue. -/
def apply (a : ListenerAct) (q : QuestionQueue Unit) : QuestionQueue Unit × List Event :=
  match a with
  | resolve approves => ((q.resolve? () approves).getD q, [])
  | rejectAll => (q.rejectAll, q.rejectAllEvents)
  | ignore => (q, [])

end ListenerAct

namespace Script

/-- The definitions of the tools. -/
def definitions (s : Script) : List ToolDefinition := s.tools.map (·.definition)

/-- What the first tool of a name gives back. -/
def runTool (s : Script) (name : String) : Except ToolError ToolResult :=
  match s.tools.find? (·.definition.name = name) with
  | some tool => tool.result.toResult name
  | none => .error (.notFound name)

/-- What happens to a request that gets an answer. -/
def timeline (s : Script) (answer : Option TimedAnswer) : Timeline :=
  ⟨answer, s.timeout, s.cancelAfter, s.dropAfter⟩

/-- Asks the human: the next answer of the script counts. -/
def ask (s : Script) (question : Question) : Waited × Script :=
  match s.replies with
  | .direct answers =>
    let t := s.timeline answers.head?.join
    (⟨t.firstPoll, t.laterPolls, []⟩, { s with replies := .direct answers.tail })
  | .queued acts =>
    let q : QuestionQueue Unit := (QuestionQueue.empty true).ask
      ⟨(), question.tool, question.prompt, question.arguments⟩
    let (q, events) := (acts.head?.getD .ignore).apply q
    let t := s.timeline ((q.answer? ()).map fun approves ↦ ⟨approves, 0⟩)
    (⟨{ t with answer := none }.firstPoll, t.polls, events⟩,
      { s with replies := .queued acts.tail })

/-- Surroundings that follow a script. -/
def surroundings : Surroundings Script where
  definitions := definitions
  identityOf s := identityAmong? s.definitions
  run s call := (s.runTool call.tool, s)
  ask := ask

end Script

end ToolAccess
