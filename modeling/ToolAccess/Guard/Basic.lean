import ToolAccess.Audit.Log
import ToolAccess.Confirmation.Prompt
import ToolAccess.Confirmation.Request
import ToolAccess.Engine
import ToolAccess.Text.Duration
import ToolAccess.Turn.Basic

/-!
# The guard

The guard stands between the agent and the tools. It lists the tools that the policy does not deny
at the turn's taint, and it mediates calls: each call is decided anew, a human is asked where the
policy wants it, the tool runs, and its output raises the taint of the turn. What happens goes to
the audit log, if there is one; whether the log takes it has no influence on the call.

The guard knows its surroundings, the tools and the human, only through `Surroundings`, whose state
of type `σ` may change with every call and every question.
-/

namespace ToolAccess

/-- A call of a tool as the executor sees it. -/
structure ToolCall where
  tool : String
  arguments : Json
  /-- The turn as it is when the tool runs. -/
  turn : Turn
  deriving DecidableEq

/-- A question to a human. -/
structure Question where
  prompt : String
  tool : String
  arguments : Json
  deriving DecidableEq

/-- How a question goes: what the request finds at its first and its later polls, and the warnings
of the confirmer. -/
structure Waited where
  first : Poll
  later : List Poll
  events : List Event

/-- The end of a request that goes so. -/
def Waited.requestEnd (w : Waited) : RequestEnd := .ofPolls (w.first :: w.later)

/-- The tools and the human around the guard. -/
structure Surroundings (σ : Type) where
  /-- The tools that the executor has. -/
  definitions : σ → List ToolDefinition
  /-- The identity of the tool with a name, if there is one. -/
  identityOf : σ → String → Option ToolIdentity
  /-- Runs a tool. -/
  run : σ → ToolCall → Except ToolError ToolResult × σ
  /-- Asks the human. -/
  ask : σ → Question → Waited × σ

/-- The identity of the first tool with a name. -/
def identityAmong? (definitions : List ToolDefinition) (name : String) : Option ToolIdentity :=
  (definitions.find? (·.name = name)).map (·.identity)

/-- A guard's policy and the time it gives the human. -/
structure Guard where
  engine : Engine
  /-- The time in which a human has to answer, in milliseconds. -/
  confirmMilliseconds : Nat

/-- The time in which a human has to answer when none is set, in milliseconds. -/
def defaultConfirmMilliseconds : Nat := 120000

/-- How a mediated call ended. -/
inductive CallEnd where
  /-- With an outcome for the agent. -/
  | outcome (o : ToolOutcome)
  /-- With a failure of the executor. -/
  | failed (e : ToolError)
  /-- The call was given up while it waited for the human. -/
  | dropped
  deriving DecidableEq, Repr

/-- What a call has touched so far. -/
structure Trace (σ : Type) where
  surroundings : σ
  /-- The audit log, if there is one. -/
  audit : Option AuditLog
  events : List Event
  asked : List Question
  calls : List ToolCall

/-- A call that has ended. -/
structure CallReport (σ : Type) where
  finish : CallEnd
  /-- The turn afterwards. -/
  turn : Turn
  trace : Trace σ

namespace Trace

variable {σ : Type}

/-- Nothing touched yet. -/
def start (surroundings : σ) (audit : Option AuditLog) : Trace σ :=
  ⟨surroundings, audit, [], [], []⟩

/-- Adds events. -/
def emit (t : Trace σ) (events : List Event) : Trace σ := { t with events := t.events ++ events }

/-- Writes an entry to the audit log. A failure is reported and has no other effect. -/
def record (t : Trace σ) (entry : AuditEntry) (failed : String → Event) : Trace σ :=
  match t.audit with
  | none => t
  | some log =>
    let (log, failure) := log.record entry
    { t with audit := some log, events := t.events ++ (failure.map failed).toList }

end Trace

/-- Why a call is refused: the description of the deciding rule, or else its place. -/
def Evaluation.refusal (e : Evaluation) : String :=
  match e.rule with
  | some rule => if rule.description.isEmpty then s!"rule #{rule.index}" else rule.description
  | none => "default decision"

namespace Guard

variable {σ : Type}

/-- How a guard is shown. -/
def display (g : Guard) (hasAudit : Bool) : String :=
  "PolicyGuard \x7b confirm_timeout: " ++ Text.duration g.confirmMilliseconds ++ ", audit: " ++
    toString hasAudit ++ ", .. \x7d"

/-! ### Listing -/

/-- The evaluation of a tool in a turn. -/
def evaluate (g : Guard) (turn : Turn) (tool : ToolIdentity) : Evaluation :=
  g.engine.evaluate tool turn.profile turn.taint

/-- The events of evaluating a tool in a turn. -/
def evaluateEvents (g : Guard) (turn : Turn) (tool : ToolIdentity) : List Event :=
  g.engine.evaluateEvents tool turn.profile turn.taint

/-- Whether the agent may see a tool. -/
def shows (g : Guard) (turn : Turn) (d : ToolDefinition) : Bool :=
  (g.evaluate turn d.identity).decision ≠ .deny

/-- The tools that the agent may see, in the order of the executor. -/
def list (g : Guard) (turn : Turn) (definitions : List ToolDefinition) : List ToolDefinition :=
  definitions.filter (g.shows turn)

/-- The events of listing tools. -/
def listEvents (g : Guard) (turn : Turn) (definitions : List ToolDefinition) : List Event :=
  definitions.flatMap fun d ↦ g.evaluateEvents turn d.identity

/-- Checks that every in-house tool of the executor has an entry in the registry. -/
def checkLive (g : Guard) (definitions : List ToolDefinition) : Except RegistryError Unit :=
  g.engine.registry.checkLive (definitions.map (·.identity))

/-! ### Mediated calls -/

/-- Ends a call with a refusal. -/
def refuse (turn : Turn) (tool reason : String) (t : Trace σ) : CallReport σ :=
  ⟨.outcome (.denied tool reason), turn, t.record ⟨turn.id, tool, .denied reason⟩ .notAudited⟩

/-- Records the taint that the output of a tool raised the turn to, if it did. -/
def recordRise (turn : Turn) (tool : String) (tags : TagSet) (t : Trace σ) : Trace σ :=
  match turn.outputRise? tags with
  | some level => t.record ⟨turn.id, tool, .escalated level⟩ .notAudited
  | none => t

/-- Runs the tool, and ends the call with what it gives back. -/
def perform (host : Surroundings σ) (turn : Turn) (tool : String) (arguments : Json)
    (tags : TagSet) (t : Trace σ) : CallReport σ :=
  let call : ToolCall := ⟨tool, arguments, turn⟩
  let (result, surroundings) := host.run t.surroundings call
  let t := { t with surroundings, calls := t.calls ++ [call] }
  match result with
  | .error e => ⟨.failed e, turn, t⟩
  | .ok result =>
    let t := t.record ⟨turn.id, tool, .executed result.isError⟩ .notAudited
    ⟨.outcome (.executed result), turn.observe tags, recordRise turn tool tags t⟩

/-- Puts a question to the human, unless the turn is cancelled already: how the request ended. -/
def askHuman (host : Surroundings σ) (turn : Turn) (cancelled : Bool) (question : Question)
    (t : Trace σ) : RequestEnd × Trace σ :=
  let (finish, t) :=
    if cancelled then (RequestEnd.ofPolls [.ofCancelled], t)
    else
      let (waited, surroundings) := host.ask t.surroundings question
      let finish := waited.requestEnd
      let asked := if finish.confirmerPolls = 0 then [] else [question]
      (finish, { t.emit waited.events with surroundings, asked := t.asked ++ asked })
  let t := t.emit (finish.events question.tool)
  (finish, t.record ⟨turn.id, question.tool, .confirmation finish.outcome⟩
    (.confirmationNotAudited · question.tool))

/-- Mediates a call of a tool in a turn. -/
def execute (g : Guard) (host : Surroundings σ) (turn : Turn) (cancelled : Bool) (tool : String)
    (arguments : Json) (t : Trace σ) : CallReport σ :=
  match host.identityOf t.surroundings tool with
  | none => refuse turn tool "unknown tool" (t.emit [.toolUnknown tool])
  | some identity =>
    let tags := g.engine.tagsFor identity
    let evaluation := g.evaluate turn identity
    let t := t.emit (g.evaluateEvents turn identity)
    match evaluation.decision with
    | .allow => perform host turn tool arguments tags t
    | .deny =>
      let reason := evaluation.refusal
      refuse turn tool reason (t.emit [.callDenied identity.display turn.taint reason])
    | .confirm =>
      let question : Question := ⟨confirmationPrompt tool arguments, tool, arguments⟩
      let (finish, t) := askHuman host turn cancelled question t
      if finish.dropped then ⟨.dropped, turn, t⟩
      else if finish.outcome.isApproved then perform host turn tool arguments tags t
      else ⟨.outcome (.notConfirmed tool finish.outcome), turn, t⟩

end Guard

end ToolAccess
