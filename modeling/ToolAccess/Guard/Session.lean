import ToolAccess.Guard.Basic
import ToolAccess.Turn.Forest

/-!
# Sessions

A session is a guard at work: the forest of turns, the surroundings and the audit log, and what is
done with them one after the other. Turns are called by name. A request that ends because its turn
was cancelled leaves the whole tree of the turn cancelled.
-/

namespace ToolAccess

/-- The state of a session. -/
structure Session (σ : Type) where
  forest : Forest
  surroundings : σ
  audit : Option AuditLog

/-- What can be done in a session. -/
inductive Operation where
  /-- A new turn in a tree of its own. -/
  | create (name : String) (profile : Option String) (taint : TaintLevel)
  /-- A new turn delegated from another. -/
  | delegate (name parent : String) (inheritance : Inheritance)
  /-- Cancels the tree of a turn. -/
  | cancel (name : String)
  /-- Raises the taint of a turn. -/
  | escalate (name : String) (level : TaintLevel)
  /-- Takes account of the output of a tool with these tags. -/
  | observe (name : String) (tags : TagSet)
  /-- A turn is over. -/
  | drop (name : String)
  /-- Lists the tools for a turn. -/
  | list (name : String)
  /-- Mediates a call. -/
  | execute (name tool : String) (arguments : Json)

/-- What comes of an operation. -/
inductive Effect (σ : Type) where
  /-- The turn does not exist. -/
  | noTurn
  /-- Only the turns change. -/
  | done
  | listed (definitions : List ToolDefinition) (events : List Event)
  | executed (report : CallReport σ)

namespace Session

variable {σ : Type}

/-- Does something with the turn of a name. -/
def onTurn (s : Session σ) (name : String) (act : Turn → Session σ × Effect σ) :
    Session σ × Effect σ :=
  match s.forest.turn? name with
  | some turn => act turn
  | none => (s, .noTurn)

/-- Whether a call ended because its turn was cancelled. -/
def endsCancelled : CallEnd → Bool
  | .outcome (.notConfirmed _ .cancelled) => true
  | _ => false

/-- The session after a call in a turn. -/
def afterCall (s : Session σ) (name : String) (report : CallReport σ) : Session σ where
  forest :=
    let f := s.forest.put name report.turn
    if endsCancelled report.finish then f.cancel report.turn else f
  surroundings := report.trace.surroundings
  audit := report.trace.audit

/-- Mediates a call. -/
def execute (g : Guard) (host : Surroundings σ) (s : Session σ) (name tool : String)
    (arguments : Json) : Session σ × Effect σ :=
  s.onTurn name fun turn ↦
    let report := g.execute host turn (s.forest.isCancelled turn) tool arguments
      (.start s.surroundings s.audit)
    (s.afterCall name report, .executed report)

/-- Does one operation. -/
def step (g : Guard) (host : Surroundings σ) (s : Session σ) : Operation → Session σ × Effect σ
  | .create name profile taint => ({ s with forest := s.forest.create name profile taint }, .done)
  | .delegate name parent inheritance =>
    s.onTurn parent fun turn ↦
      ({ s with forest := s.forest.delegate name turn inheritance }, .done)
  | .cancel name => s.onTurn name fun turn ↦ ({ s with forest := s.forest.cancel turn }, .done)
  | .escalate name level =>
    s.onTurn name fun turn ↦ ({ s with forest := s.forest.put name (turn.escalate level) }, .done)
  | .observe name tags =>
    s.onTurn name fun turn ↦ ({ s with forest := s.forest.put name (turn.observe tags) }, .done)
  | .drop name => s.onTurn name fun _ ↦ ({ s with forest := s.forest.drop name }, .done)
  | .list name =>
    s.onTurn name fun turn ↦
      let definitions := host.definitions s.surroundings
      (s, .listed (g.list turn definitions) (g.listEvents turn definitions))
  | .execute name tool arguments => s.execute g host name tool arguments

/-- Does operations one after the other: the session afterwards, and what came of each. -/
def run (g : Guard) (host : Surroundings σ) (s : Session σ) :
    List Operation → Session σ × List (Effect σ)
  | [] => (s, [])
  | op :: rest =>
    let (s, effect) := s.step g host op
    let (s, effects) := run g host s rest
    (s, effect :: effects)

end Session

end ToolAccess
