import ToolAccess.Confirmation.Outcome
import ToolAccess.Event

/-!
# The life of a request

A request for a confirmation waits for three things at once: the cancelling of its turn, the
answer of the confirmer, and the end of the time to wait. It looks at them each time it is polled,
in this order, and ends at the first poll at which one of them is there. A request that is given
up before that counts as cancelled. The confirmer is not polled once the turn is cancelled.
-/

namespace ToolAccess

/-- What a request finds at one poll. -/
structure Poll where
  /-- Whether the turn is cancelled. -/
  cancelled : Bool
  /-- The confirmer's answer, if it has one. -/
  answer : Option Bool
  /-- Whether the time to wait is over. -/
  expired : Bool
  deriving DecidableEq, Repr

namespace Poll

/-- A poll at which the turn is cancelled. -/
def ofCancelled : Poll := ⟨true, none, false⟩

/-- How the request ends at this poll, if it does. -/
def outcome? (p : Poll) : Option ConfirmOutcome :=
  if p.cancelled then some .cancelled
  else
    match p.answer with
    | some approves => some (.ofAnswer approves)
    | none => if p.expired then some .timedOut else none

/-- How often the confirmer is polled, once or not at all. -/
def confirmerPolls (p : Poll) : Nat := if p.cancelled then 0 else 1

end Poll

/-- The warnings about a request for a tool that came to an outcome. -/
def ConfirmOutcome.events (o : ConfirmOutcome) (tool : String) : List Event :=
  match o with
  | approved | rejected => []
  | timedOut => [.confirmationTimedOut tool]
  | cancelled => [.confirmationCancelled tool]

/-- How a request ended. -/
structure RequestEnd where
  outcome : ConfirmOutcome
  /-- Whether the request was given up before it was decided. -/
  dropped : Bool
  /-- How often the confirmer was polled. -/
  confirmerPolls : Nat
  deriving DecidableEq, Repr

namespace RequestEnd

/-- The end of a request that is polled so, and given up after the last poll. -/
def ofPolls : List Poll → RequestEnd
  | [] => ⟨.cancelled, true, 0⟩
  | p :: rest =>
    match p.outcome? with
    | some outcome => ⟨outcome, false, p.confirmerPolls⟩
    | none =>
      let later := ofPolls rest
      { later with confirmerPolls := p.confirmerPolls + later.confirmerPolls }

/-- The warnings about the end of a request for a tool. -/
def events (e : RequestEnd) (tool : String) : List Event :=
  if e.dropped then [.confirmationDropped tool] else e.outcome.events tool

end RequestEnd

end ToolAccess
