import ToolAccess.Audit.Log
import ToolAccess.Confirmation.Queue
import ToolAccess.Confirmation.Request

/-!
# Waiting for the queue

Those who wait for answers from the queue, on one clock. A waiter asks plainly and waits for ever,
or it stands behind a request with a time to wait, which a cancelled turn ends. Whenever something
has happened, all waiters are polled, those whose time ends first before the others, and the ones
that have come to an end leave.
-/

namespace ToolAccess

/-- The request behind a question in the queue. -/
structure Bound where
  /-- The time at which waiting ends. -/
  deadline : Nat
  /-- Whether the turn is cancelled. -/
  cancelled : Bool
  /-- Whether there is an audit log. -/
  audited : Bool
  deriving DecidableEq, Repr

/-- One who waits for an answer: plainly, or with a request. -/
structure Waiter (ι : Type) where
  question : QueuedQuestion ι
  bound : Option Bound
  deriving DecidableEq

/-- How waiting ended. -/
inductive WaitEnd where
  /-- The plain answer. -/
  | answered (approves : Bool)
  /-- The end of the request. -/
  | requestEnded (outcome : ConfirmOutcome)
  /-- The waiter gave up. -/
  | gaveUp
  deriving DecidableEq, Repr

namespace WaitEnd

/-- The outcome of the request that ended so. -/
def outcome? : WaitEnd → Option ConfirmOutcome
  | answered _ => none
  | requestEnded outcome => some outcome
  | gaveUp => some .cancelled

/-- The warnings about the end of a request for a tool. -/
def events (tool : String) : WaitEnd → List Event
  | answered _ => []
  | requestEnded outcome => outcome.events tool
  | gaveUp => [.confirmationDropped tool]

end WaitEnd

/-- A waiter that has come to an end. -/
structure EndedWaiter (ι : Type) where
  waiter : Waiter ι
  finish : WaitEnd
  deriving DecidableEq

namespace Bound

/-- The bound of a request that is made now. -/
def starting (now timeout : Nat) (cancelled audited : Bool) : Bound :=
  ⟨now + timeout, cancelled, audited⟩

/-- What the request finds when it is polled. -/
def poll (b : Bound) (now : Nat) (answer : Option Bool) : Poll :=
  ⟨b.cancelled, answer, b.deadline ≤ now⟩

end Bound

namespace Waiter

variable {ι : Type}

/-- The identifier of the question that the waiter asks. -/
def id (w : Waiter ι) : ι := w.question.id

/-- The end of the waiter when it is polled, if it has come. -/
def end? (w : Waiter ι) (now : Nat) (answer : Option Bool) : Option WaitEnd :=
  match w.bound with
  | none => answer.map .answered
  | some b => (b.poll now answer).outcome?.map .requestEnded

/-- Whether the first waiter is polled before the second. -/
def precedes (a b : Waiter ι) : Bool :=
  match a.bound, b.bound with
  | some x, some y => x.deadline ≤ y.deadline
  | some _, none => true
  | none, some _ => false
  | none, none => true

variable [DecidableEq ι]

/-- The waiter after the turn behind a request was cancelled. -/
def cancelling (w : Waiter ι) (id : ι) : Waiter ι :=
  if w.id = id then { w with bound := w.bound.map fun b ↦ { b with cancelled := true } }
  else w

end Waiter

namespace EndedWaiter

variable {ι : Type}

/-- The identifier of the question that the waiter has asked. -/
def id (e : EndedWaiter ι) : ι := e.waiter.id

/-- The warnings about the end of the request behind the waiter, if there is one. -/
def events (e : EndedWaiter ι) : List Event :=
  match e.waiter.bound with
  | some _ => e.finish.events e.waiter.question.tool
  | none => []

/-- What the audit log of the waiter records, if it has one. -/
def recorded? (e : EndedWaiter ι) : Option (List AuditEvent) :=
  match e.waiter.bound with
  | some ⟨_, _, true⟩ => some (e.finish.outcome?.map AuditEvent.confirmation).toList
  | _ => none

end EndedWaiter

/-- The queue and those who wait for it. -/
structure WaitingRoom (ι : Type) where
  queue : QuestionQueue ι
  waiters : List (Waiter ι)
  /-- The time in milliseconds. -/
  now : Nat

/-- What comes of something happening: who came to an end, and the warnings. -/
structure Happening (ι : Type) where
  room : WaitingRoom ι
  ended : List (EndedWaiter ι)
  events : List Event

namespace WaitingRoom

variable {ι : Type}

/-- Nobody waits. -/
def empty (hasListener : Bool) : WaitingRoom ι := ⟨.empty hasListener, [], 0⟩

variable [DecidableEq ι]

/-- The end of a waiter, if it has come. -/
def ended? (r : WaitingRoom ι) (w : Waiter ι) : Option (EndedWaiter ι) :=
  (w.end? r.now (r.queue.answer? w.id)).map (EndedWaiter.mk w)

/-- The room without a waiter; its question goes with it. -/
def leave (r : WaitingRoom ι) (id : ι) : WaitingRoom ι :=
  { r with
    queue := r.queue.remove id
    waiters := r.waiters.filter (·.id ≠ id) }

/-- Polls all waiters, after what the given events are about. -/
def settle (r : WaitingRoom ι) (events : List Event) : Happening ι :=
  let ended := (r.waiters.mergeSort Waiter.precedes).filterMap r.ended?
  ⟨ended.foldl (fun r e ↦ r.leave e.id) r, ended,
    events ++ ended.flatMap (·.events)⟩

/-- Someone asks. A request of a turn that is cancelled already puts nothing into the queue. -/
def ask (r : WaitingRoom ι) (w : Waiter ι) : Happening ι :=
  let r := { r with waiters := r.waiters ++ [w] }
  if w.bound.any (·.cancelled) then r.settle []
  else settle { r with queue := r.queue.ask w.question } r.queue.announceEvents

/-- Someone answers a question: what comes of it, unless the question is not pending. -/
def resolve? (r : WaitingRoom ι) (id : ι) (approves : Bool) : Option (Happening ι) :=
  (r.queue.resolve? id approves).map fun q ↦ settle { r with queue := q } []

/-- All pending questions are rejected. -/
def rejectAll (r : WaitingRoom ι) : Happening ι :=
  settle { r with queue := r.queue.rejectAll } r.queue.rejectAllEvents

/-- Time passes. -/
def advance (r : WaitingRoom ι) (milliseconds : Nat) : Happening ι :=
  settle { r with now := r.now + milliseconds } []

/-- The turn behind a request is cancelled. -/
def cancel (r : WaitingRoom ι) (id : ι) : Happening ι :=
  settle { r with waiters := r.waiters.map (·.cancelling id) } []

/-- The listener takes all announcements. -/
def listen (r : WaitingRoom ι) : Happening ι :=
  settle { r with queue := r.queue.takeAnnounced.2 } []

/-- The listener goes away. -/
def hangUp (r : WaitingRoom ι) : Happening ι := settle { r with queue := r.queue.close } []

/-- A waiter gives up. -/
def giveUp (r : WaitingRoom ι) (id : ι) : Happening ι :=
  let ended := (r.waiters.filter (·.id = id)).map (EndedWaiter.mk · .gaveUp)
  ⟨r.leave id, ended, ended.flatMap (·.events)⟩

end WaitingRoom

end ToolAccess
