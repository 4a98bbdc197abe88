import ToolAccess.Confirmation.Request
import ToolAccess.Sorted.Set

/-!
# Requests on a clock

When the things a request waits for happen at known times, its polls follow: it is polled when it
is made, and then whenever something happens. At one moment the answer and the end of the time to
wait come before the cancelling of the turn, and that comes before the call is given up.
-/

namespace ToolAccess

/-- An answer of the confirmer. -/
structure TimedAnswer where
  approves : Bool
  /-- How long after the question it comes, in milliseconds. -/
  after : Nat
  deriving DecidableEq, Repr

/-- What happens while a request waits; all times are milliseconds since it was made. -/
structure Timeline where
  /-- The confirmer's answer, if there will be one. -/
  answer : Option TimedAnswer
  /-- The time to wait. -/
  deadline : Nat
  /-- When the turn is cancelled, if it is. -/
  cancelledAt : Option Nat
  /-- When the call is given up, if it is. -/
  droppedAt : Option Nat
  deriving DecidableEq, Repr

namespace Timeline

/-- What the request finds at a time, before a cancelling at that very time. -/
def pollAt (t : Timeline) (time : Nat) : Poll where
  cancelled := t.cancelledAt.any (· < time)
  answer := (t.answer.filter (·.after ≤ time)).map (·.approves)
  expired := t.deadline ≤ time

/-- The polls at a time: one, and another if the turn is cancelled then. -/
def pollsAt (t : Timeline) (time : Nat) : List Poll :=
  t.pollAt time :: if t.cancelledAt = some time then [.ofCancelled] else []

/-- The times after the start at which something happens to the request, in order. -/
def times (t : Timeline) : List Nat :=
  let all : SortedSet Nat :=
    .ofList ([some t.deadline, t.answer.map (·.after), t.cancelledAt].filterMap id)
  all.toList.filter fun time ↦ 0 < time && t.droppedAt.all (time ≤ ·)

/-- The first poll. -/
def firstPoll (t : Timeline) : Poll := t.pollAt 0

/-- The polls after the first. -/
def laterPolls (t : Timeline) : List Poll := (t.pollsAt 0).tail ++ t.times.flatMap t.pollsAt

/-- All polls until the call is given up. -/
def polls (t : Timeline) : List Poll := t.firstPoll :: t.laterPolls

end Timeline

end ToolAccess
