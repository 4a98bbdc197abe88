import ToolAccess.Event
import ToolAccess.Json.Basic

/-!
# The queue of questions

Questions that are answered from elsewhere. A question is put into the queue, announced to the
listener if there is one, and stays pending until it is answered by its identifier, all pending
ones are rejected, or the one who waits for the answer gives up. An answer waits for its question's
waiter to collect it.

Putting a question into the queue and announcing it are two steps, between which others may act on
the queue.
-/

namespace ToolAccess

/-- A question in the queue; `ι` is the type of identifiers. -/
structure QueuedQuestion (ι : Type) where
  id : ι
  tool : String
  prompt : String
  arguments : Json
  deriving DecidableEq

/-- Where questions are announced. -/
inductive Announcements (ι : Type) where
  /-- Nowhere. -/
  | none
  /-- To a listener, who has yet to take these. -/
  | open (untaken : List (QueuedQuestion ι))
  /-- To a listener who is gone. -/
  | closed
  deriving DecidableEq

/-- The questions that wait for an answer. -/
structure QuestionQueue (ι : Type) where
  /-- The questions without an answer, oldest first. -/
  pending : List (QueuedQuestion ι)
  /-- The answers that were not collected yet. -/
  answers : List (ι × Bool)
  announcements : Announcements ι
  deriving DecidableEq

/-- The text about an identifier that is not pending. -/
def notPendingMessage (shownId : String) : String := "confirmation request not pending: " ++ shownId

namespace QuestionQueue

variable {ι : Type}

/-- The empty queue, with a listener or without. -/
def empty (hasListener : Bool) : QuestionQueue ι :=
  ⟨[], [], if hasListener then .open [] else .none⟩

/-- The number of pending questions. -/
def count (q : QuestionQueue ι) : Nat := q.pending.length

/-- Whether the queue was made to announce questions. -/
def announces (q : QuestionQueue ι) : Bool :=
  match q.announcements with
  | .none => false
  | .open _ | .closed => true

/-- How a queue is shown. -/
def display (q : QuestionQueue ι) : String :=
  "ConfirmationQueue \x7b pending: " ++ toString q.count ++ ", notify: " ++
    toString q.announces ++ " \x7d"

/-- Puts a question into the queue. -/
def insert (q : QuestionQueue ι) (question : QueuedQuestion ι) : QuestionQueue ι :=
  { q with pending := q.pending ++ [question] }

/-- The listener takes all announcements. -/
def takeAnnounced (q : QuestionQueue ι) : List (QueuedQuestion ι) × QuestionQueue ι :=
  match q.announcements with
  | .open untaken => (untaken, { q with announcements := .open [] })
  | .none | .closed => ([], q)

theorem takeAnnounced_eq (q : QuestionQueue ι) :
    ∃ a, q.takeAnnounced.2 = { q with announcements := a } := by
  obtain ⟨pending, answers, announcements⟩ := q
  cases announcements <;> exact ⟨_, rfl⟩

/-- The listener goes away. -/
def close (q : QuestionQueue ι) : QuestionQueue ι :=
  match q.announcements with
  | .open _ => { q with announcements := .closed }
  | .none | .closed => q

theorem close_eq (q : QuestionQueue ι) : ∃ a, q.close = { q with announcements := a } := by
  obtain ⟨pending, answers, announcements⟩ := q
  cases announcements <;> exact ⟨_, rfl⟩

/-- Answers every pending question with no. -/
def rejectAll (q : QuestionQueue ι) : QuestionQueue ι :=
  { q with pending := [], answers := q.answers ++ q.pending.map fun p ↦ (p.id, false) }

/-- The warning about rejecting everything. -/
def rejectAllEvents (q : QuestionQueue ι) : List Event :=
  if q.count = 0 then [] else [.allRejected q.count]

variable [DecidableEq ι]

/-- Whether a question is pending. -/
def isPending (q : QuestionQueue ι) (id : ι) : Bool := q.pending.any (·.id = id)

/-- The queue without a question and its answer. -/
def remove (q : QuestionQueue ι) (id : ι) : QuestionQueue ι :=
  { q with
    pending := q.pending.filter (·.id ≠ id)
    answers := q.answers.filter (·.1 ≠ id) }

/-- The queue with an answer to a question in place of the question. -/
def deliver (q : QuestionQueue ι) (id : ι) (approves : Bool) : QuestionQueue ι :=
  let r := q.remove id
  { r with answers := r.answers ++ [(id, approves)] }

/-- Answers a pending question; nothing if it is not pending. -/
def resolve? (q : QuestionQueue ι) (id : ι) (approves : Bool) : Option (QuestionQueue ι) :=
  if q.isPending id then some (q.deliver id approves) else none

/-- Announces a question. Where the listener is gone, the answer is no. -/
def announce (q : QuestionQueue ι) (question : QueuedQuestion ι) : QuestionQueue ι :=
  match q.announcements with
  | .none => q
  | .open untaken => { q with announcements := .open (untaken ++ [question]) }
  | .closed => q.deliver question.id false

/-- The warning about announcing a question. -/
def announceEvents (q : QuestionQueue ι) : List Event :=
  match q.announcements with
  | .none | .open _ => []
  | .closed => [.channelClosed]

/-- Puts a question into the queue and announces it. -/
def ask (q : QuestionQueue ι) (question : QueuedQuestion ι) : QuestionQueue ι :=
  (q.insert question).announce question

/-- The answer that waits for a question's waiter. -/
def answer? (q : QuestionQueue ι) (id : ι) : Option Bool := q.answers.lookup id

/-! ### What the operations do to the table and the answers -/

variable (q : QuestionQueue ι)

/-- Where somebody may listen, announcing a question leaves the table as it is. -/
theorem announce_eq (question : QueuedQuestion ι) (hopen : q.announcements ≠ .closed) :
    ∃ a, q.announce question = { q with announcements := a } := by
  obtain ⟨pending, answers, announcements⟩ := q
  rcases announcements with - | untaken | -
  · exact ⟨_, rfl⟩
  · exact ⟨_, rfl⟩
  · exact absurd rfl hopen

theorem isPending_iff {id : ι} : q.isPending id = true ↔ ∃ p ∈ q.pending, p.id = id := by
  simp [isPending]

theorem lookup_filter_ne (answers : List (ι × Bool)) (id id' : ι) :
    (answers.filter (·.1 ≠ id)).lookup id' = if id' = id then none else answers.lookup id' := by
  induction answers with
  | nil => simp
  | cons answer answers ih =>
    obtain ⟨a, b⟩ := answer
    by_cases ha : a = id
    · subst ha
      by_cases h : id' = a
      · simpa [h] using ih
      · simpa [h, List.lookup_cons, beq_false_of_ne h] using ih
    · by_cases h : id' = a
      · subst h
        simp [ha]
      · simpa [ha, List.lookup_cons, beq_false_of_ne h] using ih

theorem answer?_remove (id id' : ι) :
    (q.remove id).answer? id' = if id' = id then none else q.answer? id' :=
  lookup_filter_ne q.answers id id'

theorem answer?_deliver (id id' : ι) (approves : Bool) :
    (q.deliver id approves).answer? id' =
      if id' = id then some approves else q.answer? id' := by
  show ((q.remove id).answers ++ [(id, approves)]).lookup id' = _
  have hremove : (q.remove id).answers.lookup id' = if id' = id then none else q.answer? id' :=
    q.answer?_remove id id'
  rw [List.lookup_append, hremove]
  by_cases h : id' = id
  · simp [h]
  · simp [h, List.lookup_cons, beq_false_of_ne h]

theorem lookup_map_false (pending : List (QueuedQuestion ι)) (id : ι) :
    (pending.map fun p ↦ (p.id, false)).lookup id =
      if id ∈ pending.map (·.id) then some false else none := by
  induction pending with
  | nil => rfl
  | cons p pending ih =>
    by_cases h : id = p.id
    · simp [h]
    · simp [h, List.lookup_cons, beq_false_of_ne h, ih]

theorem answer?_rejectAll (id : ι) :
    q.rejectAll.answer? id =
      (q.answer? id).or (if id ∈ q.pending.map (·.id) then some false else none) := by
  show (q.answers ++ q.pending.map fun p ↦ (p.id, false)).lookup id = _
  rw [List.lookup_append, lookup_map_false]
  rfl

/-- An answer leaves the other questions in the table. -/
theorem isPending_deliver_of_ne {id other : ι} (approves : Bool) (hother : other ≠ id) :
    (q.deliver id approves).isPending other = q.isPending other := by
  rw [Bool.eq_iff_iff, isPending_iff, isPending_iff]
  show (∃ p ∈ q.pending.filter (·.id ≠ id), p.id = other) ↔ _
  constructor
  · rintro ⟨p, hp, rfl⟩
    exact ⟨p, (List.mem_filter.1 hp).1, rfl⟩
  · rintro ⟨p, hp, rfl⟩
    exact ⟨p, List.mem_filter.2 ⟨hp, decide_eq_true hother⟩, rfl⟩

/-- What is removed leaves no trace of an answer. -/
theorem remove_deliver (id : ι) (approves : Bool) :
    (q.deliver id approves).remove id = q.remove id := by
  simp [deliver, remove, List.filter_filter]

end QuestionQueue

end ToolAccess
