import ToolAccess.Confirmation.Waiting
import ToolAccess.Proofs.Lookups
import ToolAccess.Proofs.QueueAnswers
import ToolAccess.Proofs.RequestLife

/-!
# A waiting room is an order of events

A waiting room has one clock and lets all its waiters look at once, whenever something has happened.
An `Interleaving` has no clock, and each call takes its own steps. Here the first is seen to be a
case of the second: to each event of a room there belongs a list of operations on the queue
(`WaitingRoom.operationsOf`), and after them the interleaving has the same queue, its calls that go
on are the waiters that are left, and its calls that ended are the waiters that came to an end
(`WaitingRoom.Mirrors.happens`).

## What the proof rests on

* `WaitingRoom.Mirrors` relates a room to an interleaving between two events, and
  `WaitingRoom.Ready` while the waiters are about to look. The two differ where someone asks in
  vain: the call has ended and the waiter has not seen it yet.
* Those who come to an end leave one after another, on both sides
  (`Interleaving.Sound.run_operations`). It makes no difference whether they saw an end or gave up
  (`WaitingRoom.Ready.leaveAll`).
-/

namespace ToolAccess

variable {ι : Type}

/-! ### Ends -/

/-- The answer with which waiting ended, if it did not end without one. -/
def WaitEnd.answer? : WaitEnd → Option Bool
  | .answered approves => some approves
  | .requestEnded .approved => some true
  | .requestEnded .rejected => some false
  | .requestEnded .timedOut | .requestEnded .cancelled | .gaveUp => none

theorem WaitEnd.answer?_ofAnswer (approves : Bool) :
    (requestEnded (.ofAnswer approves)).answer? = some approves := by
  cases approves <;> rfl

namespace Waiter

variable {w : Waiter ι} {now : Nat} {answer : Option Bool} {finish : WaitEnd} {b : Bound}

theorem end?_of_plain (h : w.bound = none) : w.end? now answer = answer.map .answered := by
  rw [end?, h]

theorem end?_of_bound (h : w.bound = some b) :
    w.end? now answer = (b.poll now answer).outcome?.map .requestEnded := by
  rw [end?, h]

/-- Who ends with an answer ends with the one that is there. -/
theorem answer?_of_end? (h : w.end? now answer = some finish) :
    finish.answer? = none ∨ finish.answer? = answer := by
  rcases hbound : w.bound with - | b
  · rw [end?_of_plain hbound] at h
    obtain ⟨approves, rfl, rfl⟩ := Option.map_eq_some_iff.1 h
    exact Or.inr rfl
  · rw [end?_of_bound hbound] at h
    obtain ⟨o, houtcome, rfl⟩ := Option.map_eq_some_iff.1 h
    cases Poll.outcome?_eq_some_iff.1 houtcome with
    | cancelled | timedOut => exact Or.inl rfl
    | answered _ hanswer => exact Or.inr ((WaitEnd.answer?_ofAnswer _).trans hanswer.symm)

/-- An answer ends the waiting, unless the turn is cancelled. -/
theorem exists_end?_of_answer (h : w.bound.any (·.cancelled) = false) (now : Nat)
    (approves : Bool) : ∃ finish, w.end? now (some approves) = some finish ∧
      finish.answer? = some approves := by
  rcases hbound : w.bound with - | b
  · exact ⟨_, end?_of_plain hbound, rfl⟩
  · rw [hbound] at h
    have houtcome : (b.poll now (some approves)).outcome? = some (.ofAnswer approves) :=
      Poll.outcome?_eq_some_iff.2 (.answered h rfl)
    refine ⟨_, ?_, WaitEnd.answer?_ofAnswer approves⟩
    rw [end?_of_bound hbound, houtcome]
    rfl

/-- So does the cancelling of the turn. -/
theorem end?_of_cancelled (h : w.bound.any (·.cancelled) = true) (now : Nat)
    (answer : Option Bool) : w.end? now answer = some (.requestEnded .cancelled) := by
  rcases hbound : w.bound with - | b
  · rw [hbound] at h
    cases h
  · rw [hbound] at h
    have houtcome : (b.poll now answer).outcome? = some .cancelled :=
      Poll.outcome?_eq_some_iff.2 (.cancelled h)
    rw [end?_of_bound hbound, houtcome]
    rfl

end Waiter

variable [DecidableEq ι]

theorem Waiter.id_cancelling (w : Waiter ι) (id : ι) : (w.cancelling id).id = w.id := by
  rw [cancelling]
  split_ifs
  · rfl
  · rfl

/-! ### Events of a room -/

/-- What can happen in a waiting room. -/
inductive RoomEvent (ι : Type) where
  | ask (w : Waiter ι)
  | resolve (id : ι) (approves : Bool)
  | rejectAll
  | advance (milliseconds : Nat)
  | cancel (id : ι)
  | giveUp (id : ι)
  | listen
  | hangUp

omit [DecidableEq ι] in
theorem RoomEvent.giveUp_or_ne (event : RoomEvent ι) :
    (∃ id, event = .giveUp id) ∨ ∀ id, event ≠ .giveUp id := by
  cases event <;> simp

/-- The identifiers under which someone asks. -/
def RoomEvent.asked : RoomEvent ι → List ι
  | .ask w => [w.id]
  | .resolve .. | .rejectAll | .advance _ | .cancel _ | .giveUp _ | .listen | .hangUp => []

namespace WaitingRoom

/-- What comes of an event. An answer to a question that is not pending changes nothing, and the
waiters look all the same. -/
def happens (r : WaitingRoom ι) : RoomEvent ι → Happening ι
  | .ask w => r.ask w
  | .resolve id approves => (r.resolve? id approves).getD (r.settle [])
  | .rejectAll => r.rejectAll
  | .advance milliseconds => r.advance milliseconds
  | .cancel id => r.cancel id
  | .giveUp id => r.giveUp id
  | .listen => r.listen
  | .hangUp => r.hangUp

/-- The room in which the waiters look after an event. -/
def readied (r : WaitingRoom ι) : RoomEvent ι → WaitingRoom ι
  | .ask w =>
    let r := { r with waiters := r.waiters ++ [w] }
    if w.bound.any (·.cancelled) then r else { r with queue := r.queue.ask w.question }
  | .resolve id approves => { r with queue := (r.queue.resolve? id approves).getD r.queue }
  | .rejectAll => { r with queue := r.queue.rejectAll }
  | .advance milliseconds => { r with now := r.now + milliseconds }
  | .cancel id => { r with waiters := r.waiters.map (·.cancelling id) }
  | .giveUp _ => r
  | .listen => { r with queue := r.queue.takeAnnounced.2 }
  | .hangUp => { r with queue := r.queue.close }

/-- After every event but a giving up, the waiters look. -/
theorem exists_happens_eq_settle (r : WaitingRoom ι) {event : RoomEvent ι}
    (h : ∀ id, event ≠ .giveUp id) :
    ∃ events, r.happens event = (r.readied event).settle events := by
  cases event with
  | giveUp id => exact absurd rfl (h id)
  | ask w =>
    rw [happens, ask, readied]
    split_ifs
    · exact ⟨_, rfl⟩
    · exact ⟨_, rfl⟩
  | resolve id approves =>
    rw [happens, resolve?, readied]
    rcases r.queue.resolve? id approves with - | queue
    · exact ⟨_, rfl⟩
    · exact ⟨_, rfl⟩
  | rejectAll | advance _ | cancel _ | listen | hangUp => exact ⟨_, rfl⟩

/-- Who looks was there before, or has just come. -/
theorem map_id_readied (r : WaitingRoom ι) (event : RoomEvent ι) :
    (r.readied event).waiters.map (·.id) = r.waiters.map (·.id) ++ event.asked := by
  cases event with
  | ask w =>
    rw [readied]
    split_ifs
    · exact List.map_append
    · exact List.map_append
  | cancel id =>
    refine Eq.trans ?_ (List.append_nil _).symm
    rw [readied, List.map_map]
    exact List.map_congr_left fun w _ ↦ w.id_cancelling id
  | resolve _ _ | rejectAll | advance _ | giveUp _ | listen | hangUp =>
    exact (List.append_nil _).symm

end WaitingRoom

/-! ### Leaving -/

namespace QuestionQueue

/-- Removing questions one by one is removing all of them. -/
theorem foldl_remove_eq (ids : List ι) (q : QuestionQueue ι) : ids.foldl remove q =
    { q with
      pending := q.pending.filter (·.id ∉ ids), answers := q.answers.filter (·.1 ∉ ids) } := by
  induction ids generalizing q with
  | nil => simp
  | cons id ids ih =>
    rw [List.foldl_cons, ih, remove]
    simp [List.filter_filter, Bool.and_comm]

/-- What is removed later anyway can be removed before. -/
theorem foldl_remove_remove {ids : List ι} {id : ι} (h : id ∈ ids) (q : QuestionQueue ι) :
    ids.foldl remove (q.remove id) = ids.foldl remove q := by
  have hpending (p : QueuedQuestion ι) : (p.id ∉ ids ∧ p.id ≠ id) ↔ p.id ∉ ids :=
    and_iff_left_of_imp fun hp ↦ (ne_of_mem_of_not_mem h hp).symm
  have hanswer (a : ι × Bool) : (a.1 ∉ ids ∧ a.1 ≠ id) ↔ a.1 ∉ ids :=
    and_iff_left_of_imp fun ha ↦ (ne_of_mem_of_not_mem h ha).symm
  simp only [foldl_remove_eq, remove, List.filter_filter, ← Bool.decide_and, hpending, hanswer]

end QuestionQueue

namespace WaitingRoom

variable {r : WaitingRoom ι}

/-- The room without all of these. -/
def leaveAll (r : WaitingRoom ι) (ended : List (EndedWaiter ι)) : WaitingRoom ι :=
  ended.foldl (fun r e ↦ r.leave e.id) r

theorem leaveAll_eq (r : WaitingRoom ι) (ended : List (EndedWaiter ι)) : r.leaveAll ended =
    { r with
      queue := (ended.map (·.id)).foldl QuestionQueue.remove r.queue
      waiters := r.waiters.filter (·.id ∉ ended.map (·.id)) } := by
  induction ended generalizing r with
  | nil => simp [leaveAll]
  | cons e ended ih =>
    rw [leaveAll, List.foldl_cons, ← leaveAll, ih, leave]
    simp only [List.map_cons, List.foldl_cons, List.filter_filter, List.mem_cons, not_or,
      Bool.decide_and, ne_eq, Bool.and_comm]

theorem ended?_eq_some_iff {w : Waiter ι} {e : EndedWaiter ι} : r.ended? w = some e ↔
    e.waiter = w ∧ w.end? r.now (r.queue.answer? w.id) = some e.finish := by
  obtain ⟨w', finish⟩ := e
  rw [ended?, Option.map_eq_some_iff]
  constructor
  · rintro ⟨finish', hend, ⟨⟩⟩
    exact ⟨rfl, hend⟩
  · rintro ⟨rfl, hend⟩
    exact ⟨finish, hend, rfl⟩

/-- Those who come to an end are those who see an end when they look. -/
theorem mem_ended_settle (events : List Event) {e : EndedWaiter ι} :
    e ∈ (r.settle events).ended ↔ e.waiter ∈ r.waiters ∧
      e.waiter.end? r.now (r.queue.answer? e.id) = some e.finish := by
  show e ∈ (r.waiters.mergeSort Waiter.precedes).filterMap r.ended? ↔ _
  simp only [List.mem_filterMap, (List.mergeSort_perm _ _).mem_iff, ended?_eq_some_iff]
  constructor
  · rintro ⟨w, hw, rfl, hend⟩
    exact ⟨hw, hend⟩
  · rintro ⟨hw, hend⟩
    exact ⟨_, hw, rfl, hend⟩

/-- Nobody comes to two ends. -/
theorem nodup_ended_settle (h : (r.waiters.map (·.id)).Nodup) (events : List Event) :
    ((r.settle events).ended.map (·.id)).Nodup := by
  have hsub (l : List (Waiter ι)) :
      ((l.filterMap r.ended?).map (·.id)).Sublist (l.map (·.id)) := by
    induction l with
    | nil => exact .refl _
    | cons w l ih =>
      rw [List.filterMap_cons, List.map_cons]
      rcases hend : r.ended? w with - | e
      · exact ih.cons _
      · rw [← (ended?_eq_some_iff.1 hend).1]
        exact ih.cons_cons _
  exact ((((List.mergeSort_perm _ _).map _).nodup_iff).2 h).sublist (hsub _)

end WaitingRoom

/-! ### Those who come to an end -/

namespace EndedWaiter

/-- What one who comes to an end does to the queue. -/
def operation (e : EndedWaiter ι) : QueueOperation ι :=
  match e.finish.answer? with
  | some _ => .poll e.id
  | none => .drop e.id

/-- The call of the waiter has ended as the waiter has. One that was turned away made no call. -/
def HasLeft (e : EndedWaiter ι) (s : Interleaving ι) : Prop :=
  match e.finish.answer? with
  | some approves => s.phase e.id = some (.returned approves)
  | none => s.phase e.id = some .dropped ∨ s.phase e.id = none

/-- The call of the waiter is about to end as the waiter does, or it has. -/
inductive Leaves (e : EndedWaiter ι) (s : Interleaving ι) : Prop
  | collects {approves : Bool} (hfinish : e.finish.answer? = some approves)
    (hphase : s.phase e.id = some .waiting)
    (hanswer : s.queue.answer? e.id = some approves) : Leaves e s
  | returned {approves : Bool} (hfinish : e.finish.answer? = some approves)
    (hphase : s.phase e.id = some (.returned approves)) : Leaves e s
  | givesUp (hfinish : e.finish.answer? = none)
    (hphase : s.phase e.id = some .waiting) : Leaves e s
  | turnedAway (hfinish : e.finish.answer? = none)
    (hphase : s.phase e.id = none) : Leaves e s

variable {e : EndedWaiter ι} {s s' : Interleaving ι}

/-- Only the phase of the call and the answer to it matter. -/
theorem Leaves.congr (he : e.Leaves s)
    (hphase : s'.phase e.id = s.phase e.id)
    (hanswer : s'.queue.answer? e.id = s.queue.answer? e.id) :
    e.Leaves s' := by
  cases he with
  | collects hfinish h ha => exact .collects hfinish (hphase.trans h) (hanswer.trans ha)
  | returned hfinish h => exact .returned hfinish (hphase.trans h)
  | givesUp hfinish h => exact .givesUp hfinish (hphase.trans h)
  | turnedAway hfinish h => exact .turnedAway hfinish (hphase.trans h)

omit [DecidableEq ι] in
theorem HasLeft.congr (he : e.HasLeft s)
    (hphase : s'.phase e.id = s.phase e.id) : e.HasLeft s' := by
  rwa [HasLeft, hphase]

omit [DecidableEq ι] in
theorem HasLeft.not_isAlive (he : e.HasLeft s) : s.isAlive e.id = false := by
  rw [HasLeft] at he
  rw [Interleaving.isAlive]
  split at he
  · rw [he]
    rfl
  · rcases he with he | he
    · rw [he]
      rfl
    · rw [he]
      rfl

end EndedWaiter

namespace Interleaving

variable {s : Interleaving ι} {e : EndedWaiter ι}

/-- The queue holds nothing for a call that does not go on. -/
theorem Sound.remove_of_not_isAlive (h : s.Sound) {id : ι} (hdead : s.isAlive id = false) :
    s.queue.remove id = s.queue := by
  have hpending : s.queue.pending.filter (·.id ≠ id) = s.queue.pending := by
    rw [List.filter_eq_self]
    rintro p hp
    refine decide_eq_true fun heq ↦ ?_
    rw [← heq, ((h.mem_pending p).1 hp).2.2] at hdead
    cases hdead
  have hanswers : s.queue.answers.filter (·.1 ≠ id) = s.queue.answers := by
    have hnone := h.answer id
    rw [hdead, if_neg Bool.false_ne_true, QuestionQueue.answer?, lookup_eq_none_iff] at hnone
    rw [List.filter_eq_self]
    exact fun a ha ↦ decide_eq_true fun heq ↦ hnone (heq ▸ List.mem_map_of_mem ha)
  rw [QuestionQueue.remove, hpending, hanswers]

theorem run_poll (id : ι) : s.run (QueueOperation.poll id).events = s.step (.finish id) := rfl

theorem run_drop (id : ι) : s.run (QueueOperation.drop id).events = s.step (.drop id) := rfl

/-- **One who comes to an end** leaves the queue, and nobody else notices. -/
theorem Sound.run_operation (h : s.Sound) (he : e.Leaves s) :
    let s' := s.run e.operation.events
    s'.queue = s.queue.remove e.id ∧
      (∀ id, id ≠ e.id → s'.phase id = s.phase id) ∧ e.HasLeft s' ∧
      s'.history = s.history := by
  intro s'
  cases he with
  | @collects approves hfinish hphase hanswer =>
    have hs' : s' = s.leave e.id (.returned approves) := by
      simp only [s', EndedWaiter.operation, hfinish, run_poll,
        step_finish_of_answer hphase hanswer]
    rw [hs', EndedWaiter.HasLeft, hfinish]
    exact ⟨rfl, fun id hid ↦ Function.update_of_ne hid _ _, Function.update_self _ _ _, rfl⟩
  | returned hfinish hphase =>
    have hs' : s' = s := by
      simp only [s', EndedWaiter.operation, hfinish, run_poll, step, hphase]
    rw [hs', h.remove_of_not_isAlive (isAlive_of_phase hphase), EndedWaiter.HasLeft, hfinish]
    exact ⟨rfl, fun _ _ ↦ rfl, hphase, rfl⟩
  | givesUp hfinish hphase =>
    have hs' : s' = s.leave e.id .dropped := by
      have halive : s.isAlive e.id = true := isAlive_of_phase hphase
      simp only [s', EndedWaiter.operation, hfinish, run_drop, step, halive, if_true]
    rw [hs', EndedWaiter.HasLeft, hfinish]
    exact ⟨rfl, fun id hid ↦ Function.update_of_ne hid _ _,
      Or.inl (Function.update_self _ _ _), rfl⟩
  | turnedAway hfinish hphase =>
    have hdead : s.isAlive e.id = false := by rw [isAlive, hphase, Option.any_none]
    have hs' : s' = s := by
      simp only [s', EndedWaiter.operation, hfinish, run_drop, step, hdead, Bool.false_eq_true,
        if_false]
    rw [hs', h.remove_of_not_isAlive hdead, EndedWaiter.HasLeft, hfinish]
    exact ⟨rfl, fun _ _ ↦ rfl, Or.inr hphase, rfl⟩

/-- **All who come to an end** leave one after another. -/
theorem Sound.run_operations (h : s.Sound) {ended : List (EndedWaiter ι)}
    (hnodup : (ended.map (·.id)).Nodup) (hended : ∀ e ∈ ended, e.Leaves s) :
    let s' := s.run ((ended.map (·.operation)).flatMap QueueOperation.events)
    s'.queue = (ended.map (·.id)).foldl QuestionQueue.remove s.queue ∧
      (∀ id ∉ ended.map (·.id), s'.phase id = s.phase id) ∧
      (∀ e ∈ ended, e.HasLeft s') ∧ s'.history = s.history := by
  induction ended generalizing s with
  | nil => exact ⟨rfl, fun _ _ ↦ rfl, fun _ he ↦ absurd he List.not_mem_nil, rfl⟩
  | cons e ended ih =>
    obtain ⟨hnew, hnodup⟩ := List.nodup_cons.1 hnodup
    obtain ⟨he, hrest⟩ := List.forall_mem_cons.1 hended
    obtain ⟨hqueue, hphase, hleft, hhistory⟩ := h.run_operation he
    have hsound : (s.run e.operation.events).Sound := run_sound h _
    have hlater : ∀ e' ∈ ended, e'.Leaves (s.run e.operation.events) := by
      intro e' he'
      have hne : e'.id ≠ e.id :=
        ne_of_mem_of_not_mem (List.mem_map_of_mem he') hnew
      refine (hrest e' he').congr (hphase _ hne) ?_
      rw [hqueue, QuestionQueue.answer?_remove, if_neg hne]
    obtain ⟨hqueue', hphase', hleft', hhistory'⟩ := ih hsound hnodup hlater
    simp only [List.map_cons, List.flatMap_cons, run_append]
    refine ⟨?_, fun id hid ↦ ?_, ?_, hhistory'.trans hhistory⟩
    · rw [hqueue', hqueue, List.foldl_cons]
    · obtain ⟨hid, hid'⟩ := List.ne_and_not_mem_of_not_mem_cons hid
      rw [hphase' id hid', hphase id hid]
    · exact List.forall_mem_cons.2 ⟨hleft.congr (hphase' _ hnew), hleft'⟩

end Interleaving

/-! ### Rooms and interleavings -/

/-- The operation on the queue that an event begins with. Who asks on behalf of a turn that is
cancelled already does not come to the queue. -/
def RoomEvent.operations : RoomEvent ι → List (QueueOperation ι)
  | .ask w => if w.bound.any (·.cancelled) then [] else [.ask w.question]
  | .resolve id approves => [.resolve id approves]
  | .rejectAll => [.rejectAll]
  | .listen => [.listen]
  | .hangUp => [.hangUp]
  | .advance _ | .cancel _ | .giveUp _ => []

namespace WaitingRoom

variable {r r' : WaitingRoom ι} {s s' : Interleaving ι}

/-- All that an event does to the queue: those who come to an end leave it. -/
def operationsOf (r : WaitingRoom ι) (event : RoomEvent ι) : List (QueueOperation ι) :=
  event.operations ++ (r.happens event).ended.map (·.operation)

/-- The room is the interleaving, between two events. -/
structure Mirrors (r : WaitingRoom ι) (s : Interleaving ι) : Prop where
  sound : s.Sound
  queue : s.queue = r.queue
  nodup : (r.waiters.map (·.id)).Nodup
  /-- Those who are in the room wait. -/
  waits : ∀ id ∈ r.waiters.map (·.id), s.phase id = some .waiting
  /-- Nobody else does. -/
  alive : ∀ id, s.isAlive id = true → id ∈ r.waiters.map (·.id)

/-- How the call of a waiter stands when the waiter is about to look. -/
inductive Stands (r : WaitingRoom ι) (s : Interleaving ι) (w : Waiter ι) : Prop
  | waits (hphase : s.phase w.id = some .waiting)
    (hanswer : s.queue.answer? w.id = r.queue.answer? w.id) : Stands r s w
  /-- Nobody heard of the question. The call has ended, and the waiter will see that. -/
  | unheard (hphase : s.phase w.id = some (.returned false))
    (hanswer : r.queue.answer? w.id = some false)
    (hbound : w.bound.any (·.cancelled) = false) : Stands r s w
  /-- The turn was cancelled already, so there is no call. -/
  | turnedAway (hphase : s.phase w.id = none) (hbound : w.bound.any (·.cancelled) = true) :
    Stands r s w

/-- The room is the interleaving, but for those who will see that their calls have ended. -/
structure Ready (r : WaitingRoom ι) (s : Interleaving ι) : Prop where
  sound : s.Sound
  nodup : (r.waiters.map (·.id)).Nodup
  stands : ∀ w ∈ r.waiters, r.Stands s w
  alive : ∀ id, s.isAlive id = true → id ∈ r.waiters.map (·.id)
  /-- The queues are the same when these have left. -/
  queue : ∀ ids : List ι, (∀ w ∈ r.waiters, s.isAlive w.id = false → w.id ∈ ids) →
    ids.foldl QuestionQueue.remove s.queue = ids.foldl QuestionQueue.remove r.queue

/-- One who sees an end leaves. -/
theorem Stands.leaves {e : EndedWaiter ι} (h : r.Stands s e.waiter)
    (hend : e.waiter.end? r.now (r.queue.answer? e.id) = some e.finish) : e.Leaves s := by
  cases h with
  | waits hphase hanswer =>
    rcases Waiter.answer?_of_end? hend with hnone | hsame
    · exact .givesUp hnone hphase
    · rcases hfinish : e.finish.answer? with - | approves
      · exact .givesUp hfinish hphase
      · exact .collects hfinish hphase (hanswer.trans (hsame.symm.trans hfinish))
  | unheard hphase hanswer hbound =>
    obtain ⟨finish, hfinish, hanswer'⟩ :=
      Waiter.exists_end?_of_answer hbound r.now false
    rw [show r.queue.answer? e.id = some false from hanswer, hfinish] at hend
    obtain rfl := Option.some.inj hend
    exact .returned hanswer' hphase
  | turnedAway hphase hbound =>
    rw [Waiter.end?_of_cancelled hbound] at hend
    refine .turnedAway ?_ hphase
    rw [← Option.some.inj hend]
    rfl

/-- One whose call does not go on sees an end. -/
theorem Stands.exists_end? {w : Waiter ι} (h : r.Stands s w)
    (hdead : s.phase w.id ≠ some .waiting) :
    ∃ finish, w.end? r.now (r.queue.answer? w.id) = some finish := by
  cases h with
  | waits hphase _ => exact absurd hphase hdead
  | unheard _ hanswer hbound =>
    obtain ⟨finish, hfinish, -⟩ := Waiter.exists_end?_of_answer hbound r.now false
    exact ⟨finish, by rw [hanswer, hfinish]⟩
  | turnedAway _ hbound => exact ⟨_, Waiter.end?_of_cancelled hbound _ _⟩

/-- Those who come to an end leave, on both sides. -/
theorem Ready.leaveAll (h : r.Ready s) {ended : List (EndedWaiter ι)}
    (hnodup : (ended.map (·.id)).Nodup) (hleaves : ∀ e ∈ ended, e.Leaves s)
    (hends : ∀ w ∈ r.waiters, s.phase w.id ≠ some .waiting → w.id ∈ ended.map (·.id)) :
    let s' := s.run ((ended.map (·.operation)).flatMap QueueOperation.events)
    (r.leaveAll ended).Mirrors s' ∧ (∀ e ∈ ended, e.HasLeft s') ∧ s'.history = s.history := by
  intro s'
  obtain ⟨hqueue, hphase, hleft, hhistory⟩ := h.sound.run_operations hnodup hleaves
  rw [leaveAll_eq]
  refine ⟨⟨Interleaving.run_sound h.sound _, ?_, ?_, ?_, ?_⟩, hleft, hhistory⟩
  · rw [hqueue]
    refine h.queue _ fun w hw hdead ↦ hends w hw fun hwaits ↦ ?_
    rw [Interleaving.isAlive_of_phase hwaits] at hdead
    cases hdead
  · exact h.nodup.sublist (List.filter_sublist.map _)
  · intro id hid
    obtain ⟨w, hw, rfl⟩ := List.mem_map.1 hid
    obtain ⟨hw, hstays⟩ := List.mem_filter.1 hw
    have hstays := of_decide_eq_true hstays
    rw [hphase w.id hstays]
    by_contra hdead
    exact hstays (hends w hw hdead)
  · intro id halive
    have hstays : id ∉ ended.map (·.id) := by
      intro hid
      obtain ⟨e, he, rfl⟩ := List.mem_map.1 hid
      rw [(hleft e he).not_isAlive] at halive
      cases halive
    rw [Interleaving.isAlive, hphase id hstays] at halive
    obtain ⟨w, hw, rfl⟩ := List.mem_map.1 (h.alive id halive)
    exact List.mem_map_of_mem (List.mem_filter.2 ⟨hw, decide_eq_true hstays⟩)

/-- **All look**, and those who see an end leave. -/
theorem Ready.settle (h : r.Ready s) (events : List Event) :
    let happening := r.settle events
    let s' := s.run ((happening.ended.map (·.operation)).flatMap QueueOperation.events)
    happening.room.Mirrors s' ∧ (∀ e ∈ happening.ended, e.HasLeft s') ∧ s'.history = s.history := by
  intro happening
  refine h.leaveAll (nodup_ended_settle h.nodup events) (fun e he ↦ ?_) fun w hw hdead ↦ ?_
  · obtain ⟨hw, hend⟩ := (mem_ended_settle events).1 he
    exact (h.stands _ hw).leaves hend
  · -- Those whose calls do not go on are among those who leave.
    obtain ⟨finish, hend⟩ := (h.stands w hw).exists_end? hdead
    have hended : ⟨w, finish⟩ ∈ happening.ended := (mem_ended_settle events).2 ⟨hw, hend⟩
    exact List.mem_map_of_mem hended

/-- An event that leaves the calls alone, and does the same to both queues. -/
theorem Mirrors.ready_of_phase_eq (h : r.Mirrors s) (hsound : s'.Sound)
    (hphase : s'.phase = s.phase) (hqueue : s'.queue = r'.queue)
    (hids : r'.waiters.map (·.id) = r.waiters.map (·.id)) : r'.Ready s' where
  sound := hsound
  nodup := hids ▸ h.nodup
  stands w hw := by
    refine .waits ?_ (by rw [hqueue])
    rw [hphase]
    exact h.waits w.id (hids ▸ List.mem_map_of_mem hw)
  alive id halive := by
    rw [Interleaving.isAlive, hphase] at halive
    exact hids ▸ h.alive id halive
  queue ids _ := by rw [hqueue]

/-- One who asks with a new identifier is not in the room yet. -/
theorem Mirrors.not_mem (h : r.Mirrors s) {id : ι} (hnew : s.phase id = none) :
    id ∉ r.waiters.map (·.id) := by
  intro hid
  rw [h.waits id hid] at hnew
  cases hnew

/-- With one more waiter, the identifiers still differ. -/
theorem Mirrors.nodup_append (h : r.Mirrors s) {w : Waiter ι} (hnew : s.phase w.id = none) :
    ((r.waiters ++ [w]).map (·.id)).Nodup := by
  rw [List.map_append, List.map_singleton]
  exact h.nodup.append (List.nodup_singleton _) (List.disjoint_singleton.2 (h.not_mem hnew))

/-- Someone asks for a turn that is cancelled. -/
theorem Mirrors.ready_of_cancelled (h : r.Mirrors s) {w : Waiter ι} (hnew : s.phase w.id = none)
    (hbound : w.bound.any (·.cancelled) = true) :
    Ready { r with waiters := r.waiters ++ [w] } s where
  sound := h.sound
  nodup := h.nodup_append hnew
  stands w' hw' := by
    rcases List.mem_append.1 hw' with hw' | hw'
    · exact .waits (h.waits w'.id (List.mem_map_of_mem hw')) (by rw [h.queue])
    · obtain rfl := List.mem_singleton.1 hw'
      exact .turnedAway hnew hbound
  alive id halive := by
    rw [List.map_append]
    exact List.mem_append_left _ (h.alive id halive)
  queue ids _ := by rw [h.queue]

/-- When one more call is made, those who are in the room wait as before. -/
theorem Mirrors.waits_moveTo (h : r.Mirrors s) {w w' : Waiter ι} (hnew : s.phase w.id = none)
    (phase : CallPhase ι) (hw' : w' ∈ r.waiters) :
    (s.moveTo w.id phase).phase w'.id = some .waiting := by
  have hid : w'.id ∈ r.waiters.map (·.id) := List.mem_map_of_mem hw'
  exact (Function.update_of_ne (ne_of_mem_of_not_mem hid (h.not_mem hnew)) _ _).trans
    (h.waits w'.id hid)

theorem Mirrors.alive_moveTo (h : r.Mirrors s) {w : Waiter ι} {phase : CallPhase ι} {id : ι}
    (halive : (s.moveTo w.id phase).isAlive id = true) :
    id ∈ (r.waiters ++ [w]).map (·.id) := by
  rw [List.map_append, List.map_singleton, List.mem_append, List.mem_singleton]
  by_cases hid : id = w.id
  · exact Or.inr hid
  · rw [Interleaving.isAlive_moveTo, if_neg hid] at halive
    exact Or.inl (h.alive id halive)

/-- Someone asks in vain, for the listener is gone. -/
theorem Mirrors.ready_of_unheard (h : r.Mirrors s) {w : Waiter ι} (hnew : s.phase w.id = none)
    (hbound : w.bound.any (·.cancelled) = false) (hclosed : s.queue.announcements = .closed) :
    Ready { r with waiters := r.waiters ++ [w], queue := r.queue.ask w.question }
      (s.run (QueueOperation.ask w.question).events) := by
  have hsound := Interleaving.run_sound h.sound (QueueOperation.ask w.question).events
  rw [Interleaving.run_ask_of_closed hnew hclosed] at hsound ⊢
  refine ⟨hsound, h.nodup_append hnew, fun w' hw' ↦ ?_, fun id ↦ h.alive_moveTo,
    fun ids hleave ↦ ?_⟩
  · rcases List.mem_append.1 hw' with hw' | hw'
    · have hother : w'.id ≠ w.id :=
        ne_of_mem_of_not_mem (List.mem_map_of_mem hw') (h.not_mem hnew)
      refine .waits (h.waits_moveTo hnew _ hw') ?_
      show ((s.queue.ask w.question).remove w.id).answer? w'.id = _
      rw [QuestionQueue.answer?_remove, if_neg hother, h.queue]
    · -- The one who asks has not seen yet that the answer is no.
      obtain rfl := List.mem_singleton.1 hw'
      refine .unheard (Function.update_self _ _ _) ?_ hbound
      have hinsert : (r.queue.insert w'.question).announcements = .closed := h.queue ▸ hclosed
      show ((r.queue.insert w'.question).announce w'.question).answer? w'.id = some false
      rw [QuestionQueue.announce, hinsert]
      exact (QuestionQueue.answer?_deliver _ _ _ _).trans (if_pos rfl)
  · have hended : (s.moveTo w.id (.returned false)).phase w.id = some (.returned false) :=
      Function.update_self _ _ _
    have hw : w.id ∈ ids := hleave w (List.mem_append_right _ List.mem_cons_self)
      (Interleaving.isAlive_of_phase hended)
    rw [← h.queue]
    exact QuestionQueue.foldl_remove_remove hw _

/-- Someone asks, and waits. -/
theorem Mirrors.ready_of_heard (h : r.Mirrors s) {w : Waiter ι} (hnew : s.phase w.id = none)
    (hopen : s.queue.announcements ≠ .closed) :
    Ready { r with waiters := r.waiters ++ [w], queue := r.queue.ask w.question }
      (s.run (QueueOperation.ask w.question).events) := by
  have hsound := Interleaving.run_sound h.sound (QueueOperation.ask w.question).events
  rw [Interleaving.run_ask_of_open h.sound hnew hopen] at hsound ⊢
  have hqueue : s.queue.ask w.question = r.queue.ask w.question := by rw [h.queue]
  refine ⟨hsound, h.nodup_append hnew, fun w' hw' ↦ ?_, fun id ↦ h.alive_moveTo, fun ids _ ↦ ?_⟩
  · refine .waits ?_ (congrArg (·.answer? w'.id) hqueue)
    rcases List.mem_append.1 hw' with hw' | hw'
    · exact h.waits_moveTo hnew _ hw'
    · obtain rfl := List.mem_singleton.1 hw'
      exact Function.update_self _ _ _
  · exact congrArg (ids.foldl QuestionQueue.remove) hqueue

/-- What an event does to the queue comes before the waiters look. -/
theorem Mirrors.ready (h : r.Mirrors s) {event : RoomEvent ι}
    (hnew : ∀ id ∈ event.asked, s.phase id = none) :
    (r.readied event).Ready (s.run (event.operations.flatMap QueueOperation.events)) := by
  have hsound := Interleaving.run_sound h.sound (event.operations.flatMap QueueOperation.events)
  cases event with
  | ask w =>
    rw [readied, RoomEvent.operations]
    have hfresh := hnew w.id List.mem_cons_self
    split_ifs with hbound
    · exact h.ready_of_cancelled hfresh hbound
    · rw [List.flatMap_singleton]
      by_cases hlistener : s.queue.announcements = .closed
      · exact h.ready_of_unheard hfresh (Bool.eq_false_iff.2 hbound) hlistener
      · exact h.ready_of_heard hfresh hlistener
  | resolve id approves =>
    have hstep : (s.step (.resolve id approves)).phase = s.phase ∧
        (s.step (.resolve id approves)).queue = (s.queue.resolve? id approves).getD s.queue := by
      rcases hpending : s.queue.isPending id with - | -
      · rw [Interleaving.step_resolve_of_not_pending approves hpending, QuestionQueue.resolve?,
          hpending]
        exact ⟨rfl, rfl⟩
      · rw [Interleaving.step_resolve_of_pending approves hpending, QuestionQueue.resolve?,
          hpending]
        exact ⟨rfl, rfl⟩
    exact h.ready_of_phase_eq hsound hstep.1 (hstep.2.trans (by rw [readied, h.queue])) rfl
  | rejectAll => exact h.ready_of_phase_eq hsound rfl (by rw [readied, ← h.queue]; rfl) rfl
  | advance milliseconds => exact h.ready_of_phase_eq hsound rfl h.queue rfl
  | cancel id =>
    exact h.ready_of_phase_eq hsound rfl h.queue
      ((r.map_id_readied (.cancel id)).trans (List.append_nil _))
  | giveUp id => exact h.ready_of_phase_eq hsound rfl h.queue rfl
  | listen => exact h.ready_of_phase_eq hsound rfl (by rw [readied, ← h.queue]; rfl) rfl
  | hangUp => exact h.ready_of_phase_eq hsound rfl (by rw [readied, ← h.queue]; rfl) rfl

/-- Who gives up leaves the room, as all with the same identifier do. -/
theorem Mirrors.leave_eq (h : r.Mirrors s) (id : ι) :
    r.leave id = r.leaveAll (r.giveUp id).ended := by
  have hids : (r.giveUp id).ended.map (·.id) = (r.waiters.map (·.id)).filter (· = id) := by
    rw [List.filter_map]
    exact List.map_map
  rw [leave, leaveAll_eq, hids]
  by_cases hid : id ∈ r.waiters.map (·.id)
  · have hall (x : ι) : x ∉ (r.waiters.map (·.id)).filter (· = id) ↔ x ≠ id := by
      rw [List.mem_filter, decide_eq_true_iff]
      exact not_congr ⟨And.right, fun hx ↦ ⟨hx ▸ hid, hx⟩⟩
    simp only [QuestionQueue.foldl_remove_eq, QuestionQueue.remove, hall]
  · -- Nobody has the identifier, so there is nothing to be removed.
    have hnobody : (r.waiters.map (·.id)).filter (· = id) = [] := by
      rw [List.filter_eq_nil_iff]
      exact fun x hx heq ↦ hid (of_decide_eq_true heq ▸ hx)
    have hdead : s.isAlive id = false := Bool.eq_false_iff.2 fun halive ↦ hid (h.alive id halive)
    have hqueue := h.sound.remove_of_not_isAlive hdead
    have hwaiters : r.waiters.filter (·.id ≠ id) = r.waiters := by
      rw [List.filter_eq_self]
      exact fun w hw ↦ decide_eq_true fun heq ↦ hid (heq ▸ List.mem_map_of_mem hw)
    rw [h.queue] at hqueue
    rw [hnobody, hqueue, hwaiters]
    simp

/-- **A waiter gives up.** -/
theorem Mirrors.giveUp (h : r.Mirrors s) (id : ι) :
    let happening := r.giveUp id
    let s' := s.run ((happening.ended.map (·.operation)).flatMap QueueOperation.events)
    happening.room.Mirrors s' ∧ (∀ e ∈ happening.ended, e.HasLeft s') ∧ s'.history = s.history := by
  intro happening
  have hready : r.Ready s := h.ready_of_phase_eq h.sound rfl h.queue rfl
  show (r.leave id).Mirrors _ ∧ _
  rw [h.leave_eq id]
  refine hready.leaveAll ?_ (fun e he ↦ ?_) fun w hw hdead ↦ ?_
  · show (((r.waiters.filter (·.id = id)).map (EndedWaiter.mk · .gaveUp)).map (·.id)).Nodup
    rw [List.map_map]
    exact h.nodup.sublist (List.filter_sublist.map _)
  · obtain ⟨w, hw, rfl⟩ := List.mem_map.1 he
    exact .givesUp rfl (h.waits w.id (List.mem_map_of_mem (List.mem_filter.1 hw).1))
  · exact absurd (h.waits w.id (List.mem_map_of_mem hw)) hdead

/-- **One event.** -/
theorem Mirrors.happens (h : r.Mirrors s) {event : RoomEvent ι}
    (hnew : ∀ id ∈ event.asked, s.phase id = none) :
    let happening := r.happens event
    let s' := s.run ((r.operationsOf event).flatMap QueueOperation.events)
    happening.room.Mirrors s' ∧ (∀ e ∈ happening.ended, e.HasLeft s') ∧
      s'.history = (s.run (event.operations.flatMap QueueOperation.events)).history := by
  intro happening s'
  have hs' : s' = (s.run (event.operations.flatMap QueueOperation.events)).run
      ((happening.ended.map (·.operation)).flatMap QueueOperation.events) := by
    rw [← Interleaving.run_append, ← List.flatMap_append]
    rfl
  rw [hs']
  rcases event.giveUp_or_ne with ⟨id, rfl⟩ | hlooks
  · exact h.giveUp id
  · obtain ⟨events, hsettle⟩ := r.exists_happens_eq_settle hlooks
    have hsettled := (h.ready hnew).settle events
    rwa [← hsettle] at hsettled

end WaitingRoom

end ToolAccess
