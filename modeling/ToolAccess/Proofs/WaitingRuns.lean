import ToolAccess.Proofs.WaitingRooms

/-!
# What a waiting room tells its waiters

A waiting room in which one thing after another happens. Two questions about those who come to an
end are answered here, where all ask under identifiers of their own.

* Who is told yes? The room is an interleaving of calls after each event
  (`WaitingRoom.Mirrors.run`), and there nobody comes between the steps of a call. So one who comes
  to an end with an answer is told yes exactly when an approval came while the question was pending
  (`WaitingRoom.answered_yes_iff`).
* How does a request end? The polls that it has in the room are told from the room alone
  (`WaitingRoom.pollsIn`), and it ends as a request with these polls does: at the first of them that
  decides, or when it is given up before (`WaitingRoom.followsPolls_ask`). So what is heard and
  recorded of it is the same, too (`WaitingRoom.heard_and_recorded`).

The second is an induction on the events. Whoever is in the room looks after each of them but a
giving up, and leaves by what it finds or stays (`WaitingRoom.FollowsPolls.looks`); of those who are
gone nothing is heard any more (`WaitingRoom.Lacks.run`).
-/

namespace ToolAccess

variable {ι : Type} [DecidableEq ι]

/-! ### One event after another -/

omit [DecidableEq ι] in
/-- Only who asks makes a call. -/
theorem QueueOperation.ask_mem_of_enter_mem {operations : List (QueueOperation ι)}
    {question : QueuedQuestion ι} (h : .enter question ∈ operations.flatMap events) :
    .ask question ∈ operations := by
  obtain ⟨operation, hoperation, hevent⟩ := List.mem_flatMap.1 h
  cases operation with
  | ask question' =>
    obtain rfl : question = question' := by simpa [events] using hevent
    exact hoperation
  | poll _ | drop _ | resolve _ _ | rejectAll | listen | hangUp => simp [events] at hevent

namespace WaitingRoom

variable {r : WaitingRoom ι} {s : Interleaving ι} {event : RoomEvent ι}
  {events : List (RoomEvent ι)}

/-- The room after these events. -/
def run (r : WaitingRoom ι) (events : List (RoomEvent ι)) : WaitingRoom ι :=
  events.foldl (fun r event ↦ (r.happens event).room) r

/-- All that these events do to the queue. -/
def operationsIn (r : WaitingRoom ι) : List (RoomEvent ι) → List (QueueOperation ι)
  | [] => []
  | event :: events => r.operationsOf event ++ (r.happens event).room.operationsIn events

/-- Those who come to an end during these events. -/
def endedIn (r : WaitingRoom ι) : List (RoomEvent ι) → List (EndedWaiter ι)
  | [] => []
  | event :: events => (r.happens event).ended ++ (r.happens event).room.endedIn events

/-- The identifiers of those who are in the room and of those who come later all differ. -/
def Distinct (r : WaitingRoom ι) (events : List (RoomEvent ι)) : Prop :=
  (r.waiters.map (·.id) ++ events.flatMap RoomEvent.asked).Nodup

/-- One of the events is an answer to a question that is pending then. -/
def Accepts (r : WaitingRoom ι) (events : List (RoomEvent ι)) (id : ι) (approves : Bool) : Prop :=
  ∃ before after, events = before ++ .resolve id approves :: after ∧
    (r.run before).queue.isPending id = true

theorem accepts_cons {id : ι} {approves : Bool} : r.Accepts (event :: events) id approves ↔
    event = .resolve id approves ∧ r.queue.isPending id = true ∨
      (r.happens event).room.Accepts events id approves := by
  constructor
  · rintro ⟨before, after, hsplit, hpending⟩
    cases before with
    | nil =>
      cases hsplit
      exact Or.inl ⟨rfl, hpending⟩
    | cons event' before =>
      cases hsplit
      exact Or.inr ⟨before, after, rfl, hpending⟩
  · rintro (⟨rfl, hpending⟩ | ⟨before, after, rfl, hpending⟩)
    · exact ⟨[], events, rfl, hpending⟩
    · exact ⟨event :: before, after, rfl, hpending⟩

theorem id_mem_asked {question : QueuedQuestion ι} (h : .ask question ∈ r.operationsOf event) :
    question.id ∈ event.asked := by
  rcases List.mem_append.1 h with hfirst | hleaves
  · cases event with
    | ask w =>
      rw [RoomEvent.operations] at hfirst
      split_ifs at hfirst
      · cases hfirst
      · cases List.mem_singleton.1 hfirst
        exact List.mem_cons_self
    | resolve _ _ | rejectAll | advance _ | cancel _ | giveUp _ | listen | hangUp =>
      simp [RoomEvent.operations] at hfirst
  · obtain ⟨e, -, he⟩ := List.mem_map.1 hleaves
    rw [EndedWaiter.operation] at he
    split at he
    · cases he
    · cases he

theorem id_mem_flatMap_asked {question : QueuedQuestion ι}
    (h : .ask question ∈ r.operationsIn events) : question.id ∈ events.flatMap RoomEvent.asked := by
  induction events generalizing r with
  | nil => cases h
  | cons event events ih =>
    rw [List.flatMap_cons, List.mem_append]
    exact (List.mem_append.1 h).imp id_mem_asked ih

/-- One who comes to an end was in the room, or has just come. -/
theorem id_mem_of_ended {e : EndedWaiter ι} (he : e ∈ (r.happens event).ended) :
    e.id ∈ r.waiters.map (·.id) ∨ e.id ∈ event.asked := by
  rcases event.giveUp_or_ne with ⟨id, rfl⟩ | hlooks
  · obtain ⟨w, hw, rfl⟩ := List.mem_map.1 he
    exact Or.inl (List.mem_map_of_mem (List.mem_filter.1 hw).1)
  · obtain ⟨events, hsettle⟩ := r.exists_happens_eq_settle hlooks
    rw [hsettle, mem_ended_settle] at he
    have hid : e.id ∈ (r.readied event).waiters.map (·.id) := List.mem_map_of_mem he.1
    rw [map_id_readied] at hid
    exact List.mem_append.1 hid

/-- An answer is accepted if its question is pending. -/
theorem Mirrors.resolved_mem_history_iff (h : r.Mirrors s)
    (hnew : ∀ id ∈ event.asked, s.phase id = none) {id : ι} {approves : Bool} :
    .resolved id approves true ∈
        (s.run (event.operations.flatMap QueueOperation.events)).history ↔
      .resolved id approves true ∈ s.history ∨
        event = .resolve id approves ∧ r.queue.isPending id = true := by
  have hother {facts : List (QueueFact ι)} (hfacts : .resolved id approves true ∉ facts)
      (hevent : ¬ (event = .resolve id approves ∧ r.queue.isPending id = true)) :
      .resolved id approves true ∈ s.history ++ facts ↔ .resolved id approves true ∈ s.history ∨
        event = .resolve id approves ∧ r.queue.isPending id = true := by
    rw [List.mem_append]
    exact or_congr_right (iff_of_false hfacts hevent)
  cases event with
  | ask w =>
    by_cases hbound : w.bound.any (·.cancelled) = true
    · rw [RoomEvent.operations, if_pos hbound]
      exact (or_iff_left (by simp)).symm
    · have hfresh : s.phase w.question.id = none := hnew w.id List.mem_cons_self
      rw [RoomEvent.operations, if_neg hbound, List.flatMap_singleton]
      by_cases hlistener : s.queue.announcements = .closed
      · rw [Interleaving.run_ask_of_closed hfresh hlistener]
        show _ ∈ s.history ++ [.queued w.question] ++ [.unheard w.question.id] ↔ _
        rw [List.append_assoc]
        exact hother (by simp) (by simp)
      · rw [Interleaving.run_ask_of_open h.sound hfresh hlistener]
        exact hother (by simp) (by simp)
  | resolve id' approves' =>
    show _ ∈ (s.step (.resolve id' approves')).history ↔ _
    rw [h.sound.faithful.resolve_history, ← h.queue, List.mem_append, List.mem_singleton]
    refine or_congr_right ?_
    constructor
    · intro heq
      obtain ⟨rfl, rfl, hpending⟩ := QueueFact.resolved.inj heq
      exact ⟨rfl, hpending.symm⟩
    · rintro ⟨⟨⟩, hpending⟩
      rw [hpending]
  | rejectAll => exact hother (by simp) (by simp)
  | advance _ | cancel _ | giveUp _ | listen | hangUp => exact (or_iff_left (by simp)).symm

/-- **A room is an order of events**, if all ask under identifiers of their own. -/
theorem Mirrors.run (h : r.Mirrors s) (hnodup : (events.flatMap RoomEvent.asked).Nodup)
    (hnew : ∀ id ∈ events.flatMap RoomEvent.asked, s.phase id = none) :
    let s' := s.run ((r.operationsIn events).flatMap QueueOperation.events)
    (r.run events).Mirrors s' ∧ (∀ e ∈ r.endedIn events, e.HasLeft s') ∧
      ∀ id approves, .resolved id approves true ∈ s'.history ↔
        .resolved id approves true ∈ s.history ∨ r.Accepts events id approves := by
  induction events generalizing r s with
  | nil =>
    refine ⟨h, fun e he ↦ (List.not_mem_nil he).elim, fun id approves ↦ ?_⟩
    refine (or_iff_left ?_).symm
    rintro ⟨before, after, hsplit, -⟩
    simp at hsplit
  | cons event events ih =>
    rw [List.flatMap_cons] at hnodup hnew
    obtain ⟨-, hnodup', hdisjoint⟩ := List.nodup_append'.1 hnodup
    obtain ⟨hnow, hlater⟩ := List.forall_mem_append.1 hnew
    obtain ⟨hroom, hleft, hhistory⟩ := h.happens hnow
    have hother {id : ι} (hid : id ∈ events.flatMap RoomEvent.asked) :
        (s.run ((r.operationsOf event).flatMap QueueOperation.events)).phase id = none := by
      refine (Interleaving.phase_run_of_not_isAlive ?_ fun question hask heq ↦ ?_).trans
        (hlater id hid)
      · rw [Interleaving.isAlive, hlater id hid, Option.any_none]
      · exact hdisjoint (id_mem_asked (QueueOperation.ask_mem_of_enter_mem hask)) (heq ▸ hid)
    obtain ⟨hroom', hleft', hhistory'⟩ := ih hroom hnodup' fun id hid ↦ hother hid
    simp only [operationsIn, List.flatMap_append, Interleaving.run_append]
    refine ⟨hroom', List.forall_mem_append.2 ⟨fun e he ↦ ?_, hleft'⟩, fun id approves ↦ ?_⟩
    · -- Nobody asks again under the identifier of one who has come to an end.
      have hgone : e.id ∉ events.flatMap RoomEvent.asked := fun hid ↦ by
        rcases id_mem_of_ended he with hmem | hmem
        · cases (h.waits e.id hmem).symm.trans (hlater e.id hid)
        · exact hdisjoint hmem hid
      refine (hleft e he).congr (Interleaving.phase_run_of_not_isAlive (hleft e he).not_isAlive
        fun question hask heq ↦ hgone ?_)
      exact heq ▸ id_mem_flatMap_asked (QueueOperation.ask_mem_of_enter_mem hask)
    · rw [hhistory', hhistory, h.resolved_mem_history_iff hnow, or_assoc, accepts_cons]

/-- The empty room is the empty interleaving. -/
theorem mirrors_empty (hasListener : Bool) :
    (empty hasListener : WaitingRoom ι).Mirrors (.start hasListener) where
  sound := Interleaving.sound_start hasListener
  queue := rfl
  nodup := List.nodup_nil
  waits _ hid := absurd hid List.not_mem_nil
  alive _ halive := by cases halive

/-- **Who is told yes.** One who comes to an end with an answer is told yes exactly when an approval
came while the question was pending. -/
theorem answered_yes_iff {hasListener : Bool} (hdistinct : (empty hasListener).Distinct events)
    {e : EndedWaiter ι} (he : e ∈ (empty hasListener).endedIn events) {approves : Bool}
    (hanswer : e.finish.answer? = some approves) :
    approves = true ↔ (empty hasListener).Accepts events e.id true := by
  have hsound := Interleaving.sound_start (ι := ι) hasListener
  obtain ⟨hroom, hleft, hhistory⟩ :=
    (mirrors_empty hasListener).run hdistinct fun _ _ ↦ rfl
  have hwhole := Interleaving.run_uninterrupted (Interleaving.uninterrupted_start hasListener)
    hsound ((empty hasListener).operationsIn events)
  have hreturned := hleft e he
  rw [EndedWaiter.HasLeft, hanswer] at hreturned
  rw [hwhole.returned_true_iff hroom.sound hreturned, hhistory]
  exact or_iff_right List.not_mem_nil

end WaitingRoom

/-! ### Requests -/

/-- How waiting ended, when the request behind it ended so. -/
def RequestEnd.waitEnd (e : RequestEnd) : WaitEnd :=
  if e.dropped then .gaveUp else .requestEnded e.outcome

theorem RequestEnd.events_waitEnd (e : RequestEnd) (tool : String) :
    e.waitEnd.events tool = e.events tool := by
  rw [waitEnd, events]
  split_ifs
  · rfl
  · rfl

/-- A request that was given up counts as cancelled, on either side. -/
theorem RequestEnd.outcome?_waitEnd (polls : List Poll) :
    (ofPolls polls).waitEnd.outcome? = some (ofPolls polls).outcome := by
  rcases ofPolls_cases polls with ⟨before, p, after, o, -, -, -, hend⟩ | ⟨-, hend⟩
  · rw [hend]
    rfl
  · rw [hend]
    rfl

/-- A waiter at a later time: its turn may have been cancelled since, and nothing else changes. -/
structure Waiter.Continues (w' w : Waiter ι) : Prop where
  question : w'.question = w.question
  bound : (w'.bound.map fun b ↦ (b.deadline, b.audited)) =
    w.bound.map fun b ↦ (b.deadline, b.audited)

namespace Waiter.Continues

variable {w w' w'' : Waiter ι}

omit [DecidableEq ι] in
theorem refl (w : Waiter ι) : w.Continues w := ⟨rfl, rfl⟩

omit [DecidableEq ι] in
theorem trans (h : w''.Continues w') (h' : w'.Continues w) : w''.Continues w :=
  ⟨h.question.trans h'.question, h.bound.trans h'.bound⟩

theorem cancelling (w : Waiter ι) (id : ι) : (w.cancelling id).Continues w := by
  rw [Waiter.cancelling]
  split_ifs
  · exact ⟨rfl, by rw [Option.map_map]; rfl⟩
  · exact refl w

omit [DecidableEq ι] in
theorem id_eq (h : w'.Continues w) : w'.id = w.id := congrArg QueuedQuestion.id h.question

omit [DecidableEq ι] in
/-- A request goes on as one. -/
theorem exists_bound (h : w'.Continues w) {b : Bound} (hbound : w.bound = some b) :
    ∃ b', w'.bound = some b' ∧ b'.audited = b.audited := by
  have hsame := h.bound
  rw [hbound] at hsame
  obtain ⟨b', hbound', hpair⟩ := Option.map_eq_some_iff.1 hsame
  exact ⟨b', hbound', (Prod.mk.inj hpair).2⟩

end Waiter.Continues

namespace WaitingRoom

variable {r : WaitingRoom ι} {w : Waiter ι} {b : Bound} {event : RoomEvent ι}
  {events : List (RoomEvent ι)}

/-- What the request behind a question finds when all look. -/
def poll? (r : WaitingRoom ι) (id : ι) : Option Poll := do
  let w ← r.waiters.find? (·.id = id)
  let b ← w.bound
  return b.poll r.now (r.queue.answer? id)

/-- What it finds after an event. Nobody looks when someone gives up. -/
def pollsAfter (r : WaitingRoom ι) (id : ι) : RoomEvent ι → List Poll
  | .giveUp _ => []
  | event => ((r.readied event).poll? id).toList

/-- What it finds during these events. -/
def pollsIn (r : WaitingRoom ι) (id : ι) : List (RoomEvent ι) → List Poll
  | [] => []
  | event :: events => r.pollsAfter id event ++ (r.happens event).room.pollsIn id events

/-! #### One event -/

theorem pollsAfter_of_ne_giveUp (h : ∀ id, event ≠ .giveUp id) (id : ι) :
    r.pollsAfter id event = ((r.readied event).poll? id).toList := by
  cases event with
  | giveUp id' => exact absurd rfl (h id')
  | ask _ | resolve _ _ | rejectAll | advance _ | cancel _ | listen | hangUp => rfl

theorem poll?_eq (hnodup : (r.waiters.map (·.id)).Nodup) (hw : w ∈ r.waiters)
    (hbound : w.bound = some b) : r.poll? w.id = some (b.poll r.now (r.queue.answer? w.id)) := by
  have hsome : (r.waiters.find? (·.id = w.id)).isSome = true := by
    rw [List.find?_isSome]
    exact ⟨w, hw, decide_eq_true rfl⟩
  obtain ⟨w', hfind⟩ := Option.isSome_iff_exists.1 hsome
  have hid : w'.id = w.id := by simpa using List.find?_some hfind
  obtain rfl := List.inj_on_of_nodup_map hnodup (List.mem_of_find?_eq_some hfind) hw hid
  rw [poll?, hfind, Option.bind_eq_bind, Option.bind_some, hbound]
  rfl

theorem poll?_eq_none {id : ι} (h : id ∉ r.waiters.map (·.id)) : r.poll? id = none := by
  have hfind : r.waiters.find? (·.id = id) = none :=
    List.find?_eq_none.2 fun w hw hid ↦ h (of_decide_eq_true hid ▸ List.mem_map_of_mem hw)
  rw [poll?, hfind]
  rfl

theorem mem_waiters_settle {events : List Event} :
    w ∈ (r.settle events).room.waiters ↔
      w ∈ r.waiters ∧ w.id ∉ (r.settle events).ended.map (·.id) := by
  show w ∈ (r.leaveAll (r.settle events).ended).waiters ↔ _
  rw [leaveAll_eq, List.mem_filter, decide_eq_true_iff]

/-- Whoever comes to an end under a waiter's identifier is this waiter. -/
theorem ended_settle_eq (hnodup : (r.waiters.map (·.id)).Nodup) (hw : w ∈ r.waiters)
    {events : List Event} {e : EndedWaiter ι} (he : e ∈ (r.settle events).ended)
    (hid : e.id = w.id) :
    e.waiter = w ∧ w.end? r.now (r.queue.answer? w.id) = some e.finish := by
  obtain ⟨hmem, hend⟩ := (mem_ended_settle events).1 he
  obtain rfl : e.waiter = w := List.inj_on_of_nodup_map hnodup hmem hw hid
  exact ⟨rfl, hend⟩

/-- One who looks and sees an end leaves, with this end and no other. -/
theorem settle_of_end? (hnodup : (r.waiters.map (·.id)).Nodup) (hw : w ∈ r.waiters)
    {finish : WaitEnd} (hend : w.end? r.now (r.queue.answer? w.id) = some finish)
    (events : List Event) :
    (∀ e ∈ (r.settle events).ended, e.id = w.id → e.waiter = w ∧ e.finish = finish) ∧
      w.id ∉ (r.settle events).room.waiters.map (·.id) := by
  constructor
  · intro e he hid
    obtain ⟨hwaiter, hfinish⟩ := ended_settle_eq hnodup hw he hid
    exact ⟨hwaiter, Option.some.inj (hfinish.symm.trans hend)⟩
  · intro hid
    have hended : ⟨w, finish⟩ ∈ (r.settle events).ended := (mem_ended_settle events).2 ⟨hw, hend⟩
    obtain ⟨w', hw', hsame⟩ := List.mem_map.1 hid
    exact (mem_waiters_settle.1 hw').2 (hsame ▸ List.mem_map_of_mem hended)

/-- One who looks and sees no end stays. -/
theorem settle_of_no_end (hnodup : (r.waiters.map (·.id)).Nodup) (hw : w ∈ r.waiters)
    (hend : w.end? r.now (r.queue.answer? w.id) = none) (events : List Event) :
    (∀ e ∈ (r.settle events).ended, e.id ≠ w.id) ∧ w ∈ (r.settle events).room.waiters := by
  have hother : ∀ e ∈ (r.settle events).ended, e.id ≠ w.id := by
    intro e he hid
    cases hend.symm.trans (ended_settle_eq hnodup hw he hid).2
  refine ⟨hother, mem_waiters_settle.2 ⟨hw, fun hmem ↦ ?_⟩⟩
  obtain ⟨e, he, hid⟩ := List.mem_map.1 hmem
  exact hother e he hid

/-- Where someone asks, all others stay, and where a turn is cancelled, too. -/
theorem exists_continues (hw : w ∈ r.waiters) (event : RoomEvent ι) :
    ∃ w' ∈ (r.readied event).waiters, w'.Continues w := by
  cases event with
  | ask w' =>
    refine ⟨w, ?_, .refl w⟩
    rw [readied]
    split_ifs
    · exact List.mem_append_left _ hw
    · exact List.mem_append_left _ hw
  | cancel id => exact ⟨_, List.mem_map_of_mem hw, .cancelling w id⟩
  | resolve _ _ | rejectAll | advance _ | giveUp _ | listen | hangUp => exact ⟨w, hw, .refl w⟩

theorem map_id_room_sublist (r : WaitingRoom ι) (event : RoomEvent ι) :
    ((r.happens event).room.waiters.map (·.id)).Sublist
      (r.waiters.map (·.id) ++ event.asked) := by
  rcases event.giveUp_or_ne with ⟨id, rfl⟩ | hlooks
  · exact (List.filter_sublist.map _).trans (List.sublist_append_left _ _)
  · obtain ⟨events, hsettle⟩ := r.exists_happens_eq_settle hlooks
    rw [hsettle, ← map_id_readied]
    show ((r.readied event).leaveAll _).waiters.map (·.id) |>.Sublist _
    rw [leaveAll_eq]
    exact List.filter_sublist.map _

/-! #### One event after another -/

/-- Nobody has the identifier now or comes with it later. -/
def Lacks (r : WaitingRoom ι) (events : List (RoomEvent ι)) (id : ι) : Prop :=
  id ∉ r.waiters.map (·.id) ∧ id ∉ events.flatMap RoomEvent.asked

/-- Of somebody who is not there, nothing is heard. -/
theorem Lacks.run {id : ι} (h : r.Lacks events id) :
    r.pollsIn id events = [] ∧ (∀ e ∈ r.endedIn events, e.id ≠ id) ∧
      id ∉ (r.run events).waiters.map (·.id) := by
  induction events generalizing r with
  | nil => exact ⟨rfl, fun _ he ↦ absurd he List.not_mem_nil, h.1⟩
  | cons event events ih =>
    obtain ⟨habsent, hasked⟩ := h
    rw [List.flatMap_cons, List.mem_append, not_or] at hasked
    have hnobody : id ∉ r.waiters.map (·.id) ++ event.asked :=
      fun hmem ↦ (List.mem_append.1 hmem).elim habsent hasked.1
    obtain ⟨hpolls, hended, hroom⟩ :=
      ih ⟨fun hmem ↦ hnobody ((r.map_id_room_sublist event).mem hmem), hasked.2⟩
    have hnow : r.pollsAfter id event = [] := by
      rcases event.giveUp_or_ne with ⟨id', rfl⟩ | hlooks
      · rfl
      · rw [pollsAfter_of_ne_giveUp hlooks, poll?_eq_none]
        · rfl
        · rwa [map_id_readied]
    refine ⟨by rw [pollsIn, hnow, hpolls]; rfl, List.forall_mem_append.2 ⟨?_, hended⟩, hroom⟩
    rintro e he rfl
    exact hnobody (List.mem_append.2 (id_mem_of_ended he))

/-- What becomes of the request behind a waiter is what its polls say. -/
structure FollowsPolls (r : WaitingRoom ι) (w : Waiter ι) (events : List (RoomEvent ι)) :
    Prop where
  /-- If it ends, it ends as a request with these polls does. -/
  ended : ∀ e ∈ r.endedIn events, e.id = w.id → e.waiter.Continues w ∧
    e.finish = (RequestEnd.ofPolls (r.pollsIn w.id events)).waitEnd
  /-- While it waits, it has found nothing. -/
  waits : w.id ∈ (r.run events).waiters.map (·.id) → ∀ p ∈ r.pollsIn w.id events, p.IsIdle

theorem FollowsPolls.of_continues {w' : Waiter ι} (h : r.FollowsPolls w' events)
    (hcontinues : w'.Continues w) : r.FollowsPolls w events := by
  obtain ⟨hended, hwaits⟩ := h
  rw [hcontinues.id_eq] at hended hwaits
  refine ⟨fun e he hid ↦ ?_, hwaits⟩
  obtain ⟨hlater, hfinish⟩ := hended e he hid
  exact ⟨hlater.trans hcontinues, hfinish⟩

theorem Distinct.happens (h : r.Distinct (event :: events)) :
    (r.happens event).room.Distinct events := by
  rw [Distinct, List.flatMap_cons, ← List.append_assoc] at h
  exact h.sublist ((r.map_id_room_sublist event).append (.refl _))

/-- A waiter that looks after an event leaves by what it finds there, or stays. -/
theorem FollowsPolls.looks (hdistinct : r.Distinct (event :: events))
    (hlooks : ∀ id, event ≠ .giveUp id) (hw : w ∈ (r.readied event).waiters)
    (hbound : w.bound = some b)
    (hlater : w ∈ (r.happens event).room.waiters → (r.happens event).room.FollowsPolls w events) :
    r.FollowsPolls w (event :: events) := by
  rw [Distinct, List.flatMap_cons, ← List.append_assoc, ← map_id_readied] at hdistinct
  obtain ⟨hnodup, -, hdisjoint⟩ := List.nodup_append'.1 hdistinct
  obtain ⟨heard, hsettle⟩ := r.exists_happens_eq_settle hlooks
  let p := b.poll (r.readied event).now ((r.readied event).queue.answer? w.id)
  have hpolls : r.pollsIn w.id (event :: events) =
      p :: (r.happens event).room.pollsIn w.id events := by
    rw [pollsIn, pollsAfter_of_ne_giveUp hlooks, poll?_eq hnodup hw hbound]
    rfl
  have hend : w.end? (r.readied event).now ((r.readied event).queue.answer? w.id) =
      p.outcome?.map .requestEnded := Waiter.end?_of_bound hbound
  rcases houtcome : p.outcome? with - | o
  · rw [houtcome] at hend
    obtain ⟨hother, hstays⟩ := settle_of_no_end hnodup hw hend heard
    rw [← hsettle] at hother hstays
    obtain ⟨hended, hwaits⟩ := hlater hstays
    refine ⟨List.forall_mem_append.2 ⟨fun e he hid ↦ absurd hid (hother e he), ?_⟩,
      fun hmem ↦ ?_⟩
    · rw [hpolls, RequestEnd.ofPolls, houtcome]
      exact hended
    · rw [hpolls]
      exact List.forall_mem_cons.2 ⟨Poll.outcome?_eq_none_iff.1 houtcome, hwaits hmem⟩
  · rw [houtcome] at hend
    obtain ⟨hfinish, hgone⟩ := settle_of_end? hnodup hw hend heard
    rw [← hsettle] at hfinish hgone
    have hlacks : (r.happens event).room.Lacks events w.id :=
      ⟨hgone, hdisjoint (List.mem_map_of_mem hw)⟩
    obtain ⟨-, hended, hroom⟩ := hlacks.run
    refine ⟨List.forall_mem_append.2 ⟨fun e he hid ↦ ?_, fun e he hid ↦ absurd hid (hended e he)⟩,
      fun hmem ↦ absurd hmem hroom⟩
    obtain ⟨hwaiter, hend'⟩ := hfinish e he hid
    rw [hwaiter, hend', hpolls, RequestEnd.ofPolls, houtcome]
    exact ⟨.refl w, rfl⟩

/-- A waiter that gives up leaves without having found anything. -/
theorem FollowsPolls.givesUp (hdistinct : r.Distinct (.giveUp w.id :: events))
    (hw : w ∈ r.waiters) : r.FollowsPolls w (.giveUp w.id :: events) := by
  obtain ⟨hnodup, -, hdisjoint⟩ := List.nodup_append'.1 hdistinct
  have hlacks : (r.leave w.id).Lacks events w.id := by
    refine ⟨fun hmem ↦ ?_, hdisjoint (List.mem_map_of_mem hw)⟩
    obtain ⟨w', hw', hid⟩ := List.mem_map.1 hmem
    exact of_decide_eq_true (List.mem_filter.1 hw').2 hid
  obtain ⟨hpolls, hended, hroom⟩ := hlacks.run
  refine ⟨List.forall_mem_append.2 ⟨fun e he hid ↦ ?_, fun e he hid ↦ absurd hid (hended e he)⟩,
    fun hmem ↦ absurd hmem hroom⟩
  obtain ⟨w', hw', rfl⟩ := List.mem_map.1 he
  obtain rfl : w' = w := List.inj_on_of_nodup_map hnodup (List.mem_filter.1 hw').1 hw hid
  show _ ∧ WaitEnd.gaveUp = (RequestEnd.ofPolls ((r.leave w'.id).pollsIn w'.id events)).waitEnd
  rw [hpolls]
  exact ⟨.refl w', rfl⟩

/-- Where another one gives up, a waiter stays and does not look. -/
theorem FollowsPolls.of_other {id : ι} (hid : w.id ≠ id)
    (hlater : (r.leave id).FollowsPolls w events) : r.FollowsPolls w (.giveUp id :: events) := by
  refine ⟨List.forall_mem_append.2 ⟨fun e he hid' ↦ ?_, hlater.ended⟩, hlater.waits⟩
  obtain ⟨w', hw', rfl⟩ := List.mem_map.1 he
  exact absurd (hid'.symm.trans (of_decide_eq_true (List.mem_filter.1 hw').2)) hid

/-- **The request behind a waiter follows its polls**, as long as it is in the room. -/
theorem followsPolls_of_mem (hdistinct : r.Distinct events) (hw : w ∈ r.waiters)
    (hbound : w.bound = some b) : r.FollowsPolls w events := by
  induction events generalizing r w b with
  | nil =>
    exact ⟨fun e he ↦ absurd he List.not_mem_nil, fun _ p hp ↦ absurd hp List.not_mem_nil⟩
  | cons event events ih =>
    rcases event.giveUp_or_ne with ⟨id, rfl⟩ | hlooks
    · by_cases hid : w.id = id
      · subst hid
        exact .givesUp hdistinct hw
      · have hstays : w ∈ (r.leave id).waiters := List.mem_filter.2 ⟨hw, decide_eq_true hid⟩
        exact .of_other hid (ih hdistinct.happens hstays hbound)
    · obtain ⟨w', hw', hcontinues⟩ := exists_continues hw event
      obtain ⟨b', hbound', -⟩ := hcontinues.exists_bound hbound
      have hfollows : r.FollowsPolls w' (event :: events) :=
        .looks hdistinct hlooks hw' hbound' fun hstays ↦ ih hdistinct.happens hstays hbound'
      exact hfollows.of_continues hcontinues

/-- **A request that is made in a room follows its polls**, the first of which it has at once. -/
theorem followsPolls_ask (hdistinct : r.Distinct (.ask w :: events)) (hbound : w.bound = some b) :
    r.FollowsPolls w (.ask w :: events) := by
  have hw : w ∈ (r.readied (.ask w)).waiters := by
    rw [readied]
    split_ifs
    · exact List.mem_append_right _ List.mem_cons_self
    · exact List.mem_append_right _ List.mem_cons_self
  exact .looks hdistinct (fun _ heq ↦ by cases heq) hw hbound
    fun hstays ↦ followsPolls_of_mem hdistinct.happens hstays hbound

/-- **What is heard and recorded of a request.** The warnings about the end of a request in a room,
and what its audit log records, are those of a request with the same polls. -/
theorem heard_and_recorded (hdistinct : r.Distinct (.ask w :: events))
    (hbound : w.bound = some b) {e : EndedWaiter ι} (he : e ∈ r.endedIn (.ask w :: events))
    (hid : e.id = w.id) :
    let finish := RequestEnd.ofPolls (r.pollsIn w.id (.ask w :: events))
    e.events = finish.events w.question.tool ∧
      e.recorded? = if b.audited then some [.confirmation finish.outcome] else none := by
  obtain ⟨hcontinues, hfinish⟩ := (followsPolls_ask hdistinct hbound).ended e he hid
  obtain ⟨b', hbound', haudited⟩ := hcontinues.exists_bound hbound
  constructor
  · simp only [EndedWaiter.events, hbound', hcontinues.question, hfinish,
      RequestEnd.events_waitEnd]
  · obtain ⟨deadline, cancelled, audited⟩ := b'
    obtain rfl : audited = b.audited := haudited
    rw [EndedWaiter.recorded?, hbound', hfinish, RequestEnd.outcome?_waitEnd]
    cases b.audited with
    | true => rfl
    | false => rfl

end WaitingRoom

end ToolAccess
