import Mathlib.Data.List.Nodup
import Mathlib.Data.List.Pairwise
import Mathlib.Logic.Function.Basic
import ToolAccess.Confirmation.Queue

/-!
# Calls that share a queue

Several calls wait for answers from one queue, while others answer, reject everything, and give
calls up. A call takes small steps, it puts its question into the queue, announces it, waits, and
leaves, and between any two of them anything else may happen.

An `Interleaving` is the queue together with the phase of each call and with what has happened so
far. The history is only written by `Interleaving.step`, never read: it is there to be talked about.

The invariant is `Interleaving.Sound`. It says what the queue holds in terms of the history and the
phases alone: the table has the questions without an answer in the history whose calls go on, and
the answers that wait are those in the history for calls that go on. That one event keeps it
(`Interleaving.step_sound`) comes down to four things that an event may do: a question comes in, a
call goes on, questions are taken from the table with an answer, and a call leaves.
-/

namespace ToolAccess

variable {ι : Type}

/-! ### Calls and what happens to them -/

/-- Where a call stands. -/
inductive CallPhase (ι : Type) where
  /-- Its question is in the queue and not announced yet. -/
  | entered (question : QueuedQuestion ι)
  /-- It waits for an answer. -/
  | waiting
  /-- It found nobody to announce its question to, and is about to leave. -/
  | refused
  /-- It ended with this answer. -/
  | returned (approves : Bool)
  /-- It was given up. -/
  | dropped
  deriving DecidableEq

/-- Whether the call goes on. -/
def CallPhase.isAlive : CallPhase ι → Bool
  | .entered _ | .waiting | .refused => true
  | .returned _ | .dropped => false

/-- What can happen next. -/
inductive QueueEvent (ι : Type) where
  /-- A call puts its question into the queue, under an identifier that was not used before. -/
  | enter (question : QueuedQuestion ι)
  /-- The call announces its question. -/
  | announce (id : ι)
  /-- The call leaves if there is an answer, or if it was refused. -/
  | finish (id : ι)
  /-- The call is given up. -/
  | drop (id : ι)
  /-- Someone answers. -/
  | resolve (id : ι) (approves : Bool)
  /-- Someone rejects everything. -/
  | rejectAll
  /-- The listener takes the announcements. -/
  | listen
  /-- The listener goes away. -/
  | hangUp

/-- What has happened, as far as anybody learns of it. -/
inductive QueueFact (ι : Type) where
  | queued (question : QueuedQuestion ι)
  /-- A question was to be announced, and the listener was gone. -/
  | unheard (id : ι)
  /-- Someone answered, and the question was pending or not. -/
  | resolved (id : ι) (approves ok : Bool)
  /-- Everything was rejected: these questions, and the number that was given back. -/
  | rejectedAll (ids : List ι) (count : Nat)
  deriving DecidableEq

/-- The queue, the calls, and what has happened so far, oldest first. -/
structure Interleaving (ι : Type) where
  queue : QuestionQueue ι
  phase : ι → Option (CallPhase ι)
  history : List (QueueFact ι)

namespace Interleaving

/-- Nothing has happened. -/
def start (hasListener : Bool) : Interleaving ι := ⟨.empty hasListener, fun _ ↦ none, []⟩

/-- Whether a call with this identifier goes on. -/
def isAlive (s : Interleaving ι) (id : ι) : Bool := (s.phase id).any (·.isAlive)

theorem isAlive_of_phase {s : Interleaving ι} {id : ι} {phase : CallPhase ι}
    (h : s.phase id = some phase) : s.isAlive id = phase.isAlive := by
  rw [isAlive, h, Option.any_some]

/-- The queue is now this one. -/
def withQueue (s : Interleaving ι) (queue : QuestionQueue ι) : Interleaving ι := { s with queue }

/-- A fact is added to the history. -/
def note (s : Interleaving ι) (fact : QueueFact ι) : Interleaving ι :=
  { s with history := s.history ++ [fact] }

end Interleaving

variable [DecidableEq ι]

/-- The answer that a fact is for the question with an identifier. -/
def QueueFact.answer? (id : ι) : QueueFact ι → Option Bool
  | .resolved id' approves true => if id' = id then some approves else none
  | .rejectedAll ids _ => if id ∈ ids then some false else none
  | .queued _ | .unheard _ | .resolved _ _ false => none

namespace Interleaving

/-- The call comes to a phase. -/
def moveTo (s : Interleaving ι) (id : ι) (phase : CallPhase ι) : Interleaving ι :=
  { s with phase := Function.update s.phase id (some phase) }

/-- The call ends, and its question goes with it. -/
def leave (s : Interleaving ι) (id : ι) (phase : CallPhase ι) : Interleaving ι :=
  (s.moveTo id phase).withQueue (s.queue.remove id)

/-- One event. What is not possible has no effect. -/
def step (s : Interleaving ι) : QueueEvent ι → Interleaving ι
  | .enter question =>
    match s.phase question.id with
    | none =>
      ((s.moveTo question.id (.entered question)).withQueue (s.queue.insert question)).note
        (.queued question)
    | some _ => s
  | .announce id =>
    match s.phase id with
    | some (.entered question) =>
      match s.queue.announcements with
      | .closed => (s.moveTo id .refused).note (.unheard id)
      | .none | .open _ =>
        (s.moveTo id .waiting).withQueue (s.queue.announce question)
    | _ => s
  | .finish id =>
    match s.phase id with
    | some .waiting =>
      match s.queue.answer? id with
      | some approves => s.leave id (.returned approves)
      | none => s
    | some .refused => s.leave id (.returned false)
    | _ => s
  | .drop id => if s.isAlive id then s.leave id .dropped else s
  | .resolve id approves =>
    match s.queue.resolve? id approves with
    | some queue => (s.withQueue queue).note (.resolved id approves true)
    | none => s.note (.resolved id approves false)
  | .rejectAll =>
    (s.withQueue s.queue.rejectAll).note
      (.rejectedAll (s.queue.pending.map (·.id)) s.queue.count)
  | .listen => s.withQueue s.queue.takeAnnounced.2
  | .hangUp => s.withQueue s.queue.close

/-- One event after another. -/
def run (s : Interleaving ι) (events : List (QueueEvent ι)) : Interleaving ι := events.foldl step s

variable {s : Interleaving ι}

/-! ### One event -/

theorem step_enter {question : QueuedQuestion ι} (hnew : s.phase question.id = none) :
    s.step (.enter question) = ((s.moveTo question.id (.entered question)).withQueue
      (s.queue.insert question)).note (.queued question) := by
  simp only [step, hnew]

theorem step_announce_of_open {id : ι} {question : QueuedQuestion ι}
    (hentered : s.phase id = some (.entered question)) (hopen : s.queue.announcements ≠ .closed) :
    s.step (.announce id) = (s.moveTo id .waiting).withQueue (s.queue.announce question) := by
  simp only [step, hentered]
  split
  · next hclosed => exact absurd hclosed hopen
  · rfl
  · rfl

theorem step_announce_of_closed {id : ι} {question : QueuedQuestion ι}
    (hentered : s.phase id = some (.entered question)) (hclosed : s.queue.announcements = .closed) :
    s.step (.announce id) = (s.moveTo id .refused).note (.unheard id) := by
  simp only [step, hentered, hclosed]

theorem step_finish_of_answer {id : ι} {approves : Bool} (hwaits : s.phase id = some .waiting)
    (hanswer : s.queue.answer? id = some approves) :
    s.step (.finish id) = s.leave id (.returned approves) := by
  simp only [step, hwaits, hanswer]

theorem step_finish_of_no_answer {id : ι} (hwaits : s.phase id = some .waiting)
    (hanswer : s.queue.answer? id = none) : s.step (.finish id) = s := by
  simp only [step, hwaits, hanswer]

theorem step_finish_of_refused {id : ι} (hrefused : s.phase id = some .refused) :
    s.step (.finish id) = s.leave id (.returned false) := by
  simp only [step, hrefused]

theorem step_resolve_of_pending {id : ι} (approves : Bool) (h : s.queue.isPending id = true) :
    s.step (.resolve id approves) =
      (s.withQueue (s.queue.deliver id approves)).note (.resolved id approves true) := by
  simp only [step, QuestionQueue.resolve?, h, if_true]

theorem step_resolve_of_not_pending {id : ι} (approves : Bool)
    (h : s.queue.isPending id = false) :
    s.step (.resolve id approves) = s.note (.resolved id approves false) := by
  simp only [step, QuestionQueue.resolve?, h]
  rfl

/-! ### The answer in a history -/

/-- The first answer that a history has for the question with an identifier. -/
def verdict (history : List (QueueFact ι)) (id : ι) : Option Bool :=
  history.findSome? (·.answer? id)

theorem verdict_concat (history : List (QueueFact ι)) (fact : QueueFact ι) (id : ι) :
    verdict (history ++ [fact]) id = (verdict history id).or (fact.answer? id) := by
  rw [verdict, List.findSome?_append, List.findSome?_singleton, verdict]

theorem verdict_concat_of_answer?_eq_none {history : List (QueueFact ι)} {fact : QueueFact ι}
    {id : ι} (h : fact.answer? id = none) :
    verdict (history ++ [fact]) id = verdict history id := by
  rw [verdict_concat, h, Option.or_none]

theorem verdict_eq_none_iff {history : List (QueueFact ι)} {id : ι} :
    verdict history id = none ↔ ∀ fact ∈ history, fact.answer? id = none :=
  List.findSome?_eq_none_iff

/-- No two facts are answers to one question. -/
def AnswersOnce (history : List (QueueFact ι)) : Prop :=
  history.Pairwise fun f g ↦ ∀ id, f.answer? id = none ∨ g.answer? id = none

theorem AnswersOnce.concat {history : List (QueueFact ι)} (h : AnswersOnce history)
    {fact : QueueFact ι}
    (hfirst : ∀ id approves, fact.answer? id = some approves → verdict history id = none) :
    AnswersOnce (history ++ [fact]) := by
  refine List.pairwise_append.2 ⟨h, List.pairwise_singleton _ _, fun g hg f hf id ↦ ?_⟩
  obtain rfl := List.mem_singleton.1 hf
  rcases hanswer : f.answer? id with - | approves
  · exact Or.inr rfl
  · exact Or.inl (verdict_eq_none_iff.1 (hfirst id approves hanswer) g hg)

/-- With one answer at most, every answer is the first. -/
theorem AnswersOnce.verdict_eq {history : List (QueueFact ι)} (h : AnswersOnce history)
    {fact : QueueFact ι} (hfact : fact ∈ history) {id : ι} {approves : Bool}
    (hanswer : fact.answer? id = some approves) : verdict history id = some approves := by
  obtain ⟨before, after, rfl⟩ := List.append_of_mem hfact
  have hbefore : verdict before id = none := by
    refine verdict_eq_none_iff.2 fun g hg ↦ ?_
    have hpair := (List.pairwise_append.1 h).2.2 g hg fact List.mem_cons_self id
    rcases hpair with hnone | hnone
    · exact hnone
    · rw [hnone] at hanswer
      cases hanswer
  rw [verdict, List.findSome?_append, ← verdict, hbefore, Option.none_or, List.findSome?_cons,
    hanswer]

/-! ### The invariant -/

/-- What a history says about a call in a phase. -/
def PhaseSound (history : List (QueueFact ι)) (id : ι) : Option (CallPhase ι) → Prop
  | none => verdict history id = none ∧ (∀ p, .queued p ∈ history → p.id ≠ id) ∧
    .unheard id ∉ history
  | some (.entered question) => question.id = id ∧ .unheard id ∉ history
  | some .waiting => .unheard id ∉ history
  | some .refused => .unheard id ∈ history
  | some (.returned approves) =>
    if .unheard id ∈ history then approves = false else verdict history id = some approves
  | some .dropped => True

/-- What holds after each event. -/
structure Sound (s : Interleaving ι) : Prop where
  /-- The questions in the table have different identifiers. -/
  nodup : (s.queue.pending.map (·.id)).Nodup
  /-- The table holds the questions without an answer whose calls go on. -/
  mem_pending : ∀ p, p ∈ s.queue.pending ↔
    .queued p ∈ s.history ∧ verdict s.history p.id = none ∧ s.isAlive p.id = true
  /-- The answers that wait are those for the calls that go on. -/
  answer : ∀ id, s.queue.answer? id = if s.isAlive id then verdict s.history id else none
  /-- No question is answered twice. -/
  once : AnswersOnce s.history
  /-- Each call is where the history has it. -/
  calls : ∀ id, PhaseSound s.history id (s.phase id)

@[simp] theorem isAlive_moveTo (s : Interleaving ι) (id id' : ι) (phase : CallPhase ι) :
    (s.moveTo id phase).isAlive id' = if id' = id then phase.isAlive else s.isAlive id' := by
  by_cases h : id' = id
  · subst h
    simp [moveTo, isAlive]
  · simp [moveTo, isAlive, h]

theorem sound_start (hasListener : Bool) : (start hasListener : Interleaving ι).Sound where
  nodup := List.nodup_nil
  mem_pending p := by simp [start, QuestionQueue.empty]
  answer id := rfl
  once := List.Pairwise.nil
  calls id := ⟨rfl, by simp [start], by simp [start]⟩

/-- A new fact does not matter to a call, unless it is its question, an answer after its end, or
that it was not heard. -/
theorem PhaseSound.concat {history : List (QueueFact ι)} {id : ι} {phase : Option (CallPhase ι)}
    (h : PhaseSound history id phase) {fact : QueueFact ι}
    (hanswer : fact.answer? id = none ∨ phase.any (·.isAlive) = true)
    (hqueued : phase = none → ∀ p, fact = .queued p → p.id ≠ id) (hheard : fact ≠ .unheard id) :
    PhaseSound (history ++ [fact]) id phase := by
  have hunheard : .unheard id ∈ history ++ [fact] ↔ .unheard id ∈ history := by
    rw [List.mem_append, List.mem_singleton]
    exact or_iff_left fun heq ↦ hheard heq.symm
  rcases phase with - | (question | - | - | approves | -)
  · obtain ⟨hverdict, hfresh, hnot⟩ := h
    have hnone : fact.answer? id = none := hanswer.resolve_right (by simp)
    refine ⟨by rw [verdict_concat, hverdict, hnone]; rfl, fun p hp ↦ ?_, mt hunheard.1 hnot⟩
    rcases List.mem_append.1 hp with hp | hp
    · exact hfresh p hp
    · exact hqueued rfl p (List.mem_singleton.1 hp).symm
  · exact ⟨h.1, mt hunheard.1 h.2⟩
  · exact mt hunheard.1 h
  · exact hunheard.2 h
  · have hnone : fact.answer? id = none := hanswer.resolve_right (by simp [CallPhase.isAlive])
    simp only [PhaseSound] at h ⊢
    simp only [hunheard, verdict_concat, hnone, Option.or_none]
    exact h
  · trivial

/-- A call that moves is where the history has it, if the history has it there and the others where
they are. -/
theorem phaseSound_moveTo {history : List (QueueFact ι)} {id : ι} {phase : CallPhase ι}
    (hphase : PhaseSound history id (some phase))
    (hother : ∀ id', id' ≠ id → PhaseSound history id' (s.phase id')) (id' : ι) :
    PhaseSound history id' ((s.moveTo id phase).phase id') := by
  show PhaseSound history id' (Function.update s.phase id (some phase) id')
  by_cases hid : id' = id
  · subst hid
    rw [Function.update_self]
    exact hphase
  · rw [Function.update_of_ne hid]
    exact hother id' hid

/-- What is announced does not matter. -/
theorem Sound.withAnnouncements (h : s.Sound) {queue : QuestionQueue ι}
    (hqueue : ∃ a, queue = { s.queue with announcements := a }) : (s.withQueue queue).Sound := by
  obtain ⟨a, rfl⟩ := hqueue
  exact ⟨h.nodup, h.mem_pending, h.answer, h.once, h.calls⟩

/-- A call puts its question into the queue. -/
theorem Sound.enter (h : s.Sound) {question : QueuedQuestion ι}
    (hnew : s.phase question.id = none) :
    (((s.moveTo question.id (.entered question)).withQueue (s.queue.insert question)).note
        (.queued question)).Sound := by
  have hcall := h.calls question.id
  rw [hnew] at hcall
  obtain ⟨hverdict, hqueued, hunheard⟩ := hcall
  have hverdicts (id : ι) :
      verdict (s.history ++ [.queued question]) id = verdict s.history id :=
    verdict_concat_of_answer?_eq_none rfl
  -- The identifier is new, so no question in the table has it.
  have hother (p : QueuedQuestion ι) (hp : p ∈ s.queue.pending) : p.id ≠ question.id :=
    hqueued p ((h.mem_pending p).1 hp).1
  refine ⟨?_, fun p ↦ ?_, fun id ↦ ?_, h.once.concat fun id approves hanswer ↦ ?_, fun id ↦ ?_⟩
  · show ((s.queue.pending ++ [question]).map (·.id)).Nodup
    rw [List.map_append]
    refine List.Nodup.append h.nodup (List.nodup_singleton _) ?_
    intro id hid hid'
    obtain ⟨p, hp, rfl⟩ := List.mem_map.1 hid
    exact hother p hp (List.mem_singleton.1 hid')
  · show p ∈ s.queue.pending ++ [question] ↔ .queued p ∈ s.history ++ [.queued question] ∧
      verdict (s.history ++ [.queued question]) p.id = none ∧
      (s.moveTo question.id (.entered question)).isAlive p.id = true
    rw [hverdicts, isAlive_moveTo, List.mem_append, List.mem_append, List.mem_singleton,
      List.mem_singleton, QueueFact.queued.injEq, h.mem_pending]
    by_cases hp : p = question
    · subst hp
      simp [hverdict, CallPhase.isAlive]
    · simp only [hp, or_false]
      by_cases hid : p.id = question.id
      · have hnot : .queued p ∉ s.history := fun hmem ↦ hqueued p hmem hid
        simp [hnot]
      · rw [if_neg hid]
  · show s.queue.answer? id = if (s.moveTo question.id (.entered question)).isAlive id then
      verdict (s.history ++ [.queued question]) id else none
    rw [hverdicts, isAlive_moveTo, h.answer]
    by_cases hid : id = question.id
    · subst hid
      simp [hverdict]
    · rw [if_neg hid]
  · cases hanswer
  · have hentered : PhaseSound (s.history ++ [.queued question]) question.id
        (some (.entered question)) := ⟨rfl, by simp [hunheard]⟩
    refine phaseSound_moveTo hentered (fun id' hid ↦ ?_) id
    refine (h.calls id').concat (Or.inl rfl) ?_ (by simp)
    rintro - p ⟨⟩
    exact hid.symm

/-- A move between phases in which the call goes on. -/
theorem isAlive_moveTo_of_isAlive {id : ι} (phase : CallPhase ι) (halive : s.isAlive id = true)
    (halive' : phase.isAlive = true) (id' : ι) :
    (s.moveTo id phase).isAlive id' = s.isAlive id' := by
  rw [isAlive_moveTo]
  split_ifs with hid
  · rw [hid, halive, halive']
  · rfl

/-- A call goes on to wait. -/
theorem Sound.await (h : s.Sound) {id : ι} (halive : s.isAlive id = true)
    (hheard : .unheard id ∉ s.history) : (s.moveTo id .waiting).Sound := by
  have hsame := isAlive_moveTo_of_isAlive .waiting halive rfl
  refine ⟨h.nodup, fun p ↦ ?_, fun id' ↦ ?_, h.once, fun id' ↦ ?_⟩
  · rw [hsame]
    exact h.mem_pending p
  · rw [hsame]
    exact h.answer id'
  · have hwaits : PhaseSound s.history id (some .waiting) := hheard
    exact phaseSound_moveTo hwaits (fun id' _ ↦ h.calls id') id'

/-- A call finds nobody to announce its question to. -/
theorem Sound.refuse (h : s.Sound) {id : ι} (halive : s.isAlive id = true) :
    ((s.moveTo id .refused).note (.unheard id)).Sound := by
  have hsame := isAlive_moveTo_of_isAlive .refused halive rfl
  have hverdicts (id' : ι) :
      verdict (s.history ++ [.unheard id]) id' = verdict s.history id' :=
    verdict_concat_of_answer?_eq_none rfl
  refine ⟨h.nodup, fun p ↦ ?_, fun id' ↦ ?_, h.once.concat (by simp [QueueFact.answer?]),
    fun id' ↦ ?_⟩
  · show p ∈ s.queue.pending ↔ .queued p ∈ s.history ++ [.unheard id] ∧
      verdict (s.history ++ [.unheard id]) p.id = none ∧ (s.moveTo id .refused).isAlive p.id = true
    rw [hverdicts, hsame, h.mem_pending]
    simp
  · show s.queue.answer? id' = if (s.moveTo id .refused).isAlive id' then
      verdict (s.history ++ [.unheard id]) id' else none
    rw [hverdicts, hsame, h.answer]
  · have hrefused : PhaseSound (s.history ++ [.unheard id]) id (some .refused) :=
      List.mem_append_right _ (List.mem_singleton_self _)
    refine phaseSound_moveTo hrefused (fun id' hid ↦ ?_) id'
    refine (h.calls id').concat (Or.inl rfl) (by simp) ?_
    rintro ⟨⟩
    exact hid rfl

/-- A fact that is no question, and no answer to a question that is not pending. -/
theorem Sound.take (h : s.Sound) {queue : QuestionQueue ι} {fact : QueueFact ι} (ids : List ι)
    (approves : Bool) (hids : ∀ id ∈ ids, s.queue.isPending id = true)
    (hpending : queue.pending = s.queue.pending.filter (·.id ∉ ids))
    (hanswers : ∀ id, queue.answer? id = if id ∈ ids then some approves else s.queue.answer? id)
    (hfact : ∀ id, fact.answer? id = if id ∈ ids then some approves else none)
    (hqueued : ∀ p, fact ≠ .queued p) (hheard : ∀ id, fact ≠ .unheard id) :
    ((s.withQueue queue).note fact).Sound := by
  -- What is taken had no answer before, so this is the first; and its call goes on to collect it.
  have htaken (id : ι) (hid : id ∈ ids) : verdict s.history id = none ∧ s.isAlive id = true := by
    obtain ⟨p, hp, rfl⟩ := QuestionQueue.isPending_iff _ |>.1 (hids id hid)
    exact ((h.mem_pending p).1 hp).2
  refine ⟨?_, fun p ↦ ?_, fun id ↦ ?_, h.once.concat fun id approves hanswer ↦ ?_, fun id ↦ ?_⟩
  · show (queue.pending.map (·.id)).Nodup
    rw [hpending]
    exact h.nodup.sublist (List.filter_sublist.map _)
  · show p ∈ queue.pending ↔ .queued p ∈ s.history ++ [fact] ∧
      verdict (s.history ++ [fact]) p.id = none ∧ s.isAlive p.id = true
    rw [hpending, List.mem_filter, h.mem_pending, verdict_concat, hfact, List.mem_append,
      List.mem_singleton, or_iff_left (hqueued p).symm]
    by_cases hid : p.id ∈ ids
    · simp [hid]
    · simp [hid]
  · show queue.answer? id = if s.isAlive id then verdict (s.history ++ [fact]) id else none
    rw [hanswers, verdict_concat, hfact, h.answer]
    by_cases hid : id ∈ ids
    · simp [hid, htaken id hid]
    · simp [hid]
  · rw [hfact] at hanswer
    split_ifs at hanswer with hid
    exact (htaken id hid).1
  · refine (h.calls id).concat ?_ (fun _ p heq ↦ absurd heq (hqueued p)) (hheard id)
    rw [hfact]
    split_ifs with hid
    · exact Or.inr (htaken id hid).2
    · exact Or.inl rfl

/-- An answer to a pending question. -/
theorem Sound.deliver (h : s.Sound) {id : ι} (approves : Bool)
    (hpending : s.queue.isPending id = true) :
    ((s.withQueue (s.queue.deliver id approves)).note (.resolved id approves true)).Sound := by
  refine h.take [id] approves ?_ ?_ (fun id' ↦ ?_) (fun id' ↦ ?_) (by simp) (by simp)
  · intro id' hid
    obtain rfl := List.mem_singleton.1 hid
    exact hpending
  · show s.queue.pending.filter (·.id ≠ id) = s.queue.pending.filter (·.id ∉ [id])
    simp only [List.mem_singleton]
  · rw [QuestionQueue.answer?_deliver]
    simp only [List.mem_singleton]
  · rw [QueueFact.answer?]
    simp only [List.mem_singleton, eq_comm]

/-- No to all pending questions. -/
theorem Sound.rejectAll (h : s.Sound) (count : Nat) :
    ((s.withQueue s.queue.rejectAll).note
      (.rejectedAll (s.queue.pending.map (·.id)) count)).Sound := by
  refine h.take (s.queue.pending.map (·.id)) false ?_ ?_ (fun id ↦ ?_) (fun id ↦ rfl)
    (by simp) (by simp)
  · intro id hid
    exact (QuestionQueue.isPending_iff _).2 (List.mem_map.1 hid)
  · show [] = s.queue.pending.filter _
    refine (List.filter_eq_nil_iff.2 fun p hp ↦ ?_).symm
    simp only [decide_eq_true_eq, not_not]
    exact List.mem_map_of_mem hp
  · rw [QuestionQueue.answer?_rejectAll]
    split_ifs with hid
    · -- A question that is pending has no answer yet.
      obtain ⟨p, hp, rfl⟩ := List.mem_map.1 hid
      obtain ⟨-, hverdict, halive⟩ := (h.mem_pending p).1 hp
      rw [h.answer, if_pos halive, hverdict, Option.none_or]
    · rw [Option.or_none]

/-- A call ends. -/
theorem Sound.leave (h : s.Sound) {id : ι} {phase : CallPhase ι} (hdead : phase.isAlive = false)
    (hphase : PhaseSound s.history id (some phase)) : (s.leave id phase).Sound := by
  refine ⟨?_, fun p ↦ ?_, fun id' ↦ ?_, h.once, fun id' ↦ ?_⟩
  · exact h.nodup.sublist (List.filter_sublist.map _)
  · show p ∈ s.queue.pending.filter (·.id ≠ id) ↔ .queued p ∈ s.history ∧
      verdict s.history p.id = none ∧ (s.moveTo id phase).isAlive p.id = true
    rw [List.mem_filter, h.mem_pending, isAlive_moveTo, hdead]
    by_cases hid : p.id = id
    · simp [hid]
    · simp [hid]
  · show (s.queue.remove id).answer? id' =
      if (s.moveTo id phase).isAlive id' then verdict s.history id' else none
    rw [QuestionQueue.answer?_remove, h.answer, isAlive_moveTo, hdead]
    by_cases hid : id' = id
    · simp [hid]
    · simp [hid]
  · exact phaseSound_moveTo hphase (fun id' _ ↦ h.calls id') id'

/-! ### Every order of events -/

/-- **One event keeps the invariant.** -/
theorem step_sound (h : s.Sound) (event : QueueEvent ι) : (s.step event).Sound := by
  cases event with
  | enter question =>
    rcases hphase : s.phase question.id with - | phase
    · rw [step_enter hphase]
      exact h.enter hphase
    · simp only [step, hphase]
      exact h
  | announce id =>
    rcases hphase : s.phase id with - | phase
    · simp only [step, hphase]
      exact h
    · have hcall := h.calls id
      rw [hphase] at hcall
      cases phase with
      | entered question =>
        have halive : s.isAlive id = true := isAlive_of_phase hphase
        by_cases hlistener : s.queue.announcements = .closed
        · rw [step_announce_of_closed hphase hlistener]
          exact h.refuse halive
        · rw [step_announce_of_open hphase hlistener]
          exact (h.await halive hcall.2).withAnnouncements (s.queue.announce_eq question hlistener)
      | waiting | refused | returned _ | dropped =>
        simp only [step, hphase]
        exact h
  | finish id =>
    rcases hphase : s.phase id with - | phase
    · simp only [step, hphase]
      exact h
    · have hcall := h.calls id
      rw [hphase] at hcall
      cases phase with
      | waiting =>
        -- The answer that waits for the call is the one in the history.
        have halive : s.isAlive id = true := isAlive_of_phase hphase
        have hunheard : .unheard id ∉ s.history := hcall
        have hanswer := h.answer id
        rw [if_pos halive] at hanswer
        rcases hq : s.queue.answer? id with - | approves
        · rw [step_finish_of_no_answer hphase hq]
          exact h
        · rw [step_finish_of_answer hphase hq]
          refine h.leave rfl ?_
          rw [PhaseSound, if_neg hunheard, ← hanswer, hq]
      | refused =>
        have hunheard : .unheard id ∈ s.history := hcall
        rw [step_finish_of_refused hphase]
        refine h.leave rfl ?_
        rw [PhaseSound, if_pos hunheard]
      | entered _ | returned _ | dropped =>
        simp only [step, hphase]
        exact h
  | drop id =>
    rw [step]
    split_ifs with halive
    · exact h.leave rfl trivial
    · exact h
  | resolve id approves =>
    rcases hpending : s.queue.isPending id with - | -
    · rw [step_resolve_of_not_pending approves hpending]
      exact h.take [] approves (by simp) (by simp) (by simp) (fun _ ↦ rfl) (by simp) (by simp)
    · rw [step_resolve_of_pending approves hpending]
      exact h.deliver approves hpending
  | rejectAll => exact h.rejectAll s.queue.count
  | listen => exact h.withAnnouncements s.queue.takeAnnounced_eq
  | hangUp => exact h.withAnnouncements s.queue.close_eq

theorem run_sound (h : s.Sound) (events : List (QueueEvent ι)) : (s.run events).Sound := by
  induction events generalizing s with
  | nil => exact h
  | cons event events ih => exact ih (step_sound h event)

/-! ### Calls that do not go on -/

theorem phase_moveTo_of_not_isAlive {id id' : ι} (phase : CallPhase ι)
    (halive : s.isAlive id = true) (hdead : s.isAlive id' = false) :
    (s.moveTo id phase).phase id' = s.phase id' := by
  refine Function.update_of_ne (fun heq ↦ ?_) _ _
  rw [heq, halive] at hdead
  cases hdead

/-- A call that does not go on stays where it is, and one that was not made is not made but under
its own identifier. -/
theorem phase_step_of_not_isAlive {event : QueueEvent ι} {id : ι} (hdead : s.isAlive id = false)
    (hnew : ∀ question, event = .enter question → question.id ≠ id) :
    (s.step event).phase id = s.phase id := by
  cases event with
  | enter question =>
    rcases hphase : s.phase question.id with - | phase
    · rw [step_enter hphase]
      exact Function.update_of_ne (hnew question rfl).symm _ _
    · simp only [step, hphase]
  | announce id' =>
    rcases hphase : s.phase id' with - | phase
    · simp only [step, hphase]
    · cases phase with
      | entered question =>
        by_cases hlistener : s.queue.announcements = .closed
        · rw [step_announce_of_closed hphase hlistener]
          exact phase_moveTo_of_not_isAlive _ (isAlive_of_phase hphase) hdead
        · rw [step_announce_of_open hphase hlistener]
          exact phase_moveTo_of_not_isAlive _ (isAlive_of_phase hphase) hdead
      | waiting | refused | returned _ | dropped => simp only [step, hphase]
  | finish id' =>
    rcases hphase : s.phase id' with - | phase
    · simp only [step, hphase]
    · cases phase with
      | waiting =>
        rcases hanswer : s.queue.answer? id' with - | approves
        · rw [step_finish_of_no_answer hphase hanswer]
        · rw [step_finish_of_answer hphase hanswer]
          exact phase_moveTo_of_not_isAlive _ (isAlive_of_phase hphase) hdead
      | refused =>
        rw [step_finish_of_refused hphase]
        exact phase_moveTo_of_not_isAlive _ (isAlive_of_phase hphase) hdead
      | entered _ | returned _ | dropped => simp only [step, hphase]
  | drop id' =>
    rw [step]
    split_ifs with halive
    · exact phase_moveTo_of_not_isAlive _ halive hdead
    · rfl
  | resolve id' approves =>
    rcases hpending : s.queue.isPending id' with - | -
    · rw [step_resolve_of_not_pending approves hpending]
      rfl
    · rw [step_resolve_of_pending approves hpending]
      rfl
  | rejectAll | listen | hangUp => rfl

theorem phase_run_of_not_isAlive {events : List (QueueEvent ι)} {id : ι}
    (hdead : s.isAlive id = false)
    (hnew : ∀ question, .enter question ∈ events → question.id ≠ id) :
    (s.run events).phase id = s.phase id := by
  induction events generalizing s with
  | nil => rfl
  | cons event events ih =>
    have hstep : (s.step event).phase id = s.phase id :=
      phase_step_of_not_isAlive hdead fun question heq ↦ hnew question (heq ▸ List.mem_cons_self)
    have hdead' : (s.step event).isAlive id = false := by rwa [isAlive, hstep]
    exact (ih hdead' fun question hmem ↦ hnew question (List.mem_cons_of_mem _ hmem)).trans hstep

end Interleaving

end ToolAccess
