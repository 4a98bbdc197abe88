import ToolAccess.Proofs.QueueInterleavings

/-!
# No answer is lost

What the calls that share a queue, and those who answer them, can rely on
(`Interleaving.Faithful`): the table holds the questions that wait and no others, an answer is
accepted just if its question is pending, and so once at most, and each call ends with the answer to
its own question. All of it follows from the invariant, hence holds in every order of events
(`Interleaving.answers_reach_their_calls`).

A call that finds the listener gone ends with no. So it does even if its question was approved
before it was announced, and the approval is lost (`Interleaving.unheard_approval_is_lost`); but for
this, somebody has to come between two steps of one poll. Calls that are not interrupted before they
wait (`QueueOperation`) end with yes exactly when their question was approved.
-/

namespace ToolAccess

variable {ι : Type} [DecidableEq ι]

namespace Interleaving

variable {s : Interleaving ι}

/-! ### What users of the queue see -/

/-- The question was among those that were rejected together. -/
def Rejected (s : Interleaving ι) (id : ι) : Prop :=
  ∃ ids count, .rejectedAll ids count ∈ s.history ∧ id ∈ ids

/-- The question was answered, alone or together with all others. -/
def Answered (s : Interleaving ι) (id : ι) : Prop :=
  (∃ approves, .resolved id approves true ∈ s.history) ∨ s.Rejected id

theorem answer?_eq_some_iff {fact : QueueFact ι} {id : ι} {approves : Bool} :
    fact.answer? id = some approves ↔ fact = .resolved id approves true ∨
      approves = false ∧ ∃ ids count, fact = .rejectedAll ids count ∧ id ∈ ids := by
  constructor
  · intro h
    cases fact with
    | queued question => cases h
    | unheard id' => cases h
    | resolved id' approves' ok =>
      cases ok with
      | false => cases h
      | true =>
        rw [QueueFact.answer?] at h
        split_ifs at h with hid
        obtain rfl := hid
        obtain rfl := Option.some.inj h
        exact Or.inl rfl
    | rejectedAll ids count =>
      rw [QueueFact.answer?] at h
      split_ifs at h with hid
      obtain rfl := Option.some.inj h
      exact Or.inr ⟨rfl, ids, count, rfl, hid⟩
  · rintro (rfl | ⟨rfl, ids, count, rfl, hid⟩)
    · exact if_pos rfl
    · exact if_pos hid

/-- The verdict is what was answered. -/
theorem Sound.verdict_eq_some_iff (h : s.Sound) {id : ι} {approves : Bool} :
    verdict s.history id = some approves ↔
      .resolved id approves true ∈ s.history ∨ approves = false ∧ s.Rejected id := by
  constructor
  · intro hverdict
    obtain ⟨fact, hfact, hanswer⟩ := List.exists_of_findSome?_eq_some hverdict
    rcases answer?_eq_some_iff.1 hanswer with rfl | ⟨rfl, ids, count, rfl, hid⟩
    · exact Or.inl hfact
    · exact Or.inr ⟨rfl, ids, count, hfact, hid⟩
  · rintro (hfact | ⟨rfl, ids, count, hfact, hid⟩)
    · exact h.once.verdict_eq hfact (answer?_eq_some_iff.2 (Or.inl rfl))
    · exact h.once.verdict_eq hfact (answer?_eq_some_iff.2 (Or.inr ⟨rfl, ids, count, rfl, hid⟩))

theorem Sound.verdict_eq_none_iff (h : s.Sound) {id : ι} :
    verdict s.history id = none ↔ ¬ s.Answered id := by
  constructor
  · rintro hnone (⟨approves, hfact⟩ | hrejected)
    · rw [h.verdict_eq_some_iff.2 (Or.inl hfact)] at hnone
      cases hnone
    · rw [h.verdict_eq_some_iff.2 (Or.inr ⟨rfl, hrejected⟩)] at hnone
      cases hnone
  · intro hanswered
    rcases hverdict : verdict s.history id with - | approves
    · rfl
    · rcases h.verdict_eq_some_iff.1 hverdict with hfact | ⟨-, hrejected⟩
      · exact absurd (Or.inl ⟨approves, hfact⟩) hanswered
      · exact absurd (Or.inr hrejected) hanswered

/-- What everybody can rely on who uses the queue. -/
structure Faithful (s : Interleaving ι) : Prop where
  /-- No identifier is in the table twice. -/
  nodup : (s.queue.pending.map (·.id)).Nodup
  /-- The table holds the questions that were put there, were not answered, and whose calls
  go on. -/
  mem_pending_iff : ∀ question, question ∈ s.queue.pending ↔
    .queued question ∈ s.history ∧ ¬ s.Answered question.id ∧ s.isAlive question.id = true
  /-- An answer is accepted just if the question is pending at that moment. -/
  resolve_history : ∀ id approves, (s.step (.resolve id approves)).history =
    s.history ++ [.resolved id approves (s.queue.isPending id)]
  /-- An answer that is not accepted changes nothing. -/
  resolve_of_not_pending : ∀ id approves, s.queue.isPending id = false →
    (s.step (.resolve id approves)).queue = s.queue ∧
      (s.step (.resolve id approves)).phase = s.phase
  /-- After an answer was accepted, no other one is. -/
  resolved_once : ∀ before after id approves,
    s.history = before ++ .resolved id approves true :: after →
      ∀ approves' ok, .resolved id approves' ok ∈ after → ok = false
  /-- An answer has no influence on any other call. -/
  resolve_other : ∀ id approves other, other ≠ id →
    (s.step (.resolve id approves)).phase other = s.phase other ∧
      (s.step (.resolve id approves)).queue.answer? other = s.queue.answer? other ∧
      (s.step (.resolve id approves)).queue.isPending other = s.queue.isPending other
  /-- A call ends with yes just if its own question was approved, and somebody could hear of it. -/
  returned_true_iff : ∀ id approves, s.phase id = some (.returned approves) →
    (approves = true ↔ .resolved id true true ∈ s.history ∧ .unheard id ∉ s.history)
  /-- A call ends with no just if its own question was rejected, alone or with all others, or if
  nobody could hear of it. -/
  returned_false_iff : ∀ id approves, s.phase id = some (.returned approves) →
    (approves = false ↔
      .resolved id false true ∈ s.history ∨ s.Rejected id ∨ .unheard id ∈ s.history)
  /-- A call that waits collects the answer to its question. -/
  collects : ∀ id, s.phase id = some .waiting →
    (∀ approves, .resolved id approves true ∈ s.history →
      (s.step (.finish id)).phase id = some (.returned approves)) ∧
    (s.Rejected id → (s.step (.finish id)).phase id = some (.returned false))
  /-- Rejecting everything empties the table and gives back how many questions were in it. -/
  rejectAll : (s.step .rejectAll).queue.pending = [] ∧
    (s.step .rejectAll).history =
      s.history ++ [.rejectedAll (s.queue.pending.map (·.id)) s.queue.pending.length]
  /-- The question of a call that has ended or was given up is not pending. -/
  ended : ∀ id, (∃ approves, s.phase id = some (.returned approves)) ∨ s.phase id = some .dropped →
    s.queue.isPending id = false

/-! ### From the invariant to the users -/

/-- A question in the table belongs to a call that goes on. -/
theorem Sound.isAlive_of_isPending (h : s.Sound) {id : ι} (hpending : s.queue.isPending id = true) :
    s.isAlive id = true := by
  obtain ⟨p, hp, rfl⟩ := (QuestionQueue.isPending_iff _).1 hpending
  exact ((h.mem_pending p).1 hp).2.2

/-- A call that waits collects the verdict. -/
theorem Sound.phase_finish (h : s.Sound) {id : ι} {approves : Bool}
    (hwaits : s.phase id = some .waiting) (hverdict : verdict s.history id = some approves) :
    (s.step (.finish id)).phase id = some (.returned approves) := by
  have hanswer := h.answer id
  have halive : s.isAlive id = true := isAlive_of_phase hwaits
  rw [if_pos halive, hverdict] at hanswer
  rw [step_finish_of_answer hwaits hanswer]
  exact Function.update_self _ _ _

/-- What the history says about a call that ended. -/
theorem Sound.returned_cases (h : s.Sound) {id : ι} {approves : Bool}
    (hreturned : s.phase id = some (.returned approves)) :
    .unheard id ∈ s.history ∧ approves = false ∨
      .unheard id ∉ s.history ∧ verdict s.history id = some approves := by
  have hcall := h.calls id
  rw [hreturned, PhaseSound] at hcall
  split_ifs at hcall with hunheard
  · exact Or.inl ⟨hunheard, hcall⟩
  · exact Or.inr ⟨hunheard, hcall⟩

theorem resolve_other (s : Interleaving ι) (id : ι) (approves : Bool) {other : ι}
    (hother : other ≠ id) :
    (s.step (.resolve id approves)).phase other = s.phase other ∧
      (s.step (.resolve id approves)).queue.answer? other = s.queue.answer? other ∧
      (s.step (.resolve id approves)).queue.isPending other = s.queue.isPending other := by
  rcases hpending : s.queue.isPending id with - | -
  · rw [step_resolve_of_not_pending approves hpending]
    exact ⟨rfl, rfl, rfl⟩
  · rw [step_resolve_of_pending approves hpending]
    refine ⟨rfl, ?_, s.queue.isPending_deliver_of_ne approves hother⟩
    exact (s.queue.answer?_deliver id other approves).trans (if_neg hother)

/-- **The invariant is faithful.** -/
theorem Sound.faithful (h : s.Sound) : s.Faithful where
  nodup := h.nodup
  mem_pending_iff question := by
    rw [h.mem_pending, h.verdict_eq_none_iff]
  resolve_history id approves := by
    rcases hpending : s.queue.isPending id with - | -
    · rw [step_resolve_of_not_pending approves hpending]
      rfl
    · rw [step_resolve_of_pending approves hpending]
      rfl
  resolve_of_not_pending id approves hpending := by
    rw [step_resolve_of_not_pending approves hpending]
    exact ⟨rfl, rfl⟩
  resolved_once before after id approves hhistory approves' ok hlater := by
    -- Both are answers to the question, if the later one was accepted too.
    have honce := h.once
    rw [hhistory] at honce
    have hpair := (List.pairwise_cons.1 (List.pairwise_append.1 honce).2.1).1 _ hlater id
    rcases hpair with hnone | hnone
    · rw [answer?_eq_some_iff.2 (Or.inl rfl)] at hnone
      cases hnone
    · cases ok with
      | false => rfl
      | true =>
        rw [answer?_eq_some_iff.2 (Or.inl rfl)] at hnone
        cases hnone
  resolve_other id approves _ hother := s.resolve_other id approves hother
  returned_true_iff id approves hreturned := by
    rcases h.returned_cases hreturned with ⟨hunheard, rfl⟩ | ⟨hunheard, hverdict⟩
    · simp [hunheard]
    · constructor
      · rintro rfl
        rcases h.verdict_eq_some_iff.1 hverdict with hfact | ⟨⟨⟩, -⟩
        exact ⟨hfact, hunheard⟩
      · rintro ⟨hfact, -⟩
        exact Option.some.inj (hverdict.symm.trans (h.verdict_eq_some_iff.2 (Or.inl hfact)))
  returned_false_iff id approves hreturned := by
    rcases h.returned_cases hreturned with ⟨hunheard, rfl⟩ | ⟨hunheard, hverdict⟩
    · simp [hunheard]
    · constructor
      · rintro rfl
        rcases h.verdict_eq_some_iff.1 hverdict with hfact | ⟨-, hrejected⟩
        · exact Or.inl hfact
        · exact Or.inr (Or.inl hrejected)
      · rintro (hfact | hrejected | hgone)
        · exact Option.some.inj (hverdict.symm.trans (h.verdict_eq_some_iff.2 (Or.inl hfact)))
        · exact Option.some.inj
            (hverdict.symm.trans (h.verdict_eq_some_iff.2 (Or.inr ⟨rfl, hrejected⟩)))
        · exact absurd hgone hunheard
  collects id hwaits := by
    refine ⟨fun approves hfact ↦ ?_, fun hrejected ↦ ?_⟩
    · exact h.phase_finish hwaits (h.verdict_eq_some_iff.2 (Or.inl hfact))
    · exact h.phase_finish hwaits (h.verdict_eq_some_iff.2 (Or.inr ⟨rfl, hrejected⟩))
  rejectAll := ⟨rfl, rfl⟩
  ended id hended := by
    -- Only calls that go on have a question in the table.
    have hdead : s.isAlive id = false := by
      rcases hended with ⟨approves, hphase⟩ | hphase
      · exact isAlive_of_phase hphase
      · exact isAlive_of_phase hphase
    by_contra hpending
    rw [h.isAlive_of_isPending (Bool.not_eq_false _ ▸ hpending)] at hdead
    cases hdead

end Interleaving

/-! ### Calls that are not interrupted before they wait -/

/-- What is done to the queue when a call, once begun, goes on until it waits. -/
inductive QueueOperation (ι : Type) where
  /-- A call is polled for the first time. -/
  | ask (question : QueuedQuestion ι)
  /-- It is polled again. -/
  | poll (id : ι)
  | drop (id : ι)
  | resolve (id : ι) (approves : Bool)
  | rejectAll
  | listen
  | hangUp

/-- The steps of an operation. -/
def QueueOperation.events : QueueOperation ι → List (QueueEvent ι)
  | .ask question => [.enter question, .announce question.id, .finish question.id]
  | .poll id => [.finish id]
  | .drop id => [.drop id]
  | .resolve id approves => [.resolve id approves]
  | .rejectAll => [.rejectAll]
  | .listen => [.listen]
  | .hangUp => [.hangUp]

namespace Interleaving

theorem run_append (s : Interleaving ι) (a b : List (QueueEvent ι)) :
    s.run (a ++ b) = (s.run a).run b :=
  List.foldl_append

variable {s : Interleaving ι} {question : QueuedQuestion ι}

theorem phase_step_enter (hnew : s.phase question.id = none) :
    (s.step (.enter question)).phase question.id = some (.entered question) := by
  rw [step_enter hnew]
  exact Function.update_self _ _ _

/-- **A question in one go**, where somebody may listen, is the asking of the queue. -/
theorem run_ask_of_open (h : s.Sound) (hnew : s.phase question.id = none)
    (hopen : s.queue.announcements ≠ .closed) :
    s.run (QueueOperation.ask question).events =
      ((s.moveTo question.id .waiting).withQueue (s.queue.ask question)).note
        (.queued question) := by
  have hopen' : (s.step (.enter question)).queue.announcements ≠ .closed := by
    rw [step_enter hnew]
    exact hopen
  have hannounce : (s.step (.enter question)).step (.announce question.id) =
      ((s.moveTo question.id .waiting).withQueue (s.queue.ask question)).note
        (.queued question) := by
    rw [step_announce_of_open (phase_step_enter hnew) hopen', step_enter hnew]
    simp [moveTo, withQueue, note, QuestionQueue.ask]
  -- Nobody can have answered yet.
  have hanswer : (s.queue.ask question).answer? question.id = none := by
    obtain ⟨a, ha⟩ := (s.queue.insert question).announce_eq question hopen
    have hdead : ¬ s.isAlive question.id = true := by simp [isAlive, hnew]
    rw [QuestionQueue.ask, ha]
    exact (h.answer question.id).trans (if_neg hdead)
  show ((s.step (.enter question)).step (.announce question.id)).step (.finish question.id) = _
  rw [hannounce]
  exact step_finish_of_no_answer (Function.update_self _ _ _) hanswer

/-- **A question in one go**, where the listener is gone, is the asking of the queue, and the call
leaves with no. -/
theorem run_ask_of_closed (hnew : s.phase question.id = none)
    (hclosed : s.queue.announcements = .closed) :
    s.run (QueueOperation.ask question).events =
      (((s.moveTo question.id (.returned false)).withQueue
        ((s.queue.ask question).remove question.id)).note (.queued question)).note
          (.unheard question.id) := by
  have hclosed' : (s.step (.enter question)).queue.announcements = .closed := by
    rw [step_enter hnew]
    exact hclosed
  have hask : (s.queue.ask question).remove question.id =
      (s.queue.insert question).remove question.id := by
    have hinsert : (s.queue.insert question).announcements = .closed := hclosed
    rw [QuestionQueue.ask, QuestionQueue.announce, hinsert]
    exact QuestionQueue.remove_deliver _ _ _
  show ((s.step (.enter question)).step (.announce question.id)).step (.finish question.id) = _
  rw [step_announce_of_closed (phase_step_enter hnew) hclosed',
    step_finish_of_refused (Function.update_self _ _ _), step_enter hnew, hask]
  simp [moveTo, withQueue, note, leave]

/-- Between two operations, a call that goes on waits, and one that was not heard has no answer. -/
structure Uninterrupted (s : Interleaving ι) : Prop where
  waits : ∀ id phase, s.phase id = some phase → phase.isAlive = true → phase = .waiting
  unheard : ∀ id, .unheard id ∈ s.history → verdict s.history id = none

theorem uninterrupted_start (hasListener : Bool) :
    (start hasListener : Interleaving ι).Uninterrupted where
  waits _ _ h := by cases h
  unheard _ h := by cases h

theorem Uninterrupted.withQueue (h : s.Uninterrupted) (queue : QuestionQueue ι) :
    (s.withQueue queue).Uninterrupted :=
  ⟨h.waits, h.unheard⟩

theorem Uninterrupted.moveTo (h : s.Uninterrupted) (id : ι) {phase : CallPhase ι}
    (hphase : phase.isAlive = true → phase = .waiting) : (s.moveTo id phase).Uninterrupted := by
  refine ⟨fun id' phase' hphase' ↦ ?_, h.unheard⟩
  have hphase'' : Function.update s.phase id (some phase) id' = some phase' := hphase'
  by_cases hid : id' = id
  · subst hid
    rw [Function.update_self] at hphase''
    obtain rfl := Option.some.inj hphase''
    exact hphase
  · rw [Function.update_of_ne hid] at hphase''
    exact h.waits id' phase' hphase''

/-- A call that goes on was heard. -/
theorem Uninterrupted.not_unheard (h : s.Uninterrupted) (hsound : s.Sound) {id : ι}
    (halive : s.isAlive id = true) : .unheard id ∉ s.history := by
  have hcall := hsound.calls id
  rcases hphase : s.phase id with - | phase
  · rw [isAlive, hphase] at halive
    cases halive
  · obtain rfl := h.waits id phase hphase ((isAlive_of_phase hphase).symm.trans halive)
    rw [hphase] at hcall
    exact hcall

/-- A fact that is an answer to pending questions only, and not that somebody was not heard. -/
theorem Uninterrupted.note (h : s.Uninterrupted) (hsound : s.Sound) {fact : QueueFact ι}
    (hanswer : ∀ id approves, fact.answer? id = some approves → s.queue.isPending id = true)
    (hheard : ∀ id, fact ≠ .unheard id) : (s.note fact).Uninterrupted := by
  refine ⟨h.waits, fun id hunheard ↦ ?_⟩
  have hearlier : .unheard id ∈ s.history := by
    rcases List.mem_append.1 hunheard with hmem | hmem
    · exact hmem
    · exact absurd (List.mem_singleton.1 hmem).symm (hheard id)
  show verdict (s.history ++ [fact]) id = none
  rw [verdict_concat, h.unheard id hearlier, Option.none_or]
  -- An answer would be for a call that goes on, and those were heard.
  rcases hfact : fact.answer? id with - | approves
  · rfl
  · have halive := hsound.isAlive_of_isPending (hanswer id approves hfact)
    exact absurd hearlier (h.not_unheard hsound halive)

theorem Uninterrupted.leave (h : s.Uninterrupted) (id : ι) {phase : CallPhase ι}
    (hdead : phase.isAlive = false) : (s.leave id phase).Uninterrupted := by
  refine (h.moveTo id fun halive ↦ ?_).withQueue _
  rw [hdead] at halive
  cases halive

theorem Uninterrupted.finish (h : s.Uninterrupted) (id : ι) :
    (s.step (.finish id)).Uninterrupted := by
  rcases hphase : s.phase id with - | phase
  · simp only [step, hphase]
    exact h
  · cases phase with
    | waiting =>
      rcases hanswer : s.queue.answer? id with - | approves
      · rw [step_finish_of_no_answer hphase hanswer]
        exact h
      · rw [step_finish_of_answer hphase hanswer]
        exact h.leave id rfl
    | refused =>
      rw [step_finish_of_refused hphase]
      exact h.leave id rfl
    | entered _ | returned _ | dropped =>
      simp only [step, hphase]
      exact h

/-- Nobody heard of a question that has no answer. -/
theorem Uninterrupted.noteUnheard (h : s.Uninterrupted) {id : ι}
    (hverdict : verdict s.history id = none) : (s.note (.unheard id)).Uninterrupted := by
  refine ⟨h.waits, fun id' hunheard ↦ ?_⟩
  show verdict (s.history ++ [.unheard id]) id' = none
  rw [verdict_concat_of_answer?_eq_none rfl]
  rcases List.mem_append.1 hunheard with hmem | hmem
  · exact h.unheard id' hmem
  · cases List.mem_singleton.1 hmem
    exact hverdict

/-- A call that is polled for the first time. -/
theorem Uninterrupted.ask (h : s.Uninterrupted) (hsound : s.Sound)
    (question : QueuedQuestion ι) : (s.run (QueueOperation.ask question).events).Uninterrupted := by
  rcases hphase : s.phase question.id with - | phase
  · have hqueued : (s.note (.queued question)).Uninterrupted :=
      h.note hsound (by simp [QueueFact.answer?]) (by simp)
    by_cases hlistener : s.queue.announcements = .closed
    · rw [run_ask_of_closed hphase hlistener]
      have hleft :
          ((s.note (.queued question)).leave question.id (.returned false)).Uninterrupted :=
        hqueued.leave question.id rfl
      have hcall := hsound.calls question.id
      rw [hphase] at hcall
      refine (hleft.withQueue _).noteUnheard ?_
      exact (verdict_concat_of_answer?_eq_none rfl).trans hcall.1
    · rw [run_ask_of_open hsound hphase hlistener]
      exact (hqueued.moveTo question.id fun _ ↦ rfl).withQueue _
  · -- The identifier was used before, and its call is not in the middle of asking.
    have henter : s.step (.enter question) = s := by simp only [step, hphase]
    have hannounce : s.step (.announce question.id) = s := by
      cases phase with
      | entered question' => cases h.waits question.id _ hphase rfl
      | waiting | refused | returned _ | dropped => simp only [step, hphase]
    show (((s.step (.enter question)).step (.announce question.id)).step
      (.finish question.id)).Uninterrupted
    rw [henter, hannounce]
    exact h.finish question.id

/-- **One operation** keeps the calls uninterrupted. -/
theorem Uninterrupted.operation (h : s.Uninterrupted) (hsound : s.Sound)
    (operation : QueueOperation ι) : (s.run operation.events).Uninterrupted := by
  cases operation with
  | ask question => exact h.ask hsound question
  | poll id => exact h.finish id
  | drop id =>
    show (s.step (.drop id)).Uninterrupted
    rw [step]
    split_ifs with halive
    · exact h.leave id rfl
    · exact h
  | resolve id approves =>
    show (s.step (.resolve id approves)).Uninterrupted
    rcases hpending : s.queue.isPending id with - | -
    · rw [step_resolve_of_not_pending approves hpending]
      exact h.note hsound (by simp [QueueFact.answer?]) (by simp)
    · rw [step_resolve_of_pending approves hpending]
      have hanswer : ∀ id' approves', (QueueFact.resolved id approves true).answer? id' =
          some approves' → s.queue.isPending id' = true := by
        intro id' approves' hanswer
        rw [QueueFact.answer?] at hanswer
        split_ifs at hanswer with hid
        exact hid ▸ hpending
      exact (h.note hsound hanswer (by simp)).withQueue _
  | rejectAll =>
    have hnoted : (s.note
        (.rejectedAll (s.queue.pending.map (·.id)) s.queue.count)).Uninterrupted := by
      refine h.note hsound (fun id approves hanswer ↦ ?_) (by simp)
      rw [QueueFact.answer?] at hanswer
      split_ifs at hanswer with hid
      exact (QuestionQueue.isPending_iff _).2 (List.mem_map.1 hid)
    exact hnoted.withQueue s.queue.rejectAll
  | listen => exact h.withQueue _
  | hangUp => exact h.withQueue _

theorem run_uninterrupted (h : s.Uninterrupted) (hsound : s.Sound)
    (operations : List (QueueOperation ι)) :
    (s.run (operations.flatMap QueueOperation.events)).Uninterrupted := by
  induction operations generalizing s with
  | nil => exact h
  | cons operation operations ih =>
    rw [List.flatMap_cons, run_append]
    exact ih (h.operation hsound operation) (run_sound hsound operation.events)

/-- **Where no call is interrupted before it waits**, a call returns yes exactly when its question
was approved. -/
theorem Uninterrupted.returned_true_iff (h : s.Uninterrupted) (hsound : s.Sound) {id : ι}
    {approves : Bool} (hreturned : s.phase id = some (.returned approves)) :
    approves = true ↔ .resolved id true true ∈ s.history := by
  -- An approved question was heard, for one that was not has no answer.
  have hheard (happroved : .resolved id true true ∈ s.history) : .unheard id ∉ s.history := by
    intro hunheard
    have hnone := h.unheard id hunheard
    rw [hsound.verdict_eq_some_iff.2 (Or.inl happroved)] at hnone
    cases hnone
  exact (hsound.faithful.returned_true_iff id approves hreturned).trans
    (and_iff_left_of_imp hheard)

/-! ### No answer is lost -/

/-- **No answer is lost, given twice, or given to another call**, in any order in which calls ask,
are polled and given up, and others answer them and reject everything. A call that comes to an end
returns yes exactly when its own question was approved.

Nor does it matter if calls are interrupted in the middle of a poll, except that a call may then end
with no because nobody heard of its question, although it was approved. -/
theorem answers_reach_their_calls (hasListener : Bool) :
    (∀ operations : List (QueueOperation ι),
      let s := (start hasListener).run (operations.flatMap QueueOperation.events)
      s.Faithful ∧ ∀ id approves, s.phase id = some (.returned approves) →
        (approves = true ↔ .resolved id true true ∈ s.history)) ∧
    ∀ events : List (QueueEvent ι), ((start hasListener).run events).Faithful := by
  have hfaithful (events : List (QueueEvent ι)) : ((start hasListener).run events).Faithful :=
    (run_sound (sound_start hasListener) events).faithful
  refine ⟨fun operations ↦ ⟨hfaithful _, fun id approves hreturned ↦ ?_⟩, hfaithful⟩
  have hsound := run_sound (sound_start hasListener) (operations.flatMap QueueOperation.events)
  have hwhole := run_uninterrupted (uninterrupted_start hasListener) (sound_start hasListener)
    operations
  exact hwhole.returned_true_iff hsound hreturned

/-- Two calls ask. The first is approved, then rejected too late, and the rest is rejected. -/
def twoCalls : List (QueueOperation Nat) :=
  [.ask ⟨1, "send", "Send?", .null⟩, .ask ⟨2, "drop", "Drop?", .null⟩, .resolve 1 true,
    .resolve 1 false, .rejectAll, .poll 1, .poll 2]

/-- Each of the two calls gets its own answer. -/
theorem twoCalls_get_their_answers :
    let s := (start false).run (twoCalls.flatMap QueueOperation.events)
    s.phase 1 = some (.returned true) ∧ .resolved 1 true true ∈ s.history ∧
      s.phase 2 = some (.returned false) ∧ .resolved 2 true true ∉ s.history ∧
      s.queue.isPending 1 = false ∧ s.queue.isPending 2 = false := by
  intro s
  obtain ⟨hwhole, -⟩ := answers_reach_their_calls (ι := Nat) false
  obtain ⟨hfaithful, hyes⟩ := hwhole twoCalls
  have hfirst : s.phase 1 = some (.returned true) := by decide
  have hsecond : s.phase 2 = some (.returned false) := by decide
  refine ⟨hfirst, (hyes 1 true hfirst).1 rfl, hsecond, fun happroved ↦ ?_,
    hfaithful.ended 1 (Or.inl ⟨_, hfirst⟩), hfaithful.ended 2 (Or.inl ⟨_, hsecond⟩)⟩
  cases (hyes 2 false hsecond).2 happroved

/-- A question is approved after it was put into the queue and before it is announced, and by then
the listener is gone. -/
def approvedUnheard : List (QueueEvent Nat) :=
  [.enter ⟨1, "send", "Send?", .null⟩, .resolve 1 true, .hangUp, .announce 1, .finish 1]

/-- Where a call is interrupted before it announces its question, an approval that was accepted can
come to nothing: the call returns no, and so it is not true that calls return yes exactly when they
were approved. -/
theorem unheard_approval_is_lost :
    let s := (start true).run approvedUnheard
    s.phase 1 = some (.returned false) ∧ .resolved 1 true true ∈ s.history ∧
      ¬ ∀ id approves, s.phase id = some (.returned approves) →
        (approves = true ↔ .resolved id true true ∈ s.history) := by
  intro s
  have hreturned : s.phase 1 = some (.returned false) := by decide
  have hresolved : .resolved 1 true true ∈ s.history := by decide
  refine ⟨hreturned, hresolved, fun hiff ↦ ?_⟩
  cases (hiff 1 false hreturned).2 hresolved

end Interleaving

end ToolAccess
