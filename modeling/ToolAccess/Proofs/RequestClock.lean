import Mathlib.Data.Nat.Find
import ToolAccess.Guard.Script
import ToolAccess.Proofs.RequestLife

/-!
# On a clock, what comes first decides

When the things that a request waits for happen at known times, the request ends by the one that
comes first: the answer, the end of the time to wait, the cancelling of the turn, or the giving up
of the call. Of those that happen at one moment, the first in this order counts. `Timeline.Ends`
says so without mentioning polls, and `Timeline.ends_iff` says that the polls of a timeline lead
there.

## What the proof rests on

* The polls of a timeline are those of an ascending list of times, one block for each
  (`Timeline.polls_eq`, `Timeline.pairwise_moments`), and each time at which something happens
  before the call is given up is among them (`Timeline.mem_moments`).
* Before the time that decides, all is quiet, and a poll at a quiet time finds nothing
  (`Timeline.IsQuiet.isIdle`). So the polls at the time that decides are the first that matter.

Requests of a script go this way, be it that the confirmer itself answers
(`Script.ask_direct_ends_iff`) or that a listener acts on a queue (`Script.ask_queued_ends_iff`).
-/

namespace ToolAccess

namespace Timeline

variable {t : Timeline} {time : Nat} {o : ConfirmOutcome} {dropped : Bool}

/-! ### What comes first -/

/-- How a request on a clock ends, and whether the call was given up. -/
inductive Ends (t : Timeline) : ConfirmOutcome → Bool → Prop
  | answered {a : TimedAnswer} (ha : t.answer = some a) (hdeadline : a.after ≤ t.deadline)
    (hcancel : ∀ c, t.cancelledAt = some c → a.after ≤ c)
    (hdrop : ∀ d, t.droppedAt = some d → a.after ≤ d) : Ends t (.ofAnswer a.approves) false
  | timedOut (ha : ∀ a, t.answer = some a → t.deadline < a.after)
    (hcancel : ∀ c, t.cancelledAt = some c → t.deadline ≤ c)
    (hdrop : ∀ d, t.droppedAt = some d → t.deadline ≤ d) : Ends t .timedOut false
  | cancelled {c : Nat} (hc : t.cancelledAt = some c) (ha : ∀ a, t.answer = some a → c < a.after)
    (hdeadline : c < t.deadline) (hdrop : ∀ d, t.droppedAt = some d → c ≤ d) :
    Ends t .cancelled false
  | dropped {d : Nat} (hd : t.droppedAt = some d) (ha : ∀ a, t.answer = some a → d < a.after)
    (hdeadline : d < t.deadline) (hcancel : ∀ c, t.cancelledAt = some c → d < c) :
    Ends t .cancelled true

/-- Nothing has happened by the time. -/
structure IsQuiet (t : Timeline) (time : Nat) : Prop where
  answer : ∀ a, t.answer = some a → time < a.after
  deadline : time < t.deadline
  cancel : ∀ c, t.cancelledAt = some c → time < c

theorem IsQuiet.mono (h : t.IsQuiet time) {earlier : Nat} (hle : earlier ≤ time) :
    t.IsQuiet earlier where
  answer a ha := Nat.lt_of_le_of_lt hle (h.answer a ha)
  deadline := Nat.lt_of_le_of_lt hle h.deadline
  cancel c hc := Nat.lt_of_le_of_lt hle (h.cancel c hc)

/-- There is a first time at which something has happened. -/
theorem exists_first (t : Timeline) : ∃ time, ¬ t.IsQuiet time ∧ ∀ x < time, t.IsQuiet x := by
  classical
  have hlate : ∃ time, ¬ t.IsQuiet time := ⟨t.deadline, fun h ↦ Nat.lt_irrefl _ h.deadline⟩
  exact ⟨Nat.find hlate, Nat.find_spec hlate, fun x hx ↦ not_not.1 (Nat.find_min hlate hx)⟩

/-- Something comes first. -/
theorem exists_ends (t : Timeline) : ∃ o dropped, t.Ends o dropped := by
  obtain ⟨time, hlate, hbefore⟩ := t.exists_first
  by_cases hgivenUp : ∃ d, t.droppedAt = some d ∧ d < time
  · obtain ⟨d, hd, hlt⟩ := hgivenUp
    have hquiet := hbefore d hlt
    exact ⟨_, _, .dropped hd hquiet.answer hquiet.deadline hquiet.cancel⟩
  · have hdrop : ∀ d, t.droppedAt = some d → time ≤ d := fun d hd ↦
      Nat.not_lt.1 fun hlt ↦ hgivenUp ⟨d, hd, hlt⟩
    -- Nothing happens before the time.
    have hanswer : ∀ a, t.answer = some a → time ≤ a.after := fun a ha ↦
      Nat.not_lt.1 fun hlt ↦ Nat.lt_irrefl _ ((hbefore _ hlt).answer a ha)
    have hdeadline : time ≤ t.deadline :=
      Nat.not_lt.1 fun hlt ↦ Nat.lt_irrefl _ (hbefore _ hlt).deadline
    have hcancel : ∀ c, t.cancelledAt = some c → time ≤ c := fun c hc ↦
      Nat.not_lt.1 fun hlt ↦ Nat.lt_irrefl _ ((hbefore _ hlt).cancel c hc)
    by_cases hanswers : ∃ a, t.answer = some a ∧ a.after = time
    · obtain ⟨a, ha, rfl⟩ := hanswers
      exact ⟨_, _, .answered ha hdeadline hcancel hdrop⟩
    · have hlater : ∀ a, t.answer = some a → time < a.after := fun a ha ↦
        Nat.lt_of_le_of_ne (hanswer a ha) fun heq ↦ hanswers ⟨a, ha, heq.symm⟩
      rcases Nat.eq_or_lt_of_le hdeadline with rfl | hlt
      · exact ⟨_, _, .timedOut hlater hcancel hdrop⟩
      · by_cases hcancels : t.cancelledAt = some time
        · exact ⟨_, _, .cancelled hcancels hlater hlt hdrop⟩
        · refine absurd ⟨hlater, hlt, fun c hc ↦ Nat.lt_of_le_of_ne (hcancel c hc) ?_⟩ hlate
          rintro rfl
          exact hcancels hc

/-! ### The polls of a timeline -/

/-- While the turn is not cancelled, a poll finds an answer that has come, and whether the time to
wait is over. -/
theorem pollAt_eq (hcancel : ∀ c, t.cancelledAt = some c → time ≤ c) :
    t.pollAt time =
      ⟨false, (t.answer.filter (·.after ≤ time)).map (·.approves), t.deadline ≤ time⟩ := by
  have hnot : t.cancelledAt.any (· < time) = false := by
    rcases hc : t.cancelledAt with - | c
    · rfl
    · simpa using hcancel c hc
  rw [pollAt, hnot]

/-- No answer has come by a time that is before it. -/
theorem filter_answer_eq_none (ha : ∀ a, t.answer = some a → time < a.after) :
    t.answer.filter (·.after ≤ time) = none := by
  rw [Option.filter_eq_none_iff]
  intro a hanswer
  simpa using ha a hanswer

/-- At the moment of a cancelling the turn is not cancelled yet. -/
theorem isIdle_pollAt (ha : ∀ a, t.answer = some a → time < a.after) (hdeadline : time < t.deadline)
    (hcancel : ∀ c, t.cancelledAt = some c → time ≤ c) : (t.pollAt time).IsIdle := by
  rw [pollAt_eq hcancel, filter_answer_eq_none ha]
  exact ⟨rfl, rfl, decide_eq_false (Nat.not_le.2 hdeadline)⟩

/-- At a quiet time nothing is found. -/
theorem IsQuiet.isIdle (h : t.IsQuiet time) : ∀ p ∈ t.pollsAt time, p.IsIdle := by
  have hnot : t.cancelledAt ≠ some time := fun hc ↦ Nat.lt_irrefl _ (h.cancel time hc)
  rw [pollsAt, if_neg hnot, List.forall_mem_singleton]
  exact isIdle_pollAt h.answer h.deadline fun c hc ↦ Nat.le_of_lt (h.cancel c hc)

/-- The times at which the request is polled. -/
def moments (t : Timeline) : List Nat := 0 :: t.times

theorem polls_eq (t : Timeline) : t.polls = t.moments.flatMap t.pollsAt := by
  rw [moments, List.flatMap_cons, pollsAt, List.cons_append]
  rfl

/-- The request is polled at each time at which something happens, unless the call is given up
before. -/
theorem mem_moments {x : Nat} : x ∈ t.moments ↔ x = 0 ∨
    (x = t.deadline ∨ (∃ a, t.answer = some a ∧ a.after = x) ∨ t.cancelledAt = some x) ∧
      ∀ d, t.droppedAt = some d → x ≤ d := by
  have hall : x ∈ [some t.deadline, t.answer.map (·.after), t.cancelledAt].filterMap id ↔
      x = t.deadline ∨ (∃ a, t.answer = some a ∧ a.after = x) ∨ t.cancelledAt = some x := by
    simp only [List.mem_filterMap, List.mem_cons, List.not_mem_nil, or_false, id, exists_eq_right,
      Option.some.injEq, @eq_comm _ (some x), Option.map_eq_some_iff, @eq_comm _ t.deadline]
  have hdrop : t.droppedAt.all (x ≤ ·) = true ↔ ∀ d, t.droppedAt = some d → x ≤ d := by
    simp [Option.all_eq_true]
  rw [moments, List.mem_cons, times, List.mem_filter, ← SortedSet.mem_def, SortedSet.mem_ofList,
    hall, Bool.and_eq_true, decide_eq_true_iff, hdrop, ← Nat.ne_zero_iff_zero_lt]
  by_cases hx : x = 0
  · simp [hx]
  · simp [hx]

theorem pairwise_moments (t : Timeline) : t.moments.Pairwise (· < ·) := by
  rw [moments, List.pairwise_cons, times]
  refine ⟨fun x hx ↦ ?_, ?_⟩
  · obtain ⟨hpos, -⟩ := Bool.and_eq_true_iff.1 (List.mem_filter.1 hx).2
    exact of_decide_eq_true hpos
  · exact ((SortedSet.ascending _).imp Nat.compare_eq_lt.1).filter _

/-! ### The end -/

/-- **The polls that matter.** If all is quiet before a moment, the polls that come before it find
nothing. -/
theorem exists_idle_polls_eq (hmem : time ∈ t.moments) (hquiet : ∀ x < time, t.IsQuiet x) :
    ∃ before after, t.polls = before ++ (t.pollsAt time ++ after) ∧ ∀ p ∈ before, p.IsIdle := by
  obtain ⟨earlier, later, hsplit⟩ := List.append_of_mem hmem
  have hearlier := t.pairwise_moments
  rw [hsplit, List.pairwise_append] at hearlier
  refine ⟨earlier.flatMap t.pollsAt, later.flatMap t.pollsAt, ?_, fun p hp ↦ ?_⟩
  · rw [polls_eq, hsplit, List.flatMap_append, List.flatMap_cons]
  · obtain ⟨x, hx, hp⟩ := List.mem_flatMap.1 hp
    exact (hquiet x (hearlier.2.2 x hx time List.mem_cons_self)).isIdle p hp

/-- A request that is polled at the moment that decides ends as its poll there says. -/
theorem ofPolls_of_pollAt (hmem : time ∈ t.moments) (hquiet : ∀ x < time, t.IsQuiet x)
    (hgives : (t.pollAt time).Gives o) :
    (RequestEnd.ofPolls t.polls).outcome = o ∧ (RequestEnd.ofPolls t.polls).dropped = false := by
  obtain ⟨before, after, hpolls, hidle⟩ := exists_idle_polls_eq hmem hquiet
  rw [hpolls, pollsAt, List.cons_append, RequestEnd.ofPolls_append hidle hgives]
  exact ⟨rfl, rfl⟩

/-- What comes first is what the polls lead to. -/
theorem Ends.ofPolls_eq (h : t.Ends o dropped) :
    (RequestEnd.ofPolls t.polls).outcome = o ∧ (RequestEnd.ofPolls t.polls).dropped = dropped := by
  cases h with
  | @answered a ha hdeadline hcancel hdrop =>
    refine ofPolls_of_pollAt (mem_moments.2 (Or.inr ⟨Or.inr (Or.inl ⟨a, ha, rfl⟩), hdrop⟩))
      (fun x hx ↦ ⟨fun a' ha' ↦ ?_, by omega, fun c hc ↦ ?_⟩) ?_
    · obtain rfl := Option.some.inj (ha.symm.trans ha')
      exact hx
    · exact Nat.lt_of_lt_of_le hx (hcancel c hc)
    · rw [pollAt_eq hcancel, ha]
      exact .answered rfl (by simp [Option.filter_some])
  | timedOut ha hcancel hdrop =>
    refine ofPolls_of_pollAt (mem_moments.2 (Or.inr ⟨Or.inl rfl, hdrop⟩))
      (fun x hx ↦ ⟨fun a ha' ↦ Nat.lt_trans hx (ha a ha'), hx, fun c hc ↦ ?_⟩) ?_
    · exact Nat.lt_of_lt_of_le hx (hcancel c hc)
    · rw [pollAt_eq hcancel, filter_answer_eq_none ha]
      exact .timedOut rfl rfl (decide_eq_true (Nat.le_refl _))
  | @cancelled c hc ha hdeadline hdrop =>
    have hquiet : ∀ x < c, t.IsQuiet x := fun x hx ↦
      ⟨fun a ha' ↦ Nat.lt_trans hx (ha a ha'), Nat.lt_trans hx hdeadline, fun c' hc' ↦ by
        obtain rfl := Option.some.inj (hc.symm.trans hc')
        exact hx⟩
    obtain ⟨before, after, hpolls, hidle⟩ :=
      exists_idle_polls_eq (mem_moments.2 (Or.inr ⟨Or.inr (Or.inr hc), hdrop⟩)) hquiet
    -- At the moment of the cancelling there is one more poll that finds nothing.
    have hfirst : (t.pollAt c).IsIdle := isIdle_pollAt ha hdeadline fun c' hc' ↦ by
      obtain rfl := Option.some.inj (hc.symm.trans hc')
      exact Nat.le_refl _
    have hbefore : ∀ p ∈ before ++ [t.pollAt c], p.IsIdle :=
      List.forall_mem_append.2 ⟨hidle, List.forall_mem_singleton.2 hfirst⟩
    have hsplit : t.polls = (before ++ [t.pollAt c]) ++ .ofCancelled :: after := by
      rw [hpolls, pollsAt, if_pos hc]
      simp
    rw [hsplit, RequestEnd.ofPolls_append hbefore (.cancelled rfl)]
    exact ⟨rfl, rfl⟩
  | @dropped d hd ha hdeadline hcancel =>
    have hquiet : t.IsQuiet d := ⟨ha, hdeadline, hcancel⟩
    have hidle : ∀ p ∈ t.polls, p.IsIdle := by
      intro p hp
      rw [polls_eq] at hp
      obtain ⟨x, hx, hp⟩ := List.mem_flatMap.1 hp
      have hle : x ≤ d := by
        rcases mem_moments.1 hx with rfl | ⟨-, hdrop⟩
        · exact Nat.zero_le d
        · exact hdrop d hd
      exact (hquiet.mono hle).isIdle p hp
    rw [RequestEnd.ofPolls_of_idle hidle]
    exact ⟨rfl, rfl⟩

/-- **A request on a clock ends by what comes first.** -/
theorem ends_iff : t.Ends o dropped ↔
    (RequestEnd.ofPolls t.polls).outcome = o ∧
      (RequestEnd.ofPolls t.polls).dropped = dropped := by
  refine ⟨Ends.ofPolls_eq, ?_⟩
  rintro ⟨rfl, rfl⟩
  obtain ⟨o, dropped, hends⟩ := t.exists_ends
  obtain ⟨rfl, rfl⟩ := hends.ofPolls_eq
  exact hends

end Timeline

/-! ### Scripts -/

/-- The answer that a listener's act is to the only question in a queue. -/
def ListenerAct.answer? : ListenerAct → Option Bool
  | .resolve approves => some approves
  | .rejectAll => some false
  | .ignore => none

theorem ListenerAct.answer?_apply (a : ListenerAct) (question : QueuedQuestion Unit) :
    (a.apply ((QuestionQueue.empty true).ask question)).1.answer? () = a.answer? := by
  cases a <;> rfl

namespace Script

variable {s : Script} {question : Question} {o : ConfirmOutcome} {dropped : Bool}

/-- Where the confirmer itself answers, the next answer of the script is the one on the clock. -/
theorem ask_direct_ends_iff {answers : List (Option TimedAnswer)}
    (h : s.replies = .direct answers) :
    (s.timeline answers.head?.join).Ends o dropped ↔
      (s.ask question).1.requestEnd.outcome = o ∧
        (s.ask question).1.requestEnd.dropped = dropped := by
  rw [Timeline.ends_iff, ask, h]
  rfl

/-- Where a listener acts on a queue, there is nothing to be found at the first poll, and then the
answer is there at once. -/
theorem ask_queued_requestEnd {acts : List ListenerAct} (h : s.replies = .queued acts) :
    (s.ask question).1.requestEnd = .ofPolls ((s.timeline none).firstPoll ::
      (s.timeline ((acts.head?.getD .ignore).answer?.map (⟨·, 0⟩))).polls) := by
  rw [← ListenerAct.answer?_apply _ ⟨(), question.tool, question.prompt, question.arguments⟩, ask,
    h]
  rfl

/-- Where a listener acts on a queue, an answer is there as soon as the question is. Only if there
is no time to wait does it come too late. -/
theorem ask_queued_ends_iff {acts : List ListenerAct} (h : s.replies = .queued acts) :
    (if s.timeout = 0 then o = .timedOut ∧ dropped = false
      else (s.timeline ((acts.head?.getD .ignore).answer?.map (⟨·, 0⟩))).Ends o dropped) ↔
      (s.ask question).1.requestEnd.outcome = o ∧
        (s.ask question).1.requestEnd.dropped = dropped := by
  have hfirst : (s.timeline none).firstPoll = ⟨false, none, s.timeout ≤ 0⟩ :=
    Timeline.pollAt_eq fun c _ ↦ Nat.zero_le c
  rw [ask_queued_requestEnd h, hfirst]
  split_ifs with htimeout
  · have hgives : (Poll.mk false none (s.timeout ≤ 0)).Gives .timedOut :=
      .timedOut rfl rfl (decide_eq_true (Nat.le_of_eq htimeout))
    rw [← List.nil_append (_ :: _), RequestEnd.ofPolls_append (by simp) hgives]
    exact and_congr eq_comm eq_comm
  · have hidle : (Poll.mk false none (s.timeout ≤ 0)).IsIdle :=
      ⟨rfl, rfl, decide_eq_false fun hle ↦ htimeout (Nat.le_zero.1 hle)⟩
    rw [Timeline.ends_iff, RequestEnd.ofPolls, Poll.outcome?_eq_none_iff.2 hidle]

end Script

end ToolAccess
