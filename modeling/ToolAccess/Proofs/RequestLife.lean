import ToolAccess.Proofs.MediatedCall

/-!
# The life of a request

A request for a confirmation is polled, again and again, and it may be given up at any time. It ends
exactly once. What makes this worth a proof is that the end is written down in two places: where an
outcome is found, and where the request goes away. The first of them marks the request as resolved,
and the second looks at that mark.

This module follows the request through both (`LiveRequest.step`), for every order of polls that
find nothing, polls at which something is ready, and the giving up:

* `LiveRequest.run_of_over` — whatever happens after the end has no effect;
* `LiveRequest.run_eq_ended` — a request that comes to an end is what `RequestEnd.ofPolls` says,
  with one outcome and one entry attempted in the audit log;
* `LiveRequest.run_of_idle` — and until then it has none;
* `Guard.askHuman_eq_run` — the guard's requests are these.

The main result, `LiveRequest.ends_once`, puts them together, with the outcome told from the first
poll at which something is ready.
-/

namespace ToolAccess

variable {σ : Type}

/-! ### What a poll finds -/

namespace Poll

/-- Nothing is ready at the poll. -/
structure IsIdle (p : Poll) : Prop where
  not_cancelled : p.cancelled = false
  no_answer : p.answer = none
  not_expired : p.expired = false

/-- The outcome that a poll gives. The cancelling of the turn comes first, then the answer of the
confirmer, then the end of the time to wait. -/
inductive Gives (p : Poll) : ConfirmOutcome → Prop
  | cancelled (hcancelled : p.cancelled = true) : Gives p .cancelled
  | answered (hcancelled : p.cancelled = false) {approves : Bool}
    (hanswer : p.answer = some approves) : Gives p (.ofAnswer approves)
  | timedOut (hcancelled : p.cancelled = false) (hanswer : p.answer = none)
    (hexpired : p.expired = true) : Gives p .timedOut

theorem outcome?_eq_none_iff {p : Poll} : p.outcome? = none ↔ p.IsIdle := by
  obtain ⟨cancelled, answer, expired⟩ := p
  constructor
  · intro h
    cases cancelled with
    | true => cases h
    | false =>
      cases answer with
      | some approves => cases h
      | none =>
        cases expired with
        | true => cases h
        | false => exact ⟨rfl, rfl, rfl⟩
  · rintro ⟨rfl, rfl, rfl⟩
    rfl

theorem outcome?_eq_some_iff {p : Poll} {o : ConfirmOutcome} : p.outcome? = some o ↔ p.Gives o := by
  obtain ⟨cancelled, answer, expired⟩ := p
  constructor
  · intro h
    cases cancelled with
    | true =>
      obtain rfl := Option.some.inj h
      exact .cancelled rfl
    | false =>
      cases answer with
      | some approves =>
        obtain rfl := Option.some.inj h
        exact .answered rfl rfl
      | none =>
        cases expired with
        | false => cases h
        | true =>
          obtain rfl := Option.some.inj h
          exact .timedOut rfl rfl rfl
  · rintro (rfl | ⟨rfl, rfl⟩ | ⟨rfl, rfl, rfl⟩)
    · rfl
    · rfl
    · rfl

/-- Only the confirmer approves, and only while the turn is not cancelled. -/
theorem Gives.of_approved {p : Poll} (h : p.Gives .approved) :
    p.cancelled = false ∧ p.answer = some true := by
  have houtcome := outcome?_eq_some_iff.2 h
  obtain ⟨cancelled, answer, expired⟩ := p
  cases cancelled with
  | true => cases houtcome
  | false =>
    rcases answer with - | - | -
    · cases expired <;> cases houtcome
    · cases houtcome
    · exact ⟨rfl, rfl⟩

theorem confirmerPolls_of_isIdle {p : Poll} (h : p.IsIdle) : p.confirmerPolls = 1 := by
  rw [confirmerPolls, h.not_cancelled]
  rfl

end Poll

/-! ### A request as it goes on -/

/-- What can happen to a request. -/
inductive RequestEvent where
  /-- It is polled, and finds this. -/
  | poll (p : Poll)
  /-- It is given up. -/
  | drop
  deriving DecidableEq

/-- The polls of a request until it is given up. -/
def RequestEvent.polls : List RequestEvent → List Poll
  | [] => []
  | .poll p :: rest => p :: polls rest
  | .drop :: _ => []

/-- How far a request has come. -/
inductive RequestStage where
  /-- It was never polled, so nothing was begun. -/
  | unpolled
  /-- It waits. -/
  | pending
  /-- It has ended, or it was given up. -/
  | over
  deriving DecidableEq

/-- A request for a confirmation, while it goes on. -/
structure LiveRequest (σ : Type) where
  turn : Uuid
  tool : String
  stage : RequestStage
  /-- Whether an outcome was found. -/
  resolved : Bool
  /-- The outcomes that the request has come to, oldest first. -/
  outcomes : List ConfirmOutcome
  /-- How often the confirmer was polled. -/
  confirmerPolls : Nat
  trace : Trace σ

namespace LiveRequest

/-- A request that was made and not polled yet. -/
def start (turn : Uuid) (tool : String) (t : Trace σ) : LiveRequest σ :=
  ⟨turn, tool, .unpolled, false, [], 0, t⟩

/-- The entry of the audit log for an outcome. -/
def entry (r : LiveRequest σ) (o : ConfirmOutcome) : AuditEntry := ⟨r.turn, r.tool, .confirmation o⟩

/-- Writes an outcome down. -/
def record (r : LiveRequest σ) (o : ConfirmOutcome) (events : List Event) : LiveRequest σ :=
  { r with
    outcomes := r.outcomes ++ [o]
    trace := (r.trace.emit events).record (r.entry o) (.confirmationNotAudited · r.tool) }

/-- The request goes away. If no outcome was found, it counts as cancelled. -/
def release (r : LiveRequest σ) : LiveRequest σ :=
  let r := if r.resolved then r else r.record .cancelled [.confirmationDropped r.tool]
  { r with stage := .over }

/-- An outcome was found: it is written down, and the request goes away. -/
def resolve (r : LiveRequest σ) (o : ConfirmOutcome) : LiveRequest σ :=
  ({ r with resolved := true }.record o (o.events r.tool)).release

/-- The request looks at what is ready. -/
def look (r : LiveRequest σ) (p : Poll) : LiveRequest σ :=
  let r := { r with stage := .pending, confirmerPolls := r.confirmerPolls + p.confirmerPolls }
  match p.outcome? with
  | some o => r.resolve o
  | none => r

/-- Something happens to the request. One that was never polled goes away without a trace, and one
that is over is left alone. -/
def step (r : LiveRequest σ) (e : RequestEvent) : LiveRequest σ :=
  match r.stage, e with
  | .over, _ => r
  | .unpolled, .drop => { r with stage := .over }
  | .pending, .drop => r.release
  | .unpolled, .poll p | .pending, .poll p => r.look p

/-- One thing after another happens to the request. -/
def run (r : LiveRequest σ) (events : List RequestEvent) : LiveRequest σ := events.foldl step r

/-- The request after it has come to an end. -/
def ended (r : LiveRequest σ) (e : RequestEnd) : LiveRequest σ :=
  { r with
    stage := .over
    resolved := !e.dropped
    outcomes := r.outcomes ++ [e.outcome]
    confirmerPolls := r.confirmerPolls + e.confirmerPolls
    trace := (r.trace.emit (e.events r.tool)).record (r.entry e.outcome)
      (.confirmationNotAudited · r.tool) }

variable {r : LiveRequest σ} {p : Poll} {o : ConfirmOutcome}

theorem start_stage (turn : Uuid) (tool : String) (t : Trace σ) :
    (start turn tool t).stage ≠ .over := by
  simp [start]

/-! ### One event -/

/-- The outcome is written down where it is found, and not again where the request goes away. -/
theorem look_of_outcome (h : p.outcome? = some o) :
    r.look p = r.ended ⟨o, false, p.confirmerPolls⟩ := by
  rw [look, h]
  rfl

theorem look_of_idle (h : p.IsIdle) :
    r.look p = { r with stage := .pending, confirmerPolls := r.confirmerPolls + 1 } := by
  rw [look, Poll.outcome?_eq_none_iff.2 h, Poll.confirmerPolls_of_isIdle h]

/-- A request that goes away without an outcome is written down as cancelled. -/
theorem release_of_not_resolved (h : r.resolved = false) :
    r.release = r.ended ⟨.cancelled, true, 0⟩ := by
  obtain ⟨turn, tool, stage, resolved, outcomes, confirmerPolls, trace⟩ := r
  obtain rfl : resolved = false := h
  rfl

/-- A request that is not over looks at what is ready when it is polled, the first time as any
other. -/
theorem step_poll (h : r.stage ≠ .over) : r.step (.poll p) = r.look p := by
  rcases hstage : r.stage with - | - | -
  · simp only [step, hstage]
  · simp only [step, hstage]
  · exact absurd hstage h

theorem step_drop (h : r.stage = .pending) : r.step .drop = r.release := by
  simp only [step, h]

/-! ### All that happens -/

theorem run_cons (r : LiveRequest σ) (e : RequestEvent) (events : List RequestEvent) :
    r.run (e :: events) = (r.step e).run events := rfl

/-- **What is over stays as it is.** -/
theorem run_of_over (h : r.stage = .over) (events : List RequestEvent) : r.run events = r := by
  induction events with
  | nil => rfl
  | cons e events ih =>
    have hstep : r.step e = r := by simp only [step, h]
    rw [run_cons, hstep, ih]

/-- While nothing is ready and the request is not given up, it waits. -/
theorem run_of_idle {events : List RequestEvent} (hstage : r.stage = .pending)
    (hidle : ∀ p ∈ RequestEvent.polls events, p.IsIdle) (hdrop : .drop ∉ events) :
    r.run events =
      { r with confirmerPolls := r.confirmerPolls + (RequestEvent.polls events).length } := by
  induction events generalizing r with
  | nil => rfl
  | cons e events ih =>
    cases e with
    | drop => exact absurd List.mem_cons_self hdrop
    | poll p =>
      obtain ⟨hp, hrest⟩ := List.forall_mem_cons.1 hidle
      have hover : r.stage ≠ .over := by simp [hstage]
      rw [run_cons, step_poll hover, look_of_idle hp,
        ih rfl hrest fun h ↦ hdrop (List.mem_cons_of_mem _ h), ← hstage]
      simp only [RequestEvent.polls, List.length_cons]
      congr 1
      omega

/-- A waiting request that finds something ready, or is given up, ends as its polls say. -/
theorem run_pending_eq_ended {events : List RequestEvent} (hstage : r.stage = .pending)
    (hresolved : r.resolved = false)
    (hends : .drop ∈ events ∨ ∃ p ∈ RequestEvent.polls events, ¬ p.IsIdle) :
    r.run events = r.ended (.ofPolls (RequestEvent.polls events)) := by
  induction events generalizing r with
  | nil =>
    rcases hends with h | ⟨p, hp, -⟩
    · cases h
    · cases hp
  | cons e events ih =>
    cases e with
    | drop =>
      rw [run_cons, step_drop hstage, release_of_not_resolved hresolved]
      exact run_of_over rfl events
    | poll p =>
      have hover : r.stage ≠ .over := by simp [hstage]
      rw [run_cons, step_poll hover, RequestEvent.polls, RequestEnd.ofPolls]
      rcases houtcome : p.outcome? with - | o
      · have hp : p.IsIdle := Poll.outcome?_eq_none_iff.1 houtcome
        have hlater : .drop ∈ events ∨ ∃ p ∈ RequestEvent.polls events, ¬ p.IsIdle := by
          rcases hends with h | ⟨q, hq, hready⟩
          · exact Or.inl (List.mem_of_ne_of_mem (by simp) h)
          · rcases List.mem_cons.1 hq with rfl | hq
            · exact absurd hp hready
            · exact Or.inr ⟨q, hq, hready⟩
        have hwaits : (r.look p).stage = .pending ∧ (r.look p).resolved = false := by
          rw [look_of_idle hp]
          exact ⟨rfl, hresolved⟩
        rw [ih hwaits.1 hwaits.2 hlater, look_of_idle hp]
        simp only [ended, Poll.confirmerPolls_of_isIdle hp, Nat.add_assoc]
        rfl
      · rw [look_of_outcome houtcome]
        exact run_of_over rfl events

/-- **A request that was polled and comes to an end** is what its polls say. -/
theorem run_eq_ended {first : Poll} {events : List RequestEvent} (hstage : r.stage ≠ .over)
    (hresolved : r.resolved = false)
    (hends : .drop ∈ events ∨ ∃ p ∈ first :: RequestEvent.polls events, ¬ p.IsIdle) :
    r.run (.poll first :: events) = r.ended (.ofPolls (first :: RequestEvent.polls events)) := by
  -- It makes no difference whether the request waits already when it is polled.
  let waiting : LiveRequest σ := { r with stage := .pending }
  have hwaiting : waiting.stage ≠ .over := by simp [waiting]
  calc r.run (.poll first :: events)
      = (waiting.look first).run events := by rw [run_cons, step_poll hstage]; rfl
    _ = waiting.run (.poll first :: events) := by rw [run_cons, step_poll hwaiting]
    _ = waiting.ended (.ofPolls (first :: RequestEvent.polls events)) :=
      run_pending_eq_ended rfl hresolved (hends.imp_left (List.mem_cons_of_mem _))
    _ = r.ended (.ofPolls (first :: RequestEvent.polls events)) := rfl

end LiveRequest

/-! ### The end that polls say -/

namespace RequestEnd

/-- Polls that find nothing are followed by the giving up. -/
theorem ofPolls_of_idle {polls : List Poll} (h : ∀ p ∈ polls, p.IsIdle) :
    ofPolls polls = ⟨.cancelled, true, polls.length⟩ := by
  induction polls with
  | nil => rfl
  | cons p polls ih =>
    obtain ⟨hp, hrest⟩ := List.forall_mem_cons.1 h
    rw [ofPolls, Poll.outcome?_eq_none_iff.2 hp, ih hrest, Poll.confirmerPolls_of_isIdle hp,
      List.length_cons, Nat.add_comm]

/-- The first poll at which something is ready decides. -/
theorem ofPolls_append {before after : List Poll} {p : Poll} {o : ConfirmOutcome}
    (hidle : ∀ q ∈ before, q.IsIdle) (hgives : p.Gives o) :
    ofPolls (before ++ p :: after) = ⟨o, false, before.length + p.confirmerPolls⟩ := by
  induction before with
  | nil =>
    rw [List.nil_append, ofPolls, Poll.outcome?_eq_some_iff.2 hgives, List.length_nil,
      Nat.zero_add]
  | cons q before ih =>
    obtain ⟨hq, hrest⟩ := List.forall_mem_cons.1 hidle
    rw [List.cons_append, ofPolls, Poll.outcome?_eq_none_iff.2 hq, ih hrest,
      Poll.confirmerPolls_of_isIdle hq, List.length_cons]
    simp only [RequestEnd.mk.injEq, true_and]
    omega

/-- The end is told from the first poll at which something is ready, or else it is the giving up. -/
theorem ofPolls_cases (polls : List Poll) :
    (∃ before p after o, polls = before ++ p :: after ∧ (∀ q ∈ before, q.IsIdle) ∧ p.Gives o ∧
      ofPolls polls = ⟨o, false, before.length + p.confirmerPolls⟩) ∨
    (∀ p ∈ polls, p.IsIdle) ∧ ofPolls polls = ⟨.cancelled, true, polls.length⟩ := by
  rcases hfirst : polls.findSome? Poll.outcome? with - | o
  · have hidle : ∀ p ∈ polls, p.IsIdle := fun p hp ↦
      Poll.outcome?_eq_none_iff.1 (List.findSome?_eq_none_iff.1 hfirst p hp)
    exact Or.inr ⟨hidle, ofPolls_of_idle hidle⟩
  · obtain ⟨before, p, after, rfl, hp, hbefore⟩ := List.findSome?_eq_some_iff.1 hfirst
    have hidle : ∀ q ∈ before, q.IsIdle := fun q hq ↦ Poll.outcome?_eq_none_iff.1 (hbefore q hq)
    have hgives : p.Gives o := Poll.outcome?_eq_some_iff.1 hp
    exact Or.inl ⟨before, p, after, o, rfl, hidle, hgives, ofPolls_append hidle hgives⟩

/-- A turn that is cancelled already decides at once, and the confirmer is not polled. -/
theorem ofPolls_of_cancelled {first : Poll} (h : first.cancelled = true) (later : List Poll) :
    ofPolls (first :: later) = ⟨.cancelled, false, 0⟩ := by
  have hgives := Poll.outcome?_eq_some_iff.2 (Poll.Gives.cancelled h)
  rw [ofPolls, hgives, Poll.confirmerPolls, if_pos h]

/-- An approval comes from the confirmer, at the first poll at which something is ready. -/
theorem exists_approving_poll {polls : List Poll} (h : (ofPolls polls).outcome = .approved) :
    ∃ before p after, polls = before ++ p :: after ∧ (∀ q ∈ before, q.IsIdle) ∧
      p.cancelled = false ∧ p.answer = some true := by
  rcases ofPolls_cases polls with ⟨before, p, after, o, hsplit, hbefore, hgives, hend⟩ | ⟨-, hend⟩
  · rw [hend] at h
    obtain rfl : ConfirmOutcome.approved = o := h.symm
    exact ⟨before, p, after, hsplit, hbefore, hgives.of_approved⟩
  · rw [hend] at h
    cases h

end RequestEnd

/-! ### The requests of the guard -/

/-- How a question goes: in a turn that is cancelled already, the confirmer is not asked. -/
def Surroundings.waited (host : Surroundings σ) (cancelled : Bool) (question : Question)
    (surroundings : σ) : Waited × σ :=
  if cancelled then (⟨.ofCancelled, [], []⟩, surroundings) else host.ask surroundings question

/-- The trace when a request that goes so is about to end. -/
def Trace.asking (t : Trace σ) (question : Question) (w : Waited × σ) : Trace σ :=
  { t.emit w.1.events with
    surroundings := w.2
    asked := t.asked ++ if w.1.requestEnd.confirmerPolls = 0 then [] else [question] }

/-- In a turn that is cancelled already, nothing is touched before the request ends. -/
theorem Trace.asking_of_cancelled (t : Trace σ) (host : Surroundings σ) (question : Question) :
    t.asking question (host.waited true question t.surroundings) = t := by
  simp [asking, emit, Surroundings.waited, Waited.requestEnd, RequestEnd.ofPolls, Poll.outcome?,
    Poll.ofCancelled, Poll.confirmerPolls]

/-- What happens to a request that goes so: it is polled, and given up after the last poll. -/
def Waited.requestEvents (w : Waited) : List RequestEvent :=
  .poll w.first :: (w.later.map .poll ++ [.drop])

theorem RequestEvent.polls_map_poll_append (polls : List Poll) :
    RequestEvent.polls (polls.map .poll ++ [.drop]) = polls := by
  induction polls with
  | nil => rfl
  | cons p polls ih =>
    rw [List.map_cons, List.cons_append, RequestEvent.polls, ih]

theorem LiveRequest.run_requestEvents (turn : Uuid) (tool : String) (t : Trace σ) (w : Waited) :
    (start turn tool t).run w.requestEvents = (start turn tool t).ended w.requestEnd := by
  rw [Waited.requestEvents, run_eq_ended (start_stage turn tool t) rfl (Or.inl (by simp)),
    RequestEvent.polls_map_poll_append]
  rfl

/-- **A request of the guard** goes as its polls and the giving up have it. -/
theorem Guard.askHuman_eq_run (host : Surroundings σ) (turn : Turn) (cancelled : Bool)
    (question : Question) (t : Trace σ) :
    let w := host.waited cancelled question t.surroundings
    askHuman host turn cancelled question t =
      (w.1.requestEnd, ((LiveRequest.start turn.id question.tool (t.asking question w)).run
        w.1.requestEvents).trace) := by
  intro w
  rw [LiveRequest.run_requestEvents]
  cases cancelled with
  | true =>
    have hnone : t.asking question w = t := t.asking_of_cancelled host question
    rw [hnone]
    rfl
  | false => rfl

namespace LiveRequest

/-! ### One end -/

/-- Until something is ready or the request is given up, it only waits. -/
theorem run_start_of_idle (turn : Uuid) (tool : String) (t : Trace σ) {first : Poll}
    {events : List RequestEvent} (hdrop : .drop ∉ events)
    (hidle : ∀ p ∈ first :: RequestEvent.polls events, p.IsIdle) :
    (start turn tool t).run (.poll first :: events) =
      { start turn tool t with
        stage := .pending, confirmerPolls := (first :: RequestEvent.polls events).length } := by
  obtain ⟨hfirst, hrest⟩ := List.forall_mem_cons.1 hidle
  rw [run_cons, step_poll (start_stage turn tool t), look_of_idle hfirst,
    run_of_idle rfl hrest hdrop, List.length_cons]
  simp only [start, mk.injEq, true_and, and_true]
  omega

/-- A request that comes to an end has one outcome, which it attempts to write down once. -/
theorem ended_start (turn : Uuid) (tool : String) (t : Trace σ) (e : RequestEnd) :
    ((start turn tool t).ended e).outcomes = [e.outcome] ∧
    ((start turn tool t).ended e).confirmerPolls = e.confirmerPolls ∧
    ((start turn tool t).ended e).trace.audit =
      t.audit.map (fun log ↦ (log.record ⟨turn, tool, .confirmation e.outcome⟩).1) := by
  refine ⟨rfl, Nat.zero_add _, ?_⟩
  exact Trace.record_audit (t.emit (e.events tool)) _ _

/-- A request that has an outcome did not only wait. -/
theorem ends_of_outcomes_ne_nil {turn : Uuid} {tool : String} {t : Trace σ} {first : Poll}
    {events : List RequestEvent}
    (h : ((start turn tool t).run (.poll first :: events)).outcomes ≠ []) :
    .drop ∈ events ∨ ∃ p ∈ first :: RequestEvent.polls events, ¬ p.IsIdle := by
  by_cases hdrop : .drop ∈ events
  · exact Or.inl hdrop
  · have hready : ¬ ∀ p ∈ first :: RequestEvent.polls events, p.IsIdle := fun hidle ↦
      h (congrArg outcomes (run_start_of_idle turn tool t hdrop hidle))
    obtain ⟨p, hp⟩ := Classical.not_forall.1 hready
    exact Or.inr ⟨p, Classical.not_imp.1 hp⟩

/-- A request of the guard has the end and the trace that the guard goes on with. -/
theorem askHuman_ends (host : Surroundings σ) (turn : Turn) (cancelled : Bool)
    (question : Question) (t : Trace σ) :
    let w := host.waited cancelled question t.surroundings
    let live := (start turn.id question.tool (t.asking question w)).run w.1.requestEvents
    let (finish, t') := Guard.askHuman host turn cancelled question t
    live.outcomes = [finish.outcome] ∧ live.confirmerPolls = finish.confirmerPolls ∧
      live.trace = t' ∧
      (cancelled = true → t'.asked = t.asked ∧ t'.surroundings = t.surroundings) := by
  intro w live
  have hlive : live = (start turn.id question.tool (t.asking question w)).ended w.1.requestEnd :=
    run_requestEvents _ _ _ _
  obtain ⟨houtcome, hpolls, -⟩ :=
    ended_start turn.id question.tool (t.asking question w) w.1.requestEnd
  rw [Guard.askHuman_eq_run]
  refine ⟨hlive ▸ houtcome, hlive ▸ hpolls, rfl, ?_⟩
  rintro rfl
  have hnone : t.asking question w = t := t.asking_of_cancelled host question
  show live.trace.asked = t.asked ∧ live.trace.surroundings = t.surroundings
  rw [hlive, hnone]
  exact ⟨Trace.record_asked _ _ _, Trace.record_surroundings _ _ _⟩

/-- **A request ends exactly once.** Take a request that is polled, and then polled and given up in
any order.

* When it is given up, or something is ready at a poll, it has come to one outcome, and one entry
  with this outcome was attempted in the audit log, if there is one. The first poll at which
  something is ready decides: the request is cancelled if the turn is, or else ends with the answer
  of the confirmer, or else has timed out. A request that is given up before that is cancelled.
* Otherwise it waits, without an outcome and an entry.
* If the turn is cancelled at the first poll, the confirmer is not polled at all; and it is polled
  once at each later poll up to the one that decides, unless the turn is cancelled there.
* After the end, nothing has an effect: no outcome, no entry, no poll of the confirmer.
* The request is approved only if the confirmer said so, at a poll at which the turn was not
  cancelled, and before which nothing was ready.

The requests of the guard go this way, and where the turn is cancelled already, the confirmer and
the tools do not see the question. -/
theorem ends_once (turn : Uuid) (tool : String) (t : Trace σ) (first : Poll)
    (events : List RequestEvent) :
    let r := (start turn tool t).run (.poll first :: events)
    let polls := first :: RequestEvent.polls events
    (.drop ∈ events ∨ (∃ p ∈ polls, ¬ p.IsIdle) → ∃ o, r.stage = .over ∧ r.outcomes = [o] ∧
      r.trace.audit = t.audit.map (fun log ↦ (log.record ⟨turn, tool, .confirmation o⟩).1) ∧
      ((∃ before p after, polls = before ++ p :: after ∧ (∀ q ∈ before, q.IsIdle) ∧ p.Gives o ∧
          r.confirmerPolls = before.length + if p.cancelled then 0 else 1) ∨
        (∀ p ∈ polls, p.IsIdle) ∧ o = .cancelled ∧ r.confirmerPolls = polls.length)) ∧
    (.drop ∉ events → (∀ p ∈ polls, p.IsIdle) →
      r.stage = .pending ∧ r.outcomes = [] ∧ r.trace = t ∧ r.confirmerPolls = polls.length) ∧
    (first.cancelled = true → r.outcomes = [.cancelled] ∧ r.confirmerPolls = 0) ∧
    (r.outcomes ≠ [] → ∀ more, r.run more = r) ∧
    (.approved ∈ r.outcomes → ∃ before p after, polls = before ++ p :: after ∧
      (∀ q ∈ before, q.IsIdle) ∧ p.cancelled = false ∧ p.answer = some true) ∧
    ∀ (host : Surroundings σ) (turn : Turn) (cancelled : Bool) (question : Question) (t : Trace σ),
      let w := host.waited cancelled question t.surroundings
      let live := (start turn.id question.tool (t.asking question w)).run w.1.requestEvents
      let (finish, t') := Guard.askHuman host turn cancelled question t
      live.outcomes = [finish.outcome] ∧ live.confirmerPolls = finish.confirmerPolls ∧
        live.trace = t' ∧
        (cancelled = true → t'.asked = t.asked ∧ t'.surroundings = t.surroundings) := by
  intro r polls
  have hrun (hends : .drop ∈ events ∨ ∃ p ∈ polls, ¬ p.IsIdle) :
      r = (start turn tool t).ended (.ofPolls polls) :=
    run_eq_ended (start_stage turn tool t) rfl hends
  obtain ⟨houtcome, hpolls, haudit⟩ := ended_start turn tool t (.ofPolls polls)
  refine ⟨fun hends ↦ ?_, fun hdrop hidle ↦ ?_, fun hcancelled ↦ ?_, fun houtcomes more ↦ ?_,
    fun happroved ↦ ?_, askHuman_ends⟩
  · -- It comes to an end: which, is told by the polls.
    refine ⟨(RequestEnd.ofPolls polls).outcome, ?_⟩
    rw [hrun hends]
    refine ⟨rfl, houtcome, haudit, ?_⟩
    rw [hpolls]
    rcases RequestEnd.ofPolls_cases polls with
      ⟨before, p, after, o, hsplit, hbefore, hgives, hend⟩ | ⟨hidle, hend⟩
    · rw [hend]
      exact Or.inl ⟨before, p, after, hsplit, hbefore, hgives, rfl⟩
    · rw [hend]
      exact Or.inr ⟨hidle, rfl, rfl⟩
  · -- It only waits.
    have hwaits := run_start_of_idle turn tool t hdrop hidle
    exact ⟨congrArg stage hwaits, congrArg outcomes hwaits, congrArg trace hwaits,
      congrArg confirmerPolls hwaits⟩
  · -- The turn is cancelled at the first poll.
    have hready : ¬ first.IsIdle := fun hidle ↦
      Bool.false_ne_true (hidle.not_cancelled.symm.trans hcancelled)
    have hend : RequestEnd.ofPolls polls = ⟨.cancelled, false, 0⟩ :=
      RequestEnd.ofPolls_of_cancelled hcancelled _
    rw [hrun (Or.inr ⟨first, List.mem_cons_self, hready⟩), houtcome, hpolls, hend]
    exact ⟨rfl, rfl⟩
  · -- It has an outcome, so it is over.
    have hover : r.stage = .over := by
      rw [hrun (ends_of_outcomes_ne_nil houtcomes)]
      rfl
    exact run_of_over hover more
  · -- It has the outcome of an approval.
    have hends := ends_of_outcomes_ne_nil (List.ne_nil_of_mem happroved)
    rw [hrun hends, houtcome, List.mem_singleton] at happroved
    exact RequestEnd.exists_approving_poll happroved.symm

/-- A request that waits at first. Then its turn is cancelled, and at the same time there is an
approval. -/
def cancelledLate : List RequestEvent :=
  [.poll ⟨false, none, false⟩, .poll ⟨true, some true, false⟩, .poll ⟨false, some true, false⟩,
    .drop]

/-- The late request is cancelled, and the log has it once. One whose turn is cancelled from the
start never reaches the confirmer, one that is approved was approved by the confirmer, and one that
finds nothing waits. -/
theorem cancelledLate_ends_once :
    (let r := (start .nil "send" (.start () (some .working))).run cancelledLate
     r.outcomes = [.cancelled] ∧ r.confirmerPolls = 1 ∧ (∀ more, r.run more = r) ∧
      r.trace.audit.map (·.entries) = some [⟨.nil, "send", .confirmation .cancelled⟩]) ∧
    ((start .nil "send" (.start () none)).run [.poll .ofCancelled]).confirmerPolls = 0 ∧
    (∃ before p after, [Poll.mk false (some true) true] = before ++ p :: after ∧
      (∀ q ∈ before, q.IsIdle) ∧ p.cancelled = false ∧ p.answer = some true) ∧
    ((start .nil "send" (.start () none)).run [.poll ⟨false, none, false⟩]).stage = .pending := by
  refine ⟨?_, ?_, ?_, ?_⟩
  · obtain ⟨hends, -, -, hafter, -, -⟩ := ends_once .nil "send" (.start () (some .working))
      ⟨false, none, false⟩ cancelledLate.tail
    obtain ⟨o, -, houtcome, haudit, -⟩ := hends (Or.inl (by decide))
    obtain rfl : ConfirmOutcome.cancelled = o := (List.cons.inj houtcome).1
    refine ⟨houtcome, rfl, hafter (by rw [houtcome]; exact List.cons_ne_nil _ _), ?_⟩
    exact (congrArg (Option.map (·.entries)) haudit).trans rfl
  · obtain ⟨-, -, hcancelled, -⟩ := ends_once .nil "send" (.start () none) .ofCancelled []
    exact (hcancelled rfl).2
  · obtain ⟨-, -, -, -, happroved, -⟩ :=
      ends_once .nil "send" (.start () none) ⟨false, some true, true⟩ []
    exact happroved (by decide)
  · obtain ⟨-, hwaits, -⟩ := ends_once .nil "send" (.start () none) ⟨false, none, false⟩ []
    exact (hwaits (by simp) fun p hp ↦ by
      obtain rfl := List.mem_singleton.1 hp
      exact ⟨rfl, rfl, rfl⟩).1

end LiveRequest

end ToolAccess
