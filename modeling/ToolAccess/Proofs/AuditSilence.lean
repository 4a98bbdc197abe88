import Mathlib.Tactic.Choose
import ToolAccess.Proofs.AuditTrail

/-!
# The audit log has no influence

Whether there is an audit log, and which of the writes its sink refuses, makes no difference to what
is done: every operation has the same outcome, asks the human the same questions, calls the executor
in the same way and leaves the same turns. The log only decides what becomes of the entries. One
that is taken is held by the log, and for one that is refused there is a warning.

## What the proof rests on

* **Notes.** What a call says of itself, events and entries in one order, is a list of notes
  (`Note`). It is made up without the log. The log comes in only when the notes are heard:
  `Note.heard` has the events that come of them.
* **Courses.** What is done to a trace is the same for every log if it is a `Course`: surroundings,
  questions, calls and notes, to go on with from any trace (`Trace.after`). Courses compose
  (`Trace.after_after`), and each thing that a call does to its trace is one.
* **One call.** So a call has a course and an end that depend on the surroundings it begins with,
  and not on the rest of the trace (`Guard.exists_conduct`).
* **A run.** What is left after each operation is the same up to the log, so the next one begins
  with the same surroundings and turns (`Session.before_withAudit`).

The main result is `Session.audit_has_no_influence`.
-/

namespace ToolAccess

variable {σ : Type}

/-! ### What a sink takes -/

namespace AuditLog

/-- The entries that the sink takes of those that are attempted one after the other: each one whose
write, which the sink knows by its number, does not fail. -/
def taken (log : AuditLog) (entries : List AuditEntry) : List AuditEntry :=
  ((entries.zipIdx log.attempts).filter fun p ↦ (log.failure p.2).isNone).map (·.1)

theorem record_spec (log : AuditLog) (e : AuditEntry) :
    (log.record e).1 = { log with
      attempts := log.attempts + 1
      entries := log.entries ++ if (log.failure log.attempts).isNone then [e] else [] } := by
  rcases h : log.failure log.attempts with - | failure <;> simp [record, h]

theorem taken_cons (log : AuditLog) (e : AuditEntry) (es : List AuditEntry) :
    log.taken (e :: es) =
      (if (log.failure log.attempts).isNone then [e] else []) ++ (log.record e).1.taken es := by
  rw [record_spec, taken, taken, List.zipIdx_cons, List.filter_cons]
  split <;> rfl

/-- The log holds what it held before, and the entries that its sink takes. -/
theorem entries_recordAll (log : AuditLog) (es : List AuditEntry) :
    (log.recordAll es).entries = log.entries ++ log.taken es := by
  induction es generalizing log with
  | nil => exact (List.append_nil _).symm
  | cons e es ih =>
    show ((log.record e).1.recordAll es).entries = _
    rw [ih, taken_cons, record_spec, List.append_assoc]

end AuditLog

/-! ### Notes -/

/-- Something that a call says of itself: an event, or an entry for the audit log. -/
inductive Note where
  | event (e : Event)
  | entry (e : AuditEntry)

/-- The warning about an entry that could not be written. -/
def AuditEntry.warning (e : AuditEntry) (failure : String) : Event :=
  match e.event with
  | .confirmation _ => .confirmationNotAudited failure e.tool
  | _ => .notAudited failure

namespace Note

/-- The entry that a note is. -/
def entry? : Note → Option AuditEntry
  | .event _ => none
  | .entry e => some e

/-- The entries among notes. -/
def entries (notes : List Note) : List AuditEntry := notes.filterMap entry?

/-- The events that come of notes: the events among them, and the warning about each entry in the
place of the entry, if there is a log and it does not take it. -/
def heard : Option AuditLog → List Note → List Event
  | _, [] => []
  | audit, .event e :: notes => e :: heard audit notes
  | none, .entry _ :: notes => heard none notes
  | some log, .entry e :: notes =>
    ((log.record e).2.map e.warning).toList ++ heard (some (log.record e).1) notes

theorem entries_append (notes notes' : List Note) :
    entries (notes ++ notes') = entries notes ++ entries notes' :=
  List.filterMap_append

theorem entries_events (events : List Event) : entries (events.map .event) = [] := by
  induction events with
  | nil => rfl
  | cons e events ih => exact ih

/-- Events are heard as they are. -/
theorem heard_events (audit : Option AuditLog) (events : List Event) :
    heard audit (events.map .event) = events := by
  induction events with
  | nil => rw [List.map_nil, heard]
  | cons e events ih => rw [List.map_cons, heard, ih]

/-- Later notes are heard with the log that the earlier ones have left. -/
theorem heard_append (audit : Option AuditLog) (notes notes' : List Note) :
    heard audit (notes ++ notes') =
      heard audit notes ++ heard (audit.map (·.recordAll (entries notes))) notes' := by
  induction notes generalizing audit with
  | nil =>
    have hsame : audit.map (·.recordAll (entries [])) = audit := AuditLog.map_recordAll_nil audit
    rw [hsame, heard]
    rfl
  | cons note notes ih =>
    cases note with
    | event e =>
      rw [List.cons_append, heard, heard, ih]
      rfl
    | entry e =>
      cases audit with
      | none =>
        rw [List.cons_append, heard, heard, ih]
        rfl
      | some log =>
        rw [List.cons_append, heard, heard, ih, List.append_assoc]
        rfl

end Note

/-! ### Courses -/

/-- What is done to a trace, whatever log it has. -/
structure Course (σ : Type) where
  surroundings : σ
  notes : List Note
  asked : List Question
  calls : List ToolCall

/-- One course after another. -/
def Course.andThen (c c' : Course σ) : Course σ where
  surroundings := c'.surroundings
  notes := c.notes ++ c'.notes
  asked := c.asked ++ c'.asked
  calls := c.calls ++ c'.calls

/-- Notes only. -/
def Course.ofNotes (surroundings : σ) (notes : List Note) : Course σ :=
  ⟨surroundings, notes, [], []⟩

namespace Trace

/-- The trace after a course. -/
def after (t : Trace σ) (c : Course σ) : Trace σ where
  surroundings := c.surroundings
  audit := t.audit.map (·.recordAll (Note.entries c.notes))
  events := t.events ++ Note.heard t.audit c.notes
  asked := t.asked ++ c.asked
  calls := t.calls ++ c.calls

theorem after_after (t : Trace σ) (c c' : Course σ) :
    (t.after c).after c' = t.after (c.andThen c') := by
  simp only [after, Course.andThen, Note.entries_append, AuditLog.map_recordAll_append,
    Note.heard_append, List.append_assoc]

theorem after_nothing (t : Trace σ) : t.after (.ofNotes t.surroundings []) = t := by
  simp only [after, Course.ofNotes, Note.heard, Note.entries, List.filterMap_nil,
    AuditLog.map_recordAll_nil, List.append_nil]

/-- Giving out events is a course. -/
theorem emit_eq_after (t : Trace σ) (events : List Event) :
    t.emit events = t.after (.ofNotes t.surroundings (events.map .event)) := by
  simp only [emit, after, Course.ofNotes, Note.entries_events, Note.heard_events,
    AuditLog.map_recordAll_nil, List.append_nil]

/-- Writing an entry is a course, if the warning is the one about this entry. -/
theorem record_eq_after (t : Trace σ) (e : AuditEntry) :
    t.record e e.warning = t.after (.ofNotes t.surroundings [.entry e]) := by
  obtain ⟨surroundings, audit, events, asked, calls⟩ := t
  cases audit with
  | none => simp [record, after, Course.ofNotes, Note.heard]
  | some log =>
    simp [record, after, Course.ofNotes, Note.heard, Note.entries, Note.entry?,
      AuditLog.recordAll]

/-- What the executor and the human do is a course as well. -/
theorem called_eq_after (host : Surroundings σ) (call : ToolCall) (t : Trace σ) :
    Guard.called host call t =
      t.after ⟨(host.run t.surroundings call).2, [], [], [call]⟩ := by
  simp only [Guard.called, after, List.append_nil, Note.heard, Note.entries, List.filterMap_nil,
    AuditLog.map_recordAll_nil]

end Trace

/-! ### One call -/

/-- A course and how it ends. -/
structure Conduct (σ : Type) extends Course σ where
  finish : CallEnd
  turn : Turn

/-- The report of a call that is conducted so. -/
def Conduct.report (c : Conduct σ) (t : Trace σ) : CallReport σ :=
  ⟨c.finish, c.turn, t.after c.toCourse⟩

/-- What is conducted the same way for all traces is so behind a course. -/
theorem Conduct.exists_of_after {act : Trace σ → CallReport σ} {c : Course σ}
    (h : ∃ conduct : Conduct σ, ∀ t, t.surroundings = c.surroundings → act t = conduct.report t) :
    ∃ conduct : Conduct σ, ∀ t, act (t.after c) = conduct.report t := by
  obtain ⟨conduct, hact⟩ := h
  refine ⟨⟨c.andThen conduct.toCourse, conduct.finish, conduct.turn⟩, fun t ↦ ?_⟩
  rw [hact (t.after c) rfl, report, t.after_after]
  rfl

namespace Guard

variable {g : Guard} {host : Surroundings σ} {turn : Turn} {cancelled : Bool} {tool : String}
  {arguments : Json}

theorem exists_conduct_refuse (turn : Turn) (tool reason : String) (w : σ) :
    ∃ conduct : Conduct σ, ∀ t, t.surroundings = w →
      refuse turn tool reason t = conduct.report t := by
  refine ⟨⟨.ofNotes w [.entry ⟨turn.id, tool, .denied reason⟩], .outcome (.denied tool reason),
    turn⟩, ?_⟩
  rintro t rfl
  exact congrArg (CallReport.mk _ turn) (t.record_eq_after _)

theorem recordRise_eq_after (turn : Turn) (tool : String) (tags : TagSet) (t : Trace σ) :
    recordRise turn tool tags t = t.after (.ofNotes t.surroundings
      ((turn.outputRise? tags).toList.map fun level ↦
        .entry ⟨turn.id, tool, .escalated level⟩)) := by
  rw [recordRise]
  split
  · next level h =>
    rw [h]
    exact t.record_eq_after _
  · next h =>
    rw [h]
    exact t.after_nothing.symm

/-- The call of the executor, what it gives back and what is written of it. -/
theorem exists_conduct_perform (host : Surroundings σ) (turn : Turn) (tool : String)
    (arguments : Json) (tags : TagSet) (w : σ) :
    ∃ conduct : Conduct σ, ∀ t, t.surroundings = w →
      perform host turn tool arguments tags t = conduct.report t := by
  rcases hresult : (host.run w ⟨tool, arguments, turn⟩).1 with e | result
  · refine ⟨⟨⟨(host.run w ⟨tool, arguments, turn⟩).2, [], [], [⟨tool, arguments, turn⟩]⟩,
      .failed e, turn⟩, ?_⟩
    rintro t rfl
    rw [perform_of_error hresult, Trace.called_eq_after]
    rfl
  · -- The call, then the entry about it, then the entry about the rise, each behind the others.
    let called : Course σ := ⟨(host.run w ⟨tool, arguments, turn⟩).2, [], [],
      [⟨tool, arguments, turn⟩]⟩
    let written : Course σ :=
      .ofNotes called.surroundings [.entry ⟨turn.id, tool, .executed result.isError⟩]
    let risen : Course σ := .ofNotes called.surroundings
      ((turn.outputRise? tags).toList.map fun level ↦ .entry ⟨turn.id, tool, .escalated level⟩)
    refine ⟨⟨(called.andThen written).andThen risen, .outcome (.executed result),
      turn.observe tags⟩, ?_⟩
    rintro t rfl
    have hcalled : Guard.called host ⟨tool, arguments, turn⟩ t = t.after called :=
      t.called_eq_after host _
    have hwritten : (t.after called).record ⟨turn.id, tool, .executed result.isError⟩
        .notAudited = (t.after called).after written := (t.after called).record_eq_after _
    have hrisen : recordRise turn tool tags ((t.after called).after written) =
        ((t.after called).after written).after risen := recordRise_eq_after turn tool tags _
    rw [perform_of_ok hresult, hcalled, hwritten, hrisen, Trace.after_after, Trace.after_after]
    rfl

/-- The end of a request: its events, and the entry about its outcome. -/
theorem exists_course_closed (turn : Turn) (tool : String) (finish : RequestEnd) (w : σ) :
    ∃ course : Course σ, ∀ t : Trace σ, t.surroundings = w →
      (t.emit (finish.events tool)).record ⟨turn.id, tool, .confirmation finish.outcome⟩
        (.confirmationNotAudited · tool) = t.after course := by
  let told : Course σ := .ofNotes w ((finish.events tool).map .event)
  let written : Course σ := .ofNotes w [.entry ⟨turn.id, tool, .confirmation finish.outcome⟩]
  refine ⟨told.andThen written, ?_⟩
  rintro t rfl
  have htold : t.emit (finish.events tool) = t.after told := t.emit_eq_after _
  rw [htold, ← t.after_after]
  exact (t.after told).record_eq_after _

/-- A request: the human is asked if the turn is not cancelled, and the end is written. -/
theorem exists_course_askHuman (host : Surroundings σ) (turn : Turn) (cancelled : Bool)
    (question : Question) (w : σ) :
    ∃ finish, ∃ course : Course σ, ∀ t : Trace σ, t.surroundings = w →
      askHuman host turn cancelled question t = (finish, t.after course) := by
  cases cancelled with
  | true =>
    obtain ⟨course, hcourse⟩ :=
      exists_course_closed turn question.tool (.ofPolls [.ofCancelled]) w
    exact ⟨_, course, fun t ht ↦ Prod.ext rfl (hcourse t ht)⟩
  | false =>
    let waited : Waited × σ := host.ask w question
    let put : Course σ := ⟨waited.2, waited.1.events.map .event,
      if waited.1.requestEnd.confirmerPolls = 0 then [] else [question], []⟩
    obtain ⟨course, hcourse⟩ :=
      exists_course_closed turn question.tool waited.1.requestEnd waited.2
    refine ⟨waited.1.requestEnd, put.andThen course, ?_⟩
    rintro t rfl
    have hput : t.after put = { t.emit waited.1.events with
        surroundings := waited.2
        asked := t.asked ++
          if waited.1.requestEnd.confirmerPolls = 0 then [] else [question] } := by
      simp only [Trace.after, Trace.emit, put, Note.entries_events, Note.heard_events,
        AuditLog.map_recordAll_nil, List.append_nil]
    rw [← Trace.after_after, ← hcourse (t.after put) rfl, hput]
    rfl

/-- A call that needs a confirmation: the request, and the tool if it is approved. -/
theorem exists_conduct_confirm (host : Surroundings σ) (turn : Turn) (cancelled : Bool)
    (tool : String) (arguments : Json) (tags : TagSet) (w : σ) :
    ∃ conduct : Conduct σ, ∀ t, t.surroundings = w →
      (let asked := askHuman host turn cancelled (question tool arguments) t
        if asked.1.dropped then ⟨.dropped, turn, asked.2⟩
        else if asked.1.outcome.isApproved then perform host turn tool arguments tags asked.2
        else ⟨.outcome (.notConfirmed tool asked.1.outcome), turn, asked.2⟩) =
          conduct.report t := by
  obtain ⟨finish, course, hasked⟩ :=
    exists_course_askHuman host turn cancelled (question tool arguments) w
  obtain ⟨performed, hperformed⟩ := Conduct.exists_of_after
    (exists_conduct_perform host turn tool arguments tags course.surroundings)
  -- How the request ends does not depend on the trace, so neither does the branch.
  by_cases hdropped : finish.dropped = true
  · refine ⟨⟨course, .dropped, turn⟩, fun t ht ↦ ?_⟩
    simp only [hasked t ht, hdropped, if_true]
    rfl
  by_cases happroved : finish.outcome.isApproved = true
  · refine ⟨performed, fun t ht ↦ ?_⟩
    simp only [hasked t ht, hdropped, happroved, if_true]
    exact hperformed t
  · refine ⟨⟨course, .outcome (.notConfirmed tool finish.outcome), turn⟩, fun t ht ↦ ?_⟩
    simp only [hasked t ht, hdropped, happroved]
    rfl

/-- **One call.** How a call goes and ends depends on the surroundings that it begins with, and not
on the log or on anything else that the trace holds. -/
theorem exists_conduct (g : Guard) (host : Surroundings σ) (turn : Turn) (cancelled : Bool)
    (tool : String) (arguments : Json) (w : σ) :
    ∃ conduct : Conduct σ, ∀ t, t.surroundings = w →
      g.execute host turn cancelled tool arguments t = conduct.report t := by
  -- Every branch begins with events about the decision.
  have hbegin : ∀ (events : List Event) {act : Trace σ → CallReport σ},
      (∃ conduct : Conduct σ, ∀ t, t.surroundings = w → act t = conduct.report t) →
        ∃ conduct : Conduct σ, ∀ t, t.surroundings = w →
          act (t.emit events) = conduct.report t := by
    intro events act hact
    obtain ⟨conduct, hconduct⟩ :=
      Conduct.exists_of_after (c := .ofNotes w (events.map .event)) hact
    refine ⟨conduct, ?_⟩
    rintro t rfl
    rw [t.emit_eq_after]
    exact hconduct t
  rcases h : host.identityOf w tool with - | identity
  · obtain ⟨conduct, hconduct⟩ :=
      hbegin [.toolUnknown tool] (exists_conduct_refuse turn tool "unknown tool" w)
    refine ⟨conduct, ?_⟩
    rintro t rfl
    rw [execute_of_unknown h]
    exact hconduct t rfl
  rcases hd : (g.evaluate turn identity).decision with - | - | -
  · obtain ⟨conduct, hconduct⟩ := hbegin (g.evaluateEvents turn identity)
      (exists_conduct_perform host turn tool arguments (g.engine.tagsFor identity) w)
    refine ⟨conduct, ?_⟩
    rintro t rfl
    rw [execute_of_allow h hd]
    exact hconduct t rfl
  · obtain ⟨conduct, hconduct⟩ := hbegin (g.evaluateEvents turn identity)
      (hbegin [.callDenied identity.display turn.taint (g.evaluate turn identity).refusal]
        (exists_conduct_refuse turn tool (g.evaluate turn identity).refusal w))
    refine ⟨conduct, ?_⟩
    rintro t rfl
    rw [execute_of_deny h hd]
    exact hconduct t rfl
  · obtain ⟨conduct, hconduct⟩ := hbegin (g.evaluateEvents turn identity)
      (exists_conduct_confirm host turn cancelled tool arguments (g.engine.tagsFor identity) w)
    refine ⟨conduct, ?_⟩
    rintro t rfl
    rw [execute_of_confirm h hd]
    exact hconduct t rfl

end Guard

/-! ### One operation -/

namespace Effect

/-- The effect without what the log has to do with: the events and the log itself. -/
def silenced : Effect σ → Effect σ
  | .listed definitions _ => .listed definitions []
  | .executed report =>
    .executed { report with trace := { report.trace with audit := none, events := [] } }
  | e => e

/-- The events of an operation. -/
def events : Effect σ → List Event
  | .listed _ events => events
  | .executed report => report.trace.events
  | _ => []

end Effect

namespace Session

variable {g : Guard} {host : Surroundings σ} {s : Session σ}

/-- The session with another log, or with none. -/
def withAudit (s : Session σ) (audit : Option AuditLog) : Session σ := { s with audit := audit }

/-- What is done in a session does not depend on its log: the same session is left, the same comes
of it and the same notes are made, for the log to take the entries among them. -/
def Unswayed (act : Option AuditLog → Session σ × Effect σ) (notes : List Note) : Prop :=
  ∃ (later : Session σ) (effect : Effect σ), ∀ audit,
    (act audit).1 = later.withAudit (audit.map (·.recordAll (Note.entries notes))) ∧
    (act audit).2.silenced = effect ∧ (act audit).2.events = Note.heard audit notes

/-- What leaves the log alone is not swayed by it. -/
theorem unswayed_of_eq {act : Option AuditLog → Session σ × Effect σ} (later : Session σ)
    (effect : Effect σ) (h : ∀ audit, act audit = (later.withAudit audit, effect)) :
    Unswayed act (effect.events.map .event) := by
  refine ⟨later, effect.silenced, fun audit ↦ ?_⟩
  rw [h audit, Note.entries_events, Note.heard_events, AuditLog.map_recordAll_nil]
  exact ⟨rfl, rfl, rfl⟩

/-- A call in a turn: the log decides only what becomes of the entries. -/
theorem exists_unswayed_execute {name : String} {turn : Turn}
    (hturn : s.forest.turn? name = some turn) (tool : String) (arguments : Json) :
    ∃ notes, Unswayed (fun audit ↦ (s.withAudit audit).step g host (.execute name tool arguments))
      notes := by
  obtain ⟨conduct, hconduct⟩ := g.exists_conduct host turn (s.forest.isCancelled turn) tool
    arguments s.surroundings
  have hreport : ∀ audit, (s.withAudit audit).report g host turn tool arguments =
      conduct.report (.start s.surroundings audit) := fun audit ↦ hconduct _ rfl
  have hstep : ∀ audit, (s.withAudit audit).step g host (.execute name tool arguments) =
      ((s.withAudit audit).afterCall name (conduct.report (.start s.surroundings audit)),
        .executed (conduct.report (.start s.surroundings audit))) := fun audit ↦ by
    rw [← hreport]
    exact step_execute hturn
  refine ⟨conduct.notes, s.afterCall name (conduct.report (.start s.surroundings none)),
    (Effect.executed (conduct.report (.start s.surroundings none))).silenced, fun audit ↦ ?_⟩
  simp only [hstep audit]
  exact ⟨rfl, rfl, List.nil_append _⟩

/-- **The step lemma.** No operation is swayed by the log. -/
theorem exists_unswayed_step (g : Guard) (host : Surroundings σ) (s : Session σ) (op : Operation) :
    ∃ notes, Unswayed (fun audit ↦ (s.withAudit audit).step g host op) notes := by
  have hon : ∀ {n : String} {act : Option AuditLog → Turn → Session σ × Effect σ},
      (∀ turn, ∃ (later : Session σ) (effect : Effect σ), ∀ audit,
        act audit turn = (later.withAudit audit, effect)) →
        ∃ notes, Unswayed (fun audit ↦ (s.withAudit audit).onTurn n (act audit)) notes := by
    intro n act hact
    rcases hturn : s.forest.turn? n with - | turn
    · exact ⟨_, unswayed_of_eq s .noTurn fun audit ↦ onTurn_of_none hturn⟩
    · obtain ⟨later, effect, hsame⟩ := hact turn
      exact ⟨_, unswayed_of_eq later effect fun audit ↦
        (onTurn_of_some (s := s.withAudit audit) hturn).trans (hsame audit)⟩
  cases op with
  | create n profile taint =>
    exact ⟨_, unswayed_of_eq { s with forest := s.forest.create n profile taint } .done
      fun _ ↦ rfl⟩
  | delegate n parent inheritance =>
    exact hon fun turn ↦ ⟨{ s with forest := s.forest.delegate n turn inheritance }, .done,
      fun _ ↦ rfl⟩
  | cancel n => exact hon fun turn ↦ ⟨{ s with forest := s.forest.cancel turn }, .done, fun _ ↦ rfl⟩
  | escalate n level =>
    exact hon fun turn ↦ ⟨{ s with forest := s.forest.put n (turn.escalate level) }, .done,
      fun _ ↦ rfl⟩
  | observe n tags =>
    exact hon fun turn ↦ ⟨{ s with forest := s.forest.put n (turn.observe tags) }, .done,
      fun _ ↦ rfl⟩
  | drop n => exact hon fun turn ↦ ⟨{ s with forest := s.forest.drop n }, .done, fun _ ↦ rfl⟩
  | list n =>
    exact hon fun turn ↦ ⟨s, .listed (g.list turn (host.definitions s.surroundings))
      (g.listEvents turn (host.definitions s.surroundings)), fun _ ↦ rfl⟩
  | execute n tool arguments =>
    rcases hturn : s.forest.turn? n with - | turn
    · exact ⟨_, unswayed_of_eq s .noTurn fun audit ↦ onTurn_of_none hturn⟩
    · exact exists_unswayed_execute hturn tool arguments

/-! ### A run -/

/-- The notes of a run: what is done at each place of the run without a log is not swayed by a log
that is there instead, and makes these notes. -/
def Notes (g : Guard) (host : Surroundings σ) (s : Session σ) (ops : List Operation)
    (block : Nat → List Note) : Prop :=
  ∀ i op, ops[i]? = some op → Unswayed
    (fun audit ↦ (((s.withAudit none).before g host ops i).withAudit audit).step g host op)
    (block i)

theorem exists_notes (g : Guard) (host : Surroundings σ) (s : Session σ) (ops : List Operation) :
    ∃ block, s.Notes g host ops block := by
  choose notes hnotes using fun i ↦
    exists_unswayed_step g host ((s.withAudit none).before g host ops i)
  refine ⟨fun i ↦ (ops[i]?.map (notes i)).getD [], fun i op hop ↦ ?_⟩
  simp only [hop]
  exact hnotes i op

/-- The entries that are attempted before a place of a run with these notes. -/
def attempted (block : Nat → List Note) (i : Nat) : List AuditEntry :=
  (List.range i).flatMap fun j ↦ Note.entries (block j)

theorem attempted_succ (block : Nat → List Note) (i : Nat) :
    attempted block (i + 1) = attempted block i ++ Note.entries (block i) := by
  rw [attempted, List.range_succ, List.flatMap_append, List.flatMap_singleton]
  rfl

variable {ops : List Operation} {block : Nat → List Note} {i : Nat}

/-- **The run lemma.** At every place of a run the session is the one of the run without a log, with
what the log has made of the attempts. -/
theorem before_withAudit (hnotes : s.Notes g host ops block) (audit : Option AuditLog)
    (hi : i ≤ ops.length) :
    (s.withAudit audit).before g host ops i = ((s.withAudit none).before g host ops i).withAudit
      (audit.map (·.recordAll (attempted block i))) := by
  induction i generalizing audit with
  | zero =>
    have hstart : attempted block 0 = [] := rfl
    rw [hstart, AuditLog.map_recordAll_nil]
    rfl
  | succ i ih =>
    obtain ⟨op, hop⟩ : ∃ op, ops[i]? = some op := ⟨_, List.getElem?_eq_getElem hi⟩
    obtain ⟨later, effect, hsame⟩ := hnotes i op hop
    -- The run without a log is one of these runs.
    have hlater : ∀ audit, (s.withAudit audit).before g host ops (i + 1) =
        later.withAudit (audit.map (·.recordAll (attempted block (i + 1)))) := by
      intro audit
      rw [before_succ hop, ih audit (Nat.le_of_succ_le hi), attempted_succ,
        ← AuditLog.map_recordAll_append]
      exact (hsame _).1
    rw [hlater audit, hlater none]
    rfl

/-- The effect of an operation is the one of the run without a log, with the events that come of the
notes on the log as it is then. -/
theorem effect_withAudit (hnotes : s.Notes g host ops block) (audit : Option AuditLog)
    {op : Operation} (hop : ops[i]? = some op) :
    (((s.withAudit audit).before g host ops i).step g host op).2.silenced =
        (((s.withAudit none).before g host ops i).step g host op).2.silenced ∧
      (((s.withAudit audit).before g host ops i).step g host op).2.events =
        Note.heard ((s.withAudit audit).before g host ops i).audit (block i) := by
  obtain ⟨later, effect, hsame⟩ := hnotes i op hop
  have hi : i ≤ ops.length := by
    obtain ⟨hi, -⟩ := List.getElem?_eq_some_iff.1 hop
    exact Nat.le_of_lt hi
  have hwith : ∀ audit, (((s.withAudit audit).before g host ops i).step g host op).2.silenced =
      effect ∧ (((s.withAudit audit).before g host ops i).step g host op).2.events =
        Note.heard (audit.map (·.recordAll (attempted block i))) (block i) := by
    intro audit
    rw [before_withAudit hnotes audit hi]
    exact (hsame _).2
  refine ⟨(hwith audit).1.trans (hwith none).1.symm, (hwith audit).2.trans ?_⟩
  rw [before_withAudit hnotes audit hi]
  rfl

/-- One thing comes of each operation. -/
theorem length_run_effects (g : Guard) (host : Surroundings σ) (s : Session σ)
    (ops : List Operation) : (s.run g host ops).2.length = ops.length := by
  induction ops generalizing s with
  | nil => rfl
  | cons op ops ih => rw [run_cons, List.length_cons, List.length_cons, ih]

/-- **The audit log has no influence.** Take any run of a session. There is one list of notes for
each operation, whatever log the session has, and for every log, also for none:

* Of each operation comes the same as without a log: the same outcome or failure, the same questions
  to the human, the same calls of the executor and the same turn.
* Before and after each operation all turns and the surroundings are the same as without a log.
* The events of an operation are those among its notes, and nothing besides but the warning about
  each entry that the log does not take.
* At every place of the run, a log that takes everything holds the entries among the notes, in their
  order. Any other log holds, behind the entries that it began with, those of these entries whose
  writes do not fail, in the same order. -/
theorem audit_has_no_influence (g : Guard) (host : Surroundings σ) (s : Session σ)
    (ops : List Operation) :
    ∃ block : Nat → List Note,
      (∀ i ≤ ops.length, ∃ log,
        ((s.withAudit (some .working)).before g host ops i).audit = some log ∧
        log.entries = attempted block i) ∧
      ∀ audit : Option AuditLog,
        let now := (s.withAudit audit).before g host ops
        let plain := (s.withAudit none).before g host ops
        let effects := ((s.withAudit audit).run g host ops).2
        effects.map (·.silenced) = ((s.withAudit none).run g host ops).2.map (·.silenced) ∧
        (∀ i ≤ ops.length, (now i).forest = (plain i).forest ∧
          (now i).surroundings = (plain i).surroundings) ∧
        (∀ i effect, effects[i]? = some effect →
          effect.events = Note.heard (now i).audit (block i)) ∧
        ∀ log, audit = some log → ∀ i ≤ ops.length, ∃ log', (now i).audit = some log' ∧
          log'.entries = log.entries ++ log.taken (attempted block i) := by
  obtain ⟨block, hnotes⟩ := s.exists_notes g host ops
  have haudit : ∀ audit, ∀ i ≤ ops.length, ((s.withAudit audit).before g host ops i).audit =
      audit.map (·.recordAll (attempted block i)) := fun audit i hi ↦ by
    rw [before_withAudit hnotes audit hi]
    rfl
  have heffect : ∀ audit i op, ops[i]? = some op → ((s.withAudit audit).run g host ops).2[i]? =
      some (((s.withAudit audit).before g host ops i).step g host op).2 :=
    fun audit i op hop ↦ run_effects_getElem? g host (s.withAudit audit) hop
  refine ⟨block, fun i hi ↦ ⟨_, haudit _ i hi, ?_⟩, fun audit ↦ ⟨?_, ?_, ?_, ?_⟩⟩
  · have hworks : AuditLog.working.Works := fun _ ↦ rfl
    exact hworks.entries_recordAll _
  · refine List.ext_getElem? fun i ↦ ?_
    rw [List.getElem?_map, List.getElem?_map]
    rcases hop : ops[i]? with - | op
    · have hnone : ∀ audit, ((s.withAudit audit).run g host ops).2[i]? = none := fun audit ↦ by
        rw [List.getElem?_eq_none_iff, length_run_effects]
        exact List.getElem?_eq_none_iff.1 hop
      rw [hnone, hnone]
    · rw [heffect audit i op hop, heffect none i op hop, Option.map_some, Option.map_some,
        (effect_withAudit hnotes audit hop).1]
  · intro i hi
    rw [before_withAudit hnotes audit hi]
    exact ⟨rfl, rfl⟩
  · intro i effect hi
    obtain ⟨op, hop⟩ : ∃ op, ops[i]? = some op := by
      obtain ⟨hlt, -⟩ := List.getElem?_eq_some_iff.1 hi
      rw [length_run_effects] at hlt
      exact ⟨_, List.getElem?_eq_getElem hlt⟩
    obtain rfl := Option.some.inj ((heffect audit i op hop).symm.trans hi)
    exact (effect_withAudit hnotes audit hop).2
  · rintro log rfl i hi
    exact ⟨_, haudit _ i hi, log.entries_recordAll _⟩

/-- A log whose sink refuses the second and the fourth write. -/
def flakyLog : AuditLog := ⟨fun n ↦ if n = 1 ∨ n = 3 then some "disk full" else none, 0, []⟩

example : ((auditedSession.withAudit (some flakyLog)).run webGuard webHost
    fetchTwiceAndGuess).1.audit.map (·.entries) =
      some (entriesFor (.ofNat 1) "fetch" [.confirmation .approved, .escalated .untrusted] ++
        entriesFor (.ofNat 1) "guess" [.denied "unknown tool"]) := by decide

example : ((auditedSession.withAudit (some flakyLog)).run webGuard webHost
    fetchTwiceAndGuess).2.map (·.events.count (.notAudited "disk full")) = [1, 1, 0] := by decide

end Session

end ToolAccess
