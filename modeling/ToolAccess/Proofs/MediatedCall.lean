import ToolAccess.Guard.Basic

/-!
# What a mediated call does

The call path of the guard has many branches, and they end in two ways only: the tool runs, or it
does not. `Guard.execute_cases` says which of the two it is, and what the report then is, in terms
of a condition that does not follow the branches:

`Guard.Permits` — the name stands for an identity, and the engine either allows it, for its own
tags, the turn's profile and the turn's taint at this moment, or asks for a confirmation, and the
request of **this** call ended with an approval.

Between the decision and the end of a call the surroundings may move, since a human is asked;
`Guard.settled` is where they stand once policy and human have spoken. In a call that is permitted
the tool runs on the settled surroundings, and in any other call they are left as they are: not just
the trace, but the state of the executor itself tells whether the tool ran.

A call may be given up while the human is asked. Such a call has no outcome (`CallEnd.dropped`), and
`RequestEnd.outcome_of_dropped` says that it was not approved.
-/

namespace ToolAccess

variable {σ : Type}

/-! ### What writing a trace leaves alone -/

namespace Trace

@[simp] theorem emit_surroundings (t : Trace σ) (events : List Event) :
    (t.emit events).surroundings = t.surroundings := rfl

@[simp] theorem emit_calls (t : Trace σ) (events : List Event) :
    (t.emit events).calls = t.calls := rfl

@[simp] theorem record_surroundings (t : Trace σ) (entry : AuditEntry) (failed : String → Event) :
    (t.record entry failed).surroundings = t.surroundings := by
  rw [record]
  split <;> rfl

@[simp] theorem record_calls (t : Trace σ) (entry : AuditEntry) (failed : String → Event) :
    (t.record entry failed).calls = t.calls := by
  rw [record]
  split <;> rfl

@[simp] theorem record_asked (t : Trace σ) (entry : AuditEntry) (failed : String → Event) :
    (t.record entry failed).asked = t.asked := by
  rw [record]
  split <;> rfl

/-- An entry is attempted in the log once, if there is a log. -/
theorem record_audit (t : Trace σ) (entry : AuditEntry) (failed : String → Event) :
    (t.record entry failed).audit = t.audit.map (fun log ↦ (log.record entry).1) := by
  rw [record]
  split
  · next h =>
    rw [h]
    rfl
  · next h =>
    rw [h]
    rfl

end Trace

/-! ### Requests -/

theorem ConfirmOutcome.isApproved_iff {o : ConfirmOutcome} : o.isApproved = true ↔ o = .approved :=
  beq_iff_eq

/-- A request that was given up was not approved: it counts as cancelled. -/
theorem RequestEnd.outcome_of_dropped {polls : List Poll} (h : (ofPolls polls).dropped = true) :
    (ofPolls polls).outcome = .cancelled := by
  induction polls with
  | nil => rfl
  | cons p rest ih =>
    rw [ofPolls] at h ⊢
    split at h
    · simp at h
    · exact ih h

/-- How the request for a confirmation ends, and the surroundings it leaves. Where the turn is
cancelled already, nobody is asked. -/
def Surroundings.request (host : Surroundings σ) (cancelled : Bool) (question : Question)
    (surroundings : σ) : RequestEnd × σ :=
  if cancelled then (.ofPolls [.ofCancelled], surroundings)
  else ((host.ask surroundings question).1.requestEnd, (host.ask surroundings question).2)

theorem Surroundings.outcome_request_of_dropped {host : Surroundings σ} {cancelled : Bool}
    {question : Question} {surroundings : σ}
    (h : (host.request cancelled question surroundings).1.dropped = true) :
    (host.request cancelled question surroundings).1.outcome = .cancelled := by
  cases cancelled with
  | true => rfl
  | false => exact RequestEnd.outcome_of_dropped h

/-- The call ended without the tool: the policy refused it, or it was not confirmed. -/
inductive CallEnd.IsRefusal (tool : String) : CallEnd → Prop
  | denied (reason : String) : IsRefusal tool (.outcome (.denied tool reason))
  | notConfirmed {outcome : ConfirmOutcome} (h : outcome ≠ .approved) :
    IsRefusal tool (.outcome (.notConfirmed tool outcome))

/-- How a call ends in which the tool ran: as the executor says. -/
def CallEnd.ofRun : Except ToolError ToolResult → CallEnd
  | .error e => .failed e
  | .ok result => .outcome (.executed result)

namespace Guard

/-- The question that a call puts to the human. -/
def question (tool : String) (arguments : Json) : Question :=
  ⟨confirmationPrompt tool arguments, tool, arguments⟩

/-- What the engine decides about the tool of a name, at the turn's profile and taint. A name
without an identity is not decided on. -/
def decision? (g : Guard) (host : Surroundings σ) (surroundings : σ) (turn : Turn) (tool : String) :
    Option Decision :=
  (host.identityOf surroundings tool).map fun identity ↦
    (g.engine.evaluateWithTags identity (g.engine.tagsFor identity) turn.profile
      turn.taint).decision

/-- The policy lets the call through, by itself or after this call's own confirmation. -/
def Permits (g : Guard) (host : Surroundings σ) (surroundings : σ) (turn : Turn) (cancelled : Bool)
    (tool : String) (arguments : Json) : Prop :=
  g.decision? host surroundings turn tool = some .allow ∨
    g.decision? host surroundings turn tool = some .confirm ∧
      (host.request cancelled (question tool arguments) surroundings).1.outcome = .approved

instance (g : Guard) (host : Surroundings σ) (surroundings : σ) (turn : Turn) (cancelled : Bool)
    (tool : String) (arguments : Json) :
    Decidable (g.Permits host surroundings turn cancelled tool arguments) :=
  inferInstanceAs (Decidable (_ ∨ _ ∧ _))

/-- The surroundings once the policy and the human have spoken. -/
def settled (g : Guard) (host : Surroundings σ) (surroundings : σ) (turn : Turn) (cancelled : Bool)
    (tool : String) (arguments : Json) : σ :=
  if g.decision? host surroundings turn tool = some .confirm then
    (host.request cancelled (question tool arguments) surroundings).2
  else surroundings

variable {g : Guard} {host : Surroundings σ} {turn : Turn} {cancelled : Bool} {tool : String}
  {arguments : Json} {t : Trace σ}

/-! ### The ways a call can end -/

@[simp] theorem refuse_trace_surroundings (turn : Turn) (tool reason : String) (t : Trace σ) :
    (refuse turn tool reason t).trace.surroundings = t.surroundings :=
  t.record_surroundings _ _

@[simp] theorem refuse_trace_calls (turn : Turn) (tool reason : String) (t : Trace σ) :
    (refuse turn tool reason t).trace.calls = t.calls :=
  t.record_calls _ _

theorem recordRise_surroundings (turn : Turn) (tool : String) (tags : TagSet) (t : Trace σ) :
    (recordRise turn tool tags t).surroundings = t.surroundings := by
  rw [recordRise]
  split
  · exact t.record_surroundings _ _
  · rfl

theorem recordRise_calls (turn : Turn) (tool : String) (tags : TagSet) (t : Trace σ) :
    (recordRise turn tool tags t).calls = t.calls := by
  rw [recordRise]
  split
  · exact t.record_calls _ _
  · rfl

/-- The trace once the executor was called. -/
def called (host : Surroundings σ) (call : ToolCall) (t : Trace σ) : Trace σ :=
  { t with surroundings := (host.run t.surroundings call).2, calls := t.calls ++ [call] }

/-- A failure of the executor ends the call at once. -/
theorem perform_of_error {tags : TagSet} {e : ToolError}
    (h : (host.run t.surroundings ⟨tool, arguments, turn⟩).1 = .error e) :
    perform host turn tool arguments tags t =
      ⟨.failed e, turn, called host ⟨tool, arguments, turn⟩ t⟩ := by
  simp only [perform, called, h]

/-- A result is recorded, and the output raises the turn. -/
theorem perform_of_ok {tags : TagSet} {result : ToolResult}
    (h : (host.run t.surroundings ⟨tool, arguments, turn⟩).1 = .ok result) :
    perform host turn tool arguments tags t =
      ⟨.outcome (.executed result), turn.observe tags,
        recordRise turn tool tags ((called host ⟨tool, arguments, turn⟩ t).record
          ⟨turn.id, tool, .executed result.isError⟩ .notAudited)⟩ := by
  simp only [perform, called, h]

/-- Running a tool is one call of the executor. The surroundings move and the call ends as the
executor says. -/
theorem perform_spec (host : Surroundings σ) (turn : Turn) (tool : String) (arguments : Json)
    (tags : TagSet) (t : Trace σ) :
    (perform host turn tool arguments tags t).trace.calls = t.calls ++ [⟨tool, arguments, turn⟩] ∧
      (perform host turn tool arguments tags t).trace.surroundings =
        (host.run t.surroundings ⟨tool, arguments, turn⟩).2 ∧
      (perform host turn tool arguments tags t).finish =
        .ofRun (host.run t.surroundings ⟨tool, arguments, turn⟩).1 := by
  rcases h : (host.run t.surroundings ⟨tool, arguments, turn⟩).1 with e | result
  · rw [perform_of_error h]
    exact ⟨rfl, rfl, rfl⟩
  · rw [perform_of_ok h]
    simp only [recordRise_calls, recordRise_surroundings, Trace.record_calls,
      Trace.record_surroundings]
    exact ⟨rfl, rfl, rfl⟩

/-- The human is asked as the request says, and the executor is not called meanwhile. -/
theorem askHuman_spec (host : Surroundings σ) (turn : Turn) (cancelled : Bool) (question : Question)
    (t : Trace σ) :
    ((askHuman host turn cancelled question t).1,
        (askHuman host turn cancelled question t).2.surroundings) =
      host.request cancelled question t.surroundings ∧
    (askHuman host turn cancelled question t).2.calls = t.calls := by
  rw [askHuman, Surroundings.request]
  cases cancelled with
  | false => simp
  | true => simp

/-! ### The branches of a call -/

theorem decision?_eq_some_iff {surroundings : σ} {d : Decision} :
    g.decision? host surroundings turn tool = some d ↔
      ∃ identity, host.identityOf surroundings tool = some identity ∧
        (g.evaluate turn identity).decision = d :=
  Option.map_eq_some_iff

theorem decision?_of_unknown {surroundings : σ} (h : host.identityOf surroundings tool = none) :
    g.decision? host surroundings turn tool = none := by
  rw [decision?, h]
  rfl

theorem execute_of_unknown (h : host.identityOf t.surroundings tool = none) :
    g.execute host turn cancelled tool arguments t =
      refuse turn tool "unknown tool" (t.emit [.toolUnknown tool]) := by
  simp only [execute, h]

variable {identity : ToolIdentity}

theorem execute_of_allow (h : host.identityOf t.surroundings tool = some identity)
    (hd : (g.evaluate turn identity).decision = .allow) :
    g.execute host turn cancelled tool arguments t =
      perform host turn tool arguments (g.engine.tagsFor identity)
        (t.emit (g.evaluateEvents turn identity)) := by
  simp only [execute, h, hd]

theorem execute_of_deny (h : host.identityOf t.surroundings tool = some identity)
    (hd : (g.evaluate turn identity).decision = .deny) :
    g.execute host turn cancelled tool arguments t =
      refuse turn tool (g.evaluate turn identity).refusal
        ((t.emit (g.evaluateEvents turn identity)).emit
          [.callDenied identity.display turn.taint (g.evaluate turn identity).refusal]) := by
  simp only [execute, h, hd]

theorem execute_of_confirm (h : host.identityOf t.surroundings tool = some identity)
    (hd : (g.evaluate turn identity).decision = .confirm) :
    g.execute host turn cancelled tool arguments t =
      let asked := askHuman host turn cancelled (question tool arguments)
        (t.emit (g.evaluateEvents turn identity))
      if asked.1.dropped then ⟨.dropped, turn, asked.2⟩
      else if asked.1.outcome.isApproved then
        perform host turn tool arguments (g.engine.tagsFor identity) asked.2
      else ⟨.outcome (.notConfirmed tool asked.1.outcome), turn, asked.2⟩ := by
  simp only [execute, h, hd]
  rfl

/-! ### The two ways a call goes -/

/-- A permitted call: it is one run of the tool of some identity, on the settled surroundings. -/
structure Runs (g : Guard) (host : Surroundings σ) (turn : Turn) (cancelled : Bool) (tool : String)
    (arguments : Json) (t : Trace σ) (report : CallReport σ) : Prop where
  permitted : g.Permits host t.surroundings turn cancelled tool arguments
  performed : ∃ identity t', host.identityOf t.surroundings tool = some identity ∧
    t'.calls = t.calls ∧
    t'.surroundings = g.settled host t.surroundings turn cancelled tool arguments ∧
    report = perform host turn tool arguments (g.engine.tagsFor identity) t'

/-- What the executor saw and did in a permitted call. -/
theorem Runs.spec {report : CallReport σ}
    (h : g.Runs host turn cancelled tool arguments t report) :
    report.trace.calls = t.calls ++ [⟨tool, arguments, turn⟩] ∧
      report.trace.surroundings =
        (host.run (g.settled host t.surroundings turn cancelled tool arguments)
          ⟨tool, arguments, turn⟩).2 ∧
      report.finish = .ofRun
        (host.run (g.settled host t.surroundings turn cancelled tool arguments)
          ⟨tool, arguments, turn⟩).1 := by
  obtain ⟨identity, t', -, hcalls, hsurr, hreport⟩ := h.performed
  rw [hreport, ← hsurr, ← hcalls]
  exact perform_spec host turn tool arguments _ t'

/-- Any other call: turn, calls and settled surroundings stay as they are. It ends as a refusal,
unless it was given up while the human was asked. -/
structure Fails (g : Guard) (host : Surroundings σ) (turn : Turn) (cancelled : Bool) (tool : String)
    (arguments : Json) (t : Trace σ) (report : CallReport σ) : Prop where
  not_permitted : ¬ g.Permits host t.surroundings turn cancelled tool arguments
  turn_eq : report.turn = turn
  calls_eq : report.trace.calls = t.calls
  surroundings_eq : report.trace.surroundings =
    g.settled host t.surroundings turn cancelled tool arguments
  ends : report.finish.IsRefusal tool ∨ report.finish = .dropped ∧
    g.decision? host t.surroundings turn tool = some .confirm ∧
    (host.request cancelled (question tool arguments) t.surroundings).1.dropped = true

/-- A refusal after which the policy was not to be asked further. -/
theorem fails_refuse {reason : String} {t' : Trace σ} (hcalls : t'.calls = t.calls)
    (hsurr : t'.surroundings = t.surroundings)
    (hallow : g.decision? host t.surroundings turn tool ≠ some .allow)
    (hconfirm : g.decision? host t.surroundings turn tool ≠ some .confirm) :
    g.Fails host turn cancelled tool arguments t (refuse turn tool reason t') where
  not_permitted := by simp [Permits, hallow, hconfirm]
  turn_eq := rfl
  calls_eq := (refuse_trace_calls _ _ _ _).trans hcalls
  surroundings_eq := by rw [settled, if_neg hconfirm, refuse_trace_surroundings, hsurr]
  ends := Or.inl (.denied _)

/-- A call that needs a confirmation goes as the request of this call ends. -/
theorem execute_cases_of_confirm (h : host.identityOf t.surroundings tool = some identity)
    (hd : (g.evaluate turn identity).decision = .confirm) :
    g.Runs host turn cancelled tool arguments t
        (g.execute host turn cancelled tool arguments t) ∨
      g.Fails host turn cancelled tool arguments t
        (g.execute host turn cancelled tool arguments t) := by
  have hdec : g.decision? host t.surroundings turn tool = some .confirm :=
    decision?_eq_some_iff.2 ⟨identity, h, hd⟩
  obtain ⟨hreq, hcalls⟩ := askHuman_spec host turn cancelled (question tool arguments)
    (t.emit (g.evaluateEvents turn identity))
  have hfinish : (askHuman host turn cancelled (question tool arguments)
      (t.emit (g.evaluateEvents turn identity))).1 =
        (host.request cancelled (question tool arguments) t.surroundings).1 :=
    congrArg Prod.fst hreq
  have hsettled : (askHuman host turn cancelled (question tool arguments)
      (t.emit (g.evaluateEvents turn identity))).2.surroundings =
        g.settled host t.surroundings turn cancelled tool arguments := by
    rw [settled, if_pos hdec]
    exact congrArg Prod.snd hreq
  rw [execute_of_confirm h hd]
  simp only [hfinish]
  -- Giving up comes first: such a request counts as cancelled, so the call is not permitted.
  by_cases hdrop :
      (host.request cancelled (question tool arguments) t.surroundings).1.dropped = true
  · rw [if_pos hdrop]
    refine Or.inr ⟨?_, rfl, hcalls, hsettled, Or.inr ⟨rfl, hdec, hdrop⟩⟩
    simp [Permits, hdec, Surroundings.outcome_request_of_dropped hdrop]
  rw [if_neg hdrop]
  by_cases happ :
      (host.request cancelled (question tool arguments) t.surroundings).1.outcome = .approved
  · rw [if_pos (ConfirmOutcome.isApproved_iff.2 happ)]
    exact Or.inl ⟨Or.inr ⟨hdec, happ⟩, identity, _, h, hcalls, hsettled, rfl⟩
  · rw [if_neg (mt ConfirmOutcome.isApproved_iff.1 happ)]
    exact Or.inr ⟨by simp [Permits, hdec, happ], rfl, hcalls, hsettled,
      Or.inl (.notConfirmed happ)⟩

/-- **A call is permitted and runs its tool, or it is not and ends without.** -/
theorem execute_cases (g : Guard) (host : Surroundings σ) (turn : Turn) (cancelled : Bool)
    (tool : String) (arguments : Json) (t : Trace σ) :
    g.Runs host turn cancelled tool arguments t
        (g.execute host turn cancelled tool arguments t) ∨
      g.Fails host turn cancelled tool arguments t
        (g.execute host turn cancelled tool arguments t) := by
  rcases h : host.identityOf t.surroundings tool with - | identity
  · have hdec : g.decision? host t.surroundings turn tool = none := decision?_of_unknown h
    rw [execute_of_unknown h]
    exact Or.inr (fails_refuse rfl rfl (by simp [hdec]) (by simp [hdec]))
  have hdec : g.decision? host t.surroundings turn tool =
      some (g.evaluate turn identity).decision :=
    decision?_eq_some_iff.2 ⟨identity, h, rfl⟩
  rcases hd : (g.evaluate turn identity).decision with - | - | -
  · rw [hd] at hdec
    rw [execute_of_allow h hd]
    refine Or.inl ⟨Or.inl hdec, identity, t.emit (g.evaluateEvents turn identity), h, rfl, ?_, rfl⟩
    rw [settled, if_neg (by simp [hdec])]
    rfl
  · rw [hd] at hdec
    rw [execute_of_deny h hd]
    exact Or.inr (fails_refuse rfl rfl (by simp [hdec]) (by simp [hdec]))
  · exact execute_cases_of_confirm h hd

end Guard

end ToolAccess
