import ToolAccess.Proofs.AuditTrail

/-!
# How a call ends

A call consults its surroundings in three places at most: it asks what its name stands for, it has a
human asked if the policy wants a confirmation, and it has the tool run if it is permitted. How the
call ends is a function of the three answers (`Guard.ending`), and of nothing else that the
surroundings hold. So two calls with the same answers end in the same way, wherever they are made,
and an answer that is not needed does not count (`Guard.ending_congr`).

What a call writes to the audit log is told from its end with everything taken away that the tool
gave out (`CallEnd.outline`, `CallTrail.events_eq`), and so is the turn that it leaves. This makes
it possible to compare two sessions call by call (`Session.step_execute_congr`).
-/

namespace ToolAccess

variable {σ τ : Type}

/-! ### Outlines -/

/-- What is left of the end of a call without what the tool gave out. -/
inductive CallOutline where
  | refused (reason : String)
  | notConfirmed (outcome : ConfirmOutcome)
  /-- The executor failed, in whatever way. -/
  | failed
  | executed (isError : Bool)
  deriving DecidableEq, Repr

namespace CallEnd

/-- The outline of an end. A call that was given up while the human was asked counts as
cancelled. -/
def outline : CallEnd → CallOutline
  | .outcome (.denied _ reason) => .refused reason
  | .outcome (.notConfirmed _ confirmation) => .notConfirmed confirmation
  | .outcome (.executed result) => .executed result.isError
  | .failed _ => .failed
  | .dropped => .notConfirmed .cancelled

/-- Whether the tool ran and gave something back is told from the outline. -/
theorem isExecuted_iff {e : CallEnd} : e.IsExecuted ↔ ∃ isError, e.outline = .executed isError := by
  constructor
  · rintro ⟨result, rfl⟩
    exact ⟨result.isError, rfl⟩
  · rintro ⟨isError, h⟩
    cases e with
    | outcome o =>
      cases o with
      | executed result => exact ⟨result, rfl⟩
      | denied | notConfirmed => cases h
    | failed | dropped => cases h

end CallEnd

/-- What is written of a call with an outline, from what was decided about the tool and the taint of
the turn before and after. -/
def CallOutline.trail (decision : Option Decision) (before after : TaintLevel) :
    CallOutline → List AuditEvent
  | .refused reason => [.denied reason]
  | .notConfirmed outcome => [.confirmation outcome]
  | .failed => approvalEvents decision
  | .executed isError => approvalEvents decision ++ .executed isError :: riseEvents before after

/-- **What is written of a call** is told from the outline of its end. -/
theorem CallTrail.events_eq {tool : String} {decision : Option Decision}
    {before after : TaintLevel} {finish : CallEnd} {events : List AuditEvent}
    (h : CallTrail tool decision before after finish events) :
    events = finish.outline.trail decision before after := by
  cases h <;> rfl

/-- Whether the executor failed, and if not whether the result is an error. -/
def outlineOfRun (result : Except ToolError ToolResult) : Option Bool :=
  result.toOption.map (·.isError)

theorem CallEnd.outline_ofRun (result : Except ToolError ToolResult) :
    (CallEnd.ofRun result).outline = (outlineOfRun result).elim .failed .executed := by
  rcases result with - | result <;> rfl

namespace Guard

variable {g : Guard} {turn : Turn} {tool : String} {arguments : Json}

/-! ### The end of a call -/

/-- How a call ends: from what its name stands for, from the end of the request if the policy asks
for a confirmation, and from what the tool gives back if it runs. -/
def ending (g : Guard) (turn : Turn) (tool : String) (identity? : Option ToolIdentity)
    (request : RequestEnd) (result : Except ToolError ToolResult) : CallEnd :=
  match identity? with
  | none => .outcome (.denied tool "unknown tool")
  | some identity =>
    match (g.evaluate turn identity).decision with
    | .allow => .ofRun result
    | .deny => .outcome (.denied tool (g.evaluate turn identity).refusal)
    | .confirm =>
      if request.dropped then .dropped
      else if request.outcome.isApproved then .ofRun result
      else .outcome (.notConfirmed tool request.outcome)

/-- **One call** ends as the three answers of its surroundings say. -/
theorem finish_execute (g : Guard) (host : Surroundings σ) (turn : Turn) (cancelled : Bool)
    (tool : String) (arguments : Json) (t : Trace σ) :
    (g.execute host turn cancelled tool arguments t).finish =
      g.ending turn tool (host.identityOf t.surroundings tool)
        (host.request cancelled (question tool arguments) t.surroundings).1
        (host.run (g.settled host t.surroundings turn cancelled tool arguments)
          ⟨tool, arguments, turn⟩).1 := by
  rcases h : host.identityOf t.surroundings tool with - | identity
  · rw [execute_of_unknown h]
    rfl
  rcases hd : (g.evaluate turn identity).decision with - | - | -
  · have hsettled : g.settled host t.surroundings turn cancelled tool arguments =
        t.surroundings := by
      rw [settled, decision?_eq_some_iff.2 ⟨identity, h, hd⟩, if_neg (by simp)]
    rw [execute_of_allow h hd, hsettled, (perform_spec host turn tool arguments _ _).2.2]
    simp only [ending, hd]
    rfl
  · rw [execute_of_deny h hd]
    simp only [ending, hd]
    rfl
  · obtain ⟨hreq, -⟩ := askHuman_spec host turn cancelled (question tool arguments)
      (t.emit (g.evaluateEvents turn identity))
    have hsettled : g.settled host t.surroundings turn cancelled tool arguments =
        (askHuman host turn cancelled (question tool arguments)
          (t.emit (g.evaluateEvents turn identity))).2.surroundings := by
      rw [settled, if_pos (decision?_eq_some_iff.2 ⟨identity, h, hd⟩)]
      exact (congrArg Prod.snd hreq).symm
    have hfinish : (host.request cancelled (question tool arguments) t.surroundings).1 =
        (askHuman host turn cancelled (question tool arguments)
          (t.emit (g.evaluateEvents turn identity))).1 := (congrArg Prod.fst hreq).symm
    rw [execute_of_confirm h hd, hsettled, hfinish]
    simp only [ending, hd]
    split
    · rfl
    · split
      · exact (perform_spec host turn tool arguments _ _).2.2
      · rfl

/-! ### Calls with the same answers -/

/-- Only the answers that are needed count: that of the human if the policy asks for a confirmation,
and that of the executor if the call is permitted. -/
theorem ending_congr {identity? : Option ToolIdentity} {request request' : RequestEnd}
    {result result' : Except ToolError ToolResult}
    (hrequest : (identity?.map fun i ↦ (g.evaluate turn i).decision) = some .confirm →
      request' = request)
    (hresult : (identity?.map fun i ↦ (g.evaluate turn i).decision) = some .allow ∨
      (identity?.map fun i ↦ (g.evaluate turn i).decision) = some .confirm ∧
        request.outcome = .approved → result' = result) :
    g.ending turn tool identity? request' result' =
      g.ending turn tool identity? request result := by
  rcases identity? with - | identity
  · rfl
  rw [Option.map_some] at hrequest hresult
  rcases hd : (g.evaluate turn identity).decision with - | - | -
  · rw [hresult (Or.inl (congrArg some hd))]
    simp only [ending, hd]
  · simp only [ending, hd]
  · rw [hrequest (congrArg some hd)]
    simp only [ending, hd]
    split
    · rfl
    · split
      · next happroved =>
        rw [hresult (Or.inr ⟨congrArg some hd, ConfirmOutcome.isApproved_iff.1 happroved⟩)]
      · rfl

/-- The outline of a call that needed a confirmation. -/
theorem outline_ending_of_confirm {identity : ToolIdentity} {request : RequestEnd}
    {result : Except ToolError ToolResult} (hd : (g.evaluate turn identity).decision = .confirm)
    (hdropped : request.dropped = true → request.outcome = .cancelled) :
    (g.ending turn tool (some identity) request result).outline =
      if request.outcome = .approved then (CallEnd.ofRun result).outline
      else .notConfirmed request.outcome := by
  simp only [ending, hd]
  split
  · next h =>
    rw [hdropped h, if_neg (by simp)]
    rfl
  · by_cases happroved : request.outcome = .approved
    · rw [if_pos happroved, if_pos (ConfirmOutcome.isApproved_iff.2 happroved)]
    · rw [if_neg happroved, if_neg (mt ConfirmOutcome.isApproved_iff.1 happroved)]
      rfl

/-- For the outline of a call even less counts: the outcome of the request, and whether the executor
failed or the result is an error. -/
theorem outline_ending_congr {identity? : Option ToolIdentity} {request request' : RequestEnd}
    {result result' : Except ToolError ToolResult}
    (hdropped : request.dropped = true → request.outcome = .cancelled)
    (hdropped' : request'.dropped = true → request'.outcome = .cancelled)
    (hrequest : (identity?.map fun i ↦ (g.evaluate turn i).decision) = some .confirm →
      request'.outcome = request.outcome)
    (hresult : (identity?.map fun i ↦ (g.evaluate turn i).decision) = some .allow ∨
      (identity?.map fun i ↦ (g.evaluate turn i).decision) = some .confirm ∧
        request.outcome = .approved → outlineOfRun result' = outlineOfRun result) :
    (g.ending turn tool identity? request' result').outline =
      (g.ending turn tool identity? request result).outline := by
  rcases identity? with - | identity
  · rfl
  rw [Option.map_some] at hrequest hresult
  rcases hd : (g.evaluate turn identity).decision with - | - | -
  · simp only [ending, hd]
    rw [CallEnd.outline_ofRun, CallEnd.outline_ofRun, hresult (Or.inl (congrArg some hd))]
  · simp only [ending, hd]
  · rw [outline_ending_of_confirm hd hdropped', outline_ending_of_confirm hd hdropped,
      hrequest (congrArg some hd)]
    split
    · next happroved =>
      rw [CallEnd.outline_ofRun, CallEnd.outline_ofRun,
        hresult (Or.inr ⟨congrArg some hd, happroved⟩)]
    · rfl

/-! ### What is written and left -/

/-- The entries about a call in a turn, from the decision about its tool. -/
def callEntries (turn : Turn) (tool : String) (decision : Option Decision) (report : CallReport σ) :
    List AuditEntry :=
  entriesFor turn.id tool (report.finish.outline.trail decision turn.taint report.turn.taint)

variable {host : Surroundings σ} {host' : Surroundings τ} {cancelled cancelled' : Bool}
  {arguments' : Json} {t : Trace σ} {t' : Trace τ}

/-- Two calls of one tool in one turn that end with the same outline leave the same turn. -/
theorem turn_execute_congr
    (hidentity : host'.identityOf t'.surroundings tool = host.identityOf t.surroundings tool)
    (houtline : (g.execute host' turn cancelled' tool arguments' t').finish.outline =
      (g.execute host turn cancelled tool arguments t).finish.outline) :
    (g.execute host' turn cancelled' tool arguments' t').turn =
      (g.execute host turn cancelled tool arguments t).turn := by
  have hexecuted : (g.execute host' turn cancelled' tool arguments' t').finish.IsExecuted ↔
      (g.execute host turn cancelled tool arguments t).finish.IsExecuted := by
    rw [CallEnd.isExecuted_iff, CallEnd.isExecuted_iff, houtline]
  rcases g.turn_execute host turn cancelled tool arguments t with
    ⟨hnot, hsame⟩ | ⟨hran, identity, hfound, hobserve⟩
  · rcases g.turn_execute host' turn cancelled' tool arguments' t' with
      ⟨-, hsame'⟩ | ⟨hran', -⟩
    · rw [hsame, hsame']
    · exact absurd (hexecuted.1 hran') hnot
  · rcases g.turn_execute host' turn cancelled' tool arguments' t' with
      ⟨hnot', -⟩ | ⟨-, identity', hfound', hobserve'⟩
    · exact absurd (hexecuted.2 hran) hnot'
    · rw [hidentity, hfound] at hfound'
      rw [hobserve, hobserve', Option.some.inj hfound']

/-- They also have the same entries written. -/
theorem entries_execute_congr
    (hidentity : host'.identityOf t'.surroundings tool = host.identityOf t.surroundings tool)
    (houtline : (g.execute host' turn cancelled' tool arguments' t').finish.outline =
      (g.execute host turn cancelled tool arguments t).finish.outline) :
    callEntries turn tool (g.decision? host' t'.surroundings turn tool)
        (g.execute host' turn cancelled' tool arguments' t') =
      callEntries turn tool (g.decision? host t.surroundings turn tool)
        (g.execute host turn cancelled tool arguments t) := by
  rw [callEntries, callEntries, turn_execute_congr hidentity houtline, houtline, decision?,
    decision?, hidentity]

end Guard

namespace Session

variable {g : Guard} {host : Surroundings σ} {host' : Surroundings τ} {s : Session σ}
  {s' : Session τ} {name tool : String} {arguments arguments' : Json} {turn : Turn}

/-- A call writes its entries, under the identifier of its turn, and leaves the turn of its
report. -/
theorem step_execute_entries (g : Guard) (host : Surroundings σ) (s : Session σ) (tool : String)
    (arguments : Json) (hturn : s.forest.turn? name = some turn) :
    let op := Operation.execute name tool arguments
    let report := s.report g host turn tool arguments
    let block := Guard.callEntries turn tool (g.decision? host s.surroundings turn tool) report
    (s.step g host op).1.forest.turn? name = some report.turn ∧
      s.Writes g host op block ∧ (s.step g host op).1.audit = s.audit.map (·.recordAll block) ∧
      ∀ e ∈ block, e.turn = turn.id := by
  intro op report block
  obtain ⟨events, hadds, htrail⟩ := g.execute_trail host turn (s.forest.isCancelled turn) tool
    arguments (.start s.surroundings s.audit)
  obtain rfl := htrail.events_eq
  have hlater : (s.step g host op).1.forest.turn? name = some report.turn := by
    rw [step_execute hturn, turn?_afterCall, Forest.turn?_put, if_pos rfl]
  refine ⟨hlater, .call hturn (congrArg Prod.snd (step_execute hturn)) hlater htrail, ?_, ?_⟩
  · rw [step_execute hturn]
    exact hadds
  · intro e he
    obtain ⟨event, -, rfl⟩ := List.mem_map.1 he
    rfl

/-- **Calls with one outline.** Two calls of one tool in one turn, each in a session of its own,
that end with the same outline leave the same turn and write the same entries. -/
theorem step_execute_congr (hturn : s.forest.turn? name = some turn)
    (hturn' : s'.forest.turn? name = some turn)
    (hidentity : host'.identityOf s'.surroundings tool = host.identityOf s.surroundings tool)
    (houtline : (s'.report g host' turn tool arguments').finish.outline =
      (s.report g host turn tool arguments).finish.outline) :
    let op := Operation.execute name tool arguments
    let op' := Operation.execute name tool arguments'
    let later := (s.report g host turn tool arguments).turn
    (s.step g host op).1.forest.turn? name = some later ∧
      (s'.step g host' op').1.forest.turn? name = some later ∧
      ∃ block, s'.Writes g host' op' block ∧
        (s.step g host op).1.audit = s.audit.map (·.recordAll block) ∧
        (s'.step g host' op').1.audit = s'.audit.map (·.recordAll block) ∧
        ∀ e ∈ block, e.turn = turn.id := by
  intro op op' later
  obtain ⟨hlater, -, haudit, -⟩ := step_execute_entries g host s tool arguments hturn
  obtain ⟨hlater', hwrites', haudit', hids⟩ :=
    step_execute_entries g host' s' tool arguments' hturn'
  have hsame : (s'.report g host' turn tool arguments').turn = later :=
    Guard.turn_execute_congr hidentity houtline
  have hblock : Guard.callEntries turn tool (g.decision? host' s'.surroundings turn tool)
      (s'.report g host' turn tool arguments') =
    Guard.callEntries turn tool (g.decision? host s.surroundings turn tool)
      (s.report g host turn tool arguments) := Guard.entries_execute_congr hidentity houtline
  rw [← hblock] at haudit
  exact ⟨hlater, hsame ▸ hlater', _, hwrites', haudit, haudit', hids⟩

end Session

end ToolAccess
