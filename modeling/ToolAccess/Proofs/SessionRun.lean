import ToolAccess.Guard.Session
import ToolAccess.Proofs.MediatedCall

/-!
# Runs of a session

A session does operations one after the other, and each of them sees what the earlier ones left.
This module has the two facts about runs that everything else is read off.

## A name keeps its turn

As long as an operation does not give a name to another turn or to none (`Operation.rebinds?`), the
turn of the name stays what it was, except that its taint may rise: `Turn.Follows`. There is one
lemma for a step, `step_keeps`, and it holds for every operation, the mediated call included, since
a call puts back the turn that its report has, and that turn follows the one it began with
(`Guard.follows_execute`).

## A call is decided when it is made

The effect of the operation at a place of a run is the effect of that operation alone, in the
session that the operations before it have left (`run_effects_getElem?`). With
`Guard.execute_cases`, which says what one call does, this is complete mediation:
`calls_are_mediated`.
-/

namespace ToolAccess

variable {σ : Type}

/-! ### Turns that follow one another -/

/-- The second turn is the first one later on: the same turn, with a taint that is no lower. -/
structure Turn.Follows (t t' : Turn) : Prop where
  id_eq : t'.id = t.id
  profile_eq : t'.profile = t.profile
  tree_eq : t'.tree = t.tree
  taint_le : t.taint ≤ t'.taint

namespace Turn.Follows

theorem refl (t : Turn) : t.Follows t :=
  ⟨rfl, rfl, rfl, Nat.le_refl _⟩

theorem escalate (t : Turn) (level : TaintLevel) : t.Follows (t.escalate level) :=
  ⟨rfl, rfl, rfl, t.taint.le_raise level⟩

/-- What a tool gives out can only raise the taint. -/
theorem observe (t : Turn) (tags : TagSet) : t.Follows (t.observe tags) := by
  refine ⟨rfl, rfl, rfl, ?_⟩
  show t.taint ≤ t.taint.afterOutput tags
  rw [TaintLevel.afterOutput]
  rcases tags.outputTaint? with - | level
  · exact Nat.le_refl _
  · exact t.taint.le_raise level

end Turn.Follows

/-- A mediated call gives back the turn it was made in, at a taint that is no lower. -/
theorem Guard.follows_execute (g : Guard) (host : Surroundings σ) (turn : Turn) (cancelled : Bool)
    (tool : String) (arguments : Json) (t : Trace σ) :
    turn.Follows (g.execute host turn cancelled tool arguments t).turn := by
  rcases g.execute_cases host turn cancelled tool arguments t with hrun | hfail
  · obtain ⟨identity, t', -, -, -, hreport⟩ := hrun.performed
    rw [hreport]
    rcases h : (host.run t'.surroundings ⟨tool, arguments, turn⟩).1 with e | result
    · rw [perform_of_error h]
      exact .refl turn
    · rw [perform_of_ok h]
      exact .observe turn _
  · rw [hfail.turn_eq]
    exact .refl turn

/-! ### Turns by name -/

namespace Forest

@[simp] theorem turn?_put (f : Forest) (name n : String) (t : Turn) :
    (f.put name t).turn? n = if n = name then some t else f.turn? n :=
  f.turns.find?_insert name n t

@[simp] theorem turn?_create (f : Forest) (name n : String) (profile : Option String)
    (taint : TaintLevel) : (f.create name profile taint).turn? n =
      if n = name then some ⟨f.nextId, profile, taint, f.made⟩ else f.turn? n :=
  f.turn?_put name n _

@[simp] theorem turn?_delegate (f : Forest) (name n : String) (parent : Turn) (i : Inheritance) :
    (f.delegate name parent i).turn? n =
      if n = name then some (parent.delegate f.nextId i) else f.turn? n :=
  f.turn?_put name n _

@[simp] theorem turn?_cancel (f : Forest) (t : Turn) (n : String) :
    (f.cancel t).turn? n = f.turn? n := rfl

@[simp] theorem turn?_drop (f : Forest) (name n : String) :
    (f.drop name).turn? n = if n = name then none else f.turn? n :=
  f.turns.find?_erase name n

/-- A name that has a turn in the first forest has a turn that follows it in the second. -/
def Keeps (f f' : Forest) (name : String) : Prop :=
  ∀ turn, f.turn? name = some turn → ∃ turn', f'.turn? name = some turn' ∧ turn.Follows turn'

variable {f f' : Forest} {name : String}

theorem keeps_of_turn?_eq (h : f'.turn? name = f.turn? name) : f.Keeps f' name :=
  fun turn hturn ↦ ⟨turn, h.trans hturn, .refl turn⟩

/-- Putting a later turn in the place of a turn keeps every name. -/
theorem keeps_put {n : String} {t t' : Turn} (ht : f.turn? n = some t) (hfollows : t.Follows t') :
    f.Keeps (f.put n t') name := by
  intro turn hturn
  rw [turn?_put]
  by_cases h : name = n
  · subst h
    obtain rfl := Option.some.inj (ht.symm.trans hturn)
    exact ⟨t', if_pos rfl, hfollows⟩
  · exact ⟨turn, (if_neg h).trans hturn, .refl turn⟩

end Forest

/-! ### One operation -/

/-- The name that an operation gives to another turn, or to none. A delegation from a turn that does
not exist gives no name to anything. -/
def Operation.rebinds? (f : Forest) : Operation → Option String
  | .create name _ _ => some name
  | .delegate name parent _ => (f.turn? parent).map fun _ ↦ name
  | .drop name => some name
  | _ => none

namespace Session

variable {g : Guard} {host : Surroundings σ} {s : Session σ} {name : String} {turn : Turn}

theorem onTurn_of_some {act : Turn → Session σ × Effect σ} (h : s.forest.turn? name = some turn) :
    s.onTurn name act = act turn := by
  rw [onTurn, h]

theorem onTurn_of_none {act : Turn → Session σ × Effect σ} (h : s.forest.turn? name = none) :
    s.onTurn name act = (s, .noTurn) := by
  rw [onTurn, h]

/-- What is done with a turn has a property if it has it for every turn of the name, and if nothing
that is done has it too. -/
theorem onTurn_induction {p : Session σ → Prop} {act : Turn → Session σ × Effect σ} (hnone : p s)
    (hsome : ∀ turn, s.forest.turn? name = some turn → p (act turn).1) :
    p (s.onTurn name act).1 := by
  rcases hturn : s.forest.turn? name with - | turn
  · rwa [onTurn_of_none hturn]
  · rw [onTurn_of_some hturn]
    exact hsome turn hturn

/-- What is done with a turn keeps a name if it does so where there is a turn. -/
theorem keeps_onTurn {act : Turn → Session σ × Effect σ} {n : String}
    (h : ∀ turn, s.forest.turn? n = some turn → s.forest.Keeps (act turn).1.forest name) :
    s.forest.Keeps (s.onTurn n act).1.forest name :=
  onTurn_induction (p := fun s' ↦ s.forest.Keeps s'.forest name) (Forest.keeps_of_turn?_eq rfl) h

@[simp] theorem turn?_afterCall (s : Session σ) (n : String) (report : CallReport σ) :
    (s.afterCall n report).forest.turn? name = (s.forest.put n report.turn).turn? name := by
  simp only [afterCall]
  split <;> rfl

/-- The report of a call in a turn of the session. -/
def report (g : Guard) (host : Surroundings σ) (s : Session σ) (turn : Turn) (tool : String)
    (arguments : Json) : CallReport σ :=
  g.execute host turn (s.forest.isCancelled turn) tool arguments (.start s.surroundings s.audit)

theorem step_execute {tool : String} {arguments : Json} (h : s.forest.turn? name = some turn) :
    s.step g host (.execute name tool arguments) =
      (s.afterCall name (s.report g host turn tool arguments),
        .executed (s.report g host turn tool arguments)) :=
  onTurn_of_some h

/-- **The step lemma.** An operation that does not rebind a name keeps it. -/
theorem step_keeps {op : Operation} (h : op.rebinds? s.forest ≠ some name) :
    s.forest.Keeps (s.step g host op).1.forest name := by
  cases op with
  | create n profile taint =>
    have hn : name ≠ n := fun e ↦ h (congrArg some e.symm)
    exact Forest.keeps_of_turn?_eq (by simp [step, hn])
  | delegate n parent i =>
    refine keeps_onTurn fun t ht ↦ ?_
    have hn : name ≠ n := fun e ↦ h (by rw [Operation.rebinds?, ht, e, Option.map_some])
    exact Forest.keeps_of_turn?_eq (by simp [hn])
  | cancel n => exact keeps_onTurn fun t _ ↦ Forest.keeps_of_turn?_eq (by simp)
  | escalate n level => exact keeps_onTurn fun t ht ↦ Forest.keeps_put ht (.escalate t level)
  | observe n tags => exact keeps_onTurn fun t ht ↦ Forest.keeps_put ht (.observe t tags)
  | drop n =>
    have hn : name ≠ n := fun e ↦ h (congrArg some e.symm)
    exact keeps_onTurn fun t _ ↦ Forest.keeps_of_turn?_eq (by simp [hn])
  | list n => exact keeps_onTurn fun t _ ↦ Forest.keeps_of_turn?_eq rfl
  | execute n tool arguments =>
    -- Cancelling the tree after the call does not touch the turns.
    refine keeps_onTurn fun t ht ↦ ?_
    intro turn hturn
    rw [turn?_afterCall]
    exact Forest.keeps_put ht (g.follows_execute host t _ tool arguments _) turn hturn

/-! ### All operations of a run -/

theorem run_cons (g : Guard) (host : Surroundings σ) (s : Session σ) (op : Operation)
    (ops : List Operation) :
    s.run g host (op :: ops) =
      (((s.step g host op).1.run g host ops).1,
        (s.step g host op).2 :: ((s.step g host op).1.run g host ops).2) := rfl

/-- **The effect at a place of a run** is that of the operation there, in the session that the
operations before it have left. -/
theorem run_effects_getElem? (g : Guard) (host : Surroundings σ) {op : Operation} :
    ∀ {ops : List Operation} {i : Nat} (s : Session σ), ops[i]? = some op →
      (s.run g host ops).2[i]? = some ((s.run g host (ops.take i)).1.step g host op).2
  | [], i, s, h => by simp at h
  | first :: rest, 0, s, h => by
    obtain rfl := Option.some.inj h
    rfl
  | first :: rest, i + 1, s, h => by
    rw [run_cons, List.take_succ_cons, run_cons, List.getElem?_cons_succ]
    exact run_effects_getElem? g host (s.step g host first).1 h

/-- The session after an operation of a run is what that operation makes of the session before. -/
theorem run_take_succ (g : Guard) (host : Surroundings σ) {op : Operation} :
    ∀ {ops : List Operation} {i : Nat} (s : Session σ), ops[i]? = some op →
      (s.run g host (ops.take (i + 1))).1 = ((s.run g host (ops.take i)).1.step g host op).1
  | [], i, s, h => by simp at h
  | first :: rest, 0, s, h => by
    obtain rfl := Option.some.inj h
    rfl
  | first :: rest, i + 1, s, h => by
    rw [List.take_succ_cons, run_cons, List.take_succ_cons, run_cons]
    exact run_take_succ g host (s.step g host first).1 h

variable {ops : List Operation} {i : Nat}

/-- The session before a place of a run, after the operations that come earlier. -/
def before (g : Guard) (host : Surroundings σ) (s : Session σ) (ops : List Operation) (i : Nat) :
    Session σ :=
  (s.run g host (ops.take i)).1

theorem before_succ {op : Operation} (hop : ops[i]? = some op) :
    s.before g host ops (i + 1) = ((s.before g host ops i).step g host op).1 :=
  run_take_succ g host s hop

theorem before_succ_of_none (h : ops[i]? = none) :
    s.before g host ops (i + 1) = s.before g host ops i := by
  have hlength := List.getElem?_eq_none_iff.1 h
  rw [before, before, List.take_of_length_le hlength,
    List.take_of_length_le (Nat.le_succ_of_le hlength)]

/-- The effect of a call in a run is the report of the call, made in the session before it, and the
surroundings afterwards are those of the report. -/
theorem run_execute {tool : String} {arguments : Json}
    (hop : ops[i]? = some (.execute name tool arguments))
    (hturn : (s.run g host (ops.take i)).1.forest.turn? name = some turn) :
    (s.run g host ops).2[i]? =
        some (.executed ((s.run g host (ops.take i)).1.report g host turn tool arguments)) ∧
      (s.run g host (ops.take (i + 1))).1.surroundings =
        ((s.run g host (ops.take i)).1.report g host turn tool arguments).trace.surroundings := by
  rw [run_effects_getElem? g host s hop, run_take_succ g host s hop, step_execute hturn]
  exact ⟨rfl, rfl⟩

/-! ### Complete mediation -/

/-- **Complete mediation.** Take any call at any place of a run, and let `now` be the session as it
is when the call is made. The executor is called if and only if the policy permits the call now: the
engine allows the tool at the taint the turn has now, or asks for a confirmation and this call's own
request ends with an approval. A permitted call is one call of the executor, with the tool and the
arguments as given, and ends as the executor says. Any other call leaves the executor alone and ends
with a refusal, unless it was given up while the human was asked. -/
theorem calls_are_mediated (g : Guard) (host : Surroundings σ) (s : Session σ)
    (ops : List Operation) (i : Nat) (name tool : String) (arguments : Json) (turn : Turn)
    (hop : ops[i]? = some (.execute name tool arguments))
    (hturn : (s.run g host (ops.take i)).1.forest.turn? name = some turn) :
    let now := (s.run g host (ops.take i)).1
    let later := (s.run g host (ops.take (i + 1))).1
    let cancelled := now.forest.isCancelled turn
    let permits := g.Permits host now.surroundings turn cancelled tool arguments
    let settled := g.settled host now.surroundings turn cancelled tool arguments
    ∃ report, (s.run g host ops).2[i]? = some (.executed report) ∧
      (report.trace.calls ≠ [] ↔ permits) ∧
      (permits →
        report.trace.calls = [⟨tool, arguments, turn⟩] ∧
        later.surroundings = (host.run settled ⟨tool, arguments, turn⟩).2 ∧
        report.finish = .ofRun (host.run settled ⟨tool, arguments, turn⟩).1) ∧
      (¬ permits →
        report.trace.calls = [] ∧
        later.surroundings = settled ∧
        (report.finish.IsRefusal tool ∨ report.finish = .dropped ∧
          g.decision? host now.surroundings turn tool = some .confirm ∧
          (host.request cancelled (Guard.question tool arguments)
            now.surroundings).1.dropped)) := by
  intro now later cancelled permits settled
  obtain ⟨heffect, hlater⟩ := run_execute hop hturn
  refine ⟨now.report g host turn tool arguments, heffect, ?_⟩
  rw [show later.surroundings = _ from hlater]
  rcases g.execute_cases host turn cancelled tool arguments (.start now.surroundings now.audit)
    with hrun | hfail
  · have hpermits : permits := hrun.permitted
    obtain ⟨hcalls, hsurr, hfinish⟩ := hrun.spec
    have hone : (now.report g host turn tool arguments).trace.calls = [⟨tool, arguments, turn⟩] :=
      hcalls
    refine ⟨?_, fun _ ↦ ⟨hone, hsurr, hfinish⟩, absurd hpermits⟩
    rw [hone]
    exact iff_of_true (List.cons_ne_nil _ _) hpermits
  · have hnone : (now.report g host turn tool arguments).trace.calls = [] := hfail.calls_eq
    refine ⟨?_, fun h ↦ absurd h hfail.not_permitted,
      fun _ ↦ ⟨hnone, hfail.surroundings_eq, hfail.ends⟩⟩
    rw [hnone]
    exact iff_of_false (fun h ↦ h rfl) hfail.not_permitted

/-! ### A session with one tool of the web -/

/-- Surroundings with one tool, supplied by the origin `web`, and a human who agrees to everything.
The state counts the runs of the tool. -/
def webHost : Surroundings Nat where
  definitions _ := [⟨"fetch", "", .null, some "web"⟩]
  identityOf _ name := if name = "fetch" then some (.fromOrigin "web" "fetch") else none
  run n _ := (.ok ⟨"page", false⟩, n + 1)
  ask n _ := (⟨⟨false, some true, false⟩, [], []⟩, n)

/-- The rule that denies the tools of the web once a turn is untrusted. -/
def webGate : Rule := ⟨ToolMatcher.empty.withOrigins ["web"], .deny, 10, some .untrusted, ""⟩

/-- The rule that asks for a confirmation, after the other one and as strong. -/
def webQuestion : Rule := ⟨ToolMatcher.empty.withOrigins ["web"], .confirm, 10, none, ""⟩

/-- The guard of these two rules. -/
def webGuard : Guard :=
  ⟨.ofRuleSet .empty ⟨[webGate, webQuestion], .deny⟩, defaultConfirmMilliseconds⟩

/-- A session before any turn. -/
def webSession : Session Nat := ⟨.empty, 0, none⟩

/-- A turn that fetches twice. -/
def fetchTwice : List Operation :=
  [.create "t" none .trusted, .execute "t" "fetch" .null, .execute "t" "fetch" .null]

/-- The turn in which the tool is called. -/
def webTurn (taint : TaintLevel) : Turn := ⟨.ofNat 1, none, taint, 0⟩

/-- The first call is confirmed and runs; its output taints the turn, and the second call is refused
although the human would agree again. -/
theorem fetchTwice_is_mediated :
    (∃ report, (webSession.run webGuard webHost fetchTwice).2[1]? = some (.executed report) ∧
      report.trace.calls = [⟨"fetch", .null, webTurn .trusted⟩] ∧
      report.finish = .outcome (.executed ⟨"page", false⟩)) ∧
    ∃ report, (webSession.run webGuard webHost fetchTwice).2[2]? = some (.executed report) ∧
      report.trace.calls = [] := by
  obtain ⟨first, hfirst, -, hruns, -⟩ := calls_are_mediated webGuard webHost webSession fetchTwice 1
    "t" "fetch" .null (webTurn .trusted) rfl (by decide)
  obtain ⟨hcalls, -, hfinish⟩ := hruns (by decide)
  obtain ⟨second, hsecond, -, -, hrefused⟩ := calls_are_mediated webGuard webHost webSession
    fetchTwice 2 "t" "fetch" .null (webTurn .untrusted) rfl (by decide)
  obtain ⟨hnone, -⟩ := hrefused (by decide)
  exact ⟨⟨first, hfirst, hcalls, hfinish⟩, second, hsecond, hnone⟩

end Session

end ToolAccess
