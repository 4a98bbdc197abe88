import ToolAccess.Proofs.DelegationTrees

/-!
# Confirmations in cancelled trees

Once a delegation tree is cancelled, nothing in it is confirmed any more. A call that would need the
human's word ends at once as cancelled: the human is not asked, whatever they would say, and the
tool does not run.

Two facts meet here. A request of a turn that is cancelled already ends before it is put to anybody
(`Guard.execute_of_cancelled`), and at every place of a run a turn is cancelled if and only if a
turn of its tree has been (`Session.isCancelled_iff`). The second one holds for turns that did not
exist when the tree was cancelled, since it speaks of births and not of the turns alive.

The main result is `Session.confirmations_stay_cancelled`.
-/

namespace ToolAccess

variable {σ : Type} {g : Guard} {host : Surroundings σ}

/-- **One call.** In a turn that is cancelled already, a call that needs a confirmation ends without
it, and nothing is touched but the audit log. -/
theorem Guard.execute_of_cancelled {turn : Turn} {tool : String} {t : Trace σ}
    (hdecision : g.decision? host t.surroundings turn tool = some .confirm) (arguments : Json) :
    let report := g.execute host turn true tool arguments t
    report.finish = .outcome (.notConfirmed tool .cancelled) ∧ report.turn = turn ∧
      report.trace.asked = t.asked ∧ report.trace.calls = t.calls ∧
      report.trace.surroundings = t.surroundings := by
  obtain ⟨identity, hidentity, hconfirm⟩ := decision?_eq_some_iff.1 hdecision
  rw [execute_of_confirm hidentity hconfirm]
  refine ⟨rfl, rfl, ?_, ?_, ?_⟩
  · exact Trace.record_asked _ _ _
  · exact Trace.record_calls _ _ _
  · exact Trace.record_surroundings _ _ _

namespace Session

open Lineage

variable {s : Session σ} {ops : List Operation} {i j k k' : Nat} {name : String} {turn : Turn}

/-- A tree that is cancelled once stays cancelled, and so is every turn of it. -/
theorem isCancelled_of_cancelsAt (hs : s.forest = .empty) (hcancels : s.CancelsAt g host ops j k')
    (hlater : j < i) (hbirth : birth? ops i name = some k) (hsame : SameTree ops k' k)
    (hturn : (s.before g host ops i).forest.turn? name = some turn) :
    (s.before g host ops i).forest.isCancelled turn = true :=
  (isCancelled_iff hs hbirth hturn).2 ⟨j, hlater, k', hcancels, hsame⟩

/-- **No confirmation in a cancelled tree.** Take any run that begins without turns, and a place of
it where some turn is cancelled. Let a turn of the same tree, of that moment or made later, call a
tool at a later place, and let the policy ask for a confirmation there. Then the call ends as not
confirmed because it was cancelled, nobody is asked and nothing is run, and every turn is afterwards
what it was before. This is so for every host, also for one whose human would agree at once. -/
theorem confirmations_stay_cancelled {tool : String} {arguments : Json} (hs : s.forest = .empty)
    (hcancels : s.CancelsAt g host ops j k') (hlater : j < i) (hsame : SameTree ops k' k)
    (hop : ops[i]? = some (.execute name tool arguments)) (hbirth : birth? ops i name = some k)
    (hturn : (s.before g host ops i).forest.turn? name = some turn)
    (hdecision : g.decision? host (s.before g host ops i).surroundings turn tool =
      some .confirm) :
    ∃ report, (s.run g host ops).2[i]? = some (.executed report) ∧
      report.finish = .outcome (.notConfirmed tool .cancelled) ∧
      report.turn = turn ∧ report.trace.asked = [] ∧ report.trace.calls = [] ∧
      (s.before g host ops (i + 1)).surroundings = (s.before g host ops i).surroundings ∧
      ∀ n, (s.before g host ops (i + 1)).forest.turn? n =
        (s.before g host ops i).forest.turn? n := by
  have hcancelled : (s.before g host ops i).forest.isCancelled turn = true :=
    isCancelled_of_cancelsAt hs hcancels hlater hbirth hsame hturn
  obtain ⟨heffect, hsurroundings⟩ := run_execute hop hturn
  obtain ⟨hfinish, hkept, hasked, hcalls, hstill⟩ :=
    Guard.execute_of_cancelled (t := .start (s.before g host ops i).surroundings
      (s.before g host ops i).audit) hdecision arguments
  rw [← hcancelled] at hfinish hkept hasked hcalls hstill
  refine ⟨_, heffect, hfinish, hkept, hasked, hcalls, hsurroundings.trans hstill, fun n ↦ ?_⟩
  rw [before_succ hop, step_execute hturn, turn?_afterCall, Forest.turn?_put]
  split
  · next hname =>
    rw [hname, hturn]
    exact congrArg some hkept
  · rfl

/-- A tree is cancelled through its first turn, and a turn that is delegated afterwards, from
another turn of the tree, calls a tool. -/
def cancelledFamily : List Operation :=
  [.create "root" none .trusted, .delegate "child" "root" .inherit, .cancel "root",
    .delegate "late" "child" .fresh, .execute "late" "fetch" .null]

/-- Nobody is asked, although the human agrees to everything. -/
theorem cancelledFamily_confirms_nothing :
    ∃ report, (webSession.run webGuard webHost cancelledFamily).2[4]? = some (.executed report) ∧
      report.finish = .outcome (.notConfirmed "fetch" .cancelled) ∧
      report.trace.asked = [] ∧ report.trace.calls = [] := by
  have hcancels : webSession.CancelsAt webGuard webHost cancelledFamily 2 0 :=
    ⟨.cancel "root", "root", rfl, rfl, .cancel⟩
  have hsame : SameTree cancelledFamily 0 3 := .trans 0 1 3 (.rel 0 1 rfl) (.rel 1 3 rfl)
  have hop : cancelledFamily[4]? = some (.execute "late" "fetch" .null) := rfl
  have hturn : (webSession.before webGuard webHost cancelledFamily 4).forest.turn? "late" =
      some ⟨.ofNat 3, none, .trusted, 0⟩ := by decide
  obtain ⟨report, heffect, hfinish, -, hasked, hcalls, -, -⟩ :=
    confirmations_stay_cancelled rfl hcancels (by decide) hsame hop rfl hturn (by decide)
  exact ⟨report, heffect, hfinish, hasked, hcalls⟩

end Session

end ToolAccess
