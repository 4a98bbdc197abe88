import Mathlib.Data.List.Nodup
import ToolAccess.Proofs.AuditTrail

/-!
# Listings and calls

The agent is shown the tools that the policy does not deny, and a call is decided anew when it is
made. The two look at the policy from different sides: a listing goes through the definitions of the
executor, and a call starts from a name, which may stand for no tool at all. They agree where the
executor looks names up among its own tools, whose names differ (`Surroundings.ListsItsTools`).

## What the proof rests on

* **Denials.** A call is denied if and only if its name stands for no tool or the policy denies the
  tool (`Guard.isDenied_execute_iff`), whatever its arguments are and whatever the human says.
* **Names.** Where names differ, the name of a listed tool stands for that tool
  (`identityAmong?_of_mem`).
* **Time.** A decision depends on the profile and the taint of the turn only. The profile never
  changes and the taint never falls, so a decision that has changed was changed by a rise
  (`Guard.taint_lt_of_denied`).

The main result is `Session.listing_agrees_with_calls`.
-/

namespace ToolAccess

variable {σ : Type}

/-! ### Denials -/

/-- The policy refused the call. -/
def CallEnd.isDenied : CallEnd → Bool
  | .outcome (.denied _ _) => true
  | _ => false

theorem CallTrail.isDenied_iff {tool : String} {decision : Option Decision}
    {before after : TaintLevel} {finish : CallEnd} {events : List AuditEvent}
    (h : CallTrail tool decision before after finish events) :
    finish.isDenied = true ↔ decision = none ∨ decision = some .deny := by
  cases h with
  | refused hdecision => exact iff_of_true rfl hdecision
  | notConfirmed hdecision | dropped hdecision =>
    rw [hdecision]
    exact iff_of_false Bool.false_ne_true (by simp)
  | failed hdecision | executed hdecision =>
    refine iff_of_false Bool.false_ne_true ?_
    rcases hdecision with rfl | rfl <;> simp

namespace Guard

variable {g : Guard} {host : Surroundings σ} {turn : Turn} {cancelled : Bool} {tool : String}
  {arguments : Json} {t : Trace σ}

/-- **A call is denied** if and only if its name stands for no tool or for one that the policy
denies. -/
theorem isDenied_execute_iff :
    (g.execute host turn cancelled tool arguments t).finish.isDenied = true ↔
      g.decision? host t.surroundings turn tool = none ∨
        g.decision? host t.surroundings turn tool = some .deny := by
  obtain ⟨events, -, htrail⟩ := g.execute_trail host turn cancelled tool arguments t
  exact htrail.isDenied_iff

end Guard

/-! ### Names of tools -/

/-- The executor looks names up among its tools, and these have different names. -/
structure Surroundings.ListsItsTools (host : Surroundings σ) : Prop where
  identityOf_eq : ∀ surroundings name,
    host.identityOf surroundings name = identityAmong? (host.definitions surroundings) name
  nodup_names : ∀ surroundings, ((host.definitions surroundings).map (·.name)).Nodup

/-- Where names differ, the name of a tool stands for it. -/
theorem identityAmong?_of_mem {definitions : List ToolDefinition} {d : ToolDefinition}
    (hnodup : (definitions.map (·.name)).Nodup) (hd : d ∈ definitions) :
    identityAmong? definitions d.name = some d.identity := by
  obtain ⟨d', hfind⟩ : ∃ d', definitions.find? (·.name = d.name) = some d' :=
    Option.isSome_iff_exists.1 (List.find?_isSome.2 ⟨d, hd, decide_eq_true rfl⟩)
  have hname : d'.name = d.name := by simpa using List.find?_some hfind
  obtain rfl : d' = d :=
    List.inj_on_of_nodup_map hnodup (List.mem_of_find?_eq_some hfind) hd hname
  rw [identityAmong?, hfind, Option.map_some]

theorem identityAmong?_of_not_mem {definitions : List ToolDefinition} {name : String}
    (h : name ∉ definitions.map (·.name)) : identityAmong? definitions name = none := by
  have hfind : definitions.find? (·.name = name) = none := List.find?_eq_none.2 fun d hd hname ↦
    h (List.mem_map.2 ⟨d, hd, of_decide_eq_true hname⟩)
  rw [identityAmong?, hfind, Option.map_none]

namespace Guard

variable {g : Guard} {host : Surroundings σ} {surroundings : σ} {turn : Turn} {cancelled : Bool}
  {arguments : Json} {t : Trace σ}

theorem decision?_of_mem (hhost : host.ListsItsTools) {d : ToolDefinition}
    (hd : d ∈ host.definitions surroundings) :
    g.decision? host surroundings turn d.name = some (g.evaluate turn d.identity).decision := by
  rw [decision?, hhost.identityOf_eq, identityAmong?_of_mem (hhost.nodup_names _) hd]
  rfl

/-- A call of a tool of the executor by name is denied if and only if the policy denies the tool. -/
theorem isDenied_execute_of_mem_iff (hhost : host.ListsItsTools) {d : ToolDefinition}
    (hd : d ∈ host.definitions t.surroundings) :
    (g.execute host turn cancelled d.name arguments t).finish.isDenied = true ↔
      (g.evaluate turn d.identity).decision = .deny := by
  rw [isDenied_execute_iff, decision?_of_mem hhost hd]
  simp

/-- A tool of the executor is shown if and only if a call of it by name would not be denied. -/
theorem shows_eq_not_isDenied (hhost : host.ListsItsTools) {d : ToolDefinition}
    (hd : d ∈ host.definitions t.surroundings) :
    g.shows turn d = !(g.execute host turn cancelled d.name arguments t).finish.isDenied := by
  rw [shows, Bool.eq_iff_iff, Bool.not_eq_true', ← Bool.not_eq_true,
    isDenied_execute_of_mem_iff hhost hd]
  exact decide_eq_true_iff

/-- A name that no tool of the executor has is denied. -/
theorem execute_of_not_listed (hhost : host.ListsItsTools) {tool : String}
    (h : tool ∉ (host.definitions t.surroundings).map (·.name)) :
    (g.execute host turn cancelled tool arguments t).finish =
      .outcome (.denied tool "unknown tool") := by
  have hunknown : host.identityOf t.surroundings tool = none := by
    rw [hhost.identityOf_eq, identityAmong?_of_not_mem h]
  rw [execute_of_unknown hunknown]
  rfl

/-- A tool that was shown in a turn and is denied in it later: the taint has risen. -/
theorem taint_lt_of_denied {earlier later : Turn} (hfollows : earlier.Follows later)
    {d : ToolDefinition} (hshown : g.shows earlier d = true)
    (hdenied : (g.evaluate later d.identity).decision = .deny) : earlier.taint < later.taint := by
  by_contra hnot
  have htaint : earlier.taint = later.taint :=
    TaintLevel.le_antisymm hfollows.taint_le (Nat.le_of_not_lt hnot)
  rw [shows, decide_eq_true_iff] at hshown
  refine hshown ?_
  rw [evaluate, htaint, ← hfollows.profile_eq]
  exact hdenied

end Guard

namespace Session

variable {g : Guard} {host : Surroundings σ} {s : Session σ} {name : String} {turn : Turn}

/-! ### Listings in a run -/

theorem step_list (h : s.forest.turn? name = some turn) :
    s.step g host (.list name) = (s, .listed (g.list turn (host.definitions s.surroundings))
      (g.listEvents turn (host.definitions s.surroundings))) :=
  onTurn_of_some h

/-- A turn at two places of a run that does not rebind its name: it is the same turn, later on. -/
theorem exists_follows_of_le (g : Guard) (host : Surroundings σ) {ops : List Operation}
    (hleaves : ∀ op ∈ ops, op.Leaves name) (hturn : s.forest.turn? name = some turn) {i j : Nat}
    (hij : i ≤ j) : ∃ earlier later,
      (s.run g host (ops.take i)).1.forest.turn? name = some earlier ∧
      (s.run g host (ops.take j)).1.forest.turn? name = some later ∧ earlier.Follows later := by
  obtain ⟨earlier, hearlier, -, -⟩ := run_isGreatest g host (ops.take i)
    (fun op hop ↦ hleaves op (List.mem_of_mem_take hop)) hturn
  obtain ⟨later, hlater, hfollows, -⟩ := run_isGreatest g host ((ops.drop i).take (j - i))
    (fun op hop ↦ hleaves op (List.mem_of_mem_drop (List.mem_of_mem_take hop))) hearlier
  rw [← run_take_of_le ops hij] at hlater
  exact ⟨earlier, later, hearlier, hlater, hfollows⟩

/-- What a listing at a place of a run shows. -/
theorem run_list {ops : List Operation} {i : Nat} {shown : List ToolDefinition}
    {events : List Event} (hop : ops[i]? = some (.list name))
    (hturn : (s.run g host (ops.take i)).1.forest.turn? name = some turn)
    (heffect : (s.run g host ops).2[i]? = some (.listed shown events)) :
    shown = g.list turn (host.definitions (s.run g host (ops.take i)).1.surroundings) := by
  rw [run_effects_getElem? g host s hop, step_list hturn] at heffect
  exact (Effect.listed.inj (Option.some.inj heffect)).1.symm

/-- **Listings agree with calls.** Let the executor look names up among its tools, whose names
differ, and take any turn of a session.

* A listing shows, in the order of the executor, the tools of which a call by name would not be
  denied now, with any arguments; and a name that no tool has is denied.
* Take any run that does not give the name of the turn to another turn, a listing in it, and a call
  later on of a tool that was shown there. If the executor has the same tools at both places and the
  call is denied, then the turn has a higher taint at the call than it had at the listing. -/
theorem listing_agrees_with_calls (g : Guard) (host : Surroundings σ) (hhost : host.ListsItsTools)
    (s : Session σ) (name : String) (turn : Turn) (hturn : s.forest.turn? name = some turn) :
    (∀ arguments, ∃ events, s.step g host (.list name) = (s, .listed
      ((host.definitions s.surroundings).filter fun d ↦
        !(s.report g host turn d.name arguments).finish.isDenied) events)) ∧
    (∀ tool arguments, tool ∉ (host.definitions s.surroundings).map (·.name) →
      (s.report g host turn tool arguments).finish = .outcome (.denied tool "unknown tool")) ∧
    ∀ ops, (∀ op ∈ ops, op.Leaves name) →
      ∀ i j shown events d arguments report, i ≤ j →
        ops[i]? = some (.list name) →
        (s.run g host ops).2[i]? = some (.listed shown events) → d ∈ shown →
        ops[j]? = some (.execute name d.name arguments) →
        (s.run g host ops).2[j]? = some (.executed report) → report.finish.isDenied = true →
        host.definitions (s.run g host (ops.take j)).1.surroundings =
          host.definitions (s.run g host (ops.take i)).1.surroundings →
        ∃ earlier later, (s.run g host (ops.take i)).1.forest.turn? name = some earlier ∧
          (s.run g host (ops.take j)).1.forest.turn? name = some later ∧
          earlier.taint < later.taint := by
  refine ⟨fun arguments ↦ ⟨g.listEvents turn (host.definitions s.surroundings), ?_⟩,
    fun tool arguments htool ↦ ?_, ?_⟩
  · rw [step_list hturn, Guard.list]
    congr 2
    exact List.filter_congr fun d hd ↦ Guard.shows_eq_not_isDenied hhost hd
  · exact Guard.execute_of_not_listed hhost htool
  · intro ops hleaves i j shown events d arguments report hij hlist hshown hd hcall hreport hdenied
      hsame
    obtain ⟨earlier, later, hearlier, hlater, hfollows⟩ :=
      exists_follows_of_le g host hleaves hturn hij
    refine ⟨earlier, later, hearlier, hlater, ?_⟩
    rw [run_list hlist hearlier hshown] at hd
    obtain ⟨hmem, hshows⟩ := List.mem_filter.1 hd
    refine Guard.taint_lt_of_denied hfollows hshows ?_
    rw [(run_execute hcall hlater).1] at hreport
    rw [← Effect.executed.inj (Option.some.inj hreport)] at hdenied
    rw [← hsame] at hmem
    exact (Guard.isDenied_execute_of_mem_iff hhost hmem).1 hdenied

/-- The executor with one tool of the web looks names up among its tools. -/
theorem webHost_listsItsTools : webHost.ListsItsTools where
  identityOf_eq _ name := by
    show (if name = "fetch" then _ else none) = identityAmong? [_] name
    by_cases h : name = "fetch"
    · subst h
      rfl
    · rw [if_neg h, identityAmong?_of_not_mem (by simpa using h)]
  nodup_names _ := List.nodup_singleton _

/-- A turn that looks at the tools, fetches and fetches again. -/
def lookThenFetchTwice : List Operation :=
  [.list "t", .execute "t" "fetch" .null, .execute "t" "fetch" .null]

/-- The tool is shown and not denied at first; when it is denied the taint has risen. -/
theorem lookThenFetchTwice_rises :
    (∃ events, auditedSession.step webGuard webHost (.list "t") =
      (auditedSession, .listed [⟨"fetch", "", .null, some "web"⟩] events)) ∧
    (auditedSession.report webGuard webHost (webTurn .trusted) "guess" .null).finish =
      .outcome (.denied "guess" "unknown tool") ∧
    ∃ earlier later,
      (auditedSession.run webGuard webHost (lookThenFetchTwice.take 0)).1.forest.turn? "t" =
        some earlier ∧
      (auditedSession.run webGuard webHost (lookThenFetchTwice.take 2)).1.forest.turn? "t" =
        some later ∧ earlier.taint < later.taint := by
  obtain ⟨hlist, hunlisted, hlater⟩ := listing_agrees_with_calls webGuard webHost
    webHost_listsItsTools auditedSession "t" (webTurn .trusted) (by decide)
  refine ⟨hlist .null, hunlisted "guess" .null (by decide), ?_⟩
  exact hlater lookThenFetchTwice (by simp [lookThenFetchTwice, Operation.Leaves]) 0 2
    [⟨"fetch", "", .null, some "web"⟩] _ ⟨"fetch", "", .null, some "web"⟩ .null _ (by decide) rfl
    rfl (by decide) rfl rfl (by decide) rfl

end Session

end ToolAccess
