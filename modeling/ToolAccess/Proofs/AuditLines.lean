import Mathlib.Data.List.Forall2
import Mathlib.Data.List.Induction
import ToolAccess.Proofs.AuditTrail
import ToolAccess.Proofs.JsonReading

/-!
# The audit log line by line

An entry is written as one line, and what an agent chooses stands in it: the name of a tool, and
with it the reason of a refusal. The theorem says that no such choice cuts a line in two or makes
one entry look like another.

## What the proof rests on

* Every control character is written as an escape (`printable_of_mem_compactChars`), so the only
  new lines in the log are those that end an entry.
* The text of an entry is read as the entry's fields (`parseChars_compactChars`), for none of them
  holds a number.
* From these fields a reader finds the entry again (`AuditEntry.ofJson?`): an identifier is read
  from its written form (`Uuid.parse?_toText`), an outcome and a level from their words.
-/

namespace ToolAccess

/-! ### Objects with fields in order -/

theorem Json.ofFields_of_ascending {fields : List (String × Json)}
    (h : fields.Pairwise fun a b ↦ compare a.1 b.1 = .lt) : ofFields fields = .object fields :=
  congrArg Json.object (SortedMap.entries_ofList h)

/-! ### A reader of entries -/

/-- The text in a field of an object. -/
def Json.textAt? (name : String) (j : Json) : Option String :=
  match j.field? name with
  | some (.string s) => some s
  | _ => none

/-- The truth value in a field of an object. -/
def Json.flagAt? (name : String) (j : Json) : Option Bool :=
  match j.field? name with
  | some (.bool b) => some b
  | _ => none

/-- The event of a kind with these details. The two fields of a confirmation must agree. -/
def AuditEvent.ofDetails? (kind : String) (details : Json) : Option AuditEvent :=
  if kind = "tool_denied" then (details.textAt? "reason").map .denied
  else if kind = "confirmation_resolved" then
    (((details.textAt? "outcome").bind ConfirmOutcome.ofCode?).filter fun outcome ↦
      details.flagAt? "approved" = some outcome.isApproved).map .confirmation
  else if kind = "tool_executed" then (details.flagAt? "is_error").map .executed
  else if kind = "taint_escalated" then
    ((details.textAt? "taint").bind fun word ↦ (TaintLevel.parse word).toOption).map .escalated
  else none

/-- The entry that a value of JSON stands for. -/
def AuditEntry.ofJson? (j : Json) : Option AuditEntry := do
  let turn ← (j.textAt? "turn_id").bind Uuid.parse?
  let tool ← j.textAt? "tool"
  let kind ← j.textAt? "event_type"
  let details ← j.field? "details"
  let event ← AuditEvent.ofDetails? kind details
  some ⟨turn, tool, event⟩

theorem AuditEvent.ofDetails?_details (event : AuditEvent) :
    ofDetails? event.kind event.details = some event := by
  cases event with
  | denied reason => rfl
  | confirmation outcome => cases outcome <;> rfl
  | executed isError => rfl
  | escalated level => cases level <;> rfl

namespace AuditEntry

/-- What a reader of JSON makes of an entry: its fields in order. -/
def asRead (e : AuditEntry) (timestamp : String) : Json :=
  .ofFields [
    ("timestamp", .string timestamp),
    ("turn_id", .string e.turn.toText),
    ("event_type", .string e.event.kind),
    ("tool", .string e.tool),
    ("details", e.event.details)]

theorem ofJson?_asRead (e : AuditEntry) (timestamp : String) :
    ofJson? (e.asRead timestamp) = some e := by
  have hfield (name : String) : (e.asRead timestamp).field? name =
      if name = "details" then some e.event.details
      else if name = "tool" then some (.string e.tool)
      else if name = "event_type" then some (.string e.event.kind)
      else if name = "turn_id" then some (.string e.turn.toText)
      else if name = "timestamp" then some (.string timestamp)
      else none := by
    show (SortedMap.ofList _).find? name = _
    simp [SortedMap.ofList]
  simp [ofJson?, Json.textAt?, hfield, Uuid.parse?_toText, AuditEvent.ofDetails?_details]

/-! ### One line -/

theorem fitsWords_details (event : AuditEvent) : event.details.FitsWords := by
  cases event with
  | denied reason => exact .object (List.forall_mem_singleton.2 (.string _))
  | confirmation outcome =>
    exact .object (List.forall_mem_cons.2 ⟨.bool _, List.forall_mem_singleton.2 (.string _)⟩)
  | executed isError => exact .object (List.forall_mem_singleton.2 (.bool _))
  | escalated level => exact .object (List.forall_mem_singleton.2 (.string _))

theorem fitsWords_toJson (e : AuditEntry) (timestamp : String) :
    (e.toJson timestamp).FitsWords := by
  refine .object (List.forall_mem_cons.2 ⟨.string _, List.forall_mem_cons.2 ⟨.string _, ?_⟩⟩)
  exact List.forall_mem_cons.2 ⟨.string _, List.forall_mem_cons.2 ⟨.string _,
    List.forall_mem_singleton.2 (fitsWords_details _)⟩⟩

theorem canonical_details (event : AuditEvent) : event.details.canonical = event.details := by
  cases event with
  | denied reason => rfl
  | confirmation outcome =>
    have hlt : compare "approved" "outcome" = .lt := by decide
    exact Json.ofFields_of_ascending (List.pairwise_pair.2 hlt)
  | executed isError => rfl
  | escalated level => rfl

theorem canonical_toJson (e : AuditEntry) (timestamp : String) :
    (e.toJson timestamp).canonical = e.asRead timestamp := by
  rw [toJson, asRead, Json.canonical]
  simp only [Json.canonicalFields, Json.canonical, canonical_details]

/-- The text of an entry stands for its fields. -/
theorem parseChars_compactChars_toJson (e : AuditEntry) (timestamp : String) :
    Json.parseChars (e.toJson timestamp).compactChars = some (e.asRead timestamp) := by
  rw [Json.parseChars_compactChars (fitsWords_toJson e timestamp), canonical_toJson]

/-- No new line stands in the text of an entry. -/
theorem newline_not_mem_compactChars (j : Json) : '\n' ∉ j.compactChars := by
  intro h
  exact absurd (Json.printable_of_mem_compactChars h) (by decide)

end AuditEntry

/-! ### The whole log -/

namespace AuditLog

/-- The text of entries, each with the time at which it was written. -/
def textOf (written : List (AuditEntry × String)) : List Char :=
  written.flatMap fun w ↦ w.1.lineChars w.2

theorem text_eq_textOf (timestamp : AuditEntry → String) (log : AuditLog) :
    log.text timestamp = textOf (log.entries.map fun e ↦ (e, timestamp e)) := by
  rw [text, textOf, List.flatMap_map]

/-- **One line for each entry, and each line read as its entry.** Entries are recorded one after
the other in a log that takes them all. Then the log holds these entries, and its text, whatever
the times of writing, is made of one line for each entry in their order: the only new lines in it
are those at the ends of the lines. A line is JSON and stands for the time, the identifier of the
turn, the kind of the event, the tool and the details, from which a reader finds the entry. -/
theorem lines_stand_for_entries (written : List (AuditEntry × String)) :
    let log := working.recordAll (written.map (·.1))
    log.entries = written.map (·.1) ∧
      (∀ timestamp, log.text timestamp = textOf (written.map fun w ↦ (w.1, timestamp w.1))) ∧
      ∃ lines : List (List Char), textOf written = lines.flatMap (· ++ ['\n']) ∧
        (∀ line ∈ lines, '\n' ∉ line) ∧
        List.Forall₂ (fun w line ↦ ∃ j, Json.parseChars line = some j ∧
          j = .ofFields [
            ("timestamp", .string w.2),
            ("turn_id", .string w.1.turn.toText),
            ("event_type", .string w.1.event.kind),
            ("tool", .string w.1.tool),
            ("details", w.1.event.details)] ∧
          AuditEntry.ofJson? j = some w.1) written lines := by
  intro log
  have hworks : working.Works := fun _ ↦ rfl
  have hentries : log.entries = written.map (·.1) := hworks.entries_recordAll _
  refine ⟨hentries, fun timestamp ↦ ?_, written.map fun w ↦ (w.1.toJson w.2).compactChars,
    ?_, ?_, ?_⟩
  · rw [text_eq_textOf, hentries, List.map_map]
    rfl
  · rw [List.flatMap_map]
    rfl
  · intro line hline
    obtain ⟨w, -, rfl⟩ := List.mem_map.1 hline
    exact AuditEntry.newline_not_mem_compactChars _
  · rw [List.forall₂_map_right_iff]
    exact List.forall₂_same.2 fun w _ ↦ ⟨w.1.asRead w.2,
      AuditEntry.parseChars_compactChars_toJson w.1 w.2, rfl, AuditEntry.ofJson?_asRead w.1 w.2⟩

end AuditLog

end ToolAccess
