import Mathlib.Data.List.Induction
import ToolAccess.Proofs.Numerals
import ToolAccess.Settings.Override

/-!
# What the environment sets

Two variables of the environment hold numbers and one holds a path. A number is written in base
ten, with any number of zeros in front of it and perhaps a sign, and it counts if it is in range;
nothing is cut off and nothing wraps around. A variable that holds anything else is passed over, and
one warning names it. Nothing but the three settings is touched.

## What the proof rests on

* **Numerals.** `Text.IsNumeral` says how a number is written by the digits of the standard library,
  `WritesNat` and `WritesInt` add the sign. The readers accept these texts and no others
  (`readUInt64?_eq_some_iff`, `readInt64?_eq_some_iff`).
* **One variable.** Each of the three settings is `overridden` by its variable: what the variable
  holds, if that can be read, and otherwise what it was. What a variable does, what it is warned of
  and that doing it twice is doing it once, is said of `overridden` alone.

The main result is `Settings.environment_sets_what_it_writes`.
-/

namespace ToolAccess

/-! ### Numerals -/

namespace Text

/-- The number in base ten, with any number of zeros in front. -/
def IsNumeral (cs : List Char) (n : Nat) : Prop :=
  ∃ zeros, cs = List.replicate zeros '0' ++ Nat.toDigits 10 n

theorem isDigit_iff {c : Char} : c.isDigit = true ↔ ∃ d < 10, c = Nat.digitChar d := by
  rw [Char.isDigit, Bool.and_eq_true, decide_eq_true_iff, decide_eq_true_iff]
  constructor
  · rintro ⟨hlow, hhigh⟩
    have hlow : 48 ≤ c.toNat := hlow
    have hhigh : c.toNat ≤ 57 := hhigh
    refine ⟨c.toNat - 48, by omega, Char.toNat_inj.1 ?_⟩
    rw [Nat.toNat_digitChar_of_lt_ten (by omega)]
    omega
  · rintro ⟨d, hd, rfl⟩
    revert d
    decide

theorem digitValue_digitChar {d : Nat} (hd : d < 10) : digitValue (Nat.digitChar d) = d := by
  rw [digitValue, Nat.toNat_digitChar_of_lt_ten hd, Nat.add_sub_cancel_left]

theorem decimalValue_concat (cs : List Char) (c : Char) :
    decimalValue (cs ++ [c]) = decimalValue cs * 10 + digitValue c := by
  rw [decimalValue, List.foldl_append]
  rfl

theorem decimalValue_replicate_append (zeros : Nat) (cs : List Char) :
    decimalValue (List.replicate zeros '0' ++ cs) = decimalValue cs := by
  induction zeros with
  | zero => rfl
  | succ zeros ih => exact ih

theorem isNumeral_digit {d : Nat} (hd : d < 10) : IsNumeral [Nat.digitChar d] d :=
  ⟨0, by rw [Nat.toDigits_of_lt_base hd]; rfl⟩

/-- One more digit at the end. -/
theorem IsNumeral.concat {cs : List Char} {n d : Nat} (h : IsNumeral cs n) (hd : d < 10) :
    IsNumeral (cs ++ [Nat.digitChar d]) (n * 10 + d) := by
  obtain ⟨zeros, rfl⟩ := h
  rcases Nat.eq_zero_or_pos n with rfl | hpos
  · -- Behind zeros alone, the digit is the whole number, and the last zero is one in front of it.
    refine ⟨zeros + 1, ?_⟩
    rw [Nat.zero_mul, Nat.zero_add, Nat.toDigits_of_lt_base hd, List.replicate_succ']
    rfl
  · refine ⟨zeros, ?_⟩
    rw [Nat.toDigits_of_base_le (by omega) (show 10 ≤ n * 10 + d by omega), List.append_assoc,
      show (n * 10 + d) / 10 = n by omega, show (n * 10 + d) % 10 = d by omega]

theorem isNumeral_decimalValue {cs : List Char} (hne : cs ≠ [])
    (hdigits : ∀ c ∈ cs, c.isDigit = true) : IsNumeral cs (decimalValue cs) := by
  induction cs using List.reverseRecOn with
  | nil => exact absurd rfl hne
  | append_singleton cs c ih =>
    obtain ⟨d, hd, rfl⟩ := isDigit_iff.1 (hdigits c (by simp))
    rw [decimalValue_concat, digitValue_digitChar hd]
    by_cases hcs : cs = []
    · subst hcs
      rw [show decimalValue [] = 0 from rfl, Nat.zero_mul, Nat.zero_add]
      exact isNumeral_digit hd
    · exact (ih hcs fun c hc ↦ hdigits c (List.mem_append_left _ hc)).concat hd

/-- **Digits are read** to the number that they are a numeral of. -/
theorem digits?_eq_some_iff {cs : List Char} {n : Nat} : digits? cs = some n ↔ IsNumeral cs n := by
  have hread : digits? cs = some n ↔
      (cs ≠ [] ∧ ∀ c ∈ cs, c.isDigit = true) ∧ decimalValue cs = n := by
    simp [digits?, and_assoc]
  rw [hread]
  constructor
  · rintro ⟨⟨hne, hdigits⟩, rfl⟩
    exact isNumeral_decimalValue hne hdigits
  · rintro ⟨zeros, rfl⟩
    refine ⟨⟨fun hnil ↦ Nat.toDigits_ne_nil (List.append_eq_nil_iff.1 hnil).2, fun c hc ↦ ?_⟩, ?_⟩
    · rcases List.mem_append.1 hc with hzero | hdigit
      · rw [(List.mem_replicate.1 hzero).2]
        rfl
      · exact isDigit_of_mem_toDigits hdigit
    · rw [decimalValue_replicate_append, decimalValue_toDigits]

/-- A numeral has no sign. -/
theorem IsNumeral.splitSign_eq {cs : List Char} {n : Nat} (h : IsNumeral cs n)
    (allowsMinus : Bool) : splitSign allowsMinus cs = (false, cs) := by
  have hread := digits?_eq_some_iff.2 h
  rw [splitSign.eq_def]
  split
  · simp [digits?, Char.isDigit] at hread
  · simp [digits?, Char.isDigit] at hread
  · rfl

end Text

/-- A text is a whole number: digits, perhaps with a plus sign in front or, where that is allowed,
with a minus sign. -/
inductive Writes (allowsMinus : Bool) (text : String) : Int → Prop
  | plain {n : Nat} (htext : Text.IsNumeral text.toList n) : Writes allowsMinus text n
  | plus {digits : List Char} {n : Nat} (htext : text.toList = '+' :: digits)
    (hdigits : Text.IsNumeral digits n) : Writes allowsMinus text n
  | minus {digits : List Char} {n : Nat} (hallowed : allowsMinus = true)
    (htext : text.toList = '-' :: digits) (hdigits : Text.IsNumeral digits n) :
    Writes allowsMinus text (-n)

/-- A text is a number just if there are digits behind the sign. -/
theorem writes_iff {allowsMinus : Bool} {text : String} {value : Int} :
    Writes allowsMinus text value ↔ ∃ negative digits n,
      Text.splitSign allowsMinus text.toList = (negative, digits) ∧
        Text.digits? digits = some n ∧ value = if negative then -(n : Int) else n := by
  simp only [Text.digits?_eq_some_iff]
  constructor
  · rintro (htext | ⟨htext, hdigits⟩ | ⟨rfl, htext, hdigits⟩)
    · exact ⟨false, _, _, htext.splitSign_eq allowsMinus, htext, rfl⟩
    · exact ⟨false, _, _, by rw [htext]; rfl, hdigits, rfl⟩
    · exact ⟨true, _, _, by rw [htext]; rfl, hdigits, rfl⟩
  · rintro ⟨negative, digits, n, hsplit, hdigits, rfl⟩
    rw [Text.splitSign.eq_def] at hsplit
    split at hsplit
    next htext =>
      cases hsplit
      exact .plus htext hdigits
    next htext =>
      split at hsplit
      next hallowed =>
        cases hsplit
        exact .minus hallowed htext hdigits
      next =>
        cases hsplit
        exact .plain (htext ▸ hdigits)
    next =>
      cases hsplit
      exact .plain hdigits

theorem splitSign_false_fst (cs : List Char) : (Text.splitSign false cs).1 = false := by
  rw [Text.splitSign.eq_def]
  split <;> rfl

/-- **Unsigned numbers are read** from the texts that write them. -/
theorem readUInt64?_eq_some_iff {text : String} {n : UInt64} :
    readUInt64? text = some n ↔ Writes false text n.toNat := by
  rw [writes_iff, readUInt64?]
  rcases hsplit : Text.splitSign false text.toList with ⟨negative, digits⟩
  obtain rfl : negative = false := by rw [← splitSign_false_fst text.toList, hsplit]
  simp only [Option.bind_eq_bind, Option.bind_eq_some_iff, Prod.mk.injEq]
  constructor
  · rintro ⟨m, hdigits, hm⟩
    obtain ⟨hrange, hm⟩ := Option.ite_none_right_eq_some.1 hm
    obtain rfl := Option.some.inj hm
    exact ⟨_, _, m, ⟨rfl, rfl⟩, hdigits, by simp [UInt64.toNat_ofNat_of_lt' hrange]⟩
  · rintro ⟨_, _, m, ⟨rfl, rfl⟩, hdigits, hm⟩
    obtain rfl : n.toNat = m := by simpa using hm
    exact ⟨_, hdigits, by rw [if_pos n.toNat_lt, UInt64.ofNat_toNat]⟩

/-- **Signed numbers are read** from the texts that write them. -/
theorem readInt64?_eq_some_iff {text : String} {n : Int64} :
    readInt64? text = some n ↔ Writes true text n.toInt := by
  rw [writes_iff, readInt64?]
  rcases Text.splitSign true text.toList with ⟨negative, digits⟩
  simp only [Option.bind_eq_bind, Option.bind_eq_some_iff, Prod.mk.injEq]
  constructor
  · rintro ⟨m, hdigits, hm⟩
    obtain ⟨⟨hlow, hhigh⟩, hm⟩ := Option.ite_none_right_eq_some.1 hm
    obtain rfl := Option.some.inj hm
    exact ⟨_, _, m, ⟨rfl, rfl⟩, hdigits, Int64.toInt_ofInt_of_le hlow (Int.lt_add_one_of_le hhigh)⟩
  · rintro ⟨_, _, m, ⟨rfl, rfl⟩, hdigits, hm⟩
    refine ⟨m, hdigits, ?_⟩
    rw [← hm, if_pos ⟨n.minValue_le_toInt, n.toInt_le⟩, Int64.ofInt_toInt]

example : readInt64? "-009223372036854775808" = some Int64.minValue ∧
    readInt64? "+9223372036854775808" = none := by decide

namespace Settings

/-! ### One variable -/

/-- What a setting becomes: what its variable holds, if that can be read, and else what it was. -/
def overridden {α : Type} (env : Environment) (name : String) (read : String → Option α)
    (old : α) : α :=
  ((env name).bind read).getD old

section Variable

variable {α : Type} {env : Environment} {name : String} {read : String → Option α}

/-- A variable whose value cannot be read leaves the setting as it was. -/
theorem overridden_of_forall_ne (h : ∀ a, (env name).bind read ≠ some a) (old : α) :
    overridden env name read old = old := by
  rw [overridden, Option.eq_none_iff_forall_ne_some.2 h, Option.getD_none]

/-- Seen through an injection, the setting is one and the same, whatever it was, just if this is the
value of the variable. -/
theorem forall_overridden_eq_iff {β : Type} {f : α → β} (hf : Function.Injective f) {x y : α}
    (hne : x ≠ y) {b : β} :
    (∀ old, f (overridden env name read old) = b) ↔
      ∃ a, (env name).bind read = some a ∧ f a = b := by
  simp only [overridden]
  rcases (env name).bind read with - | a
  · exact iff_of_false (fun h ↦ hne (hf ((h x).trans (h y).symm))) (by simp)
  · simpa using ⟨fun h ↦ h x, fun h _ ↦ h⟩

theorem overridden_overridden (old : α) :
    overridden env name read (overridden env name read old) = overridden env name read old := by
  simp only [overridden]
  cases (env name).bind read <;> rfl

/-- There is a warning just if the variable is set to what cannot be read. -/
theorem mem_ignoredEvents_iff {event : Event} : event ∈ ignoredEvents env name read ↔
    ∃ value, event = .overrideIgnored name value ∧ env name = some value ∧
      ∀ a, (env name).bind read ≠ some a := by
  rw [ignoredEvents.eq_def]
  rcases env name with - | value
  · simp
  · rcases hread : read value with - | a <;> simp [hread]

theorem nodup_ignoredEvents (env : Environment) (name : String) (read : String → Option α) :
    (ignoredEvents env name read).Nodup := by
  rw [ignoredEvents.eq_def]
  split
  · split <;> simp
  · simp

end Variable

/-! ### The environment -/

/-- The environment as a whole: three settings are overridden, all others stay. -/
theorem withEnvironment_eq (s : Settings) (env : Environment) : s.withEnvironment env =
    { s with
      confirmSeconds := overridden env confirmSecondsVariable readUInt64? s.confirmSeconds
      policy := { s.policy with
        overrideOffset :=
          overridden env overrideOffsetVariable readInt64? s.policy.overrideOffset }
      auditPath := overridden env auditPathVariable (some <| some <| Path.mk ·) s.auditPath } := by
  rw [withEnvironment, overrideSeconds, overrideLift, overrideAudit]
  simp only [overridden]
  rcases (env confirmSecondsVariable).bind readUInt64? with - | n <;>
    rcases (env overrideOffsetVariable).bind readInt64? with - | m <;>
    rcases env auditPathVariable with - | text <;> rfl

/-- The environment has a number of seconds to wait. -/
def SetsSeconds (env : Environment) (n : Nat) : Prop :=
  ∃ text, env confirmSecondsVariable = some text ∧ Writes false text n ∧ n < 2 ^ 64

/-- The environment has a number to lift the overrides by. -/
def SetsOffset (env : Environment) (n : Int) : Prop :=
  ∃ text, env overrideOffsetVariable = some text ∧ Writes true text n ∧ -2 ^ 63 ≤ n ∧ n < 2 ^ 63

/-- The warnings that an environment deserves, one for each variable that is set to something else
than a number in range. -/
inductive Ignored (env : Environment) : Event → Prop
  | seconds {value : String} (hset : env confirmSecondsVariable = some value)
    (hnone : ∀ n, ¬ SetsSeconds env n) :
    Ignored env (.overrideIgnored confirmSecondsVariable value)
  | offset {value : String} (hset : env overrideOffsetVariable = some value)
    (hnone : ∀ n, ¬ SetsOffset env n) :
    Ignored env (.overrideIgnored overrideOffsetVariable value)

theorem setsSeconds_iff {env : Environment} {n : Nat} : SetsSeconds env n ↔
    ∃ m : UInt64, (env confirmSecondsVariable).bind readUInt64? = some m ∧ m.toNat = n := by
  simp only [Option.bind_eq_some_iff, readUInt64?_eq_some_iff]
  constructor
  · rintro ⟨text, hset, hwrites, hrange⟩
    have hn : (UInt64.ofNat n).toNat = n := UInt64.toNat_ofNat_of_lt' hrange
    exact ⟨.ofNat n, ⟨text, hset, by rwa [hn]⟩, hn⟩
  · rintro ⟨m, ⟨text, hset, hwrites⟩, rfl⟩
    exact ⟨text, hset, hwrites, m.toNat_lt⟩

theorem setsOffset_iff {env : Environment} {n : Int} : SetsOffset env n ↔
    ∃ m : Int64, (env overrideOffsetVariable).bind readInt64? = some m ∧ m.toInt = n := by
  simp only [Option.bind_eq_some_iff, readInt64?_eq_some_iff]
  constructor
  · rintro ⟨text, hset, hwrites, hlow, hhigh⟩
    have hn : (Int64.ofInt n).toInt = n := Int64.toInt_ofInt_of_le hlow hhigh
    exact ⟨.ofInt n, ⟨text, hset, by rwa [hn]⟩, hn⟩
  · rintro ⟨m, ⟨text, hset, hwrites⟩, rfl⟩
    exact ⟨text, hset, hwrites, m.le_toInt, m.toInt_lt⟩

theorem bind_path_eq_some_iff {text? : Option String} {path : Path} :
    text?.bind (some <| some <| Path.mk ·) = some (some path) ↔ text? = some path.text := by
  rcases text? with - | text
  · simp
  · obtain ⟨other⟩ := path
    simp

theorem forall_not_setsSeconds_iff {env : Environment} : (∀ n, ¬ SetsSeconds env n) ↔
    ∀ m, (env confirmSecondsVariable).bind readUInt64? ≠ some m := by
  simp only [setsSeconds_iff, not_exists, not_and]
  exact ⟨fun h m hm ↦ h m.toNat m hm rfl, fun h _ m hm _ ↦ h m hm⟩

theorem forall_not_setsOffset_iff {env : Environment} : (∀ n, ¬ SetsOffset env n) ↔
    ∀ m, (env overrideOffsetVariable).bind readInt64? ≠ some m := by
  simp only [setsOffset_iff, not_exists, not_and]
  exact ⟨fun h m hm ↦ h m.toInt m hm rfl, fun h _ m hm _ ↦ h m hm⟩

theorem mem_environmentEvents_iff {env : Environment} {event : Event} :
    event ∈ environmentEvents env ↔ Ignored env event := by
  rw [environmentEvents, List.mem_append, mem_ignoredEvents_iff, mem_ignoredEvents_iff,
    ← forall_not_setsSeconds_iff, ← forall_not_setsOffset_iff]
  constructor
  · rintro (⟨value, rfl, hset, hnone⟩ | ⟨value, rfl, hset, hnone⟩)
    · exact .seconds hset hnone
    · exact .offset hset hnone
  · rintro (⟨hset, hnone⟩ | ⟨hset, hnone⟩)
    · exact .inl ⟨_, rfl, hset, hnone⟩
    · exact .inr ⟨_, rfl, hset, hnone⟩

theorem nodup_environmentEvents (env : Environment) : (environmentEvents env).Nodup := by
  refine List.nodup_append.2 ⟨nodup_ignoredEvents .., nodup_ignoredEvents .., ?_⟩
  intro event hseconds _ hoffset rfl
  obtain ⟨_, rfl, -⟩ := mem_ignoredEvents_iff.1 hseconds
  obtain ⟨_, heq, -⟩ := mem_ignoredEvents_iff.1 hoffset
  -- The warnings name different variables.
  exact absurd (Event.overrideIgnored.inj heq).1 (by decide)

/-- **The environment sets what it writes, and nothing else.** Take any environment.

* It makes the time to wait `n` seconds, whatever was configured, if and only if its variable is
  decimal digits for `n`, perhaps behind a plus sign, and `n` is below `2 ^ 64`. It makes the lift
  of the overrides `n` if and only if its variable is decimal digits for `n`, perhaps behind a
  sign, and `n` is a signed 64-bit number. It sets the path of the audit log if and only if the
  variable for it is set, and then to its text.
* A variable that is not so leaves its setting as it was.
* The warnings are one for each of the two variables for numbers that is set and holds no such
  number. It names the variable.
* All other settings stay, and applying the environment again changes nothing. -/
theorem environment_sets_what_it_writes (env : Environment) :
    ((∀ n, (∀ s : Settings, (s.withEnvironment env).confirmSeconds.toNat = n) ↔
        SetsSeconds env n) ∧
      (∀ n, (∀ s : Settings, (s.withEnvironment env).policy.overrideOffset.toInt = n) ↔
        SetsOffset env n) ∧
      ∀ path, (∀ s : Settings, (s.withEnvironment env).auditPath = some path) ↔
        env auditPathVariable = some path.text) ∧
    (∀ s : Settings,
      ((∀ n, ¬ SetsSeconds env n) → (s.withEnvironment env).confirmSeconds = s.confirmSeconds) ∧
      ((∀ n, ¬ SetsOffset env n) →
        (s.withEnvironment env).policy.overrideOffset = s.policy.overrideOffset) ∧
      (env auditPathVariable = none → (s.withEnvironment env).auditPath = s.auditPath)) ∧
    ((environmentEvents env).Nodup ∧
      ∀ event, event ∈ environmentEvents env ↔ Ignored env event) ∧
    ∀ s : Settings,
      (∃ seconds offset path, s.withEnvironment env =
        { s with
          confirmSeconds := seconds
          policy := { s.policy with overrideOffset := offset }
          auditPath := path }) ∧
      (s.withEnvironment env).withEnvironment env = s.withEnvironment env := by
  refine ⟨⟨fun n ↦ ?_, fun n ↦ ?_, fun path ↦ ?_⟩, fun s ↦ ⟨fun h ↦ ?_, fun h ↦ ?_, fun h ↦ ?_⟩,
    ⟨nodup_environmentEvents env, fun _ ↦ mem_environmentEvents_iff⟩, fun s ↦ ⟨⟨_, _, _,
      s.withEnvironment_eq env⟩, ?_⟩⟩
  · have hne : (0 : UInt64) ≠ 1 := by decide
    rw [setsSeconds_iff, ← forall_overridden_eq_iff (fun _ _ ↦ UInt64.toNat_inj.1) hne]
    simp only [withEnvironment_eq]
    exact ⟨fun h old ↦ h { blank with confirmSeconds := old }, fun h s ↦ h s.confirmSeconds⟩
  · have hne : (0 : Int64) ≠ 1 := by decide
    rw [setsOffset_iff, ← forall_overridden_eq_iff (fun _ _ ↦ Int64.toInt_inj.1) hne]
    simp only [withEnvironment_eq]
    exact ⟨fun h old ↦
        h { blank with policy := { PolicySettings.blank with overrideOffset := old } },
      fun h s ↦ h s.policy.overrideOffset⟩
  · have hne : none ≠ some path := nofun
    rw [← bind_path_eq_some_iff]
    refine Iff.trans ?_ ((forall_overridden_eq_iff Function.injective_id hne).trans exists_eq_right)
    simp only [withEnvironment_eq]
    exact ⟨fun h old ↦ h { blank with auditPath := old }, fun h s ↦ h s.auditPath⟩
  · rw [withEnvironment_eq]
    exact overridden_of_forall_ne (forall_not_setsSeconds_iff.1 h) _
  · rw [withEnvironment_eq]
    exact overridden_of_forall_ne (forall_not_setsOffset_iff.1 h) _
  · rw [withEnvironment_eq]
    exact overridden_of_forall_ne (by simp [h]) _
  · simp only [withEnvironment_eq, overridden_overridden]

end Settings

end ToolAccess
