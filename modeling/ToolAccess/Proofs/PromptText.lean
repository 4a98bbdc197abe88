import ToolAccess.Confirmation.Prompt
import ToolAccess.Proofs.DistinctTexts

/-!
# The question is about one call

The question put to a human shows the name of the tool between backticks and the arguments behind
it. An agent may choose a name that holds backticks, quotes and the words between name and
arguments, so the question does not show by itself where the name ends. It is unambiguous all the
same.

## What the proof rests on

Suppose that the same question could be cut at two places. The backtick of the later cut then
stands inside the arguments of the earlier one, and as backticks occur in compact texts only inside
strings, the arguments of the later cut begin inside a string. So one text is read twice, from
outside of a string and from inside one, and both readings end outside. But a reader who began
inside is inside wherever the other is outside (`scan_opposite`).
-/

namespace ToolAccess

/-! ### Inside and outside of strings -/

/-- Where a reader of a compact text is. -/
inductive Quoting where
  | outside
  | inside
  /-- Inside of a string and behind a backslash. -/
  | escaped
  deriving DecidableEq

namespace Quoting

/-- Where a reader is behind a character. Outside of strings there is no backslash and no
backtick. -/
def next : Quoting → Char → Option Quoting
  | outside, c => if c = '"' then some inside else if c = '\\' ∨ c = '`' then none else some outside
  | inside, c => if c = '"' then some outside else if c = '\\' then some escaped else some inside
  | escaped, _ => some inside

/-- Where a reader is behind a text. -/
def scan (q : Quoting) (cs : List Char) : Option Quoting := cs.foldlM next q

theorem scan_cons (q : Quoting) (c : Char) (cs : List Char) :
    q.scan (c :: cs) = (q.next c).bind fun p ↦ p.scan cs := rfl

theorem scan_append (q : Quoting) (l r : List Char) :
    q.scan (l ++ r) = (q.scan l).bind fun p ↦ p.scan r :=
  List.foldlM_append

/-- Behind an escaped character the string goes on. -/
theorem scan_escapeChar (c : Char) : inside.scan (Json.escapeChar c) = some inside := by
  have hhex {n : Nat} (hn : n < 16) : inside.next (Json.hexDigit n) = some inside := by
    revert n
    decide
  have h := Json.escapedAs_escapeChar c
  generalize Json.escapeChar c = cs at h
  cases h with
  | short h => rfl
  | unit h =>
    show (inside.next (Json.hexDigit (c.toNat / 16))).bind (fun p ↦ p.scan _) = some inside
    rw [hhex (by omega), Option.bind_some, scan_cons, hhex (by omega)]
    rfl
  | plain h hquote hslash =>
    rw [scan_cons, next, if_neg hquote, if_neg hslash]
    rfl

theorem scan_flatMap_escapeChar (s : List Char) :
    inside.scan (s.flatMap Json.escapeChar) = some inside := by
  induction s with
  | nil => rfl
  | cons c s ih => rw [List.flatMap_cons, scan_append, scan_escapeChar, Option.bind_some, ih]

theorem scan_quoteChars (s : List Char) : outside.scan (Json.quoteChars s) = some outside := by
  rw [Json.quoteChars, scan_cons]
  show inside.scan _ = _
  rw [scan_append, scan_flatMap_escapeChar]
  rfl

/-- Texts are read from outside of strings to outside. -/
theorem scan_woven {cs : List Char} (h : Json.Woven cs) : outside.scan cs = some outside := by
  induction h with
  | nil => rfl
  | @bare c rest hc _ ih =>
    simp only [Json.isBare, Bool.and_eq_true, bne_iff_ne] at hc
    obtain ⟨⟨⟨hquote, hslash⟩, htick⟩, -⟩ := hc
    rw [scan_cons, next, if_neg hquote, if_neg (not_or.2 ⟨hslash, htick⟩), Option.bind_some, ih]
  | quoted s _ ih => rw [scan_append, scan_quoteChars, Option.bind_some, ih]

theorem scan_compactChars (j : Json) : outside.scan j.compactChars = some outside :=
  scan_woven (Json.woven_compactChars j)

/-- One reader is outside of a string where the other one is inside. -/
def Opposite (p q : Quoting) : Prop := p = outside ∧ q = inside ∨ p = inside ∧ q = outside

theorem Opposite.symm {p q : Quoting} (h : p.Opposite q) : q.Opposite p :=
  Or.symm (h.imp And.symm And.symm)

theorem Opposite.next {p q p' q' : Quoting} {c : Char} (h : p.Opposite q)
    (hp : p.next c = some p') (hq : q.next c = some q') : p'.Opposite q' := by
  have hforth {p' q' : Quoting} (hp : outside.next c = some p') (hq : inside.next c = some q') :
      p'.Opposite q' := by
    simp only [Quoting.next] at hp hq
    by_cases hquote : c = '"'
    · rw [if_pos hquote] at hp hq
      exact Or.inr ⟨(Option.some.inj hp).symm, (Option.some.inj hq).symm⟩
    rw [if_neg hquote] at hp hq
    by_cases hother : c = '\\' ∨ c = '`'
    · rw [if_pos hother] at hp
      cases hp
    · rw [if_neg hother] at hp
      rw [if_neg (not_or.1 hother).1] at hq
      exact Or.inl ⟨(Option.some.inj hp).symm, (Option.some.inj hq).symm⟩
  rcases h with ⟨rfl, rfl⟩ | ⟨rfl, rfl⟩
  · exact hforth hp hq
  · exact (hforth hq hp).symm

/-- **Readers that begin opposite stay opposite**, as long as both go on. -/
theorem scan_opposite {p q p' q' : Quoting} {cs : List Char} (h : p.Opposite q)
    (hp : p.scan cs = some p') (hq : q.scan cs = some q') : p'.Opposite q' := by
  induction cs generalizing p q with
  | nil =>
    obtain rfl := Option.some.inj hp
    obtain rfl := Option.some.inj hq
    exact h
  | cons c cs ih =>
    rw [scan_cons, Option.bind_eq_some_iff] at hp hq
    obtain ⟨p₁, hpc, hp⟩ := hp
    obtain ⟨q₁, hqc, hq⟩ := hq
    exact ih (h.next hpc hqc) hp hq

end Quoting

/-! ### Where the name ends -/

/-- What stands between the name and the arguments, behind the backtick. -/
def behindName : List Char :=
  [' ', 'w', 'i', 't', 'h', ' ', 'a', 'r', 'g', 'u', 'm', 'e', 'n', 't', 's', ' ']

/-- A compact text does not end with a backtick, the words behind a name, and another compact
text. -/
theorem compactChars_ne_append (a b : Json) (front : List Char) :
    a.compactChars ≠ front ++ '`' :: (behindName ++ b.compactChars) := by
  intro h
  have hall := Quoting.scan_compactChars a
  rw [h, Quoting.scan_append, Option.bind_eq_some_iff] at hall
  obtain ⟨q, -, hall⟩ := hall
  rw [Quoting.scan_cons, Option.bind_eq_some_iff] at hall
  obtain ⟨p, htick, hall⟩ := hall
  -- Behind a backtick a reader is inside of a string.
  obtain rfl : p = .inside := by
    cases q with
    | outside => cases htick
    | inside | escaped => exact (Option.some.inj htick).symm
  rw [Quoting.scan_append] at hall
  have hwords : Quoting.inside.scan behindName = some .inside := by decide
  rw [hwords, Option.bind_some] at hall
  have hopposite := Quoting.scan_opposite (Or.inl ⟨rfl, rfl⟩) (Quoting.scan_compactChars b) hall
  rcases hopposite with ⟨-, h⟩ | ⟨h, -⟩ <;> cases h

/-- Name and arguments are read off the text in which they stand one behind the other. -/
theorem name_eq_of_append_eq {s t : List Char} {a b : Json} (hlength : s.length ≤ t.length)
    (h : s ++ '`' :: (behindName ++ a.compactChars) = t ++ '`' :: (behindName ++ b.compactChars)) :
    s = t := by
  obtain ⟨q, rfl, hq⟩ : ∃ q, t = s ++ q ∧
      '`' :: (behindName ++ a.compactChars) = q ++ '`' :: (behindName ++ b.compactChars) := by
    rcases List.append_eq_append_iff.1 h with ⟨q, rfl, hq⟩ | ⟨q, rfl, hq⟩
    · exact ⟨q, rfl, hq⟩
    · obtain rfl : q = [] := by
        rw [List.length_append] at hlength
        exact List.eq_nil_of_length_eq_zero (by omega)
      exact ⟨[], by simp, by simpa using hq.symm⟩
  rcases q with - | ⟨c, q⟩
  · exact (List.append_nil s).symm
  · -- The second backtick stands behind the words, for there is none in them.
    exfalso
    rcases List.append_eq_append_iff.1 (List.cons.inj hq).2 with ⟨r, rfl, hr⟩ | ⟨r, hwords, hr⟩
    · exact compactChars_ne_append a b r hr
    · rcases r with - | ⟨d, r⟩
      · exact compactChars_ne_append a b [] hr.symm
      · have hnone : '`' ∉ behindName := by decide
        rw [List.cons_append] at hr
        rw [hwords, (List.cons.inj hr).1] at hnone
        exact hnone (by simp)

theorem toList_confirmationPrompt (tool : String) (arguments : Json) :
    (confirmationPrompt tool arguments).toList = "Allow the agent to run `".toList ++
      (tool.toList ++ '`' :: (behindName ++ arguments.compactChars) ++ ['?']) := by
  have hparts (opening between ending text : String) :
      (opening ++ tool ++ between ++ text ++ ending).toList =
        opening.toList ++ (tool.toList ++ (between.toList ++ text.toList) ++ ending.toList) := by
    simp only [String.toList_append, List.append_assoc]
  have hbetween : "` with arguments ".toList = '`' :: behindName := by simp [behindName]
  have hend : "?".toList = ['?'] := by simp
  have harguments : arguments.compact.toList = arguments.compactChars := String.toList_ofList
  have hbehind : tool.toList ++ ("` with arguments ".toList ++ arguments.compact.toList) ++
      "?".toList = tool.toList ++ '`' :: (behindName ++ arguments.compactChars) ++ ['?'] := by
    rw [hbetween, hend, harguments]
    rfl
  exact (hparts _ _ _ _).trans (congrArg ("Allow the agent to run `".toList ++ ·) hbehind)

/-- **A question is about one call.** Two calls are asked about in the same words exactly when they
are calls of one tool with one text of arguments. If there are no floating-point numbers in the
arguments, one text is one value. -/
theorem confirmationPrompt_eq_iff (tool₁ tool₂ : String) (arguments₁ arguments₂ : Json) :
    (confirmationPrompt tool₁ arguments₁ = confirmationPrompt tool₂ arguments₂ ↔
      tool₁ = tool₂ ∧ arguments₁.compact = arguments₂.compact) ∧
    (arguments₁.FloatFree → arguments₂.FloatFree →
      (confirmationPrompt tool₁ arguments₁ = confirmationPrompt tool₂ arguments₂ ↔
        tool₁ = tool₂ ∧ arguments₁ = arguments₂)) := by
  have hparts (h : confirmationPrompt tool₁ arguments₁ = confirmationPrompt tool₂ arguments₂) :
      tool₁ = tool₂ ∧ arguments₁.compactChars = arguments₂.compactChars := by
    have htext := congrArg String.toList h
    rw [toList_confirmationPrompt, toList_confirmationPrompt] at htext
    replace htext := List.append_cancel_right (List.append_cancel_left htext)
    have hname : tool₁.toList = tool₂.toList := by
      rcases Nat.le_total tool₁.toList.length tool₂.toList.length with hle | hle
      · exact name_eq_of_append_eq hle htext
      · exact (name_eq_of_append_eq hle htext.symm).symm
    rw [hname] at htext
    have hbehind := (List.cons.inj (List.append_cancel_left htext)).2
    exact ⟨String.toList_inj.1 hname, List.append_cancel_left hbehind⟩
  refine ⟨⟨fun h ↦ ?_, ?_⟩, fun hfree₁ hfree₂ ↦ ⟨fun h ↦ ?_, ?_⟩⟩
  · obtain ⟨htool, harguments⟩ := hparts h
    exact ⟨htool, congrArg String.ofList harguments⟩
  · rintro ⟨rfl, harguments⟩
    exact congrArg (fun text ↦ "Allow the agent to run `" ++ tool₁ ++ "` with arguments " ++
      text ++ "?") harguments
  · obtain ⟨htool, harguments⟩ := hparts h
    exact ⟨htool, Json.compactChars_inj hfree₁ hfree₂ harguments⟩
  · rintro ⟨rfl, rfl⟩
    rfl

/-- A name that goes on like a question about another tool makes another question. -/
theorem forgedName_makes_another_prompt :
    confirmationPrompt "send" (.object [("to", .string "` with arguments \x7b\x7d")]) ≠
      confirmationPrompt "send` with arguments \x7b\"to\":\"" (.object []) := by
  have hsend : Json.FloatFree (.object [("to", .string "` with arguments \x7b\x7d")]) :=
    .object (List.forall_mem_singleton.2 (.string _))
  have hnone : Json.FloatFree (.object []) := .object fun _ h ↦ absurd h List.not_mem_nil
  intro h
  have hsame := ((confirmationPrompt_eq_iff _ _ _ _).2 hsend hnone).1 h
  exact absurd hsame.1 (by decide)

end ToolAccess
