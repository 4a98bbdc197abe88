import Mathlib.Data.List.Basic
import ToolAccess.Glob.Search

/-!
# The search for a way to cut a name

`Glob.search` decides `Glob.Denotes` by backtracking: for each run it tries the possible rests of
the name from the longest on. It does not try all of them. When an element finds the name used up,
the search is given up as a whole, on the ground that shorter rests leave even less.

## When giving up is right

That ground is sound for `*`, which tries every rest. It is not for `**`, which tries only the rests
that begin a component: the search behind a `*` may be given up by a `**` that never looked at rests
in between. What saves it is where a `**` may stand. In a pattern that can be read it stands at the
beginning or behind a `/` (`Placed`), so the names that reach it begin a component themselves.

So each position of a pattern has its own rests, all of them or those that begin a component, and
the invariant is about these only (`Decides`): the search succeeds exactly on the names that the
elements stand for, and when it is given up, no rest of the name at that position is such a name.

* `Decides.run`: a run keeps the invariant, since the rests that it tries are rests of one another.
* `Decides.single`: so does an element for one character, since a rest behind a `/` begins a
  component.

Together they give `search_eq_hit_iff`.
-/

namespace ToolAccess.Glob

/-! ### Rests of a name -/

/-- What may be left of a name behind a piece that is empty, ends after a character that `ends`
accepts, or is the whole name. -/
def Rest (ends : Char → Bool) (s t : List Char) : Prop :=
  t = s ∨ t = [] ∨ ∃ c, ends c = true ∧ c :: t <:+ s

section Rest

variable {ends : Char → Bool} {s t u : List Char}

theorem Rest.refl (ends : Char → Bool) (s : List Char) : Rest ends s s := Or.inl rfl

theorem Rest.isSuffix (h : Rest ends s t) : t <:+ s := by
  rcases h with rfl | rfl | ⟨c, -, h⟩
  · exact List.suffix_refl _
  · exact List.nil_suffix
  · exact (List.suffix_cons c t).trans h

theorem Rest.trans (hst : Rest ends s t) (htu : Rest ends t u) : Rest ends s u := by
  rcases htu with rfl | rfl | ⟨c, hc, h⟩
  · exact hst
  · exact Or.inr (Or.inl rfl)
  · exact Or.inr (Or.inr ⟨c, hc, h.trans hst.isSuffix⟩)

/-- If a piece may end anywhere, every suffix may be left. -/
theorem rest_true_iff : Rest (fun _ ↦ true) s t ↔ t <:+ s := by
  refine ⟨Rest.isSuffix, ?_⟩
  rintro ⟨piece, rfl⟩
  rcases List.eq_nil_or_concat piece with rfl | ⟨front, c, rfl⟩
  · exact Or.inl rfl
  · exact Or.inr (Or.inr ⟨c, rfl, front, by simp⟩)

theorem Rest.weaken (h : Rest ends s t) : Rest (fun _ ↦ true) s t :=
  rest_true_iff.2 h.isSuffix

end Rest

/-! ### The rests that are tried -/

/-- The rests behind the pieces that are not empty, in the order in which they are tried. -/
def breaks (ends : Char → Bool) : List Char → List (List Char)
  | [] => [[]]
  | c :: s => if ends c then s :: breaks ends s else breaks ends s

/-- The outcome at the first rest at which the search does not miss. -/
def firstDecided (next : List Char → Outcome) : List (List Char) → Outcome
  | [] => .miss
  | t :: rests =>
    match next t with
    | .miss => firstDecided next rests
    | found => found

theorem growPiece_eq (next : List Char → Outcome) (ends : Char → Bool) (s : List Char) :
    growPiece next ends s = firstDecided next (breaks ends s) := by
  induction s with
  | nil =>
    rw [growPiece, breaks, firstDecided]
    rcases next [] <;> rfl
  | cons c s ih =>
    rw [growPiece, breaks, ih]
    split <;> rfl

theorem tryPieces_eq (next : List Char → Outcome) (ends : Char → Bool) (s : List Char) :
    tryPieces next ends s = firstDecided next (s :: breaks ends s) := by
  rw [tryPieces, growPiece_eq]
  rfl

theorem mem_breaks_iff {ends : Char → Bool} {s t : List Char} :
    t ∈ breaks ends s ↔ t = [] ∨ ∃ c, ends c = true ∧ c :: t <:+ s := by
  induction s with
  | nil => simp [breaks]
  | cons d s ih =>
    simp only [breaks, List.suffix_cons_iff, List.cons.injEq]
    by_cases hd : ends d = true
    · rw [if_pos hd, List.mem_cons, ih]
      constructor
      · rintro (rfl | rfl | ⟨c, hc, h⟩)
        · exact Or.inr ⟨d, hd, Or.inl ⟨rfl, rfl⟩⟩
        · exact Or.inl rfl
        · exact Or.inr ⟨c, hc, Or.inr h⟩
      · rintro (rfl | ⟨c, hc, ⟨-, rfl⟩ | h⟩)
        · exact Or.inr (Or.inl rfl)
        · exact Or.inl rfl
        · exact Or.inr (Or.inr ⟨c, hc, h⟩)
    · rw [if_neg hd, ih]
      refine or_congr_right (exists_congr fun c ↦ and_congr_right fun hc ↦ ?_)
      rw [or_iff_right]
      rintro ⟨rfl, -⟩
      exact hd hc

theorem mem_cons_breaks_iff {ends : Char → Bool} {s t : List Char} :
    t ∈ s :: breaks ends s ↔ Rest ends s t := by
  rw [List.mem_cons, mem_breaks_iff, Rest]

/-- Of the rests that are tried, the later ones are rests of the earlier ones. -/
theorem pairwise_breaks (ends : Char → Bool) (s : List Char) :
    (s :: breaks ends s).Pairwise (Rest ends) := by
  induction s with
  | nil => simp [breaks, Rest]
  | cons c s ih =>
    refine List.pairwise_cons.2 ⟨fun t ht ↦ mem_cons_breaks_iff.1 (List.mem_cons_of_mem _ ht), ?_⟩
    rw [breaks]
    split
    · exact ih
    · exact (List.pairwise_cons.1 ih).2

/-! ### The invariant of the search -/

/-- The search succeeds exactly on the names that have the property, and is given up only where no
rest of the name has it. -/
structure Decides (ends : Char → Bool) (next : List Char → Outcome) (D : List Char → Prop) :
    Prop where
  hit_iff : ∀ s, next s = .hit ↔ D s
  exhausted : ∀ s, next s = .exhausted → ∀ t, Rest ends s t → ¬ D t

namespace Decides

variable {ends : Char → Bool} {next : List Char → Outcome} {D : List Char → Prop}

theorem congr {E : List Char → Prop} (h : Decides ends next D) (hD : ∀ s, D s ↔ E s) :
    Decides ends next E :=
  ⟨fun s ↦ (h.hit_iff s).trans (hD s), fun s hs t ht ↦ mt (hD t).2 (h.exhausted s hs t ht)⟩

/-- Fewer rests have to be excluded. -/
theorem weaken (h : Decides (fun _ ↦ true) next D) (ends : Char → Bool) : Decides ends next D :=
  ⟨h.hit_iff, fun s hs t ht ↦ h.exhausted s hs t ht.weaken⟩

/-- Trying rests of rests one after the other finds one with the property if there is one, also
where it is given up before the end. -/
theorem firstDecided_eq_hit_iff (h : Decides ends next D) {rests : List (List Char)}
    (hrests : rests.Pairwise (Rest ends)) :
    firstDecided next rests = .hit ↔ ∃ t ∈ rests, D t := by
  induction rests with
  | nil => simp [firstDecided]
  | cons a rests ih =>
    obtain ⟨hfirst, hrest⟩ := List.pairwise_cons.1 hrests
    rw [firstDecided]
    rcases ha : next a with - | - | -
    · exact iff_of_true rfl ⟨a, List.mem_cons_self, (h.hit_iff a).1 ha⟩
    · have hnot : ¬ D a := fun hD ↦ by
        rw [(h.hit_iff a).2 hD] at ha
        cases ha
      simp [ih hrest, hnot]
    -- Given up: what has not been tried yet is a rest of the name at hand.
    · refine iff_of_false Outcome.noConfusion ?_
      rintro ⟨t, ht, hD⟩
      rcases List.mem_cons.1 ht with rfl | ht
      · exact h.exhausted t ha t (Rest.refl ends t) hD
      · exact h.exhausted a ha t (hfirst t ht) hD

/-- **A run keeps the invariant**, if what follows excludes the rests that the run tries. -/
theorem run (h : Decides ends next D) :
    Decides ends (tryPieces next ends) fun s ↦ ∃ t, Rest ends s t ∧ D t := by
  have hhit : ∀ s, tryPieces next ends s = .hit ↔ ∃ t, Rest ends s t ∧ D t := by
    intro s
    rw [tryPieces_eq, h.firstDecided_eq_hit_iff (pairwise_breaks ends s)]
    exact exists_congr fun t ↦ and_congr_left fun _ ↦ mem_cons_breaks_iff
  refine ⟨hhit, fun s hs t ht ⟨u, hu, hD⟩ ↦ ?_⟩
  rw [(hhit s).2 ⟨u, ht.trans hu, hD⟩] at hs
  cases hs

/-- **An element for one character keeps the invariant**, if the characters that it accepts end a
piece for what follows. It then excludes every rest, whatever follows excludes. -/
theorem single (h : Decides ends next D) {accepts : Char → Bool}
    (haccepts : ∀ c, accepts c = true → ends c = true) {step : List Char → Outcome}
    (hnil : step [] = .exhausted)
    (hcons : ∀ c s, step (c :: s) = if accepts c then next s else .miss) :
    Decides (fun _ ↦ true) step fun s ↦ ∃ c t, s = c :: t ∧ accepts c = true ∧ D t := by
  constructor
  · rintro (- | ⟨c, s⟩)
    · simp [hnil]
    · rw [hcons]
      by_cases hc : accepts c = true
      · simp [hc, h.hit_iff]
      · simp [hc]
  · rintro s hs _ ht ⟨d, t, rfl, hd, hD⟩
    rcases s with - | ⟨c, s⟩
    · exact absurd (List.suffix_nil.1 ht.isSuffix) (List.cons_ne_nil d t)
    · rw [hcons] at hs
      by_cases hc : accepts c = true
      · rw [if_pos hc] at hs
        refine h.exhausted s hs t ?_ hD
        rcases List.suffix_cons_iff.1 ht.isSuffix with heq | hsuffix
        · exact Or.inl (List.cons.inj heq).2
        · exact Or.inr (Or.inr ⟨d, haccepts d hd, hsuffix⟩)
      · rw [if_neg hc] at hs
        cases hs

end Decides

/-! ### What the elements stand for -/

theorem denotes_nil_iff {s : List Char} : Denotes [] s ↔ s = [] :=
  ⟨fun h ↦ by cases h; rfl, fun h ↦ h ▸ .nil⟩

theorem denotes_anySequence_iff {es : List Element} {s : List Char} :
    Denotes (.anySequence :: es) s ↔ ∃ t, Rest (fun _ ↦ true) s t ∧ Denotes es t := by
  simp only [rest_true_iff]
  constructor
  · intro h
    cases h with
    | char hc _ => cases hc
    | sequence piece h => exact ⟨_, List.suffix_append piece _, h⟩
  · rintro ⟨t, ⟨piece, rfl⟩, h⟩
    exact .sequence piece h

theorem denotes_anyComponents_iff {es : List Element} {s : List Char} :
    Denotes (.anyComponents :: es) s ↔ ∃ t, Rest (· == separator) s t ∧ Denotes es t := by
  constructor
  · intro h
    cases h with
    | char hc _ => cases hc
    | noComponents h => exact ⟨s, Rest.refl _ s, h⟩
    | components piece h =>
      exact ⟨_, Or.inr (Or.inr ⟨separator, beq_self_eq_true _, List.suffix_append piece _⟩), h⟩
    | restOfName piece h => exact ⟨[], Or.inr (Or.inl rfl), h⟩
  · rintro ⟨t, rfl | rfl | ⟨c, hc, piece, rfl⟩, h⟩
    · exact .noComponents h
    · exact .restOfName s h
    · rw [beq_iff_eq] at hc
      exact hc ▸ .components piece h

/-- The element stands for one character. -/
def Element.IsSingle : Element → Prop
  | .literal _ | .anyChar | .within _ | .without _ => True
  | .anySequence | .anyComponents => False

theorem denotes_single_iff {e : Element} (he : e.IsSingle) {es : List Element} {s : List Char} :
    Denotes (e :: es) s ↔ ∃ c t, s = c :: t ∧ e.accepts c = true ∧ Denotes es t := by
  constructor
  · intro h
    cases h with
    | char hc h => exact ⟨_, _, rfl, hc, h⟩
    | sequence | noComponents | components | restOfName => exact he.elim
  · rintro ⟨c, t, rfl, hc, h⟩
    exact .char hc h

theorem search_single_nil {e : Element} (he : e.IsSingle) (es : List Element) :
    search (e :: es) [] = .exhausted := by
  cases e with
  | literal | anyChar | within | without => rfl
  | anySequence | anyComponents => exact he.elim

theorem search_single_cons {e : Element} (he : e.IsSingle) (es : List Element) (c : Char)
    (s : List Char) : search (e :: es) (c :: s) = if e.accepts c then search es s else .miss := by
  cases e with
  | literal | anyChar | within | without => rfl
  | anySequence | anyComponents => exact he.elim

/-! ### Where `**` may stand -/

/-- Behind the element a path component begins. -/
def Element.endsComponent : Element → Bool
  | .literal c => c == separator
  | .anyComponents => true
  | _ => false

/-- Each `anyComponents` stands where a path component begins; `begins` says whether one does in
front of the elements. -/
def Placed (begins : Bool) : List Element → Prop
  | [] => True
  | e :: es => (e = .anyComponents → begins = true) ∧ Placed e.endsComponent es

/-- The characters behind which a name may be cut at a position: any, or a separator where the
position begins a component. -/
def cutsAt (begins : Bool) (c : Char) : Bool := !begins || c == separator

theorem Element.cutsAt_of_accepts {e : Element} (he : e.IsSingle) {c : Char}
    (hc : e.accepts c = true) : cutsAt e.endsComponent c = true := by
  cases e with
  | literal d =>
    obtain rfl : d = c := beq_iff_eq.1 hc
    exact Bool.not_or_self (d == separator)
  | anyChar | within | without => rfl
  | anySequence | anyComponents => exact he.elim

/-- **The search decides what placed elements stand for**, by induction on the elements. What the
rest of the elements excludes is told by the element in front of it. -/
theorem decides_search {es : List Element} {begins : Bool} (h : Placed begins es) :
    Decides (cutsAt begins) (search es) (Denotes es) := by
  induction es generalizing begins with
  | nil =>
    constructor
    · rintro (- | ⟨c, s⟩) <;> simp [search, denotes_nil_iff]
    · rintro (- | ⟨c, s⟩) hs <;> cases hs
  | cons e es ih =>
    obtain ⟨hplaced, hes⟩ := h
    have hnext := ih hes
    by_cases he : e.IsSingle
    · have hsingle := hnext.single (fun c ↦ e.cutsAt_of_accepts he) (search_single_nil he es)
        (search_single_cons he es)
      exact (hsingle.congr fun s ↦ (denotes_single_iff he).symm).weaken _
    · cases e with
      | anySequence =>
        have hrun : Decides (fun _ ↦ true) (search (.anySequence :: es)) _ := hnext.run
        exact (hrun.congr fun s ↦ denotes_anySequence_iff.symm).weaken _
      | anyComponents =>
        obtain rfl : begins = true := hplaced rfl
        have hrun : Decides (· == separator) (search (.anyComponents :: es)) _ := hnext.run
        exact hrun.congr fun s ↦ denotes_anyComponents_iff.symm
      | literal | anyChar | within | without => exact absurd trivial he

theorem search_eq_hit_iff {es : List Element} (h : Placed true es) {s : List Char} :
    search es s = .hit ↔ Denotes es s :=
  (decides_search h).hit_iff s

/-- Behind a `*` the search would give up too early: `**` finds the name `ab` used up, without the
rest `b` having been tried. -/
example : search [.anySequence, .anyComponents, .literal 'b'] ['a', 'b'] = .exhausted ∧
    Denotes [.anySequence, .anyComponents, .literal 'b'] ['a', 'b'] :=
  ⟨by decide, .sequence ['a'] (.noComponents (.char rfl .nil))⟩

end ToolAccess.Glob
