import ToolAccess.Proofs.GlobSearch

/-!
# What a pattern text stands for

A pattern is written as a text and matched against names. Between the two stand a reader, which
turns the text into elements, and a search. Here both are compared with the meaning of the text
itself: `Spells` says how a text spells elements, one after the other, and `Glob.Denotes` which
names the elements stand for.

## The grammar

`Spells` is a grammar, not a reader: it has one rule for each way of writing an element, it keeps no
position and no elements read so far, and every `**` in the text is an element of its own. Its flag
says whether a path component begins at this point of the text, which is the one thing about what
stands in front that matters. A text spells at most one list of elements (`Spells.unique`).

## The reader

The reader agrees with the grammar in what it accepts (`exists_spells_of_readElements`,
`readElements_of_spells`). Its elements differ in one respect: it leaves out a `**` directly behind
another one. That changes neither which names the elements stand for nor whether each `**` stands at
the beginning of a component (`foldl_push_iff`), and the second is what the search needs.

The main result is `NamePattern.parse_gives_denotation`.
-/

namespace ToolAccess.Glob

/-! ### The grammar of pattern texts -/

/-- The text spells the elements, one after the other. The flag says whether a path component begins
in front of the text. -/
inductive Spells : Bool → List Char → List Element → Prop where
  | nil {begins : Bool} : Spells begins [] []
  | anyChar {begins : Bool} {text : List Char} {es : List Element} :
      Spells false text es → Spells begins ('?' :: text) (.anyChar :: es)
  | anySequence {begins : Bool} {text : List Char} {es : List Element} :
      text.head? ≠ some '*' → Spells false text es →
      Spells begins ('*' :: text) (.anySequence :: es)
  | lastComponents : Spells true ['*', '*'] [.anyComponents]
  | anyComponents {text : List Char} {es : List Element} :
      Spells true text es → Spells true ('*' :: '*' :: separator :: text) (.anyComponents :: es)
  | within {begins : Bool} {first : Char} {inside text : List Char} {es : List Element} :
      first ≠ '!' → ']' ∉ inside → Spells false text es →
      Spells begins ('[' :: first :: (inside ++ ']' :: text))
        (.within (.ofChars (first :: inside)) :: es)
  | without {begins : Bool} {first : Char} {inside text : List Char} {es : List Element} :
      ']' ∉ inside → Spells false text es →
      Spells begins ('[' :: '!' :: first :: (inside ++ ']' :: text))
        (.without (.ofChars (first :: inside)) :: es)
  | literal {begins : Bool} {c : Char} {text : List Char} {es : List Element} :
      c ≠ '?' → c ≠ '*' → c ≠ '[' → Spells (c == separator) text es →
      Spells begins (c :: text) (.literal c :: es)

theorem splitAtBracket_append {inside : List Char} (h : ']' ∉ inside) (after : List Char) :
    splitAtBracket (inside ++ ']' :: after) = some (inside, after) := by
  induction inside with
  | nil => rfl
  | cons c inside ih =>
    rw [List.mem_cons, not_or] at h
    rw [List.cons_append, splitAtBracket, ih h.2]
    · rfl
    · exact Ne.symm h.1

theorem eq_of_splitAtBracket {s inside after : List Char}
    (h : splitAtBracket s = some (inside, after)) :
    s = inside ++ ']' :: after ∧ ']' ∉ inside := by
  fun_induction splitAtBracket s generalizing inside with
  | case1 => cases h
  | case2 rest =>
    cases h
    exact ⟨rfl, List.not_mem_nil⟩
  | case3 c rest hc ih =>
    simp only [Option.map_eq_some_iff, Prod.exists, Prod.mk.injEq] at h
    obtain ⟨inside', _, hrest, rfl, rfl⟩ := h
    obtain ⟨rfl, hinside⟩ := ih hrest
    exact ⟨rfl, by simp [hinside, Ne.symm hc]⟩

/-- A text is cut at its first bracket in one way only. -/
theorem inside_unique {inside inside' text text' : List Char} (h : ']' ∉ inside)
    (h' : ']' ∉ inside') (heq : inside ++ ']' :: text = inside' ++ ']' :: text') :
    inside = inside' ∧ text = text' := by
  have hcut := splitAtBracket_append h text
  rw [heq, splitAtBracket_append h'] at hcut
  simpa [eq_comm] using hcut

theorem Spells.of_within {begins : Bool} {first : Char} {inside text : List Char}
    {es : List Element} (hfirst : first ≠ '!') (hinside : ']' ∉ inside)
    (h : Spells begins ('[' :: first :: (inside ++ ']' :: text)) es) :
    ∃ fs, es = .within (.ofChars (first :: inside)) :: fs ∧ Spells false text fs := by
  generalize htext : '[' :: first :: (inside ++ ']' :: text) = whole at h
  cases h with
  | within _ hinside' h =>
    obtain ⟨rfl, hrest⟩ := List.cons.inj (List.cons.inj htext).2
    obtain ⟨rfl, rfl⟩ := inside_unique hinside hinside' hrest
    exact ⟨_, rfl, h⟩
  | without => exact absurd (List.cons.inj (List.cons.inj htext).2).1 hfirst
  | literal _ _ hb => exact absurd (List.cons.inj htext).1.symm hb
  | nil | anyChar | anySequence | lastComponents | anyComponents => simp at htext

theorem Spells.of_without {begins : Bool} {first : Char} {inside text : List Char}
    {es : List Element} (hinside : ']' ∉ inside)
    (h : Spells begins ('[' :: '!' :: first :: (inside ++ ']' :: text)) es) :
    ∃ fs, es = .without (.ofChars (first :: inside)) :: fs ∧ Spells false text fs := by
  generalize htext : '[' :: '!' :: first :: (inside ++ ']' :: text) = whole at h
  cases h with
  | within hfirst => exact absurd (List.cons.inj (List.cons.inj htext).2).1.symm hfirst
  | without hinside' h =>
    obtain ⟨rfl, hrest⟩ := List.cons.inj (List.cons.inj (List.cons.inj htext).2).2
    obtain ⟨rfl, rfl⟩ := inside_unique hinside hinside' hrest
    exact ⟨_, rfl, h⟩
  | literal _ _ hb => exact absurd (List.cons.inj htext).1.symm hb
  | nil | anyChar | anySequence | lastComponents | anyComponents => simp at htext

/-- A text spells at most one list of elements. -/
theorem Spells.unique {begins : Bool} {text : List Char} {es fs : List Element}
    (h : Spells begins text es) (h' : Spells begins text fs) : es = fs := by
  induction h generalizing fs with
  | nil => cases h'; rfl
  | anyChar _ ih =>
    cases h' with
    | anyChar h' => rw [ih h']
    | literal hc => exact absurd rfl hc
  | anySequence hnext _ ih =>
    cases h' with
    | anySequence _ h' => rw [ih h']
    | lastComponents => exact absurd rfl hnext
    | anyComponents _ => exact absurd rfl hnext
    | literal _ hc => exact absurd rfl hc
  | lastComponents =>
    cases h' with
    | anySequence hnext _ => exact absurd rfl hnext
    | lastComponents => rfl
    | literal _ hc => exact absurd rfl hc
  | anyComponents _ ih =>
    cases h' with
    | anySequence hnext _ => exact absurd rfl hnext
    | anyComponents h' => rw [ih h']
    | literal _ hc => exact absurd rfl hc
  | within hfirst hinside _ ih =>
    obtain ⟨fs, rfl, hfs⟩ := h'.of_within hfirst hinside
    rw [ih hfs]
  | without hinside _ ih =>
    obtain ⟨fs, rfl, hfs⟩ := h'.of_without hinside
    rw [ih hfs]
  | literal hq hs hb _ ih =>
    cases h' with
    | literal _ _ _ h' => rw [ih h']
    | anyChar => exact absurd rfl hq
    | anySequence => exact absurd rfl hs
    | lastComponents => exact absurd rfl hs
    | anyComponents => exact absurd rfl hs
    | within => exact absurd rfl hb
    | without => exact absurd rfl hb

/-- In a spelled list each `**` stands where a component begins. -/
theorem Spells.placed {begins : Bool} {text : List Char} {es : List Element}
    (h : Spells begins text es) : Placed begins es := by
  induction h with
  | nil => exact trivial
  | lastComponents => exact ⟨fun _ ↦ rfl, trivial⟩
  | anyComponents _ ih => exact ⟨fun _ ↦ rfl, ih⟩
  | anyChar _ ih | anySequence _ _ ih | within _ _ _ ih | without _ _ ih | literal _ _ _ _ ih =>
    exact ⟨Element.noConfusion, ih⟩

/-! ### The reader -/

/-- Adds an element to those read so far, the latest first. -/
def push (done : List Element) : Element → List Element
  | .anyComponents => pushComponents done
  | e => e :: done

/-- If a character can have neither a text nor nothing behind it, it is not there. -/
theorem ne_of_no_text {c d : Char} {text : List Char}
    (hcons : ∀ (e : Char) (rest : List Char), c = d → text = e :: rest → False)
    (hnil : c = d → text = [] → False) : c ≠ d := fun h ↦ by
  cases text with
  | nil => exact hnil h rfl
  | cons e rest => exact hcons e rest h rfl

/-- What the reader accepts is spelled, and it gives the spelled elements as `push` puts them
together. -/
theorem exists_spells_of_readElements {pos : Nat} {prev : Option Char} {done es : List Element}
    {text : List Char} (h : readElements pos prev done text = .ok es) :
    ∃ fs, Spells (beginsComponent prev) text fs ∧ es = (fs.foldl push done).reverse := by
  fun_induction readElements pos prev done text with
  | case1 pos prev done =>
    cases h
    exact ⟨[], .nil, rfl⟩
  | case2 pos prev done text ih =>
    obtain ⟨fs, hfs, rfl⟩ := ih h
    exact ⟨.anyChar :: fs, .anyChar hfs, rfl⟩
  | case4 pos prev done hbegins =>
    cases h
    rw [hbegins]
    exact ⟨[.anyComponents], .lastComponents, rfl⟩
  | case5 pos prev done hbegins text hstar ih =>
    obtain ⟨fs, hfs, rfl⟩ := ih h
    rw [hbegins]
    exact ⟨.anyComponents :: fs, .anyComponents hfs, rfl⟩
  | case8 pos prev done text hstars hstar ih =>
    obtain ⟨fs, hfs, rfl⟩ := ih h
    have hnext : text.head? ≠ some '*' := by
      intro heq
      obtain ⟨rest, rfl⟩ := List.head?_eq_some_iff.1 heq
      exact hstar rest rfl
    exact ⟨.anySequence :: fs, .anySequence hnext hfs, rfl⟩
  | case9 pos prev done c text inside after hsplit ih =>
    obtain ⟨fs, hfs, rfl⟩ := ih h
    obtain ⟨rfl, hinside⟩ := eq_of_splitAtBracket hsplit
    exact ⟨.without (.ofChars (c :: inside)) :: fs, .without hinside hfs, rfl⟩
  | case12 pos prev done c text hbang hbang' inside after hsplit ih =>
    obtain ⟨fs, hfs, rfl⟩ := ih h
    obtain ⟨rfl, hinside⟩ := eq_of_splitAtBracket hsplit
    exact ⟨.within (.ofChars (c :: inside)) :: fs,
      .within (ne_of_no_text hbang hbang') hinside hfs, rfl⟩
  | case15 pos prev done c text hquestion _ _ hstar _ _ hclass hbracket ih =>
    obtain ⟨fs, hfs, rfl⟩ := ih h
    exact ⟨.literal c :: fs,
      .literal hquestion hstar (ne_of_no_text hclass hbracket) hfs, rfl⟩
  -- The other cases are those in which the reader refuses the text.
  | case3 | case6 | case7 | case10 | case11 | case13 | case14 => cases h

/-- What is spelled is read, whatever has been read in front of it. -/
theorem readElements_of_spells {begins : Bool} {text : List Char} {fs : List Element}
    (h : Spells begins text fs) {prev : Option Char} (hprev : beginsComponent prev = begins)
    (pos : ℕ) (done : List Element) :
    readElements pos prev done text = .ok (fs.foldl push done).reverse := by
  induction h generalizing pos prev done with
  | nil =>
    rw [readElements]
    rfl
  | anyChar _ ih =>
    rw [readElements, ih rfl]
    rfl
  | anySequence hnext _ ih =>
    rw [readElements, ih rfl]
    · rfl
    · rintro _ rfl
      exact hnext rfl
    · rintro _ rfl
      exact hnext rfl
  | lastComponents =>
    rw [readElements, if_pos hprev]
    rfl
  | anyComponents _ ih =>
    rw [readElements, if_pos hprev, if_pos rfl, ih rfl]
    · rfl
    · simp [separator]
  | within hfirst hinside _ ih =>
    rw [readElements]
    · split <;> rename_i hsplit <;> rw [splitAtBracket_append hinside] at hsplit <;> cases hsplit
      rw [ih rfl]
      rfl
    all_goals simp [hfirst]
  | without hinside _ ih =>
    rw [readElements]
    split <;> rename_i hsplit <;> rw [splitAtBracket_append hinside] at hsplit <;> cases hsplit
    rw [ih rfl]
    rfl
  | literal hquestion hstar hopens _ ih =>
    rw [readElements, ih rfl]
    · rfl
    -- No rule of the reader for another kind of element applies.
    all_goals simp [hquestion, hstar, hopens]

/-! ### Leaving out a `**` behind another one -/

/-- Putting elements together leaves them as they are, up to a `**` behind another one. -/
theorem foldl_push_iff {P : List Element → Prop}
    (hP : ∀ front back, P (front ++ .anyComponents :: .anyComponents :: back) ↔
      P (front ++ .anyComponents :: back)) (fs done : List Element) :
    P (fs.foldl push done).reverse ↔ P (done.reverse ++ fs) := by
  induction fs generalizing done with
  | nil => simp
  | cons e fs ih =>
    rw [List.foldl_cons, ih]
    cases e with
    | anyComponents =>
      rw [push]
      unfold pushComponents
      split
      · rename_i e es
        simpa using (hP (es.reverse ++ [e]) fs).symm
      · simp
    | literal | anyChar | within | without | anySequence => simp [push]

theorem placed_collapse_iff {begins : Bool} (front back : List Element) :
    Placed begins (front ++ .anyComponents :: .anyComponents :: back) ↔
      Placed begins (front ++ .anyComponents :: back) := by
  induction front generalizing begins with
  | nil => exact ⟨fun h ↦ ⟨h.1, h.2.2⟩, fun h ↦ ⟨h.1, fun _ ↦ rfl, h.2⟩⟩
  | cons e front ih => exact and_congr_right fun _ ↦ ih

/-- If the elements behind the first one stand for more names, so do all. -/
theorem Denotes.imp {e : Element} {es fs : List Element} (h : ∀ s, Denotes es s → Denotes fs s)
    {s : List Char} : Denotes (e :: es) s → Denotes (e :: fs) s
  | .char hc hs => .char hc (h _ hs)
  | .sequence piece hs => .sequence piece (h _ hs)
  | .noComponents hs => .noComponents (h _ hs)
  | .components piece hs => .components piece (h _ hs)
  | .restOfName piece hs => .restOfName piece (h _ hs)

theorem denotes_collapse_iff (front back : List Element) {s : List Char} :
    Denotes (front ++ .anyComponents :: .anyComponents :: back) s ↔
      Denotes (front ++ .anyComponents :: back) s := by
  induction front generalizing s with
  | nil =>
    constructor
    · intro h
      obtain ⟨t, hst, h⟩ := denotes_anyComponents_iff.1 h
      obtain ⟨u, htu, h⟩ := denotes_anyComponents_iff.1 h
      exact denotes_anyComponents_iff.2 ⟨u, hst.trans htu, h⟩
    · exact .noComponents
  | cons e front ih => exact ⟨.imp fun _ ↦ ih.1, .imp fun _ ↦ ih.2⟩

end ToolAccess.Glob

namespace ToolAccess.NamePattern

open Glob

theorem text_of_parse {text : String} {p : NamePattern} (h : NamePattern.parse text = .ok p) :
    p.text = text := by
  rw [parse] at h
  split at h
  · cases h
    rfl
  · cases h

theorem parseElements_of_parse {text : String} {e : PatternError}
    (h : NamePattern.parse text = .error e) : parseElements text = .error e := by
  rw [parse] at h
  split at h
  · cases h
  · cases h
    assumption

/-- The text of a pattern spells elements, and the pattern matches what they stand for. -/
theorem exists_spells (p : NamePattern) :
    ∃ es, Spells true p.text.toList es ∧
      ∀ name : String, p.accepts name = true ↔ Denotes es name.toList := by
  obtain ⟨es, hes, hread⟩ := exists_spells_of_readElements p.elements_eq
  refine ⟨es, hes, fun name ↦ ?_⟩
  have hplaced : Placed true p.elements := by
    rw [hread]
    exact (foldl_push_iff placed_collapse_iff es []).2 hes.placed
  rw [accepts, beq_iff_eq, search_eq_hit_iff hplaced, hread]
  exact foldl_push_iff (P := fun es ↦ Denotes es name.toList)
    (fun front back ↦ denotes_collapse_iff front back) es []

/-- **A pattern that is accepted matches the names that its text stands for, and no others.** If the
text is read, it spells the elements `es` and nothing else, and the pattern matches a name exactly
if the name can be cut into one piece for each of them. If it is refused, it spells no elements.

The reader and the search are functions on texts and names without a bound on their steps, so both
end on each of them. -/
theorem parse_gives_denotation (text : String) :
    match NamePattern.parse text with
    | .ok p => ∃ es, (∀ fs, Spells true text.toList fs ↔ fs = es) ∧
        ∀ name : String, p.accepts name = true ↔ Denotes es name.toList
    | .error _ => ∀ es, ¬ Spells true text.toList es := by
  cases hparse : NamePattern.parse text with
  | ok p =>
    obtain rfl := text_of_parse hparse
    obtain ⟨es, hes, haccepts⟩ := p.exists_spells
    exact ⟨es, fun fs ↦ ⟨fun hfs ↦ hfs.unique hes, fun h ↦ h ▸ hes⟩, haccepts⟩
  | error e =>
    intro es hes
    have hread : parseElements text = .ok _ := readElements_of_spells hes rfl 0 []
    rw [parseElements_of_parse hparse] at hread
    cases hread

/-- A leading dot and a `/` are characters like any other. -/
example : (parse "[!a]*/**").toOption.map (·.accepts ".keys/a/b") = some true := by
  decide +kernel

end ToolAccess.NamePattern
