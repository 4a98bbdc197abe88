import ToolAccess.Files.Path

/-!
# Where paths lead

Paths are texts, and different texts lead to one place: `./a` and `././a`, or `a//b` and `a/b`. The
**place** of a path is what its text says about where it leads: whether it starts at the root, the
names on its way without the idle pieces, and its last piece, which tells the path of a directory
from that of a file (`Path.place`).

* The place of a join depends on the places of its parts only (`place_join`), so joins can be
  replaced by others at the same place, and joining is associative as far as places are concerned
  (`place_join_join`).
* The directory above a path that names something is at the place without the last name
  (`exists_parent?`). This is where the text of the path is cut and put together again, and where
  one has to know that its pieces have no slashes (`Text.pieces_intercalate`).
-/

namespace ToolAccess

/-! ### Pieces -/

namespace Text

variable {separator : Char}

/-- A separator between two texts is where their pieces meet. -/
theorem pieces_append (l r : List Char) :
    pieces separator (l ++ separator :: r) = pieces separator l ++ pieces separator r := by
  induction l with
  | nil => simp [pieces]
  | cons c l ih =>
    rw [List.cons_append, pieces, pieces, ih]
    by_cases hc : c = separator
    · rw [if_pos hc, if_pos hc, List.cons_append]
    · rw [if_neg hc, if_neg hc]
      rcases h : pieces separator l with - | ⟨piece, rest⟩
      · exact absurd h (pieces_ne_nil separator l)
      · rfl

theorem pieces_of_not_mem {cs : List Char} (h : separator ∉ cs) : pieces separator cs = [cs] := by
  induction cs with
  | nil => rfl
  | cons c cs ih =>
    obtain ⟨hc, hcs⟩ := not_or.1 (mt List.mem_cons.2 h)
    rw [pieces, if_neg (Ne.symm hc), ih hcs]

theorem not_mem_of_mem_pieces {cs piece : List Char} (h : piece ∈ pieces separator cs) :
    separator ∉ piece := by
  induction cs generalizing piece with
  | nil =>
    rw [List.mem_singleton.1 h]
    exact List.not_mem_nil
  | cons c cs ih =>
    rw [pieces] at h
    by_cases hc : c = separator
    · rw [if_pos hc] at h
      rcases List.mem_cons.1 h with rfl | h
      · exact List.not_mem_nil
      · exact ih h
    · rw [if_neg hc] at h
      rcases hcs : pieces separator cs with - | ⟨first, rest⟩
      · exact absurd hcs (pieces_ne_nil separator cs)
      · rw [hcs] at h
        rcases List.mem_cons.1 h with rfl | h
        · have hfirst : separator ∉ first := ih (hcs ▸ List.mem_cons_self)
          exact fun hmem ↦ (List.mem_cons.1 hmem).elim (fun e ↦ hc e.symm) hfirst
        · exact ih (hcs ▸ List.mem_cons_of_mem _ h)

/-- Pieces put together by the separator are found again. -/
theorem pieces_intercalate {l : List (List Char)} (hne : l ≠ [])
    (h : ∀ piece ∈ l, separator ∉ piece) : pieces separator ([separator].intercalate l) = l := by
  induction l with
  | nil => exact absurd rfl hne
  | cons first rest ih =>
    have hfirst : separator ∉ first := h first List.mem_cons_self
    by_cases hrest : rest = []
    · rw [hrest, List.intercalate_singleton, pieces_of_not_mem hfirst]
    · rw [List.intercalate_cons_of_ne_nil hrest, List.append_assoc, List.singleton_append,
        pieces_append, pieces_of_not_mem hfirst,
        ih hrest fun piece hp ↦ h piece (List.mem_cons_of_mem _ hp)]
      rfl

end Text

namespace Path

variable {a b p q : Path}

theorem pieces_eq (p : Path) : p.pieces = (Text.pieces '/' p.chars).map String.ofList := rfl

/-- The pieces that name something. -/
def named (pieces : List String) : List String := pieces.filter fun piece ↦ !isIdle piece

theorem named_append (l r : List String) : named (l ++ r) = named l ++ named r :=
  List.filter_append l r

/-- The names on the way of a path. -/
def names (p : Path) : List String := named p.pieces

/-- What the text of a path says about where it leads. -/
def place (p : Path) : Bool × List String × Option String :=
  (p.isAbsolute, p.names, p.pieces.getLast?)

theorem isAbsolute_eq_of_place_eq (h : p.place = q.place) : p.isAbsolute = q.isAbsolute :=
  congrArg Prod.fst h

theorem names_eq_of_place_eq (h : p.place = q.place) : p.names = q.names :=
  congrArg (fun x ↦ x.2.1) h

theorem getLast?_pieces_eq_of_place_eq (h : p.place = q.place) :
    p.pieces.getLast? = q.pieces.getLast? :=
  congrArg (fun x ↦ x.2.2) h

/-! ### Joins -/

theorem join_of_absolute (h : p.isAbsolute = true) : a.join p = p :=
  if_pos h

/-- A relative path is joined behind a slash, unless the base is empty or ends with one. -/
theorem chars_join (h : p.isAbsolute = false) :
    a.chars ≠ [] ∧ (a.join p).chars = a.chars ++ '/' :: p.chars ∨
      a.chars = [] ∧ (a.join p).chars = p.chars ∨
      ∃ front, a.chars = front ++ ['/'] ∧ (a.join p).chars = front ++ '/' :: p.chars := by
  rw [join, if_neg (by simp [h])]
  split
  case isTrue hslash =>
    refine Or.inl ⟨fun hnil ↦ ?_, by simp [chars, String.toList_append]⟩
    rw [needsSlash, hnil] at hslash
    cases hslash
  case isFalse hslash =>
    refine Or.inr ?_
    have hchars : (Path.mk (a.text ++ p.text)).chars = a.chars ++ p.chars := by
      simp [chars, String.toList_append]
    rw [needsSlash, Bool.not_eq_true] at hslash
    rcases List.eq_nil_or_concat a.chars with hnil | ⟨front, c, hc⟩
    · exact Or.inl ⟨hnil, by rw [hchars, hnil, List.nil_append]⟩
    · rw [List.concat_eq_append] at hc
      rw [hc, List.getLast?_concat] at hslash
      have hslash : c = '/' := by simpa using hslash
      rw [hslash] at hc
      exact Or.inr ⟨front, hc, by rw [hchars, hc, List.append_assoc, List.singleton_append]⟩

/-- The pieces of a join are those of the path behind pieces with the names of the base. -/
theorem pieces_join (h : p.isAbsolute = false) :
    ∃ front, (a.join p).pieces = front ++ p.pieces ∧ named front = a.names := by
  rcases chars_join (a := a) h with ⟨-, hchars⟩ | ⟨hnil, hchars⟩ | ⟨l, hl, hchars⟩
  · refine ⟨a.pieces, ?_, rfl⟩
    rw [pieces_eq, hchars, Text.pieces_append, List.map_append]
    rfl
  · refine ⟨[], ?_, ?_⟩
    · rw [pieces_eq, hchars]
      rfl
    · rw [names, pieces_eq, hnil]
      decide
  · refine ⟨(Text.pieces '/' l).map String.ofList, ?_, ?_⟩
    · rw [pieces_eq, hchars, Text.pieces_append, List.map_append]
      rfl
    · rw [names, pieces_eq, hl, Text.pieces_append, List.map_append, named_append]
      exact (List.append_nil _).symm

/-- A join is absolute when one of its parts is. -/
theorem isAbsolute_join (a p : Path) : (a.join p).isAbsolute = (p.isAbsolute || a.isAbsolute) := by
  cases hp : p.isAbsolute with
  | true => rw [join_of_absolute hp, hp, Bool.true_or]
  | false =>
    rw [Bool.false_or, isAbsolute, isAbsolute]
    rcases chars_join (a := a) hp with ⟨hne, hchars⟩ | ⟨hnil, hchars⟩ | ⟨l, hl, hchars⟩
    · rw [hchars]
      rcases ha : a.chars with - | ⟨c, cs⟩
      · exact absurd ha hne
      · rfl
    · rw [hchars, hnil]
      exact hp
    -- The last slash of the base may be its only character.
    · rw [hchars, hl]
      cases l <;> rfl

theorem isAbsolute_join_left (h : a.isAbsolute = true) : (a.join p).isAbsolute = true := by
  rw [isAbsolute_join, h, Bool.or_true]

/-- What is seen from an absolute directory is seen the same from there once more. -/
theorem join_join_self (h : a.isAbsolute = true) : a.join (a.join p) = a.join p :=
  join_of_absolute (isAbsolute_join_left h)

theorem pieces_ne_nil (p : Path) : p.pieces ≠ [] := by
  rw [pieces_eq, ne_eq, List.map_eq_nil_iff]
  exact Text.pieces_ne_nil '/' p.chars

/-- **The place of a join.** A relative path adds its names to those of the base. -/
theorem place_join (h : p.isAbsolute = false) :
    (a.join p).place = (a.isAbsolute, a.names ++ p.names, p.pieces.getLast?) := by
  obtain ⟨front, hpieces, hfront⟩ := pieces_join (a := a) h
  have hlast : (front ++ p.pieces).getLast? = p.pieces.getLast? := by
    rcases hp : p.pieces.getLast? with - | piece
    · exact absurd (List.getLast?_eq_none_iff.1 hp) p.pieces_ne_nil
    · rw [List.getLast?_append, hp, Option.some_or]
  rw [place, isAbsolute_join, h, Bool.false_or, names, hpieces, named_append, hfront, hlast]
  rfl

theorem names_join (h : p.isAbsolute = false) : (a.join p).names = a.names ++ p.names :=
  congrArg (fun x ↦ x.2.1) (place_join h)

theorem getLast?_pieces_join (h : p.isAbsolute = false) :
    (a.join p).pieces.getLast? = p.pieces.getLast? :=
  congrArg (fun x ↦ x.2.2) (place_join h)

theorem place_join_congr_left (h : a.place = b.place) (p : Path) :
    (a.join p).place = (b.join p).place := by
  cases hp : p.isAbsolute with
  | true => rw [join_of_absolute hp, join_of_absolute hp]
  | false =>
    rw [place_join hp, place_join hp, isAbsolute_eq_of_place_eq h, names_eq_of_place_eq h]

theorem place_join_congr_right (a : Path) (h : p.place = q.place) :
    (a.join p).place = (a.join q).place := by
  have habs := isAbsolute_eq_of_place_eq h
  cases hp : p.isAbsolute with
  | true => rw [join_of_absolute hp, join_of_absolute (habs.symm.trans hp), h]
  | false =>
    rw [place_join hp, place_join (habs.symm.trans hp), names_eq_of_place_eq h,
      getLast?_pieces_eq_of_place_eq h]

/-- Joining is associative as far as places are concerned. -/
theorem place_join_join (a b p : Path) : ((a.join b).join p).place = (a.join (b.join p)).place := by
  cases hp : p.isAbsolute with
  | true => rw [join_of_absolute hp, join_of_absolute hp, join_of_absolute hp]
  | false =>
    cases hb : b.isAbsolute with
    | true => rw [join_of_absolute hb, join_of_absolute (isAbsolute_join_left hb)]
    | false =>
      have hbp : (b.join p).isAbsolute = false := by rw [isAbsolute_join, hp, hb, Bool.or_false]
      rw [place_join hp, place_join hbp, isAbsolute_join, hb, Bool.false_or, names_join hb,
        names_join hp, List.append_assoc, getLast?_pieces_join hp]

/-- A base leaves the place of a path alone if and only if the path is absolute, or the base is
relative and has no names. -/
theorem place_join_eq_iff :
    (a.join p).place = p.place ↔ p.isAbsolute = true ∨ a.isAbsolute = false ∧ a.names = [] := by
  cases hp : p.isAbsolute with
  | true => rw [join_of_absolute hp]; simp
  | false =>
    rw [place_join hp, place, hp]
    simp

/-! ### The directory above -/

/-- Cutting idle pieces off the end leaves the names. -/
theorem named_trimIdle (l : List String) : named (trimIdle l) = named l := by
  have hdrop : ∀ l : List String, named (l.dropWhile isIdle) = named l := by
    intro l
    induction l with
    | nil => rfl
    | cons piece l ih =>
      rw [List.dropWhile_cons]
      split
      case isTrue h => rw [ih, named, named, List.filter_cons_of_neg (by simp [h])]
      case isFalse => rfl
  have hreverse : ∀ l : List String, named l.reverse = (named l).reverse :=
    fun l ↦ List.filter_reverse
  rw [trimIdle, hreverse, hdrop, hreverse, List.reverse_reverse]

/-- What is left ends with a name. -/
theorem exists_trimIdle_eq {l : List String} (h : named l ≠ []) :
    ∃ front last, trimIdle l = front ++ [last] ∧ isIdle last = false := by
  have hnot := List.head?_dropWhile_not isIdle l.reverse
  rcases hdrop : l.reverse.dropWhile isIdle with - | ⟨last, rest⟩
  · rw [← named_trimIdle, trimIdle, hdrop] at h
    exact absurd rfl h
  · rw [hdrop] at hnot
    exact ⟨rest.reverse, last, by rw [trimIdle, hdrop, List.reverse_cons], hnot⟩

theorem trimIdle_isPrefix (l : List String) : trimIdle l <+: l := by
  have h : (l.reverse.dropWhile isIdle).reverse <+: l.reverse.reverse :=
    List.reverse_prefix.2 (List.dropWhile_suffix _)
  rwa [List.reverse_reverse] at h

/-- A path starts with an empty piece if it is empty or absolute. -/
theorem head?_pieces_eq_iff : p.pieces.head? = some "" ↔ p.chars = [] ∨ p.isAbsolute = true := by
  rw [pieces_eq, isAbsolute]
  rcases p.chars with - | ⟨c, cs⟩
  · simp [Text.pieces]
  · rw [Text.pieces]
    by_cases hc : c = '/'
    · simp [hc]
    · rw [if_neg hc]
      split <;> simp [hc]

/-- What `anchored` takes off a path that names something: the slash of an absolute one, a leading
`.`, or nothing. -/
theorem anchored_spec (hp : p.names ≠ []) :
    named p.anchored.2 = p.names ∧ (∀ piece ∈ p.anchored.2, piece ∈ p.pieces) ∧
      (p.isAbsolute = true ∧ p.anchored.1 = "/" ∨
        p.isAbsolute = false ∧ (p.anchored.1 = "./" ∨
          p.anchored.1 = "" ∧ p.anchored.2.head? ≠ some "")) := by
  have hhead := head?_pieces_eq_iff (p := p)
  have hchars : p.chars ≠ [] := by
    intro hnil
    rw [names, pieces_eq, hnil] at hp
    exact hp (by decide)
  rw [names, anchored]
  split
  case h_1 rest hpieces =>
    have habs : p.isAbsolute = true :=
      (hhead.1 (by rw [hpieces, List.head?_cons])).resolve_left hchars
    rw [if_pos habs, hpieces]
    exact ⟨rfl, fun piece h ↦ List.mem_cons_of_mem _ h, Or.inl ⟨habs, rfl⟩⟩
  case h_2 rest hpieces =>
    have hrel : p.isAbsolute = false := by
      refine Bool.eq_false_iff.2 fun habs ↦ ?_
      have hempty := hhead.2 (Or.inr habs)
      rw [hpieces, List.head?_cons] at hempty
      exact absurd (Option.some.inj hempty) (by decide)
    rw [hpieces]
    exact ⟨rfl, fun piece h ↦ List.mem_cons_of_mem _ h, Or.inr ⟨hrel, Or.inl rfl⟩⟩
  case h_3 hempty _ =>
    have hne : p.pieces.head? ≠ some "" := fun h ↦ by
      obtain ⟨rest, hrest⟩ := List.head?_eq_some_iff.1 h
      exact hempty rest hrest
    have hrel : p.isAbsolute = false := Bool.eq_false_iff.2 fun habs ↦ hne (hhead.2 (Or.inr habs))
    exact ⟨rfl, fun piece h ↦ h, Or.inr ⟨hrel, Or.inr ⟨rfl, hne⟩⟩⟩

/-- Pieces of a path are put together to a path with their names. -/
theorem pieces_intercalate {l : List String} (hne : l ≠ []) (h : ∀ piece ∈ l, piece ∈ p.pieces) :
    (Path.mk ("/".intercalate l)).pieces = l := by
  have hslash : ∀ piece ∈ l.map String.toList, '/' ∉ piece := by
    intro piece hpiece
    obtain ⟨text, htext, rfl⟩ := List.mem_map.1 hpiece
    obtain ⟨cs, hcs, rfl⟩ := List.mem_map.1 (h text htext)
    rw [String.toList_ofList]
    exact Text.not_mem_of_mem_pieces hcs
  rw [pieces_eq, chars, String.toList_intercalate]
  have hne' : l.map String.toList ≠ [] := by simp [hne]
  rw [show "/".toList = ['/'] from rfl, Text.pieces_intercalate hne' hslash, List.map_map]
  simp

theorem names_eq_of_chars_eq {front : List Char} (h : p.chars = front ++ '/' :: q.chars)
    (hfront : named ((Text.pieces '/' front).map String.ofList) = []) : p.names = q.names := by
  rw [names, pieces_eq, h, Text.pieces_append, List.map_append, named_append, hfront,
    List.nil_append]
  rfl

/-- Pieces behind what `anchored` takes off a path give a path with their names, that is as absolute
as the first one. -/
theorem anchor_append_spec {anchor : String} {l : List String} (hne : l ≠ [])
    (h : ∀ piece ∈ l, piece ∈ p.pieces)
    (hanchor : p.isAbsolute = true ∧ anchor = "/" ∨
      p.isAbsolute = false ∧ (anchor = "./" ∨ anchor = "" ∧ l.head? ≠ some "")) :
    (Path.mk (anchor ++ "/".intercalate l)).isAbsolute = p.isAbsolute ∧
      (Path.mk (anchor ++ "/".intercalate l)).names = named l := by
  have hpieces := pieces_intercalate hne h
  have hnames : (Path.mk ("/".intercalate l)).names = named l := by rw [names, hpieces]
  rcases hanchor with ⟨habs, rfl⟩ | ⟨hrel, rfl | ⟨rfl, hhead⟩⟩
  · have hchars : (Path.mk ("/" ++ "/".intercalate l)).chars =
        [] ++ '/' :: (Path.mk ("/".intercalate l)).chars := String.toList_append
    refine ⟨?_, (names_eq_of_chars_eq hchars (by decide)).trans hnames⟩
    rw [habs, isAbsolute, hchars]
    rfl
  · have hchars : (Path.mk ("./" ++ "/".intercalate l)).chars =
        ['.'] ++ '/' :: (Path.mk ("/".intercalate l)).chars := String.toList_append
    refine ⟨?_, (names_eq_of_chars_eq hchars (by decide)).trans hnames⟩
    rw [hrel, isAbsolute, hchars]
    rfl
  · rw [String.empty_append, hrel]
    refine ⟨Bool.eq_false_iff.2 fun habs ↦ hhead ?_, hnames⟩
    rw [← hpieces]
    exact head?_pieces_eq_iff.2 (Or.inr habs)

/-- **The directory above a path that names something** is as absolute as the path, and is named by
all of its names but the last. -/
theorem exists_parent? (hp : p.names ≠ []) :
    ∃ q, p.parent? = some q ∧ q.isAbsolute = p.isAbsolute ∧ q.names = p.names.dropLast := by
  obtain ⟨hnamed, hmem, hanchor⟩ := anchored_spec hp
  rw [parent?]
  rcases hsplit : p.anchored with ⟨anchor, l⟩
  rw [hsplit] at hnamed hmem hanchor
  obtain ⟨front, last, htrim, hlast⟩ := exists_trimIdle_eq (l := l) (hnamed ▸ hp)
  have hfront : named front = p.names.dropLast := by
    rw [← hnamed, ← named_trimIdle l, htrim, named_append]
    simp [named, hlast]
  obtain ⟨first, rest, hcons⟩ : ∃ first rest, front ++ [last] = first :: rest := by
    cases front <;> simp
  have hdrop : (first :: rest).dropLast = front := by rw [← hcons, List.dropLast_concat]
  simp only [htrim, hcons, hdrop]
  rw [← hfront, ← named_trimIdle front]
  -- Either the last name was the only one, or something is left in front of it.
  rcases habove : trimIdle front with - | ⟨y, ys⟩
  · rcases hanchor with ⟨habs, rfl⟩ | ⟨hrel, rfl | ⟨rfl, -⟩⟩
    · exact ⟨_, rfl, by rw [habs]; decide, by decide⟩
    · exact ⟨_, rfl, by rw [hrel]; decide, by decide⟩
    · exact ⟨_, rfl, by rw [hrel]; decide, by decide⟩
  · have hstart : y :: ys <+: l := by
      have hfront' : front <+: trimIdle l := htrim ▸ List.prefix_append front [last]
      rw [← habove]
      exact (trimIdle_isPrefix front).trans (hfront'.trans (trimIdle_isPrefix l))
    obtain ⟨tail, rfl⟩ := hstart
    exact ⟨_, rfl, anchor_append_spec (List.cons_ne_nil y ys)
      (fun piece h ↦ hmem piece (List.mem_append_left _ h)) hanchor⟩

end Path

end ToolAccess
