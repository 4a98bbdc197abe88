import ToolAccess.Files.Tree
import ToolAccess.Proofs.Attempts
import ToolAccess.Proofs.PathPlaces
import ToolAccess.Settings.Load

/-!
# Where the documents of profiles are read

The paths in a configuration are seen from the directory that holds it. For the documents of the
profiles this happens twice: the directory of the profiles is resolved, its files are found under
the resolved path, and then the path of each file is resolved again before it is read. The second
time changes nothing when the path is absolute, and nothing when the base directory has no names.
Otherwise the names of the base directory come twice, and what is read is not what was found: with
the configuration at `sub/toolgate.toml`, the document found at `sub/profiles/work.toml` is looked
for at `sub/sub/profiles/work.toml`.

`Settings.ProfilesStay` is the condition under which resolving twice leads to the same place as
resolving once, and `Settings.profilesStay_iff` is the main result. Profiles stay exactly where each
of them is read where it was found, and, the empty path aside, exactly where the documents do not
depend on whether the configuration is loaded through a relative or an absolute path.

## What the proof rests on

* A disk does not tell apart two paths at one place (`FileView.IsDisk`), and a program in a
  directory sees the disk through joins to that directory (`FileView.seenFrom`). So everything is a
  matter of the places of joins.
* `attemptsThrough` has the path under which a profile was found go through a function before it is
  read. With the resolution it is `Settings.attempts`, without it is `attemptsWhereFound`, and one
  lemma about documents serves both.
* Results are compared without the reasons of failures, since those name paths.
* Where profiles do not stay, `markedView` is a disk that tells the two places of a profile apart.
-/

namespace ToolAccess

/-! ### Disks -/

namespace FileView

/-- Files as a disk has them, its paths being absolute: two paths at one place lead to the same, and
a path that ends like that of a directory leads to no text. -/
structure IsDisk (files : FileView) : Prop where
  read_eq : ∀ p q : Path, p.place = q.place → files.read p = files.read q
  list_eq : ∀ p q : Path, p.place = q.place → files.list p = files.list q
  no_text : ∀ (p : Path) piece, p.pieces.getLast? = some piece → Path.isIdle piece = true →
    (files.read p).toOption = none

/-- The files of a disk as a program sees them that works in a directory. The empty path leads
nowhere. -/
def seenFrom (files : FileView) (directory : Path) : FileView where
  read p := if p = .empty then .error .missing else files.read (directory.join p)
  list p := if p = .empty then .error .missing else files.list (directory.join p)

/-- The document at a path, if it can be had. -/
def document? {α : Type} (files : FileView) (parse : String → Except DocumentError α) (p : Path) :
    Option α :=
  (files.read p).toOption.bind fun text ↦ (parse text).toOption

theorem toOption_document {α : Type} (files : FileView) (parse : String → Except DocumentError α)
    (p : Path) : (files.document parse p).toOption = files.document? parse p := by
  rw [document, toOption_bind, text, document?]
  rcases files.read p with e | text
  · rfl
  · show ((parse text).mapError _).toOption = (parse text).toOption
    rcases parse text with e | d
    · rfl
    · rfl

variable {files : FileView} {w p q : Path}

/-- What is read from a directory, is read through the join. The empty path is no exception: joined,
it ends like that of a directory. -/
theorem IsDisk.toOption_read_seenFrom (h : files.IsDisk) (p : Path) :
    ((files.seenFrom w).read p).toOption = (files.read (w.join p)).toOption := by
  rw [seenFrom]
  by_cases hp : p = .empty
  · subst hp
    have hlast : (w.join .empty).pieces.getLast? = some "" :=
      (Path.getLast?_pieces_join rfl).trans (by decide)
    simp only [if_pos, h.no_text _ _ hlast (by decide)]
    rfl
  · simp only [if_neg hp]

/-- Two paths at one place, seen from a directory, have the same document. -/
theorem IsDisk.document?_congr {α : Type} {parse : String → Except DocumentError α}
    (h : files.IsDisk) (hplace : (w.join p).place = (w.join q).place) :
    (files.seenFrom w).document? parse p = (files.seenFrom w).document? parse q := by
  rw [document?, document?, h.toOption_read_seenFrom, h.toOption_read_seenFrom,
    h.read_eq _ _ hplace]

/-- Two directories at one place, seen from a directory, have the same files. -/
theorem IsDisk.list_congr (h : files.IsDisk) (hp : p ≠ .empty) (hq : q ≠ .empty)
    (hplace : (w.join p).place = (w.join q).place) :
    (files.seenFrom w).list p = (files.seenFrom w).list q := by
  rw [seenFrom]
  simp only [if_neg hp, if_neg hq]
  exact h.list_eq _ _ hplace

end FileView

/-! ### The files of profiles -/

/-- The profiles among the files of a directory, with the names of their files. -/
def profileFiles (fileNames : List String) : SortedMap String Path :=
  .ofList <| fileNames.filterMap fun fileName ↦
    (profileName? fileName).map fun profile ↦ (profile, ⟨fileName⟩)

theorem profilePaths_eq (directory : Path) (fileNames : List String) :
    profilePaths directory fileNames =
      (profileFiles fileNames).mapValues fun _ file ↦ directory.join file := by
  rw [profilePaths, profileFiles, SortedMap.mapValues_ofList, List.map_filterMap]
  simp only [Option.map_map]
  rfl

namespace Settings

variable {s : Settings} {files : FileView} {d w b p : Path}

/-! ### Attempts -/

theorem resolve_eq_join (s : Settings) (p : Path) : s.resolve p = s.baseDirectory.join p := by
  rw [resolve]
  split
  case isTrue h => exact (Path.join_of_absolute h).symm
  case isFalse => rfl

/-- The path of the profiles, seen from the base directory. -/
theorem profilesPath?_eq (hd : s.policy.profilesDirectory = some d) :
    s.profilesPath? = some (s.baseDirectory.join d) := by
  rw [profilesPath?, hd, Option.map_some, resolve_eq_join]

/-- The attempts to read the documents of the profiles in a directory, when the path under which
each was found goes through a function before it is read. -/
def profileAttemptsThrough (f : Path → Path) (files : FileView) (directory : Path) :
    List (Except SettingsError NamedDocument) :=
  match files.profiles directory with
  | .ok found => found.entries.map fun e ↦
    (files.document LayerDocument.parse (f e.2)).map (NamedDocument.mk (.profile e.1))
  | .error e => [.error e]

/-- The attempts to read all documents, when the paths of the profiles go through a function. -/
def attemptsThrough (f : Path → Path) (s : Settings) (files : FileView) :
    List (Except SettingsError NamedDocument) :=
  s.policy.defaults.toList.map (s.attempt files .defaults) ++
    s.policy.overrides.toList.map (s.attempt files .overrides) ++
    s.profilesPath?.toList.flatMap (profileAttemptsThrough f files)

/-- The attempts, if each profile is read where it was found. -/
def attemptsWhereFound : Settings → FileView → List (Except SettingsError NamedDocument) :=
  attemptsThrough id

/-- As it is, the path under which a profile was found is resolved again. -/
theorem attempts_eq_attemptsThrough (s : Settings) (files : FileView) :
    s.attempts files = s.attemptsThrough s.baseDirectory.join files := by
  rw [show s.baseDirectory.join = s.resolve from (funext s.resolve_eq_join).symm]
  rfl

theorem toOption_attempt (s : Settings) (files : FileView) (name : LayerName) (p : Path) :
    (s.attempt files name p).toOption =
      (files.document? LayerDocument.parse (s.baseDirectory.join p)).map
        (NamedDocument.mk name) := by
  rw [attempt, toOption_map, FileView.toOption_document, resolve_eq_join]

/-- The documents of the profiles in a directory, as far as they can be had. -/
theorem map_toOption_profileAttemptsThrough (f : Path → Path) (files : FileView)
    (directory : Path) :
    (profileAttemptsThrough f files directory).map Except.toOption =
      match files.list directory with
      | .ok fileNames => (profileFiles fileNames).entries.map fun e ↦
        (files.document? LayerDocument.parse (f (directory.join e.2))).map (.mk (.profile e.1))
      | .error _ => [none] := by
  rw [profileAttemptsThrough, FileView.profiles]
  rcases files.list directory with e | fileNames
  · rfl
  · simp only [profilePaths_eq, SortedMap.mapValues, List.map_map]
    refine List.map_congr_left fun e _ ↦ ?_
    exact (toOption_map _ _).trans (congrArg _ (files.toOption_document _ _))

/-- All documents, as far as they can be had. -/
theorem map_toOption_attemptsThrough (f : Path → Path) (s : Settings) (files : FileView) :
    (s.attemptsThrough f files).map Except.toOption =
      (s.policy.defaults.toList.map fun p ↦
        (files.document? LayerDocument.parse (s.baseDirectory.join p)).map
          (NamedDocument.mk .defaults)) ++
      (s.policy.overrides.toList.map fun p ↦
        (files.document? LayerDocument.parse (s.baseDirectory.join p)).map
          (NamedDocument.mk .overrides)) ++
      s.profilesPath?.toList.flatMap fun directory ↦
        (profileAttemptsThrough f files directory).map Except.toOption := by
  have hlayer : ∀ name (path : Option Path),
      (path.toList.map (s.attempt files name)).map Except.toOption = path.toList.map fun p ↦
        (files.document? LayerDocument.parse (s.baseDirectory.join p)).map
          (NamedDocument.mk name) := by
    intro name path
    rw [List.map_map]
    exact List.map_congr_left fun p _ ↦ s.toOption_attempt files name p
  rw [attemptsThrough, List.map_append, List.map_append, hlayer, hlayer, List.map_flatMap]

/-! ### Profiles that stay -/

/-- The path of the profiles, once resolved, leads to the same place when it is resolved again. -/
def ProfilesStay (s : Settings) : Prop :=
  ∀ d, s.policy.profilesDirectory = some d →
    d.isAbsolute = true ∨ s.baseDirectory.isAbsolute = true ∨ s.baseDirectory.names = []

theorem place_join_join_self_iff :
    (s.baseDirectory.join (s.baseDirectory.join p)).place = (s.baseDirectory.join p).place ↔
      p.isAbsolute = true ∨ s.baseDirectory.isAbsolute = true ∨ s.baseDirectory.names = [] := by
  rw [Path.place_join_eq_iff, Path.isAbsolute_join, Bool.or_eq_true]
  rcases s.baseDirectory.isAbsolute with - | -
  · simp
  · simp

/-- Resolving a resolved path leads to the same place, unless the path is relative and seen from a
relative directory with names. -/
theorem place_resolve_resolve_iff (s : Settings) (p : Path) :
    (s.resolve (s.resolve p)).place = (s.resolve p).place ↔
      p.isAbsolute = true ∨ s.baseDirectory.isAbsolute = true ∨ s.baseDirectory.names = [] := by
  rw [resolve_eq_join, resolve_eq_join, place_join_join_self_iff]

/-- Where profiles stay, so does what is joined to their directory. -/
theorem ProfilesStay.place_join_found (h : s.ProfilesStay)
    (hd : s.policy.profilesDirectory = some d) (file : Path) :
    (s.baseDirectory.join ((s.baseDirectory.join d).join file)).place =
      ((s.baseDirectory.join d).join file).place := by
  have hstay := place_join_join_self_iff.2 (h d hd)
  rw [← Path.place_join_join]
  exact Path.place_join_congr_left hstay file

/-- Where profiles stay, they are read where they were found. -/
theorem ProfilesStay.attempts_eq (h : s.ProfilesStay) (hdisk : files.IsDisk) (w : Path) :
    (s.attempts (files.seenFrom w)).map Except.toOption =
      (s.attemptsWhereFound (files.seenFrom w)).map Except.toOption := by
  rw [attempts_eq_attemptsThrough, attemptsWhereFound, map_toOption_attemptsThrough,
    map_toOption_attemptsThrough]
  rcases hd : s.policy.profilesDirectory with - | d
  · simp only [profilesPath?, hd, Option.map_none, Option.toList_none, List.flatMap_nil]
  have hprofiles : (profileAttemptsThrough s.baseDirectory.join (files.seenFrom w)
        (s.baseDirectory.join d)).map Except.toOption =
      (profileAttemptsThrough id (files.seenFrom w) (s.baseDirectory.join d)).map
        Except.toOption := by
    rw [map_toOption_profileAttemptsThrough, map_toOption_profileAttemptsThrough]
    rcases (files.seenFrom w).list (s.baseDirectory.join d) with e | fileNames
    · rfl
    · refine List.map_congr_left fun e _ ↦ ?_
      rw [hdisk.document?_congr (Path.place_join_congr_right w (h.place_join_found hd e.2)), id]
  simp only [profilesPath?_eq hd, Option.toList_some, List.flatMap_singleton, hprofiles]

/-! ### The same configuration from elsewhere -/

/-- The settings with another base directory. -/
def movedTo (s : Settings) (directory : Path) : Settings := { s with baseDirectory := directory }

theorem movedTo_baseDirectory (s : Settings) (b : Path) : (s.movedTo b).baseDirectory = b := rfl

theorem movedTo_movedTo (s : Settings) (b b' : Path) :
    (s.movedTo b).movedTo b' = s.movedTo b' := rfl

theorem movedTo_policy (s : Settings) (b : Path) : (s.movedTo b).policy = s.policy := rfl

/-- The second base directory is the first one seen from the working directory: a path joined to it
leads to the place of the path joined to the first, seen from there. -/
def IsBaseFrom (s : Settings) (w b : Path) : Prop :=
  ∀ p, (b.join p).place = (w.join (s.baseDirectory.join p)).place

/-- The joined path is such a base directory. -/
theorem isBaseFrom_join (s : Settings) (w : Path) : s.IsBaseFrom w (w.join s.baseDirectory) :=
  fun p ↦ Path.place_join_join w s.baseDirectory p

/-- The directories above a relative path and above the same path seen from the working directory
are such base directories. -/
theorem isBaseFrom_parent {c : Path} (hw : w.isAbsolute = true) (hc : c.isAbsolute = false)
    (hnames : c.names ≠ []) (hbase : s.baseDirectory = c.parent?.getD .empty) :
    s.IsBaseFrom w ((w.join c).parent?.getD .empty) := by
  obtain ⟨above, habove, habs, hnamed⟩ := Path.exists_parent? hnames
  have hnames' : (w.join c).names ≠ [] := by simp [Path.names_join hc, hnames]
  obtain ⟨above', habove', habs', hnamed'⟩ := Path.exists_parent? hnames'
  rw [Path.names_join hc, List.dropLast_append_of_ne_nil hnames, ← hnamed] at hnamed'
  rw [Path.isAbsolute_join, hw, Bool.or_true] at habs'
  rw [habove, Option.getD_some] at hbase
  rw [habove', Option.getD_some]
  intro p
  rw [hbase, ← Path.place_join_join]
  cases hp : p.isAbsolute with
  | true => rw [Path.join_of_absolute hp, Path.join_of_absolute hp]
  | false =>
    rw [Path.place_join hp, Path.place_join hp, Path.names_join (habs.trans hc), habs', hnamed',
      Path.isAbsolute_join_left hw]

section IsBaseFrom

variable (hb : s.IsBaseFrom w b) (hw : w.isAbsolute = true)
include hb hw

theorem IsBaseFrom.isAbsolute_join (p : Path) : (b.join p).isAbsolute = true := by
  rw [Path.isAbsolute_eq_of_place_eq (hb p), Path.isAbsolute_join_left hw]

/-- Seen from the working directory, what is joined to the moved base directory is where it is. -/
theorem IsBaseFrom.place_join_join (p : Path) :
    (w.join (b.join p)).place = (w.join (s.baseDirectory.join p)).place := by
  rw [Path.join_of_absolute (hb.isAbsolute_join hw p), hb p]

/-- The path under which a file is found from the moved base directory, resolved again. -/
theorem IsBaseFrom.place_join_found (d file : Path) :
    (w.join (b.join ((b.join d).join file))).place =
      (w.join ((s.baseDirectory.join d).join file)).place := by
  have hfound : ((b.join d).join file).isAbsolute = true :=
    Path.isAbsolute_join_left (hb.isAbsolute_join hw d)
  rw [Path.join_of_absolute hfound, Path.join_of_absolute hfound,
    Path.place_join_congr_left (hb d) file, Path.place_join_join]

/-- Where profiles stay, and have a directory with a path, their documents are the same from the
moved base directory. -/
theorem ProfilesStay.map_toOption_profiles (hs : s.ProfilesStay) (hdisk : files.IsDisk)
    (hd : s.policy.profilesDirectory = some d) (hne : s.baseDirectory.join d ≠ .empty) :
    (profileAttemptsThrough b.join (files.seenFrom w) (b.join d)).map Except.toOption =
      (profileAttemptsThrough s.baseDirectory.join (files.seenFrom w)
        (s.baseDirectory.join d)).map Except.toOption := by
  have hne' : b.join d ≠ .empty := fun h ↦ by
    have habs := hb.isAbsolute_join hw d
    rw [h] at habs
    exact absurd habs (by decide)
  rw [map_toOption_profileAttemptsThrough, map_toOption_profileAttemptsThrough,
    hdisk.list_congr hne' hne (hb.place_join_join hw d)]
  rcases (files.seenFrom w).list (s.baseDirectory.join d) with e | fileNames
  · rfl
  · refine List.map_congr_left fun e _ ↦ ?_
    have hplace : (w.join (b.join ((b.join d).join e.2))).place =
        (w.join (s.baseDirectory.join ((s.baseDirectory.join d).join e.2))).place :=
      (hb.place_join_found hw d e.2).trans
        (Path.place_join_congr_right w (hs.place_join_found hd e.2)).symm
    rw [hdisk.document?_congr hplace]

/-- Where profiles stay, and have a directory with a path, all documents are the same from the moved
base directory. -/
theorem ProfilesStay.map_toOption_attempts (hs : s.ProfilesStay)
    (hne : s.profilesPath? ≠ some .empty) (hdisk : files.IsDisk) :
    ((s.movedTo b).attempts (files.seenFrom w)).map Except.toOption =
      (s.attempts (files.seenFrom w)).map Except.toOption := by
  have hlayer : ∀ p, (files.seenFrom w).document? LayerDocument.parse (b.join p) =
      (files.seenFrom w).document? LayerDocument.parse (s.baseDirectory.join p) :=
    fun p ↦ hdisk.document?_congr (hb.place_join_join hw p)
  have hprofiles : ((s.movedTo b).profilesPath?.toList.flatMap fun directory ↦
        (profileAttemptsThrough b.join (files.seenFrom w) directory).map Except.toOption) =
      s.profilesPath?.toList.flatMap fun directory ↦
        (profileAttemptsThrough s.baseDirectory.join (files.seenFrom w) directory).map
          Except.toOption := by
    rcases hd : s.policy.profilesDirectory with - | d
    · have hmoved : (s.movedTo b).policy.profilesDirectory = none := hd
      simp only [profilesPath?, hd, hmoved, Option.map_none, Option.toList_none, List.flatMap_nil]
    · have hmoved : (s.movedTo b).profilesPath? = some (b.join d) := profilesPath?_eq hd
      rw [profilesPath?_eq hd] at hne ⊢
      rw [hmoved, Option.toList_some, List.flatMap_singleton, Option.toList_some,
        List.flatMap_singleton]
      exact hs.map_toOption_profiles hb hw hdisk hd fun h ↦ hne (congrArg some h)
  rw [attempts_eq_attemptsThrough, attempts_eq_attemptsThrough, map_toOption_attemptsThrough,
    map_toOption_attemptsThrough]
  simp only [movedTo_baseDirectory, movedTo_policy, hlayer, hprofiles]

end IsBaseFrom

/-! ### Loading -/

/-- The layers of the configuration at a path. -/
def layersAt (files : FileView) (path : Path) : Except SettingsError LayerTable := do
  let s ← load files path
  s.loadLayers files

/-- The layers depend on the base directory through the documents only. -/
theorem toOption_loadLayers_movedTo (s : Settings) (b : Path) (files : FileView) :
    ((s.movedTo b).loadLayers files).toOption =
      ((((s.movedTo b).attempts files).map Except.toOption).mapM id).bind fun docs ↦
        (unlessProblems (s.policyProblems ++ s.layerProblems docs)
          (NamedDocument.layerTable s.vocabulary docs)).toOption := by
  rw [← toOption_mapM]
  exact toOption_bind _ _

theorem toOption_load (files : FileView) (c : Path) :
    (load files c).toOption =
      (files.document? parse c).map fun s ↦ s.movedTo (c.parent?.getD .empty) := by
  rw [load, toOption_bind, FileView.toOption_document]
  exact Option.map_eq_bind.symm

/-- Where profiles stay, and have a directory with a path, the configuration has the same layers
when it is loaded through a relative path and through the absolute path of the same file. -/
theorem ProfilesStay.toOption_layersAt {c : Path} (hs : s.ProfilesStay)
    (hne : s.profilesPath? ≠ some .empty) (hdisk : files.IsDisk) (hw : w.isAbsolute = true)
    (hc : c.isAbsolute = false) (hnames : c.names ≠ [])
    (hload : (load (files.seenFrom w) c).toOption = some s) :
    (layersAt (files.seenFrom w) (w.join c)).toOption =
      (layersAt (files.seenFrom w) c).toOption := by
  have hdocument : (files.seenFrom w).document? parse (w.join c) =
      (files.seenFrom w).document? parse c :=
    hdisk.document?_congr (congrArg Path.place (Path.join_join_self hw))
  rw [toOption_load] at hload
  obtain ⟨t, ht, rfl⟩ := Option.map_eq_some_iff.1 hload
  have hbase : (t.movedTo (c.parent?.getD .empty)).baseDirectory = c.parent?.getD .empty :=
    movedTo_baseDirectory t _
  have hb := isBaseFrom_parent hw hc hnames hbase
  have hattempts := hs.map_toOption_attempts hb hw hne hdisk
  rw [movedTo_movedTo] at hattempts
  rw [layersAt, layersAt, toOption_bind, toOption_bind, toOption_load, toOption_load, hdocument, ht,
    Option.map_some, Option.map_some, Option.bind_some, Option.bind_some,
    toOption_loadLayers_movedTo, toOption_loadLayers_movedTo, hattempts]

/-! ### Profiles that do not stay -/

/-- The name of a file of the profile `p`. -/
def markFile : Path := ⟨"p.toml"⟩

/-- The text of a document that has nothing but a fallback. -/
def markText : String := "default_decision='x'"

/-- The document of that text, or of the empty one. -/
def markDocument (hasMark : Bool) : LayerDocument := ⟨if hasMark then some "x" else none, []⟩

/-- A disk with a file at every place that can have one, empty but for the marked place. Every
directory has one profile. -/
def markedView (place : Bool × List String × Option String) : FileView where
  read q :=
    if q.pieces.getLast?.any Path.isIdle then .error .isDirectory
    else .ok (if q.place = place then markText else "")
  list _ := .ok [markFile.text]

theorem isDisk_markedView (place : Bool × List String × Option String) :
    (markedView place).IsDisk where
  read_eq p q h := by
    simp only [markedView, h, Path.getLast?_pieces_eq_of_place_eq h]
  list_eq _ _ _ := rfl
  no_text p piece hpiece hidle := by
    simp only [markedView, hpiece, Option.any_some, hidle]
    rfl

/-- The document of a file is told by its place. -/
theorem document?_markedView {place : Bool × List String × Option String}
    (hp : (w.join p).pieces.getLast? = some "p.toml") :
    ((markedView place).seenFrom w).document? LayerDocument.parse p =
      some (markDocument ((w.join p).place = place)) := by
  have hmark : (LayerDocument.parse markText).toOption = some (markDocument true) := by
    decide +kernel
  have hblank : (LayerDocument.parse "").toOption = some (markDocument false) := by decide +kernel
  have hread : ((markedView place).read (w.join p)).toOption =
      some (if (w.join p).place = place then markText else "") := by
    simp only [markedView, hp, Option.any_some]
    rfl
  rw [FileView.document?, (isDisk_markedView place).toOption_read_seenFrom, hread, Option.bind_some]
  by_cases h : (w.join p).place = place
  · rw [if_pos h, decide_eq_true h, hmark]
  · rw [if_neg h, decide_eq_false h, hblank]

/-- Documents are alike at two places if both are marked or neither is. -/
theorem markDocument_inj {p q : Prop} [Decidable p] [Decidable q]
    (h : markDocument p = markDocument q) : p ↔ q := by
  by_cases hp : p
  · by_cases hq : q
    · exact iff_of_true hp hq
    · simp [markDocument, hp, hq] at h
  · by_cases hq : q
    · simp [markDocument, hp, hq] at h
    · exact iff_of_false hp hq

theorem getLast?_attemptsThrough {f : Path → Path} {x : Option NamedDocument}
    (hd : s.policy.profilesDirectory = some d)
    (hx : (profileAttemptsThrough f files (s.baseDirectory.join d)).map Except.toOption = [x]) :
    ((s.attemptsThrough f files).map Except.toOption).getLast? = some x := by
  rw [map_toOption_attemptsThrough, profilesPath?_eq hd, Option.toList_some, List.flatMap_singleton,
    hx, List.getLast?_concat]

/-- The one profile of a directory. -/
theorem map_toOption_of_list_mark (f : Path → Path) (hlist : files.list p = .ok [markFile.text]) :
    (profileAttemptsThrough f files p).map Except.toOption =
      [(files.document? LayerDocument.parse (f (p.join markFile))).map (.mk (.profile "p"))] := by
  have hone : (profileFiles [markFile.text]).entries = [("p", markFile)] := by decide +kernel
  rw [map_toOption_profileAttemptsThrough, hlist]
  simp only [hone, List.map_cons, List.map_nil]

theorem list_markedView {place : Bool × List String × Option String} (hp : p ≠ .empty) :
    ((markedView place).seenFrom w).list p = .ok [markFile.text] := by
  simp only [FileView.seenFrom, if_neg hp]
  rfl

/-- A relative path that ends with the file has a document, which is told by its place. -/
theorem document?_markedView_of_relative {place : Bool × List String × Option String}
    (hp : p.isAbsolute = false) (hlast : p.pieces.getLast? = some "p.toml") :
    ((markedView place).seenFrom w).document? LayerDocument.parse p =
      some (markDocument ((w.join p).place = place)) :=
  document?_markedView ((Path.getLast?_pieces_join hp).trans hlast)

/-- Below a relative base directory, the path of the file and the path resolved again are relative
and end with the file. -/
theorem found_spec (hd : (s.baseDirectory.join d).isAbsolute = false) :
    ((s.baseDirectory.join d).join markFile).isAbsolute = false ∧
      ((s.baseDirectory.join d).join markFile).pieces.getLast? = some "p.toml" := by
  have hmark : markFile.isAbsolute = false := by decide
  refine ⟨by rw [Path.isAbsolute_join, hmark, hd]; rfl, ?_⟩
  rw [Path.getLast?_pieces_join hmark]
  decide

/-- If a path and the path resolved again are at one place, seen from anywhere, the base directory
has no names. -/
theorem names_eq_nil_of_place_eq (hbase : s.baseDirectory.isAbsolute = false)
    (hp : p.isAbsolute = false) (h : (w.join p).place = (w.join (s.baseDirectory.join p)).place) :
    s.baseDirectory.names = [] := by
  have hagain : (s.baseDirectory.join p).isAbsolute = false := by
    rw [Path.isAbsolute_join, hp, hbase]
    rfl
  have hnames := Path.names_eq_of_place_eq h
  rw [Path.names_join hp, Path.names_join hagain, Path.names_join hp] at hnames
  exact List.append_left_eq_self.1 (List.append_cancel_left hnames).symm

/-- If the last document is the same when the mark is put where the profile is read, then profiles
stay: the mark is where the profile was found. -/
theorem profilesStay_of_document?_eq
    (h : ∀ d place, s.policy.profilesDirectory = some d → s.baseDirectory.join d ≠ .empty →
      ((markedView place).seenFrom w).document? LayerDocument.parse
          ((s.baseDirectory.join d).join markFile) =
        ((markedView place).seenFrom w).document? LayerDocument.parse
          (s.baseDirectory.join ((s.baseDirectory.join d).join markFile))) : s.ProfilesStay := by
  intro d hd
  cases hdabs : d.isAbsolute with
  | true => exact Or.inl rfl
  | false =>
    cases hbase : s.baseDirectory.isAbsolute with
    | true => exact Or.inr (Or.inl rfl)
    | false =>
      refine Or.inr (Or.inr ?_)
      by_cases hempty : s.baseDirectory.join d = .empty
      · have hnames := congrArg Path.names hempty
        rw [Path.names_join hdabs, show Path.empty.names = [] by decide] at hnames
        exact (List.append_eq_nil_iff.1 hnames).1
      · have hdir : (s.baseDirectory.join d).isAbsolute = false := by
          rw [Path.isAbsolute_join, hdabs, hbase]
          rfl
        obtain ⟨hfound, hlast⟩ := found_spec hdir
        have hagain : (s.baseDirectory.join ((s.baseDirectory.join d).join markFile)).isAbsolute =
            false := by
          rw [Path.isAbsolute_join, hfound, hbase]
          rfl
        have heq := h d (w.join (s.baseDirectory.join
          ((s.baseDirectory.join d).join markFile))).place hd hempty
        rw [document?_markedView_of_relative hfound hlast, document?_markedView_of_relative hagain
          ((Path.getLast?_pieces_join hfound).trans hlast)] at heq
        exact names_eq_nil_of_place_eq hbase hfound
          ((markDocument_inj (Option.some.inj heq)).2 rfl)

theorem mk_injective (name : LayerName) : Function.Injective (NamedDocument.mk name) :=
  fun _ _ h ↦ congrArg NamedDocument.document h

/-- If profiles are always read where they were found, they stay. -/
theorem profilesStay_of_attempts_eq
    (h : ∀ (w : Path) (files : FileView), w.isAbsolute = true → files.IsDisk →
      (s.attempts (files.seenFrom w)).map Except.toOption =
        (s.attemptsWhereFound (files.seenFrom w)).map Except.toOption) : s.ProfilesStay := by
  have hroot : (Path.mk "/").isAbsolute = true := by decide
  refine profilesStay_of_document?_eq (w := ⟨"/"⟩) fun d place hd hne ↦ ?_
  have heq := congrArg List.getLast? (h _ _ hroot (isDisk_markedView place))
  rw [attempts_eq_attemptsThrough, attemptsWhereFound,
    getLast?_attemptsThrough hd (map_toOption_of_list_mark _ (list_markedView hne)),
    getLast?_attemptsThrough hd (map_toOption_of_list_mark _ (list_markedView hne))] at heq
  exact (Option.map_injective (mk_injective _) (Option.some.inj heq)).symm

/-- If the documents are always the same from the moved base directory, profiles stay, and the path
of their directory is not empty. -/
theorem profilesStay_of_movedTo_eq
    (h : ∀ (w b : Path) (files : FileView), w.isAbsolute = true → files.IsDisk →
      s.IsBaseFrom w b →
      ((s.movedTo b).attempts (files.seenFrom w)).map Except.toOption =
        (s.attempts (files.seenFrom w)).map Except.toOption) :
    s.ProfilesStay ∧ s.profilesPath? ≠ some .empty := by
  obtain ⟨w, hw⟩ : ∃ w : Path, w.isAbsolute = true := ⟨⟨"/"⟩, by decide⟩
  obtain ⟨b, hb⟩ : ∃ b, s.IsBaseFrom w b := ⟨_, s.isBaseFrom_join w⟩
  have hlast : ∀ d place, s.policy.profilesDirectory = some d →
      (((s.movedTo b).attempts ((markedView place).seenFrom w)).map Except.toOption).getLast? =
        some ((((markedView place).seenFrom w).document? LayerDocument.parse
          ((s.baseDirectory.join d).join markFile)).map (.mk (.profile "p"))) := by
    intro d place hd
    have hmoved : (s.movedTo b).policy.profilesDirectory = some d := hd
    have hne : b.join d ≠ .empty := fun hempty ↦ by
      have habs := hb.isAbsolute_join hw d
      rw [hempty] at habs
      exact absurd habs (by decide)
    rw [attempts_eq_attemptsThrough,
      getLast?_attemptsThrough hmoved (map_toOption_of_list_mark _ (list_markedView hne)),
      movedTo_baseDirectory,
      (isDisk_markedView place).document?_congr (hb.place_join_found hw d markFile)]
  constructor
  · refine profilesStay_of_document?_eq (w := w) fun d place hd hne ↦ ?_
    have heq := congrArg List.getLast? (h w b _ hw (isDisk_markedView place) hb)
    rw [hlast d place hd, attempts_eq_attemptsThrough,
      getLast?_attemptsThrough hd (map_toOption_of_list_mark _ (list_markedView hne))] at heq
    exact Option.map_injective (mk_injective _) (Option.some.inj heq)
  -- The empty path cannot be listed, but the directory that it stands for can.
  · intro hempty
    rcases hd : s.policy.profilesDirectory with - | d
    · rw [profilesPath?, hd] at hempty
      cases hempty
    have hdir : s.baseDirectory.join d = .empty :=
      Option.some.inj ((profilesPath?_eq hd).symm.trans hempty)
    obtain ⟨hfound, hend⟩ := found_spec (s := s) (d := d) (by rw [hdir]; decide)
    have hnone : ((s.attempts ((markedView Path.empty.place).seenFrom w)).map
        Except.toOption).getLast? = some none := by
      rw [attempts_eq_attemptsThrough]
      refine getLast?_attemptsThrough hd ?_
      rw [map_toOption_profileAttemptsThrough, hdir]
      rfl
    have heq := congrArg List.getLast? (h w b _ hw (isDisk_markedView Path.empty.place) hb)
    rw [hlast d _ hd, hnone, document?_markedView_of_relative hfound hend] at heq
    cases heq

/-- **Documents are read where they were found exactly where profiles stay.** First, resolving a
resolved path leads to the same place unless the path is relative and the base directory is relative
and has names. Second, profiles stay if and only if, on every disk, each of them is read where it
was found. Third, they stay and the path of their directory is not empty if and only if, on every
disk, the documents are the same from a base directory and from the same one seen from elsewhere. In
this case the configuration has the same layers when it is loaded through a relative path and
through the absolute path of the same file. -/
theorem profilesStay_iff (s : Settings) :
    (∀ p, (s.resolve (s.resolve p)).place = (s.resolve p).place ↔
      p.isAbsolute = true ∨ s.baseDirectory.isAbsolute = true ∨ s.baseDirectory.names = []) ∧
    (s.ProfilesStay ↔ ∀ (w : Path) (files : FileView), w.isAbsolute = true → files.IsDisk →
      (s.attempts (files.seenFrom w)).map Except.toOption =
        (s.attemptsWhereFound (files.seenFrom w)).map Except.toOption) ∧
    (s.ProfilesStay ∧ s.profilesPath? ≠ some .empty ↔
      ∀ (w b : Path) (files : FileView), w.isAbsolute = true → files.IsDisk → s.IsBaseFrom w b →
        ((s.movedTo b).attempts (files.seenFrom w)).map Except.toOption =
          (s.attempts (files.seenFrom w)).map Except.toOption) ∧
    (s.ProfilesStay ∧ s.profilesPath? ≠ some .empty →
      ∀ (w c : Path) (files : FileView), w.isAbsolute = true → files.IsDisk →
        c.isAbsolute = false → c.names ≠ [] → (load (files.seenFrom w) c).toOption = some s →
        (layersAt (files.seenFrom w) (w.join c)).toOption =
          (layersAt (files.seenFrom w) c).toOption) := by
  refine ⟨s.place_resolve_resolve_iff, ?_, ?_, ?_⟩
  · exact ⟨fun h w _ _ hdisk ↦ h.attempts_eq hdisk w, profilesStay_of_attempts_eq⟩
  · exact ⟨fun ⟨hs, hne⟩ _ _ _ hw hdisk hb ↦ hs.map_toOption_attempts hb hw hne hdisk,
      profilesStay_of_movedTo_eq⟩
  · exact fun ⟨hs, hne⟩ _ _ _ hw hdisk hc hnames hload ↦
      hs.toOption_layersAt hne hdisk hw hc hnames hload

/-- A directory with a configuration in a directory below, which has one profile. -/
def nestedTree : FileTree :=
  ((FileTree.mk []).putDeep ["w", "sub", "toolgate.toml"]
      (.file (some "[policy]\nprofiles_dir = \"profiles\"\n"))).putDeep
    ["w", "sub", "profiles", "work.toml"] (.file (some "default_decision = \"allow\"\n"))

/-- From `/w`, the configuration at `sub/toolgate.toml` cannot be loaded, since its profile is
looked for below `sub/sub`. The same file is loaded with its profile at `/w/sub/toolgate.toml`. -/
theorem nested_profile_is_lost :
    (match layersAt (nestedTree.view ⟨"/w"⟩) ⟨"sub/toolgate.toml"⟩ with
      | .ok _ => none
      | .error e => some e) = some (.unreadable ⟨"sub/sub/profiles/work.toml"⟩ .missing) ∧
    (layersAt (nestedTree.view ⟨"/w"⟩) ⟨"/w/sub/toolgate.toml"⟩).toOption.map (·.profiles.keys) =
      some ["work"] := by
  constructor
  · decide +kernel
  · decide +kernel

end Settings

end ToolAccess
