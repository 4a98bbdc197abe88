import ToolAccess.Proofs.ProfilePaths
import ToolAccess.Proofs.SettingsDeclarations

/-!
# Profiles in a directory

A system lists the files of a directory in no particular order. Each file whose name is a text with
the ending of profiles behind it is a profile, and the text is its name. What is made of profiles
does not depend on the order in which their files come: neither the layers and the problems nor the
document that cannot be had, when there are several.

## What the proof rests on

* **Names.** The ending can be put on a profile's name in one way only (`profileName?_eq_some_iff`),
  so files with different names are different profiles (`nodup_profilesAmong`), and the map of the
  profiles has every one of them (`perm_profilePaths`).
* **Order.** The map is in the order of the texts. UTF-8 is made so that this is also the order of
  their bytes (`Text.bytes_lt_iff`).
* **Views.** Two views that differ in the order of directories only (`FileView.Relisted`) lead to
  the same attempts to read documents (`Settings.attempts_relisted`), and nothing else of a view is
  used by loading.
* **Layers.** Once all documents are read, the layers of profiles are those of the profiles found,
  one by one (`Settings.forall₂_profiles`), so their names are as different as those of the files.

The main result is `Settings.profiles_do_not_depend_on_order`.
-/

namespace ToolAccess

/-! ### The order of bytes -/

namespace Text

/-- The bytes of a text in UTF-8. -/
def bytes (s : String) : List UInt8 := s.toUTF8.data.toList

theorem bytes_eq_flatMap (s : String) : bytes s = s.toList.flatMap String.utf8EncodeChar := by
  rw [bytes, String.toUTF8_eq_toByteArray]
  conv_lhs => rw [← String.ofList_toList (s := s)]
  rw [String.toByteArray_ofList, List.utf8Encode, List.toList_data_toByteArray]

theorem cons_ofNat_lt_cons_ofNat_iff {m n : ℕ} {x y : List UInt8} (hm : m < 256) (hn : n < 256) :
    UInt8.ofNat m :: x < UInt8.ofNat n :: y ↔ m < n ∨ m = n ∧ x < y := by
  rw [List.cons_lt_cons_iff, UInt8.lt_iff_toNat_lt, ← UInt8.toNat_inj,
    UInt8.toNat_ofNat_of_lt' hm, UInt8.toNat_ofNat_of_lt' hn]

theorem toNat_val_lt (c : Char) : c.val.toNat < 0x110000 := by
  have hvalid : c.val.toNat < 0xd800 ∨ 0xdfff < c.val.toNat ∧ c.val.toNat < 0x110000 := c.valid
  omega

/-- Of two characters the smaller one has the smaller bytes, whatever stands behind them. -/
theorem utf8EncodeChar_append_lt {c d : Char} (h : c < d) (x y : List UInt8) :
    String.utf8EncodeChar c ++ x < String.utf8EncodeChar d ++ y := by
  have hlt : c.val.toNat < d.val.toNat := h
  have hd : d.val.toNat < 0x110000 := toNat_val_lt d
  have hdiv : ∀ m : ℕ, m / 4096 = m / 64 / 64 ∧ m / 262144 = m / 64 / 64 / 64 := fun m ↦
    ⟨(Nat.div_div_eq_div_mul m 64 64).symm, by rw [Nat.div_div_eq_div_mul, Nat.div_div_eq_div_mul]⟩
  simp only [String.utf8EncodeChar, (hdiv _).1, (hdiv _).2]
  generalize c.val.toNat = m at *
  generalize d.val.toNat = n at *
  -- Different lengths are told by the first byte. Of one length, the bytes are the digits of the
  -- code point in base 64.
  split_ifs <;>
    · simp (disch := omega) only [List.cons_append, List.nil_append, cons_ofNat_lt_cons_ofNat_iff]
      omega

theorem flatMap_utf8EncodeChar_lt {cs ds : List Char} (h : cs < ds) :
    cs.flatMap String.utf8EncodeChar < ds.flatMap String.utf8EncodeChar := by
  induction cs generalizing ds with
  | nil =>
    cases ds with
    | nil => exact absurd h (List.lt_irrefl [])
    | cons d ds =>
      rw [List.flatMap_nil, List.flatMap_cons]
      rcases hd : String.utf8EncodeChar d with - | ⟨b, bs⟩
      · exact absurd hd String.utf8EncodeChar_ne_nil
      · exact List.nil_lt_cons b _
  | cons c cs ih =>
    cases ds with
    | nil => exact absurd h (List.not_lt_nil _)
    | cons d ds =>
      rw [List.flatMap_cons, List.flatMap_cons]
      rcases List.cons_lt_cons_iff.1 h with hcd | ⟨rfl, hrest⟩
      · exact utf8EncodeChar_append_lt hcd _ _
      · exact List.append_left_lt (ih hrest)

/-- **The order of texts is that of their bytes.** -/
theorem bytes_lt_iff {s t : String} : bytes s < bytes t ↔ s < t := by
  have hbytes : ∀ {s t : String}, s < t → bytes s < bytes t := fun {s t} h ↦ by
    rw [bytes_eq_flatMap, bytes_eq_flatMap]
    exact flatMap_utf8EncodeChar_lt (String.lt_iff_toList_lt.1 h)
  refine ⟨fun h ↦ ?_, hbytes⟩
  rcases lt_trichotomy s t with hlt | rfl | hgt
  · exact hlt
  · exact absurd h (List.lt_irrefl _)
  · exact absurd (List.lt_trans h (hbytes hgt)) (List.lt_irrefl _)

end Text

/-! ### The profiles among the files of a directory -/

variable {names names' : List String} {directory : Path} {fileName profile : String}

/-- The name of a profile's file is a text that is not empty, with the ending behind it. -/
theorem profileName?_eq_some_iff :
    profileName? fileName = some profile ↔ profile ≠ "" ∧ fileName = profile ++ ".toml" := by
  have hending : (".toml" : String).toList = profileEnding := by decide
  rw [profileName?]
  constructor
  · intro h
    split at h
    case isFalse => cases h
    case isTrue hfile =>
      rw [Bool.and_eq_true, List.isSuffixOf_iff_suffix, decide_eq_true_iff] at hfile
      obtain ⟨⟨front, hfront⟩, hlong⟩ := hfile
      rw [← hfront, List.length_append, Nat.add_sub_cancel, List.take_left] at h
      obtain rfl := Option.some.inj h
      refine ⟨?_, ?_⟩
      · rintro hempty
        rw [← hfront, show front = [] by simpa using congrArg String.toList hempty] at hlong
        exact absurd hlong (by simp)
      · rw [← String.toList_inj, String.toList_append, String.toList_ofList, hending, hfront]
  · rintro ⟨hne, rfl⟩
    rw [String.toList_append, hending, if_pos]
    · rw [List.length_append, Nat.add_sub_cancel, List.take_left, String.ofList_toList]
    · have hpos : 0 < profile.toList.length :=
        List.length_pos_iff.2 fun h ↦ hne (String.toList_eq_nil_iff.1 h)
      simp [List.isSuffixOf_iff_suffix, hpos]

/-- The profiles among the files of a directory with their paths, as the files come. -/
def profilesAmong (directory : Path) (fileNames : List String) : List (String × Path) :=
  fileNames.filterMap fun fileName ↦
    (profileName? fileName).map fun profile ↦ (profile, directory.join ⟨fileName⟩)

theorem mem_profilesAmong_iff {path : Path} : (profile, path) ∈ profilesAmong directory names ↔
    profile ≠ "" ∧ profile ++ ".toml" ∈ names ∧ path = directory.join ⟨profile ++ ".toml"⟩ := by
  simp only [profilesAmong, List.mem_filterMap, Option.map_eq_some_iff, Prod.mk.injEq,
    profileName?_eq_some_iff]
  constructor
  · rintro ⟨fileName, hmem, _, ⟨hne, rfl⟩, rfl, rfl⟩
    exact ⟨hne, hmem, rfl⟩
  · rintro ⟨hne, hmem, rfl⟩
    exact ⟨_, hmem, profile, ⟨hne, rfl⟩, rfl, rfl⟩

/-- Different files are different profiles. -/
theorem nodup_profilesAmong (directory : Path) (h : names.Nodup) :
    ((profilesAmong directory names).map (·.1)).Nodup := by
  have hnames : (profilesAmong directory names).map (·.1) = names.filterMap profileName? := by
    rw [profilesAmong, List.map_filterMap]
    simp only [Option.map_map, Function.comp_def, Option.map_id']
  rw [hnames]
  refine h.filterMap fun a b profile ha hb ↦ ?_
  rw [(profileName?_eq_some_iff.1 ha).2, (profileName?_eq_some_iff.1 hb).2]

/-- The map of the profiles has each of them. -/
theorem perm_profilePaths (directory : Path) (h : names.Nodup) :
    (profilePaths directory names).entries.Perm (profilesAmong directory names) :=
  SortedMap.perm_ofList (nodup_profilesAmong directory h)

/-- The order of the files makes no difference. -/
theorem profilePaths_congr (directory : Path) (hperm : names'.Perm names) (h : names.Nodup) :
    profilePaths directory names' = profilePaths directory names :=
  SortedMap.ofList_eq_of_perm (hperm.filterMap _) (nodup_profilesAmong directory h)

/-- The profiles are in the order of the bytes of their names. -/
theorem pairwise_profilePaths (directory : Path) (names : List String) :
    (profilePaths directory names).entries.Pairwise fun a b ↦ Text.bytes a.1 < Text.bytes b.1 :=
  (profilePaths directory names).ascending.imp fun h ↦ Text.bytes_lt_iff.2 (compare_lt_iff_lt.1 h)

/-! ### Directories in another order -/

/-- The answers of two views about one directory: it cannot be listed for one reason, or it has the
same files, each once, in any two orders. -/
inductive SameListing : Except FileError (List String) → Except FileError (List String) → Prop
  | failed (e : FileError) : SameListing (.error e) (.error e)
  | listed {names names' : List String} (hnodup : names.Nodup) (hperm : names'.Perm names) :
    SameListing (.ok names) (.ok names')

/-- The second view has the files of the first one, and its directories in any order. -/
structure FileView.Relisted (files files' : FileView) : Prop where
  read_eq : files'.read = files.read
  list_same : ∀ path, SameListing (files.list path) (files'.list path)

namespace FileView.Relisted

variable {files files' : FileView}

theorem document_eq {α : Type} (h : files.Relisted files')
    (parse : String → Except DocumentError α) (path : Path) :
    files'.document parse path = files.document parse path := by
  rw [document, document, text, text, h.read_eq]

theorem profiles_eq (h : files.Relisted files') (directory : Path) :
    files'.profiles directory = files.profiles directory := by
  have hsame := h.list_same directory
  rw [profiles, profiles]
  generalize files.list directory = listing, files'.list directory = listing' at hsame
  cases hsame with
  | failed e => rfl
  | listed hnodup hperm => simp only [profilePaths_congr directory hperm hnodup]

end FileView.Relisted

/-- A choice that succeeds for each element keeps them one by one. -/
theorem forall₂_filterMap {α β : Type} {R : α → β → Prop} {f : α → Option β} {l : List α}
    (h : ∀ a ∈ l, ∃ b, f a = some b ∧ R a b) : List.Forall₂ R l (l.filterMap f) := by
  induction l with
  | nil => exact .nil
  | cons a l ih =>
    obtain ⟨⟨b, hb, hR⟩, hl⟩ := List.forall_mem_cons.1 h
    rw [List.filterMap_cons_some hb]
    exact .cons hR (ih hl)

namespace Settings

variable {s : Settings} {files files' : FileView} {docs : List NamedDocument} {d : Path}

/-- Directories in another order lead to the same attempts to read documents. -/
theorem attempts_relisted (s : Settings) (h : files.Relisted files') :
    s.attempts files' = s.attempts files := by
  have hattempt : s.attempt files' = s.attempt files := by
    funext name path
    rw [attempt, attempt, h.document_eq]
  have hprofiles : s.profileAttempts files' = s.profileAttempts files := by
    funext directory
    rw [profileAttempts, profileAttempts, h.profiles_eq, hattempt]
  rw [attempts, attempts, hattempt, hprofiles]

theorem documents_relisted (s : Settings) (h : files.Relisted files') :
    s.documents files' = s.documents files := by
  rw [documents, documents, s.attempts_relisted h]

theorem layerEvents_relisted (s : Settings) (h : files.Relisted files') :
    s.layerEvents files' = s.layerEvents files := by
  rw [layerEvents, layerEvents, documentsRead, documentsRead, s.attempts_relisted h]

theorem engineParts_relisted (s : Settings) (h : files.Relisted files') (inUse : List String) :
    s.engineParts files' inUse = s.engineParts files inUse := by
  rw [engineParts, engineParts, s.documents_relisted h]

/-! ### The layers of profiles -/

/-- An entry among the layers of profiles has the name of a profile, and the layer of the document
at a path. -/
def IsLayerOf (s : Settings) (files : FileView) (profile : String) (path : Path)
    (entry : String × Layer) : Prop :=
  entry.1 = profile ∧ ∃ document, files.document LayerDocument.parse path = .ok document ∧
    entry.2 = document.toLayer s.vocabulary (LayerName.profile profile).display

/-- What stands for a profile among the attempts to read documents, if it succeeds. -/
def profileOfAttempt? (v : TagVocabulary) (x : Except SettingsError NamedDocument) :
    Option (String × Layer) :=
  x.toOption.bind (NamedDocument.profile? v)

theorem attempts_eq_of_documents (h : s.documents files = .ok docs) :
    s.attempts files = docs.map .ok :=
  mapM_id_eq_ok_iff.1 h

/-- The layers of profiles, from the attempts. -/
theorem filterMap_profile?_eq (h : s.documents files = .ok docs) (v : TagVocabulary) :
    docs.filterMap (NamedDocument.profile? v) =
      (s.attempts files).filterMap (profileOfAttempt? v) := by
  rw [attempts_eq_of_documents h, List.filterMap_map]
  rfl

/-- The attempt to read a layer with another name is not one for a profile. -/
theorem profileOfAttempt?_attempt (v : TagVocabulary) {name : LayerName}
    (h : ∀ document, NamedDocument.profile? v ⟨name, document⟩ = none) (path : Path) :
    profileOfAttempt? v (s.attempt files name path) = none := by
  rw [profileOfAttempt?, attempt]
  rcases files.document LayerDocument.parse (s.resolve path) with e | document
  · rfl
  · exact h document

/-- Only the attempts for profiles give layers of profiles. -/
theorem filterMap_profileOfAttempt? (s : Settings) (files : FileView) (v : TagVocabulary) :
    (s.attempts files).filterMap (profileOfAttempt? v) =
      s.profilesPath?.toList.flatMap fun directory ↦
        (s.profileAttempts files directory).filterMap (profileOfAttempt? v) := by
  have hother : ∀ (name : LayerName) (paths : List Path),
      (∀ document, NamedDocument.profile? v ⟨name, document⟩ = none) →
      (paths.map (s.attempt files name)).filterMap (profileOfAttempt? v) = [] := by
    intro name paths h
    rw [List.filterMap_map, List.filterMap_eq_nil_iff]
    exact fun path _ ↦ profileOfAttempt?_attempt v h path
  rw [attempts, List.filterMap_append, List.filterMap_append, hother _ _ fun _ ↦ rfl,
    hother _ _ fun _ ↦ rfl, List.nil_append, List.nil_append, List.filterMap_flatMap]

/-- Once all documents are read, the profiles were found and their documents are among them. -/
theorem profiles_of_documents (h : s.documents files = .ok docs)
    (hd : s.policy.profilesDirectory = some d) :
    ∃ found, files.profiles (s.resolve d) = .ok found ∧ ∀ e ∈ found.entries,
      ∃ document, files.document LayerDocument.parse (s.resolve e.2) = .ok document := by
  have hprofiles : ∀ x ∈ s.profileAttempts files (s.resolve d), ∃ doc, x = .ok doc := by
    intro x hx
    have hmem : x ∈ s.attempts files := by
      rw [attempts, profilesPath?, hd]
      exact List.mem_append_right _ (by simpa using hx)
    rw [attempts_eq_of_documents h] at hmem
    obtain ⟨doc, -, rfl⟩ := List.mem_map.1 hmem
    exact ⟨doc, rfl⟩
  rcases hfound : files.profiles (s.resolve d) with error | found
  · simp only [profileAttempts, hfound] at hprofiles
    obtain ⟨doc, ⟨⟩⟩ := hprofiles _ (List.mem_singleton_self _)
  · simp only [profileAttempts, hfound] at hprofiles
    refine ⟨found, rfl, fun e he ↦ ?_⟩
    obtain ⟨doc, hdoc⟩ := hprofiles _ (List.mem_map_of_mem he)
    rcases hread : files.document LayerDocument.parse (s.resolve e.2) with error | document
    · rw [attempt, hread] at hdoc
      cases hdoc
    · exact ⟨document, rfl⟩

/-- The layers of profiles are those of the profiles found, in their order. -/
theorem forall₂_profiles (h : s.documents files = .ok docs)
    (hd : s.policy.profilesDirectory = some d) :
    ∃ found, files.profiles (s.resolve d) = .ok found ∧
      List.Forall₂ (fun e entry ↦ s.IsLayerOf files e.1 (s.resolve e.2) entry) found.entries
        (docs.filterMap (NamedDocument.profile? s.vocabulary)) := by
  obtain ⟨found, hfound, hread⟩ := profiles_of_documents h hd
  refine ⟨found, hfound, ?_⟩
  rw [filterMap_profile?_eq h, filterMap_profileOfAttempt?, profilesPath?, hd, Option.map_some,
    Option.toList_some, List.flatMap_singleton, profileAttempts, hfound]
  dsimp only
  rw [List.filterMap_map]
  refine forall₂_filterMap fun e he ↦ ?_
  obtain ⟨document, hdocument⟩ := hread e he
  refine ⟨(e.1, document.toLayer s.vocabulary (LayerName.profile e.1).display), ?_, rfl, document,
    hdocument, rfl⟩
  rw [Function.comp_apply, profileOfAttempt?, attempt, hdocument]
  rfl

/-- The layers of profiles come in the order of their names. -/
theorem pairwise_profiles (h : s.documents files = .ok docs) :
    (docs.filterMap (NamedDocument.profile? s.vocabulary)).Pairwise
      fun a b ↦ compare a.1 b.1 = .lt := by
  rcases hd : s.policy.profilesDirectory with - | d
  · rw [filterMap_profile?_eq h, filterMap_profileOfAttempt?, profilesPath?, hd]
    exact .nil
  · obtain ⟨found, -, hfound⟩ := forall₂_profiles h hd
    have hnames : found.keys =
        (docs.filterMap (NamedDocument.profile? s.vocabulary)).map (·.1) := by
      rw [SortedMap.keys, ← List.forall₂_eq_eq_eq, List.forall₂_map_left_iff,
        List.forall₂_map_right_iff]
      exact hfound.imp fun _ _ he ↦ he.1.symm
    rw [← List.pairwise_map (R := fun a b ↦ compare a b = .lt), ← hnames]
    exact List.pairwise_map.2 found.ascending

/-- When a layer is put among the layers of profiles, its profile has none yet. -/
theorem find?_before_eq_none (h : s.documents files = .ok docs)
    {before after : List (String × Layer)} {profile : String} {layer : Layer}
    (hsplit : docs.filterMap (NamedDocument.profile? s.vocabulary) =
      before ++ (profile, layer) :: after) :
    (SortedMap.ofList before).find? profile = none := by
  have hascending := pairwise_profiles h
  rw [hsplit] at hascending
  obtain ⟨hbefore, -, hsmaller⟩ := List.pairwise_append.1 hascending
  rw [Option.eq_none_iff_forall_ne_some]
  intro earlier hearlier
  have hmem := SortedMap.mem_entries_iff.2 hearlier
  rw [SortedMap.entries_ofList hbefore] at hmem
  have hself : compare profile profile = .lt := hsmaller _ hmem _ (List.mem_cons_self ..)
  exact lt_irrefl _ (compare_lt_iff_lt.1 hself)

/-- From an absolute base directory, profiles are read where they were found. -/
theorem resolve_profilePaths (hbase : s.baseDirectory.isAbsolute = true) {names : List String}
    (hnodup : names.Nodup) {e : String × Path}
    (he : e ∈ (profilePaths (s.resolve d) names).entries) : s.resolve e.2 = e.2 := by
  obtain ⟨profile, path⟩ := e
  obtain ⟨-, -, rfl⟩ := mem_profilesAmong_iff.1 ((perm_profilePaths _ hnodup).mem_iff.1 he)
  have habs : (s.resolve d).isAbsolute = true := by
    rw [resolve_eq_join]
    exact Path.isAbsolute_join_left hbase
  rw [resolve, if_pos (Path.isAbsolute_join_left habs)]

/-! ### The order of a directory -/

/-- **Profiles do not depend on the order of a directory, and none is lost.** Take any configuration
and any files.

* From a directory with any file names, all different, one profile is found for each name that is a
  text followed by `.toml`, unless the text is empty, and none for any other name. The profiles are
  in the order of the bytes of these texts.
* With the directories listed in any other order the same profiles are found, the same documents are
  read, or reading them stops at the same one for the same reason, and the layers, the problems, the
  engine and the warnings are the same.
* Once all documents are read, each profile's layer is put where there is none yet, so no layer
  takes the place of an earlier one, and all of them are in the table of layers.
* With an absolute base directory, these are the layers of the documents at the paths of the
  profiles found, one for each. -/
theorem profiles_do_not_depend_on_order (s : Settings) (files : FileView) :
    (∀ directory names, files.list directory = .ok names → names.Nodup →
      ∃ found, files.profiles directory = .ok found ∧
        found.entries.Perm (profilesAmong directory names) ∧
        (found.entries.Pairwise fun a b ↦ Text.bytes a.1 < Text.bytes b.1) ∧
        ∀ profile path, (profile, path) ∈ found.entries ↔
          profile ≠ "" ∧ profile ++ ".toml" ∈ names ∧
            path = directory.join ⟨profile ++ ".toml"⟩) ∧
    (∀ files', files.Relisted files' →
      (∀ directory, files'.profiles directory = files.profiles directory) ∧
      s.documents files' = s.documents files ∧
      s.loadLayers files' = s.loadLayers files ∧
      s.layerEvents files' = s.layerEvents files ∧
      ∀ inUse, s.buildEngine files' inUse = s.buildEngine files inUse ∧
        s.engineEvents files' inUse = s.engineEvents files inUse) ∧
    (∀ docs, s.documents files = .ok docs →
      (∀ before profile layer after,
        docs.filterMap (NamedDocument.profile? s.vocabulary) =
          before ++ (profile, layer) :: after →
        (SortedMap.ofList before).find? profile = none) ∧
      (NamedDocument.layerTable s.vocabulary docs).profiles.entries =
        docs.filterMap (NamedDocument.profile? s.vocabulary)) ∧
    (s.baseDirectory.isAbsolute = true → ∀ docs d names, s.documents files = .ok docs →
      s.policy.profilesDirectory = some d → files.list (s.resolve d) = .ok names → names.Nodup →
      List.Forall₂ (fun e entry ↦ s.IsLayerOf files e.1 e.2 entry)
        (profilePaths (s.resolve d) names).entries
        (NamedDocument.layerTable s.vocabulary docs).profiles.entries) := by
  refine ⟨fun directory names hlist hnodup ↦ ?_, fun files' h ↦ ?_, fun docs hdocs ↦ ?_,
    fun hbase docs d names hdocs hd hlist hnodup ↦ ?_⟩
  · have hperm := perm_profilePaths directory hnodup
    refine ⟨profilePaths directory names, by rw [FileView.profiles, hlist], hperm,
      pairwise_profilePaths directory names, fun profile path ↦ ?_⟩
    rw [hperm.mem_iff, mem_profilesAmong_iff]
  · have hparts := s.engineParts_relisted h
    refine ⟨h.profiles_eq, s.documents_relisted h, ?_, s.layerEvents_relisted h,
      fun inUse ↦ ⟨?_, ?_⟩⟩
    · rw [loadLayers, loadLayers, s.documents_relisted h]
    · rw [buildEngine, buildEngine, hparts]
    · rw [engineEvents, engineEvents, hparts, s.layerEvents_relisted h]
  · exact ⟨fun _ _ _ _ ↦ find?_before_eq_none hdocs,
      SortedMap.entries_ofList (pairwise_profiles hdocs)⟩
  · obtain ⟨found, hfound, hlayers⟩ := forall₂_profiles hdocs hd
    rw [FileView.profiles, hlist] at hfound
    obtain rfl := Except.ok.inj hfound
    have hentries : (NamedDocument.layerTable s.vocabulary docs).profiles.entries = _ :=
      SortedMap.entries_ofList (pairwise_profiles hdocs)
    rw [hentries]
    refine List.forall₂_iff_zip.2 ⟨hlayers.length_eq, fun hzip ↦ ?_⟩
    rw [← resolve_profilePaths hbase hnodup (List.of_mem_zip hzip).1]
    exact (List.forall₂_iff_zip.1 hlayers).2 hzip

/-- A directory with these files, each of them empty. -/
def shelf (names : List String) : FileView := ⟨fun _ ↦ .ok "", fun _ ↦ .ok names⟩

/-- A configuration at `/w` with its profiles in `profiles`. -/
def shelved : Settings :=
  { blank with
    policy := { PolicySettings.blank with profilesDirectory := some ⟨"profiles"⟩ }
    baseDirectory := ⟨"/w"⟩ }

theorem relisted_shelf {names names' : List String} (hnodup : names.Nodup)
    (hperm : names'.Perm names) : (shelf names).Relisted (shelf names') :=
  ⟨rfl, fun _ ↦ .listed hnodup hperm⟩

/-- Of four files two are profiles, and the order of the four makes no difference to the layers. -/
theorem shelf_has_two_profiles :
    ((shelf [".toml", "b.toml", "notes.txt", "a.b.toml"]).profiles ⟨"/w/profiles"⟩).toOption.map
        (·.entries) =
      some [("a.b", ⟨"/w/profiles/a.b.toml"⟩), ("b", ⟨"/w/profiles/b.toml"⟩)] ∧
    shelved.loadLayers (shelf ["a.b.toml", "notes.txt", "b.toml", ".toml"]) =
      shelved.loadLayers (shelf [".toml", "b.toml", "notes.txt", "a.b.toml"]) := by
  refine ⟨by decide +kernel, ?_⟩
  have horder := (profiles_do_not_depend_on_order shelved
    (shelf [".toml", "b.toml", "notes.txt", "a.b.toml"])).2.1
  exact (horder _ (relisted_shelf (by decide) (by decide))).2.2.1

end Settings

end ToolAccess
