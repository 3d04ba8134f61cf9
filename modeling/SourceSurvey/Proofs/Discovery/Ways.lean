import SourceSurvey.Discovery
import SourceSurvey.Proofs.FileSystem.Walking

/-!
# Where a search leads

The ways below a directory lead through real directories to an entry, and all of them are walked
(`mem_waysBelow_iff`). The path of such an entry leads to the entry itself or, from a link, to what
the link leads to, so it is told by the entries whether it is a file (`isFile_eq`). Only a path that
the system refuses as too long tells nothing (`isFile_eq_error`).
-/

namespace SourceSurvey.Discovery

variable {fs : FileSystem} {directory : Path} {base location : Location} {parts : List Text}

/-! ## Ways -/

/-- The names lead from the directory at `base` to an entry, through directories that are no
links. -/
structure Reached (fs : FileSystem) (base : Location) (parts : List Text) : Prop where
  ne_nil : parts ≠ []
  isSome : (fs.entry? (base ++ parts)).isSome = true
  through : ∀ front back, parts = front ++ back → front ≠ [] → back ≠ [] →
    fs.entry? (base ++ front) = some .directory

theorem reached_singleton_iff {name : Text} :
    Reached fs base [name] ↔ (fs.entry? (base ++ [name])).isSome = true := by
  refine ⟨fun h => h.isSome, fun h => ⟨by simp, h, fun front back he hf hb => ?_⟩⟩
  rcases List.append_eq_singleton_iff.1 he.symm with hnil | hnil
  · exact absurd hnil.1 hf
  · exact absurd hnil.2 hb

/-- Where the way is not at its end yet, a real directory stands. -/
theorem reached_cons_iff {name : Text} (hne : parts ≠ []) :
    Reached fs base (name :: parts) ↔
      fs.entry? (base ++ [name]) = some .directory ∧ Reached fs (base ++ [name]) parts := by
  constructor
  · intro h
    refine ⟨h.through [name] parts rfl (by simp) hne, hne, by simpa using h.isSome, ?_⟩
    intro front back he hf hb
    have := h.through (name :: front) back (by rw [he, List.cons_append]) (by simp) hb
    simpa using this
  · rintro ⟨hd, h⟩
    refine ⟨by simp, by simpa using h.isSome, fun front back he hf hb => ?_⟩
    rcases List.append_eq_cons_iff.1 he.symm with hnil | ⟨front, rfl, hfront⟩
    · exact absurd hnil.1 hf
    · by_cases hn : front = []
      · rwa [hn]
      · simpa using h.through front back hfront hn hb

theorem mem_namesIn_iff {name : Text} :
    name ∈ namesIn fs base ↔ (fs.entry? (base ++ [name])).isSome = true := by
  have hne : base ++ [name] ≠ [] := by simp
  simp only [namesIn, List.mem_filterMap, Option.isSome_iff_exists,
    FileSystem.entry?_eq_some_iff hne]
  constructor
  · rintro ⟨⟨l, e⟩, hmem, hname⟩
    split at hname
    · next hbase =>
      obtain ⟨front, rfl⟩ := List.getLast?_eq_some_iff.1 hname
      rw [List.dropLast_concat] at hbase
      exact ⟨e, hbase ▸ hmem⟩
    · cases hname
  · rintro ⟨e, hmem⟩
    exact ⟨_, hmem, by rw [if_pos List.dropLast_concat, List.getLast?_concat]⟩

theorem mem_waysWithin_iff {depth : Nat} :
    parts ∈ waysWithin fs base depth ↔ Reached fs base parts ∧ parts.length ≤ depth := by
  induction depth generalizing base parts with
  | zero =>
    refine iff_of_false List.not_mem_nil fun h => h.1.ne_nil ?_
    exact List.eq_nil_of_length_eq_zero (Nat.le_zero.1 h.2)
  | succ depth ih =>
    simp only [waysWithin, List.mem_append, List.mem_map, List.mem_flatMap, List.mem_filter,
      mem_namesIn_iff, ih, FileSystem.isDirectory, decide_eq_true_eq]
    constructor
    · rintro (⟨name, hname, rfl⟩ | ⟨name, ⟨-, hd⟩, rest, ⟨hr, hlen⟩, rfl⟩)
      · exact ⟨reached_singleton_iff.2 hname, by simp⟩
      · exact ⟨(reached_cons_iff hr.ne_nil).2 ⟨hd, hr⟩, by simpa using hlen⟩
    · rintro ⟨hr, hlen⟩
      cases parts with
      | nil => exact absurd rfl hr.ne_nil
      | cons name rest =>
        by_cases hn : rest = []
        · subst hn
          exact .inl ⟨name, reached_singleton_iff.1 hr, rfl⟩
        · obtain ⟨hd, hrest⟩ := (reached_cons_iff hn).1 hr
          exact .inr ⟨name, ⟨by rw [hd]; rfl, hd⟩, rest, ⟨hrest, by simpa using hlen⟩, rfl⟩

theorem length_le_depth {e : Location × Entry} (h : e ∈ fs.entries) : e.1.length ≤ depth fs := by
  rw [depth]
  generalize fs.entries = entries at h ⊢
  induction entries with
  | nil => cases h
  | cons first rest ih =>
    rw [List.foldr_cons]
    rcases List.mem_cons.1 h with rfl | h
    · exact Nat.le_max_left _ _
    · exact Nat.le_trans (ih h) (Nat.le_max_right _ _)

/-- No entry lies too deep for the walk. -/
theorem mem_waysBelow_iff : parts ∈ waysBelow fs base ↔ Reached fs base parts := by
  rw [waysBelow, mem_waysWithin_iff, and_iff_left_iff_imp]
  intro h
  obtain ⟨e, he⟩ := Option.isSome_iff_exists.1 h.isSome
  have hmem := (FileSystem.entry?_eq_some_iff
    (List.append_ne_nil_of_right_ne_nil _ h.ne_nil)).1 he
  have hlen := length_le_depth hmem
  rw [List.length_append] at hlen
  omega

/-- What stands beside a directory is walked to before what lies in it. -/
example : waysBelow ⟨[(["src".toList], .directory), (["src".toList, ['a']], .directory),
      (["src".toList, ['a'], ['z']], .file []), (["src".toList, ['b']], .file [])], [],
      by decide +kernel⟩ ["src".toList] = [[['a']], [['b']], [['a'], ['z']]] := by
  decide +kernel

theorem reached_iff_of_perm {gs : FileSystem} (h : gs.entries.Perm fs.entries) :
    Reached gs base parts ↔ Reached fs base parts := by
  have hentry (l : Location) : gs.entry? l = fs.entry? l := FileSystem.entry?_of_perm h
  constructor
  · rintro ⟨hne, hsome, hthrough⟩
    exact ⟨hne, by rwa [← hentry], by simpa only [hentry] using hthrough⟩
  · rintro ⟨hne, hsome, hthrough⟩
    exact ⟨hne, by rwa [hentry], by simpa only [hentry] using hthrough⟩

theorem Reached.leads (hw : fs.WellNamed) (hbase : fs.entry? base = some .directory)
    (h : Reached fs base parts) (hl : fs.linkAt? (base ++ parts) = none) :
    fs.Leads base parts := by
  induction parts generalizing base with
  | nil => trivial
  | cons name names ih =>
    obtain ⟨e, he⟩ := Option.isSome_iff_exists.1 h.isSome
    have hname : FileSystem.IsPlain name := (hw.isName_of_eq_some he name (by simp)).1
    have hd : fs.isDirectory base = true := by rw [FileSystem.isDirectory, hbase]; rfl
    by_cases hn : names = []
    · subst hn
      exact ⟨hd, hname, h.isSome, hl, trivial⟩
    · obtain ⟨hnext, hrest⟩ := (reached_cons_iff hn).1 h
      refine ⟨hd, hname, by rw [hnext]; rfl, by rw [FileSystem.linkAt?, hnext], ?_⟩
      exact ih hnext hrest (by simpa using hl)

/-! ## Searched directories -/

/-- The path leads to a directory, which stands at the location. -/
structure IsBase (fs : FileSystem) (directory : Path) (location : Location) : Prop where
  text : nul ∉ directory.toText
  locate : fs.locate directory = .ok location
  entry : fs.entry? location = some .directory

theorem exists_isBase (hn : nul ∉ directory.toText)
    (hs : fs.status directory = .ok (some .directory)) :
    ∃ location, IsBase fs directory location := by
  obtain ⟨location, hl, he⟩ := map_eq_ok_iff.1 hs
  exact ⟨location, hn, hl, he⟩

theorem base_eq_ok (h : IsBase fs directory location) :
    Discovery.base fs directory = .ok location := by
  have hstatus : fs.status directory = .ok (some .directory) := by
    rw [FileSystem.status, h.locate, ← h.entry]
    rfl
  rw [Discovery.base, entryAt, if_neg h.text, hstatus]
  show (fs.locate directory).mapError _ = _
  rw [h.locate]
  rfl

theorem nul_notMem_below (hw : fs.WellNamed) (hb : IsBase fs directory location)
    (hr : Reached fs location parts) : nul ∉ (directory.below parts).toText := by
  obtain ⟨e, he⟩ := Option.isSome_iff_exists.1 hr.isSome
  have hdirectory := mt Path.nul_mem_toText_iff.2 hb.text
  rw [not_or] at hdirectory
  rw [Path.nul_mem_toText_iff]
  rintro (hroot | ⟨part, hpart, hn⟩)
  · exact hdirectory.1 hroot
  · rcases List.mem_append.1 hpart with hp | hp
    · exact hdirectory.2 ⟨part, hp, hn⟩
    · exact (hw.isName_of_eq_some he part (List.mem_append_right _ hp)).2 hn

/-- A file, or a link that leads to one. -/
def IsFile (fs : FileSystem) (directory : Path) (location : Location) (parts : List Text) : Prop :=
  (∃ bytes, fs.entry? (location ++ parts) = some (.file bytes)) ∨
    ∃ target bytes, fs.entry? (location ++ parts) = some (.link target) ∧
      fs.status (directory.below parts) = .ok (some (.file bytes))

/-- The path of an entry that is no link leads to the entry itself. -/
theorem Reached.status_below (hr : Reached fs location parts) (hw : fs.WellNamed)
    (hb : IsBase fs directory location) (hno : fs.linkAt? (location ++ parts) = none)
    (hlen : FileSystem.byteLength (directory.below parts).toText ≤ FileSystem.maxPathBytes) :
    fs.status (directory.below parts) = .ok (fs.entry? (location ++ parts)) :=
  FileSystem.status_below hb.locate hlen (hr.leads hw hb.entry hno)

/-- The entry is reached but the system refuses its path as too long. -/
def IsTooLong (fs : FileSystem) (directory : Path) (location : Location)
    (parts : List Text) : Prop :=
  Reached fs location parts ∧ fs.status (directory.below parts) = .error .nameTooLong

theorem not_isTooLong (hw : fs.WellNamed) (hb : IsBase fs directory location)
    (hno : fs.linkAt? (location ++ parts) = none)
    (hlen : FileSystem.byteLength (directory.below parts).toText ≤ FileSystem.maxPathBytes) :
    ¬IsTooLong fs directory location parts := by
  rintro ⟨hr, hl⟩
  cases (hr.status_below hw hb hno hlen).symm.trans hl

/-- Without links and with short names no path is too long. -/
theorem forall_not_isTooLong (hw : fs.WellNamed) (hb : IsBase fs directory location)
    (h : ∀ parts ∈ waysBelow fs location, fs.linkAt? (location ++ parts) = none ∧
      FileSystem.byteLength (directory.below parts).toText ≤ FileSystem.maxPathBytes) :
    ∀ parts, ¬IsTooLong fs directory location parts := by
  intro parts hl
  obtain ⟨hno, hlen⟩ := h parts (mem_waysBelow_iff.2 hl.1)
  exact not_isTooLong hw hb hno hlen hl

theorem status_eq_file_iff (hw : fs.WellNamed) (hb : IsBase fs directory location)
    (hr : Reached fs location parts) (hl : ¬IsTooLong fs directory location parts) :
    (∃ bytes, fs.status (directory.below parts) = .ok (some (.file bytes))) ↔
      IsFile fs directory location parts := by
  have hlen : FileSystem.byteLength (directory.below parts).toText ≤ FileSystem.maxPathBytes := by
    by_contra hlen
    refine hl ⟨hr, ?_⟩
    rw [FileSystem.status, FileSystem.locate, if_pos (Nat.not_le.1 hlen)]
    rfl
  obtain ⟨e, he⟩ := Option.isSome_iff_exists.1 hr.isSome
  have hstatus (hno : fs.linkAt? (location ++ parts) = none) :
      fs.status (directory.below parts) = .ok (some e) := by
    rw [hr.status_below hw hb hno hlen, he]
  unfold IsFile
  cases e with
  | file bytes => simp [he, hstatus (by rw [FileSystem.linkAt?, he])]
  | directory => simp [he, hstatus (by rw [FileSystem.linkAt?, he])]
  | link target => simp [he]

open Classical in
theorem isFile_eq (hw : fs.WellNamed) (hb : IsBase fs directory location)
    (hr : Reached fs location parts) (hl : ¬IsTooLong fs directory location parts) :
    isFile fs (directory.below parts) = .ok (decide (IsFile fs directory location parts)) := by
  have hfile := status_eq_file_iff hw hb hr hl
  rw [isFile, entryAt, if_neg (nul_notMem_below hw hb hr)]
  cases hs : fs.status (directory.below parts) with
  | ok e? =>
    cases e? with
    | none => simp_all [Except.map]
    | some e => cases e <;> simp_all [Except.map]
  | error r =>
    have hnot : ¬IsFile fs directory location parts := by
      rw [← hfile]
      rintro ⟨bytes, hbytes⟩
      cases hs.symm.trans hbytes
    cases r with
    | notFound => simp [isAbsence, Except.map, hnot]
    | notADirectory => simp [isAbsence, Except.map, hnot]
    | tooManyLinks => simp [isAbsence, Except.map, hnot]
    | isADirectory => exact absurd hs FileSystem.status_ne_isADirectory
    | nameTooLong => exact absurd ⟨hr, hs⟩ hl

theorem isFile_eq_error (hw : fs.WellNamed) (hb : IsBase fs directory location)
    (hl : IsTooLong fs directory location parts) :
    isFile fs (directory.below parts) =
      .error (.refused .nameTooLong (directory.below parts).toText) := by
  rw [isFile, entryAt, if_neg (nul_notMem_below hw hb hl.1), hl.2]
  rfl

end SourceSurvey.Discovery
