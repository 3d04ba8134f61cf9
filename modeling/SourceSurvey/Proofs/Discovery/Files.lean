import SourceSurvey.Proofs.Discovery.Patterns
import SourceSurvey.Proofs.Discovery.Ways

/-!
# Which files are found

Each entry on the ways below a directory is kept or left out by what its own path leads to, its
name and the patterns (`IsSource`), and only a path that the system refuses as too long stops the
search. So the files found are the sources, in the one ascending order there is
(`discover_outcome`).
-/

namespace SourceSurvey.Discovery

variable {fs gs : FileSystem} {x : Survey.Extensions} {patterns more : List Text}
  {directory : Path} {location : Location} {parts : List Text}

/-! ## Sources -/

/-- What makes an entry below the directory a file that is found. -/
structure IsSource (fs : FileSystem) (x : Survey.Extensions) (patterns : List Text)
    (directory : Path) (location : Location) (parts : List Text) : Prop where
  reached : Reached fs location parts
  isFile : IsFile fs directory location parts
  suffix : (directory.below parts).suffix ∈ x.sources ∨ (directory.below parts).suffix ∈ x.headers
  directories : ∀ name ∈ parts.dropLast, ∀ glob ∈ Settings.excludedDirectories,
    ¬Text.Glob.Accepts (Text.Glob.tokens glob) name
  patterns : ∀ t ∈ patterns, ¬Matches (Path.ofText t) parts

theorem IsSource.of_subset {more : List Text}
    (h : IsSource fs x more directory location parts) (hs : patterns ⊆ more) :
    IsSource fs x patterns directory location parts :=
  ⟨h.reached, h.isFile, h.suffix, h.directories, fun t ht => h.patterns t (hs ht)⟩

theorem isSource_iff : IsSource fs x patterns directory location parts ↔
    Reached fs location parts ∧ IsFile fs directory location parts ∧
      (directory.below parts).suffix ∈ x.accepted ∧
      ¬(InExcluded parts ∨ ∃ p ∈ patterns.map Path.ofText, Matches p parts) := by
  rw [Survey.Extensions.accepted, Ascending.mem_ofList, List.mem_append, not_or]
  constructor
  · intro h
    refine ⟨h.reached, h.isFile, h.suffix, ?_, ?_⟩
    · rintro ⟨name, hn, glob, hg, ha⟩
      exact h.directories name hn glob hg ha
    · rintro ⟨p, hp, hm⟩
      obtain ⟨t, ht, rfl⟩ := List.mem_map.1 hp
      exact h.patterns t ht hm
  · rintro ⟨hr, hf, hs, hex, hm⟩
    exact ⟨hr, hf, hs, fun name hn glob hg ha => hex ⟨name, hn, glob, hg, ha⟩,
      fun t ht h => hm ⟨_, List.mem_map_of_mem ht, h⟩⟩

/-- No pattern is the empty path. -/
def NoneEmpty (patterns : List Text) : Prop := ∀ t ∈ patterns, Path.ofText t ≠ ⟨[], []⟩

instance : DecidablePred NoneEmpty := fun patterns =>
  inferInstanceAs (Decidable (∀ t ∈ patterns, Path.ofText t ≠ ⟨[], []⟩))

open Classical in
theorem isWanted_eq (hw : fs.WellNamed) (hb : IsBase fs directory location)
    (hp : NoneEmpty patterns) (hr : Reached fs location parts)
    (hl : ¬IsTooLong fs directory location parts) :
    isWanted fs x.accepted (patterns.map Path.ofText) directory parts =
      .ok (decide (IsSource fs x patterns directory location parts)) := by
  have hpaths : ∀ pattern ∈ patterns.map Path.ofText, pattern ≠ ⟨[], []⟩ :=
    List.forall_mem_map.2 hp
  rw [isWanted, isFile_eq hw hb hr hl]
  by_cases hf : IsFile fs directory location parts
  · by_cases hs : (directory.below parts).suffix ∈ x.accepted
    · simp only [hf, decide_true, hs, if_true, isExcluded_eq hpaths, isSource_iff, hr, true_and,
        decide_not]
      rfl
    · have hnot : ¬IsSource fs x patterns directory location parts :=
        fun h => hs (isSource_iff.1 h).2.2.1
      simp [hf, hs, hnot]
  · have hnot : ¬IsSource fs x patterns directory location parts := fun h => hf h.isFile
    simp [hf, hnot]

theorem isWanted_eq_error (hw : fs.WellNamed) (hb : IsBase fs directory location)
    (hl : IsTooLong fs directory location parts) (accepted : List Text) (patterns : List Path) :
    isWanted fs accepted patterns directory parts =
      .error (.refused .nameTooLong (directory.below parts).toText) := by
  rw [isWanted, isFile_eq_error hw hb hl]

/-- Besides such a refusal, only an empty pattern can stop the search. -/
theorem isWanted_fault (hw : fs.WellNamed) (hb : IsBase fs directory location)
    (hr : Reached fs location parts) {accepted : List Text} {globs : List Path} {f : Fault}
    (h : isWanted fs accepted globs directory parts = .error f) :
    (IsTooLong fs directory location parts ∧
      f = .refused .nameTooLong (directory.below parts).toText) ∨
    (f = .emptyPattern ∧ ⟨[], []⟩ ∈ globs) := by
  classical
  by_cases hl : IsTooLong fs directory location parts
  · exact .inl ⟨hl, Except.error.inj (h.symm.trans (isWanted_eq_error hw hb hl accepted globs))⟩
  · right
    rw [isWanted, isFile_eq hw hb hr hl] at h
    by_cases hf : IsFile fs directory location parts
    · simp only [hf, decide_true] at h
      split at h
      · exact isExcluded_eq_error (map_eq_error_iff.1 h)
      · cases h
    · simp [hf] at h

/-! ## Selection -/

section Select

variable {wanted : List Text → Except Fault Bool} {ways : List (List Text)} {f : Fault}

theorem select_eq_ok {P : List Text → Prop} [DecidablePred P]
    (h : ∀ parts ∈ ways, wanted parts = .ok (decide (P parts))) :
    select wanted ways = .ok (ways.filter fun parts => P parts) := by
  induction ways with
  | nil => rfl
  | cons parts ways ih =>
    obtain ⟨hp, hrest⟩ := List.forall_mem_cons.1 h
    rw [select, hp, ih hrest]
    by_cases hP : P parts <;> simp [Except.map, hP]

/-- A selection fails at the first that cannot be looked at. -/
theorem exists_split_of_select_eq_error (h : select wanted ways = .error f) :
    ∃ before parts after, ways = before ++ parts :: after ∧
      (∀ other ∈ before, ∃ keep, wanted other = .ok keep) ∧ wanted parts = .error f := by
  induction ways with
  | nil => cases h
  | cons first ways ih =>
    rw [select] at h
    cases hp : wanted first with
    | error g =>
      rw [hp, Except.error.injEq] at h
      exact ⟨[], first, ways, rfl, fun _ hm => absurd hm List.not_mem_nil, by rw [hp, h]⟩
    | ok keep =>
      rw [hp] at h
      obtain ⟨before, parts, after, rfl, hbefore, hf⟩ := ih (map_eq_error_iff.1 h)
      exact ⟨first :: before, parts, after, rfl, List.forall_mem_cons.2 ⟨⟨keep, hp⟩, hbefore⟩, hf⟩

theorem exists_select_eq_error {parts : List Text} (hm : parts ∈ ways)
    (h : wanted parts = .error f) : ∃ g, select wanted ways = .error g := by
  induction ways with
  | nil => cases hm
  | cons first ways ih =>
    rw [select]
    cases hfirst : wanted first with
    | error g => exact ⟨g, rfl⟩
    | ok keep =>
      rcases List.mem_cons.1 hm with rfl | hm
      · cases h.symm.trans hfirst
      · obtain ⟨g, hg⟩ := ih hm
        exact ⟨g, map_eq_error_iff.2 hg⟩

open Classical in
/-- A selection that succeeds has looked at every way and has kept those that are wanted. -/
theorem eq_filter_of_select_eq_ok {found : List (List Text)}
    (h : select wanted ways = .ok found) :
    (∀ parts ∈ ways, wanted parts = .ok (decide (wanted parts = .ok true))) ∧
      found = ways.filter fun parts => wanted parts = .ok true := by
  have hlooked : ∀ parts ∈ ways, wanted parts = .ok (decide (wanted parts = .ok true)) := by
    intro parts hm
    cases hp : wanted parts with
    | ok keep => simp
    | error f =>
      obtain ⟨g, hg⟩ := exists_select_eq_error hm hp
      cases h.symm.trans hg
  exact ⟨hlooked, Except.ok.inj (h.symm.trans (select_eq_ok hlooked))⟩

/-- The same ways in another order give the same selection. -/
theorem exists_select_of_mem_iff {found more : List (List Text)}
    (hm : ∀ parts, parts ∈ more ↔ parts ∈ ways) (h : select wanted ways = .ok found) :
    ∃ other, select wanted more = .ok other ∧
      Ascending.ofList other = Ascending.ofList found := by
  classical
  obtain ⟨hlooked, rfl⟩ := eq_filter_of_select_eq_ok h
  have hsame : Ascending.ofList more = Ascending.ofList ways :=
    Ascending.eq_of_mem_iff (Ascending.pairwise_ofList _) (Ascending.pairwise_ofList _)
      fun parts => by rw [Ascending.mem_ofList, Ascending.mem_ofList, hm]
  refine ⟨_, select_eq_ok fun parts hp => hlooked parts ((hm parts).1 hp), ?_⟩
  rw [Ascending.ofList_filter, Ascending.ofList_filter, hsame]

end Select

/-! ## Discovery -/

theorem discover_eq (hb : IsBase fs directory location) :
    discover fs x patterns directory =
      (select (isWanted fs x.accepted (patterns.map Path.ofText) directory)
        (waysBelow fs location)).map fun found =>
          (Ascending.ofList found).map directory.below := by
  rw [discover, base_eq_ok hb]

theorem reached_of_mem_discover {paths : List Path} {p : Path} (hb : IsBase fs directory location)
    (h : discover fs x patterns directory = .ok paths) (hp : p ∈ paths) :
    ∃ parts, Reached fs location parts ∧ p = directory.below parts := by
  rw [discover_eq hb] at h
  obtain ⟨found, hs, rfl⟩ := map_eq_ok_iff.1 h
  obtain ⟨parts, hm, rfl⟩ := List.mem_map.1 hp
  rw [Ascending.mem_ofList, (eq_filter_of_select_eq_ok hs).2] at hm
  exact ⟨parts, mem_waysBelow_iff.1 (List.mem_of_mem_filter hm), rfl⟩

theorem discover_fault {f : Fault} (hw : fs.WellNamed) (hb : IsBase fs directory location)
    (h : discover fs x patterns directory = .error f) :
    (∃ parts, IsTooLong fs directory location parts ∧
      f = .refused .nameTooLong (directory.below parts).toText) ∨
    (f = .emptyPattern ∧ ¬NoneEmpty patterns) := by
  rw [discover_eq hb, map_eq_error_iff] at h
  obtain ⟨before, parts, after, hways, -, hf⟩ := exists_split_of_select_eq_error h
  have hr : Reached fs location parts :=
    mem_waysBelow_iff.1 (hways ▸ List.mem_append_right _ List.mem_cons_self)
  rcases isWanted_fault hw hb hr hf with ⟨hl, he⟩ | ⟨he, hempty⟩
  · exact .inl ⟨parts, hl, he⟩
  · obtain ⟨t, ht, hpath⟩ := List.mem_map.1 hempty
    exact .inr ⟨he, fun hp => hp t ht hpath⟩

/-- Of the entries whose paths are too long, the search ends at the one walked to first. -/
theorem discover_eq_error (x : Survey.Extensions) (hw : fs.WellNamed)
    (hb : IsBase fs directory location) (hp : NoneEmpty patterns)
    (hl : IsTooLong fs directory location parts) :
    ∃ before first after, waysBelow fs location = before ++ first :: after ∧
      (∀ other ∈ before, ¬IsTooLong fs directory location other) ∧
      IsTooLong fs directory location first ∧
      discover fs x patterns directory =
        .error (.refused .nameTooLong (directory.below first).toText) := by
  obtain ⟨f, hf⟩ := exists_select_eq_error (mem_waysBelow_iff.2 hl.1)
    (isWanted_eq_error hw hb hl x.accepted (patterns.map Path.ofText))
  obtain ⟨before, first, after, hways, hbefore, hfirst⟩ := exists_split_of_select_eq_error hf
  have hr : Reached fs location first :=
    mem_waysBelow_iff.1 (hways ▸ List.mem_append_right _ List.mem_cons_self)
  refine ⟨before, first, after, hways, fun other hm ho => ?_, ?_⟩
  · obtain ⟨keep, hkeep⟩ := hbefore other hm
    cases hkeep.symm.trans (isWanted_eq_error hw hb ho x.accepted (patterns.map Path.ofText))
  · rcases isWanted_fault hw hb hr hfirst with ⟨hlong, rfl⟩ | ⟨-, hempty⟩
    · exact ⟨hlong, by rw [discover_eq hb, hf]; rfl⟩
    · obtain ⟨t, ht, hpath⟩ := List.mem_map.1 hempty
      exact absurd hpath (hp t ht)

/-- With an empty pattern before all others, a search ends at the first file it would look at the
patterns for. -/
theorem discover_eq_emptyPattern {empty : Text} (hw : fs.WellNamed)
    (hb : IsBase fs directory location) (hl : ∀ parts, ¬IsTooLong fs directory location parts)
    (hempty : Path.ofText empty = ⟨[], []⟩) (hr : Reached fs location parts)
    (hf : IsFile fs directory location parts) (hs : (directory.below parts).suffix ∈ x.accepted)
    (hex : ¬InExcluded parts) :
    discover fs x (empty :: patterns) directory = .error .emptyPattern := by
  have hwanted : isWanted fs x.accepted ((empty :: patterns).map Path.ofText) directory parts =
      .error .emptyPattern := by
    have hexcluded : isExcluded ((empty :: patterns).map Path.ofText) parts =
        .error .emptyPattern := by
      rw [isExcluded, if_neg (mt inExcludedDirectory_iff.1 hex), List.map_cons, hempty,
        anyPatternMatches, if_pos (isEmptyPattern_iff.2 rfl)]
    classical
    rw [isWanted, isFile_eq hw hb hr (hl parts), decide_eq_true hf]
    simp only [hs, if_true, hexcluded, Except.map]
  obtain ⟨f, hselect⟩ := exists_select_eq_error (mem_waysBelow_iff.2 hr) hwanted
  have hd : discover fs x (empty :: patterns) directory = .error f := by
    rwa [discover_eq hb, map_eq_error_iff]
  rcases discover_fault hw hb hd with ⟨others, ho, -⟩ | ⟨rfl, -⟩
  · exact absurd ho (hl others)
  · exact hd

open Classical in
theorem discover_eq_ok (hw : fs.WellNamed) (hb : IsBase fs directory location)
    (hp : NoneEmpty patterns) (hl : ∀ parts, ¬IsTooLong fs directory location parts) :
    discover fs x patterns directory =
      .ok (((Ascending.ofList (waysBelow fs location)).filter fun parts =>
        IsSource fs x patterns directory location parts).map directory.below) := by
  rw [discover_eq hb, select_eq_ok fun parts hm => isWanted_eq hw hb hp
    (mem_waysBelow_iff.1 hm) (hl parts), Except.map, Ascending.ofList_filter]

/-- Where everything that is reached is a source, all of it is found. -/
theorem discover_eq_all (hw : fs.WellNamed) (hb : IsBase fs directory location)
    (hp : NoneEmpty patterns) (hl : ∀ parts, ¬IsTooLong fs directory location parts)
    (hs : ∀ parts ∈ waysBelow fs location, IsSource fs x patterns directory location parts) :
    discover fs x patterns directory =
      .ok ((Ascending.ofList (waysBelow fs location)).map directory.below) := by
  classical
  rw [discover_eq_ok hw hb hp hl, List.filter_eq_self.2 fun parts hm =>
    decide_eq_true (hs parts (Ascending.mem_ofList.1 hm))]

/-- The one file in a directory is found. -/
theorem discover_sole {name : Text} {bytes : List UInt8} (hw : fs.WellNamed)
    (hb : IsBase fs directory location) (hways : waysBelow fs location = [[name]])
    (he : fs.entry? (location ++ [name]) = some (.file bytes))
    (hlen : FileSystem.byteLength (directory.below [name]).toText ≤ FileSystem.maxPathBytes)
    (hs : (directory.below [name]).suffix ∈ x.sources ∨
      (directory.below [name]).suffix ∈ x.headers) :
    discover fs x [] directory = .ok [directory.below [name]] := by
  have hno : fs.linkAt? (location ++ [name]) = none := by rw [FileSystem.linkAt?, he]
  have hnone : ∀ parts, ¬IsTooLong fs directory location parts := by
    refine forall_not_isTooLong hw hb ?_
    rw [hways, List.forall_mem_singleton]
    exact ⟨hno, hlen⟩
  rw [discover_eq_all hw hb (fun t ht => absurd ht List.not_mem_nil) hnone, hways]
  · rfl
  · rw [hways, List.forall_mem_singleton]
    have hr : Reached fs location [name] :=
      mem_waysBelow_iff.1 (by rw [hways]; exact List.mem_cons_self)
    exact ⟨hr, .inl ⟨bytes, he⟩, hs, fun _ h => absurd h List.not_mem_nil,
      fun _ h => absurd h List.not_mem_nil⟩

/-- What is found does not depend on the order of the entries in the file system. -/
theorem discover_of_perm {paths : List Path} (hw : gs.working = fs.working)
    (h : gs.entries.Perm fs.entries) (hd : discover fs x patterns directory = .ok paths) :
    discover gs x patterns directory = .ok paths := by
  have hentry (p : Path) : entryAt gs p = entryAt fs p := by
    rw [entryAt, entryAt, FileSystem.status_of_perm hw h]
  have hbase : base gs directory = base fs directory := by
    rw [base, base, hentry, FileSystem.locate_of_perm hw h]
  have hwanted : isWanted gs x.accepted (patterns.map Path.ofText) directory =
      isWanted fs x.accepted (patterns.map Path.ofText) directory := by
    funext parts
    rw [isWanted, isWanted, isFile, isFile, hentry]
  rw [discover] at hd ⊢
  rw [hbase, hwanted]
  cases hl : base fs directory with
  | error f => simp [hl] at hd
  | ok l =>
    rw [hl] at hd
    obtain ⟨found, hf, rfl⟩ := map_eq_ok_iff.1 hd
    have hways (parts : List Text) : parts ∈ waysBelow gs l ↔ parts ∈ waysBelow fs l := by
      rw [mem_waysBelow_iff, mem_waysBelow_iff, reached_iff_of_perm h]
    obtain ⟨other, ho, hsame⟩ := exists_select_of_mem_iff hways hf
    exact map_eq_ok_iff.2 ⟨other, ho, by rw [hsame]⟩

theorem pairwise_below {ways : List (List Text)} (h : ways.Pairwise (· < ·)) :
    ((ways.map directory.below).map Path.parts).Pairwise (· < ·) := by
  rw [List.map_map, List.pairwise_map]
  exact h.imp fun hlt => List.append_left_lt hlt

theorem nodup_of_pairwise {paths : List Path} (h : (paths.map Path.parts).Pairwise (· < ·)) :
    paths.Nodup := by
  refine List.Nodup.of_map Path.parts (h.imp ?_)
  rintro a b hlt rfl
  exact Std.lt_irrefl hlt

theorem below_inj {names : List Text} : directory.below names = directory.below parts ↔
    names = parts := by
  simp [Path.below]

/-- What a search finds, and the one thing that can stop it when no pattern is empty. -/
theorem discover_outcome (x : Survey.Extensions) (patterns : List Text) (hw : fs.WellNamed)
    (hb : IsBase fs directory location) (hp : NoneEmpty patterns) :
    (∀ gs : FileSystem, gs.working = fs.working → gs.entries.Perm fs.entries →
      ∀ paths, discover gs x patterns directory = .ok paths ↔
        discover fs x patterns directory = .ok paths) ∧
    ((∃ parts, IsTooLong fs directory location parts) →
      ∃ before first after, waysBelow fs location = before ++ first :: after ∧
        (∀ other ∈ before, ¬IsTooLong fs directory location other) ∧
        IsTooLong fs directory location first ∧ discover fs x patterns directory =
          .error (.refused .nameTooLong (directory.below first).toText)) ∧
    ((∀ parts, ¬IsTooLong fs directory location parts) →
      ∃ paths, discover fs x patterns directory = .ok paths ∧
        (∀ p, p ∈ paths ↔
          ∃ parts, IsSource fs x patterns directory location parts ∧ p = directory.below parts) ∧
        paths.Nodup ∧ (paths.map Path.parts).Pairwise (· < ·) ∧
        ∀ more, patterns ⊆ more → NoneEmpty more →
          ∃ fewer, discover fs x more directory = .ok fewer ∧ fewer.Sublist paths) := by
  classical
  refine ⟨fun gs hg h paths => ⟨discover_of_perm hg.symm h.symm, discover_of_perm hg h⟩, ?_,
    fun hl => ?_⟩
  · rintro ⟨parts, hl⟩
    exact discover_eq_error x hw hb hp hl
  · refine ⟨_, discover_eq_ok hw hb hp hl, fun p => ?_, ?_⟩
    · simp only [List.mem_map, List.mem_filter, Ascending.mem_ofList, mem_waysBelow_iff,
        decide_eq_true_eq]
      constructor
      · rintro ⟨parts, ⟨-, hs⟩, rfl⟩
        exact ⟨parts, hs, rfl⟩
      · rintro ⟨parts, hs, rfl⟩
        exact ⟨parts, ⟨hs.reached, hs⟩, rfl⟩
    · have hasc := (Ascending.pairwise_ofList (waysBelow fs location)).filter
        fun parts => decide (IsSource fs x patterns directory location parts)
      refine ⟨nodup_of_pairwise (pairwise_below hasc), pairwise_below hasc,
        fun more hs hm => ⟨_, discover_eq_ok hw hb hm hl, ?_⟩⟩
      refine (List.monotone_filter_right _ fun parts h => ?_).map _
      rw [decide_eq_true_eq] at h ⊢
      exact h.of_subset hs

/-- A link to a header is found by its own name; a file of a given name and the files of a
directory `build` are left out. -/
theorem discover_outcome_links :
    let fs : FileSystem := ⟨[(["src".toList], .directory),
      (["src".toList, "Foo.h".toList], .file []),
      (["src".toList, "link.cpp".toList], .link "Foo.h".toList),
      (["src".toList, "build".toList], .directory),
      (["src".toList, "build".toList, "Bar.h".toList], .file [])], [], by decide +kernel⟩
    let directory := Path.ofText "src".toList
    ∃ paths, discover fs .standard ["Foo.h".toList] directory = .ok paths ∧
      directory.below ["link.cpp".toList] ∈ paths ∧ directory.below ["Foo.h".toList] ∉ paths ∧
      directory.below ["build".toList, "Bar.h".toList] ∉ paths := by
  intro fs directory
  have hw : fs.WellNamed := by decide +kernel
  have hlead : fs.Leads [] ["src".toList] := by decide +kernel
  have hb : IsBase fs directory ["src".toList] :=
    ⟨by decide +kernel, FileSystem.walk_of_leads FileSystem.maxLinks hlead, by decide +kernel⟩
  have hways : waysBelow fs ["src".toList] = [["Foo.h".toList], ["link.cpp".toList],
      ["build".toList], ["build".toList, "Bar.h".toList]] := by decide +kernel
  have hlink : fs.status (directory.below ["link.cpp".toList]) = .ok (some (.file [])) := by
    have htarget : fs.linkAt? ["src".toList, "link.cpp".toList] = some "Foo.h".toList := by
      decide +kernel
    have hsteps : FileSystem.stepsOf "Foo.h".toList = ["Foo.h".toList] := by decide +kernel
    have hfollow : fs.Leads ["src".toList] ["Foo.h".toList] := by decide +kernel
    rw [FileSystem.status, FileSystem.locate_link ["src".toList] (by decide +kernel)
      (by decide +kernel) hlead (by decide +kernel) (by decide +kernel) htarget, hsteps]
    exact congrArg (Except.map fs.entry?) (FileSystem.walk_of_leads _ hfollow)
  have hnone : ∀ parts, ¬IsTooLong fs directory ["src".toList] parts := by
    intro parts hl
    have hmem := mem_waysBelow_iff.2 hl.1
    simp only [hways, List.mem_cons, List.not_mem_nil, or_false] at hmem
    rcases hmem with rfl | rfl | rfl | rfl
    · exact not_isTooLong hw hb (by decide +kernel) (by decide +kernel) hl
    · cases hlink.symm.trans hl.2
    · exact not_isTooLong hw hb (by decide +kernel) (by decide +kernel) hl
    · exact not_isTooLong hw hb (by decide +kernel) (by decide +kernel) hl
  have hpattern : Path.ofText "Foo.h".toList = ⟨[], ["Foo.h".toList]⟩ := by decide +kernel
  have hmatches (parts : List Text) : Matches (Path.ofText "Foo.h".toList) parts ↔
      ∃ front, parts = front ++ ["Foo.h".toList] := by
    rw [hpattern]
    exact matches_name_iff (by decide +kernel)
  obtain ⟨paths, hd, hmem, -⟩ := (discover_outcome .standard ["Foo.h".toList] hw hb
    (by decide +kernel)).2.2 hnone
  refine ⟨paths, hd, (hmem _).2 ⟨["link.cpp".toList], ?_, rfl⟩, fun h => ?_, fun h => ?_⟩
  · refine ⟨mem_waysBelow_iff.1 (by rw [hways]; decide +kernel),
      .inr ⟨"Foo.h".toList, [], by decide +kernel, hlink⟩, by decide +kernel, by simp, ?_⟩
    intro t ht
    rw [List.mem_singleton.1 ht, hmatches]
    rintro ⟨front, hf⟩
    exact absurd (congrArg List.getLast? hf) (by rw [List.getLast?_concat]; decide +kernel)
  · obtain ⟨parts, hs, he⟩ := (hmem _).1 h
    rw [below_inj] at he
    exact hs.patterns _ List.mem_cons_self ((hmatches parts).2 ⟨[], he.symm⟩)
  · obtain ⟨parts, hs, he⟩ := (hmem _).1 h
    rw [below_inj] at he
    obtain ⟨glob, hg, ha⟩ := (exists_excludedDirectory_iff "build".toList).2
      (.inr (.inl rfl))
    exact hs.directories "build".toList (by rw [← he]; decide +kernel) glob hg ha

/-- One entry whose path the system refuses hides all others. -/
theorem discover_refuses_long_target :
    let fs : FileSystem := ⟨[(["src".toList], .directory),
      (["src".toList, "Foo.cpp".toList], .file []),
      (["src".toList, "broken".toList], .link (List.replicate 300 'x'))], [], by decide +kernel⟩
    let directory := Path.ofText "src".toList
    fs.WellNamed ∧ IsBase fs directory ["src".toList] ∧
      IsSource fs .standard [] directory ["src".toList] ["Foo.cpp".toList] ∧
      discover fs .standard [] directory =
        .error (.refused .nameTooLong "src/broken".toList) := by
  intro fs directory
  have hw : fs.WellNamed := by decide +kernel
  have hlead : fs.Leads [] ["src".toList] := by decide +kernel
  have hb : IsBase fs directory ["src".toList] :=
    ⟨by decide +kernel, FileSystem.walk_of_leads FileSystem.maxLinks hlead, by decide +kernel⟩
  have hways : waysBelow fs ["src".toList] = [["Foo.cpp".toList], ["broken".toList]] := by
    decide +kernel
  have hreached (parts : List Text) (hp : parts ∈ waysBelow fs ["src".toList]) :
      Reached fs ["src".toList] parts := mem_waysBelow_iff.1 hp
  have hlong : IsTooLong fs directory ["src".toList] ["broken".toList] := by
    have htarget : fs.linkAt? ["src".toList, "broken".toList] = some (List.replicate 300 'x') := by
      decide +kernel
    have hsteps : FileSystem.stepsOf (List.replicate 300 'x') = [List.replicate 300 'x'] := by
      decide +kernel
    refine ⟨hreached _ (by rw [hways]; decide +kernel), ?_⟩
    rw [FileSystem.status, FileSystem.locate_link ["src".toList] (by decide +kernel)
      (by decide +kernel) hlead (by decide +kernel) (by decide +kernel) htarget, hsteps,
      FileSystem.walk_cons_nameTooLong (by decide +kernel) (by decide +kernel)]
    rfl
  have hnone : NoneEmpty [] := by simp [NoneEmpty]
  obtain ⟨before, others, after, -, -, ho, he⟩ := discover_eq_error .standard hw hb hnone hlong
  refine ⟨hw, hb, ⟨hreached _ (by rw [hways]; decide +kernel), .inl ⟨[], by decide +kernel⟩,
    by decide +kernel, by simp, by simp⟩, ?_⟩
  have hmem := mem_waysBelow_iff.2 ho.1
  simp only [hways, List.mem_cons, List.not_mem_nil, or_false] at hmem
  rcases hmem with rfl | rfl
  · exact absurd ho (not_isTooLong hw hb (by decide +kernel) (by decide +kernel))
  · rw [he]
    exact congrArg (fun t => Except.error (Fault.refused .nameTooLong t)) (by decide +kernel)

end SourceSurvey.Discovery
