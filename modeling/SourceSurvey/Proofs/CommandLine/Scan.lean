import SourceSurvey.Proofs.CommandLine.Layout
import SourceSurvey.Proofs.CommandLine.Outcome

/-!
# What a scan prints

A scan replaces each directory by the files found in it (`Expands`). What is printed of a survey of
these files is told by a listing, which `Accounts` for all methods, records and skipped files of the
survey. So a scan prints the listing, or one report and nothing of what was scanned before
(`run_scan`).
-/

namespace SourceSurvey.CommandLine

variable {fs : FileSystem} {args arguments excluded : List Text} {p : Path}
  {paths files : List Path} {s : Survey} {ds : List Dependence}

/-! ## Expansion -/

/-- The files are the paths, each directory replaced by what is found in it. -/
inductive Expands (fs : FileSystem) (excluded : List Text) : List Path → List Path → Prop where
  | nil : Expands fs excluded [] []
  | directory {p : Path} {paths found rest : List Path}
      (hd : fs.status p = .ok (some .directory))
      (hf : Discovery.discover fs .standard excluded p = .ok found)
      (h : Expands fs excluded paths rest) : Expands fs excluded (p :: paths) (found ++ rest)
  | file {p : Path} {paths rest : List Path} (hd : fs.status p ≠ .ok (some .directory))
      (h : Expands fs excluded paths rest) : Expands fs excluded (p :: paths) (p :: rest)

theorem Expands.expand_eq (h : Expands fs excluded paths files) :
    expand fs excluded paths = .ok files := by
  induction h with
  | nil => rfl
  | directory hd hf h ih =>
    rw [expand, if_pos (isDirectoryPath_iff.2 hd), hf, ih]
    rfl
  | file hd h ih =>
    rw [expand, if_neg (mt isDirectoryPath_iff.1 hd), ih]
    rfl

theorem expands_of_expand (h : expand fs excluded paths = .ok files) :
    Expands fs excluded paths files := by
  induction paths generalizing files with
  | nil =>
    rw [expand, Except.ok.injEq] at h
    exact h ▸ .nil
  | cons p paths ih =>
    rw [expand] at h
    by_cases hd : isDirectoryPath fs p = true
    · rw [if_pos hd] at h
      split at h
      · cases h
      · next found hfound =>
        obtain ⟨rest, hrest, rfl⟩ := map_eq_ok_iff.1 h
        exact .directory (isDirectoryPath_iff.1 hd) hfound (ih hrest)
    · rw [if_neg hd] at h
      obtain ⟨rest, hrest, rfl⟩ := map_eq_ok_iff.1 h
      exact .file (mt isDirectoryPath_iff.2 hd) (ih hrest)

/-- Files are found if no path below the directories is too long for the system. -/
theorem exists_expands (hw : fs.WellNamed) (hn : ∀ p ∈ paths, nul ∉ p.toText)
    (he : Discovery.NoneEmpty excluded) (hl : ∀ p ∈ paths, ¬HasTooLong fs p) :
    ∃ files, Expands fs excluded paths files := by
  cases h : expand fs excluded paths with
  | ok files => exact ⟨files, expands_of_expand h⟩
  | error f =>
    rcases expand_fault hw hn h with ⟨-, hempty⟩ | ⟨⟨p, hp, hlong⟩, -⟩
    · exact absurd he hempty
    · exact absurd hlong (hl p hp)

/-! ## Listings -/

/-- What is told of a survey. Of the skipped files some are shown, and the rest is counted. -/
structure Listing where
  methods : List Method
  records : List Dependence
  files : Nat
  shown : List Text
  hidden : Nat
  deriving DecidableEq, Repr

/-- The listing tells of all that the survey has: of the methods in their order, of the records by
the names of their classes, and of the first five skipped files. -/
structure Accounts (s : Survey) (l : Listing) : Prop where
  methods_eq : l.methods = s.methods
  perm_records : l.records.Perm s.records
  ascending : (l.records.map Dependence.className).Pairwise (· < ·)
  files_eq : l.files = s.filesScanned
  shown_isPrefix : l.shown <+: s.skipped
  length_shown : l.shown.length = min 5 s.skipped.length
  length_skipped : l.shown.length + l.hidden = s.skipped.length

def listCell : List Text → Text := namesOr (Text.Markup.dim dash)

def methodLine (m : Method) : List Text :=
  [m.className, m.returnType, m.methodName, listCell m.paramTypes]

def recordLine (d : Dependence) : List Text :=
  [d.className, listCell d.project.names, listCell d.libraries.names]

/-- A table with these rows, if there are any. -/
def tableOf (title : Text) (columns : List Text) : List (List Text) → List Printed
  | [] => []
  | row :: rows => [.table ⟨some title, columns, row :: rows⟩]

def Listing.summary (l : Listing) (elapsed : Text) : Table where
  title := none
  columns := ["Label".toList, "Value".toList]
  rows := [["Files scanned".toList, Text.ofNat l.files],
    ["Methods found".toList, Text.ofNat l.methods.length],
    ["Classes with includes".toList, Text.ofNat l.records.length],
    ["Skipped".toList, Text.ofNat (l.shown.length + l.hidden)],
    ["Scan time".toList, elapsed]]

def hiddenTexts : Nat → List Text
  | 0 => []
  | n + 1 => ["   ".toList ++
      Text.Markup.dim ("... and ".toList ++ Text.ofNat (n + 1) ++ " more".toList)]

/-- All skipped files are counted, those that are shown are listed, and the others are counted. -/
def Listing.skippedTexts (l : Listing) : List Text :=
  if l.shown = [] then []
  else
    ('\n' :: Text.Markup.dim (Text.ofNat (l.shown.length + l.hidden) ++
        " blank or generated file(s) skipped:".toList)) ::
      l.shown.map (fun label => "   • ".toList ++ Text.Markup.dim label) ++ hiddenTexts l.hidden

def Listing.printed (l : Listing) (elapsed : Text) : List Printed :=
  tableOf "Methods".toList (["Class", "Return type", "Method", "Parameter types"].map String.toList)
      (l.methods.map methodLine) ++
    tableOf "Dependencies".toList (["Class", "Project", "Libraries"].map String.toList)
      (l.records.map recordLine) ++
    [.text [], .panel (bold " green".toList "✓ Scan Complete".toList) (l.summary elapsed)] ++
    l.skippedTexts.map .text

/-! ## Records in ascending order -/

def sortedRecords (s : Survey) : List Dependence :=
  (Ascending.ofList s.classNames).filterMap s.record?

theorem map_sortedRecords (h : s.Keeps ds) {α : Type} {f : Dependence → α} {g : Text → α}
    (hfg : ∀ n d, d ∈ s.records → s.record? n = some d → f d = g n) :
    (sortedRecords s).map f = (Ascending.ofList s.classNames).map g := by
  rw [sortedRecords, List.map_filterMap, ← List.filterMap_eq_map]
  refine List.filterMap_congr fun n hn => ?_
  obtain ⟨d, hd, hr⟩ := h.exists_record? (Ascending.mem_ofList.1 hn)
  rw [hr, Option.map_some, hfg n d hd hr]
  rfl

theorem map_className_sortedRecords (h : s.Keeps ds) :
    (sortedRecords s).map Dependence.className = Ascending.ofList s.classNames := by
  rw [map_sortedRecords (g := id) h fun n d _ hr => h.className_of_record? hr, List.map_id]

theorem perm_sortedRecords (h : s.Keeps ds) : (sortedRecords s).Perm s.records := by
  have hnames : (Ascending.ofList s.classNames).Perm s.classNames :=
    (List.perm_ext_iff_of_nodup (Ascending.nodup_ofList _) h.nodup_classNames).2 fun n =>
      Ascending.mem_ofList
  rw [← h.filterMap_record?]
  exact hnames.filterMap _

/-! ## The listing of a survey -/

def listingOf (s : Survey) : Listing :=
  ⟨s.methods, sortedRecords s, s.filesScanned, s.skipped.take maxShown,
    s.skipped.length - maxShown⟩

theorem accounts_listingOf (h : s.Keeps ds) : Accounts s (listingOf s) where
  methods_eq := rfl
  perm_records := perm_sortedRecords h
  ascending := by
    rw [listingOf, map_className_sortedRecords h]
    exact Ascending.pairwise_ofList _
  files_eq := rfl
  shown_isPrefix := List.take_prefix _ _
  length_shown := List.length_take
  length_skipped := by
    simp only [listingOf, List.length_take]
    omega

theorem tableOf_map {α : Type} (title : Text) (columns : List Text) (f : α → List Text)
    (items : List α) : tableOf title columns (items.map f) =
      if items.isEmpty then [] else [.table ⟨some title, columns, items.map f⟩] := by
  cases items <;> rfl

theorem hiddenTexts_sub (n : Nat) : hiddenTexts (n - maxShown) =
    if maxShown < n then
      ["   ".toList ++ Text.Markup.dim ("... and ".toList ++ Text.ofNat (n - maxShown) ++
        " more".toList)]
    else [] := by
  cases hn : n - maxShown with
  | zero =>
    rw [if_neg (by omega)]
    rfl
  | succ k =>
    rw [if_pos (by omega)]
    rfl

theorem skippedTexts_listingOf (h : s.Keeps ds) :
    (listingOf s).skippedTexts = skippedTexts s.skipped := by
  have hcount := (accounts_listingOf h).length_skipped
  rw [Listing.skippedTexts, hcount, skippedTexts, ← hiddenTexts_sub]
  by_cases hs : s.skipped = []
  · rw [if_pos (by simp [listingOf, hs]), if_pos (by simp [hs])]
  · rw [if_neg (by simpa [listingOf, maxShown] using hs), if_neg (by simpa using hs)]
    rfl

theorem length_sortedRecords (h : s.Keeps ds) :
    (sortedRecords s).length = s.dependencies.length := by
  rw [(perm_sortedRecords h).length_eq, Survey.records, List.length_map]

theorem summary_listingOf (h : s.Keeps ds) (elapsed : Text) :
    (listingOf s).summary elapsed = summaryTable elapsed s := by
  rw [Listing.summary, (accounts_listingOf h).length_skipped, summaryTable,
    ← length_sortedRecords h]
  rfl

variable {x : Survey.Extensions}

/-- All types of parameters in a survey can be read in the cells. -/
theorem methodLine_eq_methodRow (h : Survey.Covers fs x files s) {m : Method}
    (hm : m ∈ s.methods) : methodLine m = methodRow m := by
  rw [methodRow, orElse_commaSeparated _ fun t ht => h.paramType_ne_nil hm ht]
  rfl

/-- And so can all names of what is included. -/
theorem recordLine_eq_dependenceRow (h : Survey.Covers fs x files s) {n : Text} {d : Dependence}
    (hd : d ∈ s.records) (hr : s.record? n = some d) : recordLine d = dependenceRow s n := by
  rw [dependenceRow, hr]
  simp only [Option.map_some, Option.getD_some, NameSet.listed]
  rw [orElse_commaSeparated _ fun n hn => h.name_ne_nil hd (.inl hn),
    orElse_commaSeparated _ fun n hn => h.name_ne_nil hd (.inr hn), recordLine,
    h.keeps.className_of_record? hr]
  rfl

theorem printed_listingOf (h : Survey.Covers fs x files s) (elapsed : Text) :
    (listingOf s).printed elapsed = surveyPrinted elapsed s := by
  have hmethods : s.methods.map methodLine = s.methods.map methodRow :=
    List.map_congr_left fun m hm => methodLine_eq_methodRow h hm
  have hrecords : (sortedRecords s).map recordLine =
      (Ascending.ofList s.classNames).map (dependenceRow s) :=
    map_sortedRecords h.keeps fun n d hd hr => recordLine_eq_dependenceRow h hd hr
  have hempty : (sortedRecords s).isEmpty = s.dependencies.isEmpty := by
    rw [Bool.eq_iff_iff, List.isEmpty_iff_length_eq_zero, length_sortedRecords h.keeps,
      List.isEmpty_iff_length_eq_zero]
  rw [Listing.printed, summary_listingOf h.keeps, skippedTexts_listingOf h.keeps, tableOf_map,
    tableOf_map]
  simp only [listingOf, hmethods, hrecords, hempty]
  rfl

/-! ## Runs -/

/-- A scan reports the fault of the survey and nothing else, or it prints a listing that accounts
for all that was found in the files. It ends so if the console accepts what is printed. -/
theorem run_scan (console : Console) (elapsed : Text) (hw : fs.WellNamed)
    (hinv : Invocation.ofArguments args = .run .scan arguments excluded) (hne : arguments ≠ [])
    (hp : allExisting fs .anything arguments = .ok paths) (he : Discovery.NoneEmpty excluded) :
    ((∀ p ∈ paths, ¬HasTooLong fs p) → ∃ files, Expands fs excluded paths files) ∧
    ∀ files, Expands fs excluded paths files →
      (∀ f, Survey.ofFiles fs .standard files = .error f →
        console.Accepts [errorText (Text.Markup.escape f.message)] →
        runOn console fs elapsed args =
          .failure [errorText (Text.Markup.escape f.message)]) ∧
      ∀ s, Survey.ofFiles fs .standard files = .ok s → Survey.Covers fs .standard files s ∧
        ∃ l, Accounts s l ∧ (console.Accepts (l.printed elapsed) →
          runOn console fs elapsed args = .success (l.printed elapsed)) := by
  refine ⟨exists_expands hw (allExisting_eq_ok hw hp) he, fun files hf =>
    ⟨fun f h hc => runOn_of_accepts ?_ hc, ?_⟩⟩
  · rw [run, hinv, perform_scanning hp hf.expand_eq h]
    exact ofFault_of_isExternal (scanning_fault hw hp hf.expand_eq h)
  · intro s hs
    have hc := Survey.covers_of_ofFiles hs
    refine ⟨hc, listingOf s, accounts_listingOf hc.keeps, fun ha => runOn_of_accepts ?_ ha⟩
    rw [run, hinv, perform_of_finds (.scanning hne hp hf.expand_eq hs), Finding.outcome,
      printed_listingOf hc]

/-- A directory and a blank file that is named six times: the file is read each time, five of its
labels are shown, and one is counted. -/
theorem run_scan_blank :
    let fs : FileSystem := ⟨[(["src".toList], .directory),
      (["src".toList, "A.h".toList], .file (Text.Utf8.encode "void reset();\n".toList)),
      (["e.h".toList], .file [])], [], by decide +kernel⟩
    ∃ l : Listing,
      runOn .plain fs [] ("scan".toList :: "src".toList :: List.replicate 6 "e.h".toList) =
        .success (l.printed []) ∧
      l.methods.map Method.methodName = ["reset".toList] ∧ l.records = [] ∧ l.files = 7 ∧
      l.shown = List.replicate 5 "/e.h".toList ∧ l.hidden = 1 := by
  intro fs
  let directory : Path := ⟨['/'], ["src".toList]⟩
  let header : Path := directory.below ["A.h".toList]
  let blank : Path := ⟨['/'], ["e.h".toList]⟩
  let files : List Path := header :: List.replicate 6 blank
  let reset : Method := ⟨['A'], "void".toList, "reset".toList, [], true, none⟩
  have hw : fs.WellNamed := by decide +kernel
  have hinv : Invocation.ofArguments
      ("scan".toList :: "src".toList :: List.replicate 6 "e.h".toList) =
        .run .scan ("src".toList :: List.replicate 6 "e.h".toList) [] := by decide +kernel
  have hlead : fs.Leads [] ["src".toList] := by decide +kernel
  have hsrc : existing fs .anything "src".toList = .ok directory :=
    existing_of_leads .anything .directory (by decide +kernel) (by decide +kernel)
      (by decide +kernel) hlead (by decide +kernel) (by decide +kernel) rfl
  have hfile : existing fs .anything "e.h".toList = .ok blank :=
    existing_of_leads .anything (.file []) (by decide +kernel) (by decide +kernel)
      (by decide +kernel) (by decide +kernel) (by decide +kernel) (by decide +kernel) rfl
  have hp : allExisting fs .anything ("src".toList :: List.replicate 6 "e.h".toList) =
      .ok (directory :: List.replicate 6 blank) := by
    simp only [List.replicate, allExisting, hsrc, hfile]
    rfl
  have hempty : Discovery.NoneEmpty [] := by decide
  have hholds : fs.Holds header (Text.Utf8.encode "void reset();\n".toList) := by decide +kernel
  have hblank : fs.Holds blank [] := by decide +kernel
  have hb : Discovery.IsBase fs directory ["src".toList] :=
    ⟨by decide +kernel, FileSystem.walk_of_leads FileSystem.maxLinks hlead, by decide +kernel⟩
  have hstatus : fs.status directory = .ok (some .directory) := by
    rw [FileSystem.status, hb.locate]
    exact congrArg Except.ok hb.entry
  have hdiscover : Discovery.discover fs .standard [] directory = .ok [header] :=
    Discovery.discover_sole hw hb (by decide +kernel) (by rfl) (by decide +kernel)
      (by decide +kernel)
  have hexpands : Expands fs [] (directory :: List.replicate 6 blank) files := by
    have hnot : fs.status blank ≠ .ok (some .directory) := by
      rw [FileSystem.status_of_holds hblank]
      decide
    exact .directory hstatus hdiscover
      (.file hnot (.file hnot (.file hnot (.file hnot (.file hnot (.file hnot .nil))))))
  have hheader : Method.ofFile fs header = .ok (some [reset]) := by
    rw [Method.ofFile_of_holds hholds]
    decide +kernel
  have hnone : Method.ofFile fs blank = .ok none := by
    rw [Method.ofFile_of_holds hblank]
    decide +kernel
  have hunit : header.suffix ∉ Survey.Extensions.standard.sources ∧
      blank.suffix ∉ Survey.Extensions.standard.sources := by decide +kernel
  have hfault : files.findSome? (Survey.faultOf? fs .standard) = none := by
    simp only [files, List.replicate, List.findSome?_cons, Survey.faultOf?, hunit.1, hunit.2,
      if_false, hheader, hnone, Survey.failure?, List.findSome?_nil]
  have haccepted : ∀ p ∈ files, p.suffix ∈ Survey.Extensions.standard.sources ∨
      p.suffix ∈ Survey.Extensions.standard.headers := by decide +kernel
  obtain ⟨s, hs, hc⟩ := ((Survey.ofFiles_outcome .standard files).2 haccepted fs).2 hfault
  obtain ⟨-, hscan⟩ := run_scan .plain [] hw hinv (by simp) hp hempty
  obtain ⟨-, l, hl, hrun⟩ := (hscan files hexpands).2 s hs
  have hmethods : s.methods = [reset] := by
    simp only [hc.methods_eq, files, List.replicate, List.flatMap_cons, Survey.methodsOf, hunit.1,
      hunit.2, if_false, hheader, hnone]
    rfl
  have hskipped : s.skipped = List.replicate 6 "/e.h".toList := by
    have hskips : Survey.skips fs .standard header = false ∧
        Survey.skips fs .standard blank = true := by
      simp [Survey.skips, hunit.1, hunit.2, hheader, hnone, Except.toOption]
    have hlabel : blank.toText = "/e.h".toList := by decide +kernel
    simp [hc.skipped_eq, files, hskips.1, hskips.2, hlabel]
  have hrecords : s.records = [] := by
    have hnames : s.classNames = [] := by
      simp [hc.classNames_eq, files, Survey.recorded, Survey.recordOf?, hunit.1, hunit.2]
    simpa [Survey.records, Survey.classNames] using hnames
  refine ⟨l, hrun (Console.plain_accepts _), ?_, ?_, ?_, ?_, ?_⟩
  · rw [hl.methods_eq, hmethods]
    rfl
  · exact List.perm_nil.1 (hrecords ▸ hl.perm_records)
  · rw [hl.files_eq, hc.filesScanned_eq]
    rfl
  · rw [List.prefix_iff_eq_take.1 hl.shown_isPrefix, hl.length_shown, hskipped]
    rfl
  · have hcount := hl.length_skipped
    have hshown := hl.length_shown
    rw [hskipped, List.length_replicate] at hcount hshown
    omega

end SourceSurvey.CommandLine
