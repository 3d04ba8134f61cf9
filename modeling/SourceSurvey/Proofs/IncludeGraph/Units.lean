import Mathlib.Data.List.Forall2
import SourceSurvey.Path
import SourceSurvey.Proofs.Include.Extraction
import SourceSurvey.Proofs.IncludeGraph.Order
import SourceSurvey.Proofs.Text.Words

/-!
# The graph of translation units

Units are named by the base names of their files, and a quoted target is matched with these names
as a whole. So a unit is found among the includes of another exactly when it is quoted without a
directory in front (`project_ofUnits`). With directories the include leads to a name that belongs
to no unit, and nothing orders the two units (`not_mem_project_of_directories`).
-/

namespace SourceSurvey

/-! ## Quoted targets -/

namespace Include

/-- The line is a well-formed directive with the target between double quotes. -/
def Quotes (line target : Text) : Prop :=
  Settings.includeKeyword <+: line ∧ Text.doubleQuote ∉ target ∧ withoutExtension target ≠ [] ∧
    ∃ after, Text.trim (line.drop Settings.includeKeyword.length) =
      Text.doubleQuote :: (target ++ Text.doubleQuote :: after)

/-- The last component of a target up to its first dot. -/
def baseName (target : Text) : Text :=
  (target.reverse.takeWhile (· ≠ '/')).reverse.takeWhile (· ≠ '.')

theorem ofLine_eq_quoted_iff {line name : Text} :
    ofLine line = .ok (some ⟨name, false⟩) ↔
      ∃ target, Quotes line target ∧ withoutExtension target = name := by
  unfold ofLine
  split
  · next hk =>
    rw [map_some_eq_ok_iff, ofTarget_eq_ok_iff]
    constructor
    · rintro ⟨target, after, ht, hnot, rfl, hne⟩
      exact ⟨target, ⟨List.isPrefixOf_iff_prefix.1 hk, hnot, hne, after, ht⟩, rfl⟩
    · rintro ⟨target, ⟨-, hnot, hne, after, ht⟩, rfl⟩
      exact ⟨target, after, ht, hnot, rfl, hne⟩
  · next hk =>
    simp only [Except.ok.injEq, reduceCtorEq, false_iff]
    rintro ⟨target, ⟨hp, -⟩, -⟩
    exact hk (List.isPrefixOf_iff_prefix.2 hp)

/-- A name without a slash comes from a target without one. -/
theorem withoutExtension_eq_iff {target name : Text} (hn : '/' ∉ name) :
    withoutExtension target = name ↔ '/' ∉ target ∧ target.takeWhile (· ≠ '.') = name := by
  obtain ⟨directories, last, rfl, hd, hl⟩ := exists_lastComponent target
  have hnil (h : '/' ∉ directories) : directories = [] := by
    cases hlast : directories.getLast? with
    | none => exact List.getLast?_eq_none_iff.1 hlast
    | some c => exact absurd (hd c hlast ▸ List.mem_of_getLast? hlast) h
  rw [withoutExtension_append hd hl]
  constructor
  · rintro rfl
    rw [hnil fun h => hn (List.mem_append_left _ h)]
    exact ⟨hl, rfl⟩
  · rintro ⟨hs, rfl⟩
    rw [hnil fun h => hs (List.mem_append_left _ h)]
    rfl

end Include

/-! ## Units and their records -/

/-- The path of a file, as it is written, and what the file holds. -/
structure TranslationUnit where
  file : Text
  source : Text
  deriving DecidableEq, Repr

namespace TranslationUnit

def path (u : TranslationUnit) : Path := Path.ofText u.file

def className (u : TranslationUnit) : Text := u.path.className

def record (u : TranslationUnit) : Except ScanError (Option Dependence) :=
  Dependence.ofSource u.className u.path.toText u.source

/-- Some line of the unit, which is not a generated one, quotes the target. -/
def Quotes (u : TranslationUnit) (target : Text) : Prop :=
  Text.firstLine? u.source ≠ some Settings.testMarker ∧
    ∃ line ∈ Text.lines u.source, Include.Quotes (Text.normalize line) target

theorem slash_not_mem_className (u : TranslationUnit) : '/' ∉ u.className := by
  intro h
  have hm : '/' ∈ u.path.name := List.takeWhile_subset _ h
  unfold Path.name at hm
  cases hl : u.path.parts.getLast? with
  | none => simp [hl] at hm
  | some part =>
    rw [hl, Option.getD_some] at hm
    have hpart : part ∈ u.file.splitOn '/' := (List.mem_filter.1 (List.mem_of_getLast? hl)).1
    exact Text.not_mem_of_mem_splitOn hpart hm

theorem className_of_record {u : TranslationUnit} {d : Dependence} (h : u.record = .ok (some d)) :
    d.className = u.className := by
  obtain ⟨-, found, -, rfl⟩ := Dependence.ofSource_eq_some_iff.1 h
  rfl

/-- What a unit quotes makes the names of the project in its record. -/
theorem quotes_iff {u : TranslationUnit} {r : Option Dependence} (h : u.record = .ok r)
    {name : Text} :
    (∃ target, u.Quotes target ∧ Include.withoutExtension target = name) ↔
      ∃ d ∈ r, name ∈ d.project := by
  cases r with
  | none =>
    simp only [Option.mem_def, reduceCtorEq, false_and, exists_false, iff_false]
    rintro ⟨target, ⟨hm, line, hline, -⟩, -⟩
    unfold record Dependence.ofSource at h
    unfold Text.firstLine? at hm
    cases hl : Text.lines u.source with
    | nil => simp [hl] at hline
    | cons first rest =>
      have hne : first ≠ Settings.testMarker := by simpa [hl] using hm
      rw [hl, Text.skipReason?, if_neg hne] at h
      cases ho : Dependence.ofLines u.className u.path.toText (first :: rest) <;>
        simp [ho, Except.map] at h
  | some d =>
    obtain ⟨hs, found, hf, rfl⟩ := Dependence.ofSource_eq_some_iff.1 h
    have hm : Text.firstLine? u.source ≠ some Settings.testMarker := by
      intro hm
      unfold Text.firstLine? at hm
      obtain ⟨rest, hl⟩ := List.head?_eq_some_iff.1 hm
      simp [hl, Text.skipReason?] at hs
    simp only [Option.mem_some_iff, exists_eq_left', Dependence.mem_project_ofIncludes,
      Include.mem_ofLinesFrom_iff hf, Include.ofLine_eq_quoted_iff]
    constructor
    · rintro ⟨target, ⟨-, line, hline, hq⟩, hn⟩
      exact ⟨line, hline, target, hq, hn⟩
    · rintro ⟨line, hline, target, hq, hn⟩
      exact ⟨target, ⟨hm, line, hline, hq⟩, hn⟩

end TranslationUnit

/-! ## The graph -/

namespace IncludeGraph

open TranslationUnit

variable {units : List TranslationUnit} {rs : List (Option Dependence)}

theorem exists_unit_of_mem (h : List.Forall₂ (fun u r => u.record = .ok r) units rs)
    {d : Dependence} (hd : some d ∈ rs) : ∃ u ∈ units, u.record = .ok (some d) := by
  induction h with
  | nil => simp at hd
  | cons hr _ ih =>
    rcases List.mem_cons.1 hd with rfl | hd
    · exact ⟨_, by simp, hr⟩
    · obtain ⟨u, hu, hur⟩ := ih hd
      exact ⟨u, by simp [hu], hur⟩

theorem exists_record_of_mem (h : List.Forall₂ (fun u r => u.record = .ok r) units rs)
    {u : TranslationUnit} (hu : u ∈ units) : ∃ r ∈ rs, u.record = .ok r := by
  induction h with
  | nil => simp at hu
  | cons hr _ ih =>
    rcases List.mem_cons.1 hu with rfl | hu
    · exact ⟨_, by simp, hr⟩
    · obtain ⟨r, hrs, hur⟩ := ih hu
      exact ⟨r, by simp [hrs], hur⟩

/-- A unit leads to the other names that it quotes, and to no other. -/
theorem mem_project_ofUnits (hn : (units.map className).Nodup)
    (h : List.Forall₂ (fun u r => u.record = .ok r) units rs) {A : TranslationUnit} (hA : A ∈ units)
    {name : Text} :
    name ∈ (ofRecords (rs.filterMap id)).project A.className ↔
      A.className ≠ name ∧ ∃ target, A.Quotes target ∧ Include.withoutExtension target = name := by
  rw [mem_project, (shows_ofRecords _).mem_edges, Lists]
  refine and_congr_right fun _ => ?_
  obtain ⟨r, hr, hA'⟩ := exists_record_of_mem h hA
  rw [quotes_iff hA']
  constructor
  · rintro ⟨d, hd, hc, hm⟩
    obtain ⟨u, hu, hur⟩ := exists_unit_of_mem h (by simpa using hd)
    obtain rfl : u = A := List.inj_on_of_nodup_map hn hu hA (className_of_record hur ▸ hc)
    obtain rfl : r = some d := Except.ok.inj (hA'.symm.trans hur)
    exact ⟨d, rfl, hm⟩
  · rintro ⟨d, rfl, hm⟩
    exact ⟨d, by simpa using hr, className_of_record hA', hm⟩

/-- A unit finds another exactly when it quotes the file name of the other without directories, and
then every build order puts the other before it. With directories it finds a name that is none of a
unit. -/
theorem project_ofUnits (hn : (units.map className).Nodup)
    (h : List.Forall₂ (fun u r => u.record = .ok r) units rs) {A B : TranslationUnit}
    (hA : A ∈ units) (hB : B ∈ units) (hne : A ≠ B) :
    let g := ofRecords (rs.filterMap id)
    (B.className ∈ g.project A.className ↔
      ∃ target, A.Quotes target ∧ '/' ∉ target ∧ target.takeWhile (· ≠ '.') = B.className) ∧
    (B.className ∈ g.project A.className → ∀ order, g.buildOrder = .ok order →
      order.idxOf B.className < order.idxOf A.className) ∧
    ∀ directories last, A.Quotes (directories ++ '/' :: last) → '/' ∉ last →
      directories ++ '/' :: last.takeWhile (· ≠ '.') ∈ g.project A.className ∧
        ∀ u ∈ units, u.className ≠ directories ++ '/' :: last.takeWhile (· ≠ '.') := by
  intro g
  have hw : WellFormed g := (shows_ofRecords _).wellFormed
  have hclass : A.className ≠ B.className := fun he => hne (List.inj_on_of_nodup_map hn hA hB he)
  refine ⟨?_, ?_, ?_⟩
  · rw [mem_project_ofUnits hn h hA, and_iff_right hclass]
    simp only [Include.withoutExtension_eq_iff B.slash_not_mem_className]
  · intro hm order ho
    rcases buildOrder_eq hw with ⟨-, hbuild, hok⟩ | ⟨-, herr⟩
    · obtain rfl := Except.ok.inj (hok.symm.trans ho)
      exact hbuild.before _ _ (.single (mem_project.1 hm))
    · rw [herr] at ho
      cases ho
  · intro directories last hq hl
    have hslash (u : TranslationUnit) :
        u.className ≠ directories ++ '/' :: last.takeWhile (· ≠ '.') := by
      intro he
      apply u.slash_not_mem_className
      rw [he]
      simp
    refine ⟨(mem_project_ofUnits hn h hA).2 ⟨hslash A, _, hq, ?_⟩, fun u _ => hslash u⟩
    have hslash' : ∀ c ∈ (directories ++ ['/']).getLast?, c = '/' := by simp
    simpa using Include.withoutExtension_append hslash' hl

/-- A unit in a directory is found by its file name alone. -/
theorem project_ofUnits_plain :
    let timer : TranslationUnit := ⟨"util/Timer.cpp".toList, "#include <ctime>".toList⟩
    let window : TranslationUnit :=
      ⟨"window.cpp".toList, "#include \"Timer.h\"\n#include \"ui/Font.h\" // own".toList⟩
    let rs : List (Option Dependence) :=
      [some ⟨"Timer".toList, NameSet.empty, NameSet.ofList ["ctime".toList]⟩,
        some ⟨"window".toList, NameSet.ofList ["Timer".toList, "ui/Font".toList], NameSet.empty⟩]
    let g := ofRecords (rs.filterMap id)
    ([timer, window].map className).Nodup ∧
      List.Forall₂ (fun u r => u.record = .ok r) [timer, window] rs ∧
      timer.className ∈ g.project window.className ∧
      "ui/Font".toList ∈ g.project window.className ∧
      ∀ order, g.buildOrder = .ok order →
        order.idxOf timer.className < order.idxOf window.className := by
  intro timer window rs g
  have hn : ([timer, window].map className).Nodup := by decide +kernel
  have hr : List.Forall₂ (fun u r => u.record = .ok r) [timer, window] rs :=
    .cons (by decide +kernel) (.cons (by decide +kernel) .nil)
  have hmarker : Text.firstLine? window.source ≠ some Settings.testMarker := by decide +kernel
  have htimer : window.Quotes "Timer.h".toList :=
    ⟨hmarker, "#include \"Timer.h\"".toList, by decide +kernel, by decide +kernel,
      by decide +kernel, by decide +kernel, [], by decide +kernel⟩
  have hfont : window.Quotes "ui/Font.h".toList :=
    ⟨hmarker, "#include \"ui/Font.h\" // own".toList, by decide +kernel, by decide +kernel,
      by decide +kernel, by decide +kernel, [], by decide +kernel⟩
  obtain ⟨hfound, horder, hdirectories⟩ :=
    project_ofUnits hn hr (A := window) (B := timer) (by simp) (by simp) (by decide +kernel)
  have hm := hfound.2 ⟨_, htimer, by decide +kernel, by decide +kernel⟩
  exact ⟨hn, hr, hm, (hdirectories "ui".toList "Font.h".toList hfont (by decide +kernel)).1,
    horder hm⟩

/-- Directories in front of a quoted file name stay in the name that the unit leads to. -/
theorem not_mem_project_of_directories :
    let timer : TranslationUnit := ⟨"util/Timer.cpp".toList, "#include <ctime>".toList⟩
    let window : TranslationUnit := ⟨"window.cpp".toList, "#include \"util/Timer.h\"".toList⟩
    let records : List Dependence :=
      [⟨"Timer".toList, NameSet.empty, NameSet.ofList ["ctime".toList]⟩,
        ⟨"window".toList, NameSet.ofList ["util/Timer".toList], NameSet.empty⟩]
    List.Forall₂ (fun u r => u.record = .ok r) [timer, window] (records.map some) ∧
      window.Quotes "util/Timer.h".toList ∧
      Include.baseName "util/Timer.h".toList = timer.className ∧
      timer.className ∉ (ofRecords records).project window.className := by
  intro timer window records
  refine ⟨?_, ?_, ?_, ?_⟩
  · exact .cons (by decide +kernel) (.cons (by decide +kernel) .nil)
  · refine ⟨by decide +kernel, window.source, by decide +kernel, ?_⟩
    exact ⟨by decide +kernel, by decide +kernel, by decide +kernel, [], by decide +kernel⟩
  · decide +kernel
  · rw [mem_project]
    decide +kernel

end IncludeGraph

end SourceSurvey
