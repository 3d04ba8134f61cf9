import Mathlib.Data.List.Perm.Basic
import SourceSurvey.Dependence
import SourceSurvey.Proofs.Include.Directive
import SourceSurvey.Proofs.Outcome
import SourceSurvey.Proofs.Text.Lines

/-!
# The includes of a source

A source that is neither blank nor generated gives the record of the directives on its lines. All
that it includes is well-formed, so a record can be written as a source of directives, one for each
name and in any order, and that source gives the same record (`ofSource_directives`).
-/

namespace SourceSurvey

namespace Include

/-- Lines without a malformed directive give what the directives on them include. -/
theorem mem_ofLinesFrom_iff {lines : List Text} {found : List Include} {number : Nat}
    (h : ofLinesFrom number lines = .ok found) {i : Include} :
    i ∈ found ↔ ∃ line ∈ lines, ofLine (Text.normalize line) = .ok (some i) := by
  induction lines generalizing number found with
  | nil =>
    cases h
    simp
  | cons line lines ih =>
    rw [ofLinesFrom] at h
    cases hl : ofLine (Text.normalize line) with
    | error d => simp [hl] at h
    | ok first =>
      cases hr : ofLinesFrom (number + 1) lines with
      | error e => simp [hl, hr] at h
      | ok rest =>
        simp only [hl, hr, Except.ok.injEq] at h
        subst h
        simp only [List.mem_append, Option.mem_toList, ih hr, List.mem_cons, exists_eq_or_imp, hl,
          Except.ok.injEq]

/-- The includes of lines are well-formed. -/
theorem wellFormed_of_mem {lines : List Text} {found : List Include} {number : Nat}
    (h : ofLinesFrom number lines = .ok found) (hn : ∀ line ∈ lines, '\n' ∉ line) :
    ∀ i ∈ found, i.WellFormed := by
  intro i hi
  obtain ⟨line, hline, hl⟩ := (mem_ofLinesFrom_iff h).1 hi
  refine wellFormed_of_ofLine hl (Text.commentFree_normalize line) ?_
  exact fun hm => hn line hline ((Text.normalize_isInfix line).subset hm)

/-- Directives give what they were written for. -/
theorem ofLinesFrom_directives {found : List Include} (h : ∀ i ∈ found, i.WellFormed)
    (number : Nat) : ofLinesFrom number (found.map directive) = .ok found := by
  induction found generalizing number with
  | nil => rfl
  | cons i found ih =>
    have hi := h i (by simp)
    rw [List.map_cons, ofLinesFrom, normalize_directive hi, ofLine_directive hi,
      ih fun j hj => h j (by simp [hj])]
    rfl

theorem lines_ofLines_directives {found : List Include} (h : ∀ i ∈ found, i.WellFormed) :
    Text.lines (Text.ofLines (found.map directive)) = found.map directive := by
  apply Text.lines_ofLines
  intro line hl
  obtain ⟨i, hi, rfl⟩ := List.mem_map.1 hl
  exact ⟨newline_not_mem_directive (h i hi), getLast?_directive_ne i⟩

theorem directive_ne_testMarker (i : Include) : i.directive ≠ Settings.testMarker := by
  intro h
  have hh := head?_directive i
  rw [h] at hh
  exact absurd hh (by decide)

end Include

namespace Dependence

/-- A source gives a record only if it is neither blank nor generated, and then that of its
includes. -/
theorem ofSource_eq_some_iff {className label source : Text} {d : Dependence} :
    ofSource className label source = .ok (some d) ↔
      Text.skipReason? Settings.testMarker (Text.lines source) = none ∧
        ∃ found, Include.ofLines (Text.lines source) = .ok found ∧
          d = ofIncludes className found := by
  unfold ofSource
  cases Text.skipReason? Settings.testMarker (Text.lines source) with
  | some reason => simp
  | none =>
    simp only [map_some_eq_ok_iff, true_and, ofLines]
    cases Include.ofLines (Text.lines source) with
    | error e => simp
    | ok found => simp [eq_comm]

theorem mem_project_ofIncludes {className n : Text} {found : List Include} :
    n ∈ (ofIncludes className found).project ↔ ⟨n, false⟩ ∈ found := by
  rw [ofIncludes, NameSet.mem_ofList, List.mem_map]
  constructor
  · rintro ⟨⟨name, isLibrary⟩, hi, rfl⟩
    obtain ⟨hm, hf⟩ := List.mem_filter.1 hi
    simp only [Bool.not_eq_true'] at hf
    exact hf ▸ hm
  · intro h
    exact ⟨⟨n, false⟩, List.mem_filter.2 ⟨h, rfl⟩, rfl⟩

theorem mem_libraries_ofIncludes {className n : Text} {found : List Include} :
    n ∈ (ofIncludes className found).libraries ↔ ⟨n, true⟩ ∈ found := by
  rw [ofIncludes, NameSet.mem_ofList, List.mem_map]
  constructor
  · rintro ⟨⟨name, isLibrary⟩, hi, rfl⟩
    obtain ⟨hm, hf⟩ := List.mem_filter.1 hi
    exact hf ▸ hm
  · intro h
    exact ⟨⟨n, true⟩, List.mem_filter.2 ⟨h, rfl⟩, rfl⟩

/-- What a record includes, each name once: the names of the project and then the libraries. -/
def includes (d : Dependence) : List Include :=
  d.project.names.map (fun n => ⟨n, false⟩) ++ d.libraries.names.map fun n => ⟨n, true⟩

theorem mem_includes {d : Dependence} {i : Include} :
    i ∈ d.includes ↔ (i.isLibrary = false ∧ i.name ∈ d.project) ∨
      (i.isLibrary = true ∧ i.name ∈ d.libraries) := by
  obtain ⟨name, isLibrary⟩ := i
  rw [includes, List.mem_append, List.mem_map, List.mem_map]
  cases isLibrary
  · simp only [Include.mk.injEq, reduceCtorEq, and_false, exists_false, or_false, false_and,
      and_true, exists_eq_right, true_and]
    rfl
  · simp only [Include.mk.injEq, reduceCtorEq, and_false, exists_false, false_or, false_and,
      and_true, exists_eq_right, true_and]
    rfl

theorem mem_includes_ofIncludes {className : Text} {found : List Include} {i : Include} :
    i ∈ (ofIncludes className found).includes ↔ i ∈ found := by
  rw [mem_includes, mem_project_ofIncludes, mem_libraries_ofIncludes]
  obtain ⟨name, isLibrary⟩ := i
  cases isLibrary <;> simp

theorem wellFormed_of_mem_includes {className label source : Text} {d : Dependence}
    (h : ofSource className label source = .ok (some d)) : ∀ i ∈ d.includes, i.WellFormed := by
  obtain ⟨-, found, hf, rfl⟩ := ofSource_eq_some_iff.1 h
  intro i hi
  exact Include.wellFormed_of_mem hf (fun line => Text.newline_not_mem_of_mem_lines) i
    (mem_includes_ofIncludes.1 hi)

/-- A record is made again from what it includes, in any order. -/
theorem ofIncludes_of_perm {d : Dependence} {found : List Include}
    (h : found.Perm d.includes) (className : Text) :
    ofIncludes className found = ⟨className, d.project, d.libraries⟩ := by
  have hp : (ofIncludes className found).project = d.project := by
    apply NameSet.ext
    intro n
    rw [mem_project_ofIncludes, h.mem_iff, mem_includes]
    simp
  have hl : (ofIncludes className found).libraries = d.libraries := by
    apply NameSet.ext
    intro n
    rw [mem_libraries_ofIncludes, h.mem_iff, mem_includes]
    simp
  rw [← hp, ← hl]
  rfl

theorem ofSource_directives {className label source : Text} {d : Dependence}
    (h : ofSource className label source = .ok (some d))
    (hd : ∃ n, n ∈ d.project ∨ n ∈ d.libraries) {found : List Include}
    (hf : found.Perm (d.project.names.map (fun n => ⟨n, false⟩) ++
      d.libraries.names.map fun n => ⟨n, true⟩)) (className' label' : Text) :
    ofSource className' label' (Text.ofLines (found.map Include.directive)) =
      .ok (some ⟨className', d.project, d.libraries⟩) := by
  have hw : ∀ i ∈ found, i.WellFormed := fun i hi =>
    wellFormed_of_mem_includes h i (hf.mem_iff.1 hi)
  have hlines := Include.lines_ofLines_directives hw
  rw [ofSource_eq_some_iff, hlines]
  refine ⟨?_, found, Include.ofLinesFrom_directives hw 1, (ofIncludes_of_perm hf className').symm⟩
  cases found with
  | nil =>
    obtain ⟨n, hn⟩ := hd
    have hnil : ∀ i, i ∉ d.includes := fun i hi => List.not_mem_nil (hf.mem_iff.2 hi)
    rcases hn with hn | hn
    · exact absurd (mem_includes.2 (.inl ⟨rfl, hn⟩)) (hnil ⟨n, false⟩)
    · exact absurd (mem_includes.2 (.inr ⟨rfl, hn⟩)) (hnil ⟨n, true⟩)
  | cons i found =>
    rw [List.map_cons, Text.skipReason?, if_neg i.directive_ne_testMarker]

/-- Dots in directories, a space, and the delimiters of the other kind stay in the names. -/
theorem ofSource_directives_delimiters :
    let source := Text.ofLines ["#include \"../v1.2/Foo bar.tar.h\" // own".toList,
      "  #include\"a>b\"c".toList, "#include <sys\"x/types.h>\r".toList]
    let d : Dependence := ⟨"Main".toList, NameSet.ofList ["a>b".toList, "../v1.2/Foo bar".toList],
      NameSet.ofList ["sys\"x/types".toList]⟩
    ofSource "Main".toList "Main.cpp".toList source = .ok (some d) ∧
      ofSource "Main".toList "Main".toList (Text.ofLines ["#include \"a>b\"".toList,
        "#include <sys\"x/types>".toList, "#include \"../v1.2/Foo bar\"".toList]) =
          .ok (some d) := by
  intro source d
  let found : List Include := [⟨"a>b".toList, false⟩, ⟨"sys\"x/types".toList, true⟩,
    ⟨"../v1.2/Foo bar".toList, false⟩]
  have h : ofSource "Main".toList "Main.cpp".toList source = .ok (some d) := by decide +kernel
  have hd : "a>b".toList ∈ d.project := NameSet.mem_ofList.2 (by simp)
  have hf : found.Perm (d.project.names.map (fun n => ⟨n, false⟩) ++
      d.libraries.names.map fun n => ⟨n, true⟩) := by decide +kernel
  exact ⟨h, ofSource_directives h ⟨_, .inl hd⟩ hf "Main".toList "Main".toList⟩

end Dependence

end SourceSurvey
