import SourceSurvey.Proofs.Include.Extraction
import SourceSurvey.Proofs.Include.Grammar

/-!
# What a source gives

A source that is neither blank nor generated is read to its end or to its first malformed line.
The record holds what the directives on the lines include, so neither the order of the lines nor
how often one of them stands there changes it, and the record of two sources, one after the other,
is the union of their records (`ofSource_outcome`).
-/

namespace SourceSurvey

namespace Include

variable {line : Text} {lines : List Text} {number n : Nat} {d : Defect}

/-- The line is a directive that includes nothing, and this is what is wrong with it. -/
def IsMalformed (line : Text) (d : Defect) : Prop := ofLine (Text.normalize line) = .error d

/-- Of the malformed lines the first has this number, counted from one, and this defect. -/
def FirstMalformed (lines : List Text) (number : Nat) (d : Defect) : Prop :=
  ∃ before line after, lines = before ++ line :: after ∧ number = before.length + 1 ∧
    (∀ l ∈ before, ∀ e, ¬IsMalformed l e) ∧ IsMalformed line d

theorem FirstMalformed.kind (h : FirstMalformed lines number d) : d.kind = .malformedInclude := by
  obtain ⟨-, line, -, -, -, -, hline⟩ := h
  exact kind_of_ofLine hline

/-- No line after a malformed one is looked at. -/
theorem firstMalformed_cons_of_malformed {e : Defect} (h : IsMalformed line e) :
    FirstMalformed (line :: lines) n d ↔ n = 1 ∧ d = e := by
  constructor
  · rintro ⟨before, other, after, hsplit, rfl, hbefore, ho⟩
    cases before with
    | nil =>
      obtain ⟨rfl, -⟩ := List.cons.inj hsplit
      exact ⟨rfl, Except.error.inj (ho.symm.trans h)⟩
    | cons first before =>
      obtain ⟨rfl, -⟩ := List.cons.inj hsplit
      exact absurd h (hbefore line List.mem_cons_self e)
  · rintro ⟨rfl, rfl⟩
    exact ⟨[], line, lines, rfl, rfl, by simp, h⟩

/-- After a line that is not malformed the others are counted on. -/
theorem firstMalformed_cons_of_fine (h : ∀ e, ¬IsMalformed line e) :
    FirstMalformed (line :: lines) n d ↔ ∃ k, n = k + 1 ∧ FirstMalformed lines k d := by
  constructor
  · rintro ⟨before, other, after, hsplit, rfl, hbefore, ho⟩
    cases before with
    | nil =>
      obtain ⟨rfl, -⟩ := List.cons.inj hsplit
      exact absurd ho (h d)
    | cons first before =>
      obtain ⟨rfl, rfl⟩ := List.cons.inj hsplit
      exact ⟨before.length + 1, rfl, before, other, after, rfl, rfl,
        (List.forall_mem_cons.1 hbefore).2, ho⟩
  · rintro ⟨k, rfl, before, other, after, rfl, rfl, hbefore, ho⟩
    exact ⟨line :: before, other, after, rfl, rfl, List.forall_mem_cons.2 ⟨h, hbefore⟩, ho⟩

theorem ofLinesFrom_cons_of_error (h : IsMalformed line d) (number : Nat) (lines : List Text) :
    ofLinesFrom number (line :: lines) = .error (number, d) := by
  rw [ofLinesFrom, h]

theorem ofLinesFrom_cons_of_ok {found : Option Include}
    (h : ofLine (Text.normalize line) = .ok found) (number : Nat) (lines : List Text) :
    ofLinesFrom number (line :: lines) =
      (ofLinesFrom (number + 1) lines).map (found.toList ++ ·) := by
  rw [ofLinesFrom, h]
  cases ofLinesFrom (number + 1) lines <;> rfl

theorem ofLinesFrom_eq_error_iff :
    ofLinesFrom (number + 1) lines = .error (n, d) ↔
      ∃ k, n = number + k ∧ FirstMalformed lines k d := by
  induction lines generalizing number with
  | nil => simp [ofLinesFrom, FirstMalformed]
  | cons line lines ih =>
    cases hl : ofLine (Text.normalize line) with
    | error e =>
      rw [ofLinesFrom_cons_of_error hl]
      simp [firstMalformed_cons_of_malformed hl, eq_comm]
    | ok found =>
      have hfine : ∀ e, ¬IsMalformed line e := by simp [IsMalformed, hl]
      rw [ofLinesFrom_cons_of_ok hl, map_eq_error_iff, ih]
      simp [firstMalformed_cons_of_fine hfine, Nat.add_right_comm, Nat.add_assoc]

theorem ofLines_eq_error_iff : ofLines lines = .error (n, d) ↔ FirstMalformed lines n d := by
  rw [ofLines, ← Nat.zero_add 1, ofLinesFrom_eq_error_iff]
  simp

theorem exists_ofLinesFrom_eq_ok_iff :
    (∃ found, ofLinesFrom number lines = .ok found) ↔
      ∀ line ∈ lines, ∀ d, ¬IsMalformed line d := by
  induction lines generalizing number with
  | nil => simp [ofLinesFrom]
  | cons line lines ih =>
    rw [List.forall_mem_cons]
    cases hl : ofLine (Text.normalize line) with
    | error e => simp [ofLinesFrom_cons_of_error hl, IsMalformed, hl]
    | ok found =>
      rw [ofLinesFrom_cons_of_ok hl, ← @ih (number + 1)]
      simp [IsMalformed, hl, map_eq_ok_iff]

theorem exists_firstMalformed (h : ∃ line ∈ lines, ∃ d, IsMalformed line d) :
    ∃ number d, FirstMalformed lines number d := by
  cases hl : ofLines lines with
  | error p => exact ⟨p.1, p.2, ofLines_eq_error_iff.1 hl⟩
  | ok found =>
    obtain ⟨line, hline, d, hd⟩ := h
    exact absurd hd (exists_ofLinesFrom_eq_ok_iff.1 ⟨found, hl⟩ line hline d)

end Include

namespace Dependence

open Include

variable {className label source other : Text} {lines ls : List Text} {r s : Dependence}

/-! ## Skipped sources and errors -/

/-- The source is neither blank nor generated. -/
def IsScanned (source : Text) : Prop :=
  source ≠ [] ∧ Text.firstLine? source ≠ some Settings.testMarker

theorem ofSource_eq_none_iff :
    ofSource className label source = .ok none ↔
      source = [] ∨ Text.firstLine? source = some Settings.testMarker := by
  rw [← not_iff_not, not_or, ← Ne, ← Ne, ← Text.skipReason?_lines_eq_none_iff, ofSource]
  cases Text.skipReason? Settings.testMarker (Text.lines source) with
  | some reason => simp
  | none => cases ofLines className label (Text.lines source) <;> simp [Except.map]

theorem ofLines_eq_error_iff {e : ScanError} :
    ofLines className label lines = .error e ↔
      ∃ number d, FirstMalformed lines number d ∧ e = ⟨d, some label, some number⟩ := by
  simp only [← Include.ofLines_eq_error_iff, ofLines]
  cases Include.ofLines lines with
  | error p =>
    obtain ⟨number, d⟩ := p
    simp [eq_comm]
  | ok found => simp

theorem ofSource_eq_error_iff_firstMalformed {e : ScanError} :
    ofSource className label source = .error e ↔
      IsScanned source ∧ ∃ number d, FirstMalformed (Text.lines source) number d ∧
        e = ⟨d, some label, some number⟩ := by
  rw [IsScanned, ← Text.skipReason?_lines_eq_none_iff, ← @ofLines_eq_error_iff className, ofSource]
  cases Text.skipReason? Settings.testMarker (Text.lines source) with
  | some reason => simp
  | none => simp [map_eq_error_iff]

theorem ofSource_error {e : ScanError} (h : ofSource className label source = .error e) :
    e.label = some label ∧ e.defect.kind = .malformedInclude := by
  obtain ⟨-, number, d, hfirst, rfl⟩ := ofSource_eq_error_iff_firstMalformed.1 h
  exact ⟨rfl, hfirst.kind⟩

/-! ## Records -/

/-- The record of the class holds what the directives on the lines include. -/
structure IsRecordOf (className : Text) (lines : List Text) (r : Dependence) : Prop where
  className_eq : r.className = className
  mem_project : ∀ n, n ∈ r.project ↔
    ∃ line ∈ lines, ofLine (Text.normalize line) = .ok (some ⟨n, false⟩)
  mem_libraries : ∀ n, n ∈ r.libraries ↔
    ∃ line ∈ lines, ofLine (Text.normalize line) = .ok (some ⟨n, true⟩)

theorem IsRecordOf.eq (hr : IsRecordOf className lines r) (hs : IsRecordOf className lines s) :
    r = s := by
  obtain ⟨rClass, rProject, rLibraries⟩ := r
  obtain ⟨sClass, sProject, sLibraries⟩ := s
  obtain rfl : rClass = sClass := hr.className_eq.trans hs.className_eq.symm
  obtain rfl : rProject = sProject :=
    NameSet.ext fun n => (hr.mem_project n).trans (hs.mem_project n).symm
  obtain rfl : rLibraries = sLibraries :=
    NameSet.ext fun n => (hr.mem_libraries n).trans (hs.mem_libraries n).symm
  rfl

theorem isRecordOf_ofIncludes {found : List Include} (h : Include.ofLines lines = .ok found)
    (className : Text) : IsRecordOf className lines (ofIncludes className found) where
  className_eq := rfl
  mem_project _ := mem_project_ofIncludes.trans (mem_ofLinesFrom_iff h)
  mem_libraries _ := mem_libraries_ofIncludes.trans (mem_ofLinesFrom_iff h)

/-- A scanned source without a malformed line gives the one record of its lines. -/
theorem ofSource_eq_some_iff_isRecordOf :
    ofSource className label source = .ok (some r) ↔
      IsScanned source ∧ (∀ line ∈ Text.lines source, ∀ d, ¬IsMalformed line d) ∧
        IsRecordOf className (Text.lines source) r := by
  rw [ofSource_eq_some_iff, Text.skipReason?_lines_eq_none_iff, ← IsScanned,
    ← @exists_ofLinesFrom_eq_ok_iff _ 1]
  refine and_congr_right fun _ => ⟨?_, ?_⟩
  · rintro ⟨found, hf, rfl⟩
    exact ⟨⟨found, hf⟩, isRecordOf_ofIncludes hf className⟩
  · rintro ⟨⟨found, hf⟩, hr⟩
    exact ⟨found, hf, hr.eq (isRecordOf_ofIncludes hf className)⟩

/-! ## Lines in another order and more than once -/

/-- Lines that are written are the lines that are read, up to what normalizing takes away. -/
theorem exists_mem_lines_ofLines_iff (hmem : ∀ line, line ∈ ls ↔ line ∈ Text.lines source)
    (P : Text → Prop) :
    (∃ line ∈ Text.lines (Text.ofLines ls), P (Text.normalize line)) ↔
      ∃ line ∈ Text.lines source, P (Text.normalize line) := by
  have hn : ∀ line ∈ ls, '\n' ∉ line := fun line hl =>
    Text.newline_not_mem_of_mem_lines ((hmem line).1 hl)
  simp [Text.lines_ofLines_eq_map hn, Text.normalize_dropReturn, hmem]

theorem ofSource_ofLines (h : ofSource className label source = .ok (some r))
    (hmem : ∀ line, line ∈ ls ↔ line ∈ Text.lines source)
    (hfirst : Text.firstLine? (Text.ofLines ls) ≠ some Settings.testMarker) :
    ofSource className label (Text.ofLines ls) = .ok (some r) := by
  rw [ofSource_eq_some_iff_isRecordOf] at h ⊢
  obtain ⟨hscan, hfine, hr⟩ := h
  -- a line can lose a final carriage return, so the lines agree only once they are normalized
  have hread := exists_mem_lines_ofLines_iff hmem
  refine ⟨⟨?_, hfirst⟩, ?_, hr.className_eq, fun n => ?_, fun n => ?_⟩
  · intro hnil
    have hls : ls = [] := Text.ofLines_eq_nil_iff.1 hnil
    refine hscan.1 (Text.lines_eq_nil_iff.1 (List.eq_nil_iff_forall_not_mem.2 fun line hl => ?_))
    simpa [hls] using (hmem line).2 hl
  · intro line hline d hd
    obtain ⟨l, hl, hl'⟩ := (hread fun t => ofLine t = .error d).1 ⟨line, hline, hd⟩
    exact hfine l hl d hl'
  · rw [hr.mem_project, hread fun t => ofLine t = .ok (some ⟨n, false⟩)]
  · rw [hr.mem_libraries, hread fun t => ofLine t = .ok (some ⟨n, true⟩)]

/-! ## One source after another -/

theorem ofSource_append {className' label' : Text}
    (h : ofSource className label source = .ok (some r))
    (h' : ofSource className' label' other = .ok (some s)) (hended : source.getLast? = some '\n') :
    ofSource className label (source ++ other) =
      .ok (some ⟨className, r.project.union s.project, r.libraries.union s.libraries⟩) := by
  rw [ofSource_eq_some_iff_isRecordOf] at h h' ⊢
  obtain ⟨hscan, hfine, hr⟩ := h
  obtain ⟨-, hfine', hs⟩ := h'
  have hlast : ∀ c ∈ source.getLast?, c = '\n' := by simp [hended]
  rw [Text.lines_append_of_ended hlast]
  refine ⟨⟨by simp [hscan.1], ?_⟩, ?_, rfl, fun n => ?_, fun n => ?_⟩
  · rw [Text.firstLine?_append_of_ended hlast hscan.1]
    exact hscan.2
  · intro line hline
    exact (List.mem_append.1 hline).elim (hfine line) (hfine' line)
  · simp only [NameSet.mem_union, hr.mem_project, hs.mem_project, List.mem_append, or_and_right,
      exists_or]
  · simp only [NameSet.mem_union, hr.mem_libraries, hs.mem_libraries, List.mem_append,
      or_and_right, exists_or]

/-! ## The outcome -/

/-- A blank or generated source gives nothing. Any other fails at its first malformed line, or gives
the record of its lines. Then so does every text that is written with these lines, and a source that
ends in a newline adds its record to that of the source after it. -/
theorem ofSource_outcome (className : Text) (path : Option Text) (source : Text) :
    let label := labelOf className path
    let lines := Text.lines source
    (ofSource className label source = .ok none ↔
      source = [] ∨ Text.firstLine? source = some Settings.testMarker) ∧
    (IsScanned source → (∃ line ∈ lines, ∃ d, IsMalformed line d) →
      ∃ number d, FirstMalformed lines number d ∧ d.kind = .malformedInclude ∧
        ofSource className label source = .error ⟨d, some label, some number⟩) ∧
    (IsScanned source → (∀ line ∈ lines, ∀ d, ¬IsMalformed line d) →
      ∃ r, IsRecordOf className lines r ∧ ofSource className label source = .ok (some r) ∧
        (∀ ls, (∀ line, line ∈ ls ↔ line ∈ lines) →
          Text.firstLine? (Text.ofLines ls) ≠ some Settings.testMarker →
            ofSource className label (Text.ofLines ls) = .ok (some r)) ∧
        (source.getLast? = some '\n' → ∀ className' label' other s,
          ofSource className' label' other = .ok (some s) →
            ofSource className label (source ++ other) = .ok (some
              ⟨className, r.project.union s.project, r.libraries.union s.libraries⟩))) := by
  refine ⟨ofSource_eq_none_iff, fun hscan hbad => ?_, fun hscan hfine => ?_⟩
  · obtain ⟨number, d, hfirst⟩ := exists_firstMalformed hbad
    exact ⟨number, d, hfirst, hfirst.kind,
      ofSource_eq_error_iff_firstMalformed.2 ⟨hscan, number, d, hfirst, rfl⟩⟩
  · obtain ⟨found, hfound⟩ := exists_ofLinesFrom_eq_ok_iff.2 hfine
    have hrecord := isRecordOf_ofIncludes hfound className
    have hr : ofSource className (labelOf className path) source =
        .ok (some (ofIncludes className found)) :=
      ofSource_eq_some_iff_isRecordOf.2 ⟨hscan, hfine, hrecord⟩
    exact ⟨_, hrecord, hr, fun ls => ofSource_ofLines hr,
      fun hended className' label' other s hs => ofSource_append hr hs hended⟩

/-- A carriage return and a form feed count no line. -/
example : ofSource "Foo".toList "Foo.cpp".toList
    "int a;\r\n\x0c\n#include <map\n#include x\n".toList =
      .error ⟨.unterminatedTarget "#include <map".toList, some "Foo.cpp".toList, some 3⟩ := by
  decide +kernel

end Dependence

end SourceSurvey
