import SourceSurvey.Proofs.DeclarationScan.Run
import SourceSurvey.Proofs.Outcome
import SourceSurvey.Proofs.Text.Lines

/-!
# The methods of a source

A source gives methods exactly when it is neither blank nor generated and its lines can be cut into
blocks. There is one such cut, and each block whose head is a declaration gives one method.
-/

namespace SourceSurvey

namespace Method

open DeclarationScan

theorem ofSource_eq_none (className label : Text) {source : Text}
    (h : source = [] ∨ Text.firstLine? source = some Settings.fixtureMarker) :
    ofSource className label source = .ok none := by
  rw [ofSource]
  cases hs : Text.skipReason? Settings.fixtureMarker (Text.lines source) with
  | some reason => rfl
  | none => exact absurd h (not_or.2 (Text.skipReason?_lines_eq_none_iff.1 hs))

/-- A source that is neither blank nor generated is scanned. -/
theorem ofSource_eq_ofLines (className label : Text) {source : Text} (hb : source ≠ [])
    (hm : Text.firstLine? source ≠ some Settings.fixtureMarker) :
    ofSource className label source =
      (ofLines className label (Text.lines source)).map some := by
  rw [ofSource, Text.skipReason?_lines_eq_none_iff.2 ⟨hb, hm⟩]

/-- The first line decides whether the lines are scanned. -/
theorem ofSource_of_lines (className label : Text) {source line : Text} {rest : List Text}
    (h : Text.lines source = line :: rest) :
    ofSource className label source =
      if line = Settings.fixtureMarker then .ok none
      else (ofLines className label (line :: rest)).map some := by
  unfold ofSource
  rw [h, Text.skipReason?]
  by_cases hm : line = Settings.fixtureMarker
  · rw [if_pos hm, if_pos hm]
  · rw [if_neg hm, if_neg hm]

theorem ofLines_eq_ok_iff {className label : Text} {lines : List Text} {ms : List Method} :
    ofLines className label lines = .ok ms ↔
      ∃ found, declarations lines = .ok found ∧ ms = found.map (ofDeclaration className) := by
  unfold ofLines
  cases declarations lines with
  | error d => simp
  | ok found => simp [eq_comm]

theorem ofSource_eq_ok_some_iff (className label source : Text) (ms : List Method) :
    ofSource className label source = .ok (some ms) ↔
      source ≠ [] ∧ Text.firstLine? source ≠ some Settings.fixtureMarker ∧
        ∃ blocks, linesOf blocks = Text.lines source ∧ WellCut blocks ∧
          (∀ other, linesOf other = Text.lines source → WellCut other → other = blocks) ∧
          ms = blocks.filterMap fun b => b.declaration?.map fun d =>
            ⟨className, d.returnType, d.methodName, d.paramTypes, true, none⟩ := by
  have hmap (blocks : List Block) :
      (declarationsOf blocks).map (ofDeclaration className) =
        blocks.filterMap fun b => b.declaration?.map fun d =>
          ⟨className, d.returnType, d.methodName, d.paramTypes, true, none⟩ :=
    List.map_filterMap ..
  by_cases h : source = [] ∨ Text.firstLine? source = some Settings.fixtureMarker
  · rw [ofSource_eq_none className label h]
    simp only [Except.ok.injEq, reduceCtorEq, false_iff]
    rintro ⟨hb, hm, -⟩
    exact h.elim hb hm
  · rw [not_or] at h
    rw [ofSource_eq_ofLines className label h.1 h.2, map_some_eq_ok_iff, ofLines_eq_ok_iff]
    simp only [declarations_eq_ok_iff]
    constructor
    · rintro ⟨found, ⟨blocks, hl, hw, rfl⟩, rfl⟩
      refine ⟨h.1, h.2, blocks, hl, hw, ?_, hmap blocks⟩
      intro other ho hwo
      exact eq_of_wellCut hwo hw (ho.trans hl.symm)
    · rintro ⟨-, -, blocks, hl, hw, -, rfl⟩
      exact ⟨_, ⟨blocks, hl, hw, rfl⟩, (hmap blocks).symm⟩

end Method

end SourceSurvey
