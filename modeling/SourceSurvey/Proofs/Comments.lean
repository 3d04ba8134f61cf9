import SourceSurvey.DeclarationScan
import SourceSurvey.Dependence
import SourceSurvey.Proofs.BraceCount
import SourceSurvey.Proofs.Text.Lines
import SourceSurvey.Proofs.Text.Normalize

/-!
# Comments and indentation

A source can be stripped of its comments and of the white space around its lines without any change
of what it includes. What it declares stays as well, unless a comment holds a brace: bodies are
counted in the lines as they are (`count_normalize`).
-/

namespace SourceSurvey

variable {ls : List Text}

/-! ## Stripped sources -/

namespace Text

/-- The normalized lines of a source, each ended by a newline. -/
def stripped (source : Text) : Text := ofLines ((lines source).map normalize)

theorem lines_stripped (source : Text) :
    lines (stripped source) = (lines source).map normalize := by
  apply lines_ofLines
  intro stripped hs
  obtain ⟨line, hline, rfl⟩ := List.mem_map.1 hs
  refine ⟨?_, ?_⟩
  · intro hn
    exact newline_not_mem_of_mem_lines hline ((normalize_isInfix line).subset hn)
  · intro hr
    have hblank := (trimmed_normalize line).2 '\r' hr
    simp [isBlank] at hblank

/-- A marker is a comment, so no normalized line is one. -/
theorem normalize_ne_of_commentMark {marker : Text} (h : commentMark <+: marker) (line : Text) :
    normalize line ≠ marker := by
  rintro rfl
  exact commentFree_normalize line h.isInfix

theorem skipReason?_map_normalize {marker : Text} (hm : commentMark <+: marker)
    (h : ls.head? ≠ some marker) :
    skipReason? marker (ls.map normalize) = skipReason? marker ls := by
  cases ls with
  | nil => rfl
  | cons line rest =>
    have hline : line ≠ marker := by simpa using h
    rw [List.map_cons, skipReason?, skipReason?, if_neg hline,
      if_neg (normalize_ne_of_commentMark hm line)]

end Text

/-! ## Includes -/

theorem Include.ofLinesFrom_map_normalize (number : Nat) (ls : List Text) :
    ofLinesFrom number (ls.map Text.normalize) = ofLinesFrom number ls := by
  induction ls generalizing number with
  | nil => rfl
  | cons line ls ih =>
    rw [List.map_cons, ofLinesFrom, ofLinesFrom, Text.normalize_normalize, ih]

theorem Dependence.ofLines_map_normalize (className label : Text) (ls : List Text) :
    ofLines className label (ls.map Text.normalize) = ofLines className label ls := by
  rw [ofLines, Include.ofLines, Include.ofLinesFrom_map_normalize, ofLines, Include.ofLines]

/-! ## Declarations -/

namespace Body

theorem braceless_of_blank {t : Text} (h : ∀ c ∈ t, Text.isBlank c = true) : Braceless t := by
  refine ⟨?_, ?_⟩
  · intro ho
    exact absurd (h '{' ho) (by decide)
  · intro hc
    exact absurd (h '}' hc) (by decide)

theorem count_of_braceless {t : Text} (h : Braceless t) (depth : Int) :
    count depth t = some depth := by
  rw [count_eq_some_of_not_ends h.not_ends, h.balance, Int.add_zero]

/-- A line is counted like its normalized line, unless its comment holds a brace. -/
theorem count_normalize {line : Text} (h : Braceless (Text.comment line)) (depth : Int) :
    count depth (Text.normalize line) = count depth line := by
  obtain ⟨a, b, hline, ha, hb⟩ := Text.exists_around_normalize line
  have hbefore := count_of_braceless (braceless_of_blank ha) depth
  have hafter (d : Int) : count d (b ++ Text.comment line) = some d := by
    rw [count_append, count_of_braceless (braceless_of_blank hb), Option.bind_some,
      count_of_braceless h]
  calc count depth (Text.normalize line)
    _ = (count depth (Text.normalize line)).bind some := (Option.bind_fun_some _).symm
    _ = count depth (Text.normalize line ++ (b ++ Text.comment line)) := by
      rw [count_append]
      simp only [hafter]
    _ = count depth (a ++ (Text.normalize line ++ (b ++ Text.comment line))) := by
      rw [count_append depth a, hbefore, Option.bind_some]
    _ = count depth line := by
      rw [← List.append_assoc, ← List.append_assoc, ← hline]

end Body

namespace DeclarationScan

/-- In each mode a line moves the scan like its normalized line. -/
theorem feed_normalize {raw : Text} (h : Body.Braceless (Text.comment raw)) (s : State) :
    feed s (Text.normalize raw) = feed s raw := by
  obtain ⟨line, mode, found⟩ := s
  cases mode with
  | ready => simp only [feed, Text.normalize_normalize]
  | joining start text => simp only [feed, Text.normalize_normalize]
  | skipping start depth => simp only [feed, skip, Body.count_normalize h]

theorem foldl_feed_map_normalize (h : ∀ line ∈ ls, Body.Braceless (Text.comment line))
    (s : State) : (ls.map Text.normalize).foldl feed s = ls.foldl feed s := by
  induction ls generalizing s with
  | nil => rfl
  | cons line ls ih =>
    obtain ⟨hline, hrest⟩ := List.forall_mem_cons.1 h
    rw [List.map_cons, List.foldl_cons, List.foldl_cons, feed_normalize hline, ih hrest]

end DeclarationScan

theorem Method.ofLines_map_normalize (className label : Text)
    (h : ∀ line ∈ ls, Body.Braceless (Text.comment line)) :
    ofLines className label (ls.map Text.normalize) = ofLines className label ls := by
  have hrun : DeclarationScan.declarations (ls.map Text.normalize) =
      DeclarationScan.declarations ls := by
    rw [DeclarationScan.declarations, DeclarationScan.run,
      DeclarationScan.foldl_feed_map_normalize h]
    rfl
  rw [ofLines, ofLines, hrun, List.length_map]

/-! ## Outcomes -/

/-- Stripping a source that is not generated changes nothing of what it includes, nor, if its
comments hold no brace, of what it declares. Errors are met at the same places. -/
theorem ofSource_stripped (className label source : Text) :
    (Text.firstLine? source ≠ some Settings.testMarker →
      Dependence.ofSource className label (Text.stripped source) =
        Dependence.ofSource className label source) ∧
    (Text.firstLine? source ≠ some Settings.fixtureMarker →
      (∀ line ∈ Text.lines source, Body.Braceless (Text.comment line)) →
      Method.ofSource className label (Text.stripped source) =
        Method.ofSource className label source) := by
  have htest : Text.commentMark <+: Settings.testMarker := by decide +kernel
  have hfixture : Text.commentMark <+: Settings.fixtureMarker := by decide +kernel
  refine ⟨?_, ?_⟩
  · intro hm
    rw [Dependence.ofSource, Text.lines_stripped, Text.skipReason?_map_normalize htest hm,
      Dependence.ofLines_map_normalize, Dependence.ofSource]
  · intro hm hb
    rw [Method.ofSource, Text.lines_stripped, Text.skipReason?_map_normalize hfixture hm,
      Method.ofLines_map_normalize _ _ hb, Method.ofSource]

/-- Comments stand in a parameter list, before a body and in it, and the keyword of a directive in
one of them. -/
theorem ofSource_stripped_definition :
    let source := Text.ofLines ["\t#include <ctime> // now".toList, "int sum(int a, // left".toList,
      "    int b) // #include \"sum.h\"".toList, "  // body".toList, "  \x7b // (".toList,
      "    return a + b; // )".toList, "  \x7d".toList, "  int last(".toList]
    Dependence.ofSource "Sum".toList "Sum.cpp".toList (Text.stripped source) =
        .ok (some ⟨"Sum".toList, .empty, .ofList ["ctime".toList]⟩) ∧
      Method.ofSource "Sum".toList "Sum.h".toList (Text.stripped source) =
        .error ⟨.openParameters 8, some "Sum.h".toList, some 8⟩ := by
  intro source
  have hlines : ∀ line ∈ Text.lines source, Body.Braceless (Text.comment line) := by
    decide +kernel
  obtain ⟨hdependence, hmethod⟩ := ofSource_stripped "Sum".toList "Sum.cpp".toList source
  have hmethods := (ofSource_stripped "Sum".toList "Sum.h".toList source).2
  rw [hdependence (by decide +kernel), hmethods (by decide +kernel) hlines]
  exact ⟨by decide +kernel, by decide +kernel⟩

/-- A brace in a comment counts where a body is skipped. -/
example :
    let source := Text.ofLines ["void reset()".toList, "// \x7b".toList, "\x7b \x7d".toList]
    Method.ofSource [] [] (Text.stripped source) ≠ Method.ofSource [] [] source := by
  decide +kernel

end SourceSurvey
