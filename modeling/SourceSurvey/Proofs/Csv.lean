import SourceSurvey.Csv
import SourceSurvey.Proofs.Text.Lines

/-!
# Comma-separated rows and the texts they are written in

Rows of plain fields (`IsPlain`) are read again as they were written, and a text without carriage
returns is written again as it was read, but for the newline that its last line may lack
(`rows_written_inverse`). A line is joined at the commas it is cut at, so the lines carry the rest.
-/

namespace SourceSurvey.Csv

variable {row : Row} {c : Char}

def line (row : Row) : Text := Text.join [','] row

/-- The rows as a text, a line for each. -/
def written (rows : List Row) : Text := Text.ofLines (rows.map line)

/-- There are fields, and none of them would be cut. -/
structure IsPlain (row : Row) : Prop where
  ne_nil : row ≠ []
  comma_not_mem : ∀ field ∈ row, ',' ∉ field
  newline_not_mem : ∀ field ∈ row, '\n' ∉ field

/-! ## One row -/

theorem IsPlain.fields_line (h : IsPlain row) : fields (line row) = row :=
  List.splitOn_intercalate ',' h.comma_not_mem h.ne_nil

theorem line_fields (l : Text) : line (fields l) = l := List.intercalate_splitOn ','

theorem IsPlain.newline_not_mem_line (h : IsPlain row) : '\n' ∉ line row := by
  rw [line, Text.mem_join (by decide)]
  rintro ⟨field, hf, hn⟩
  exact h.newline_not_mem field hf hn

/-- A line ends as its last field does, or in a comma. -/
theorem getLast?_line_ne (hc : c ≠ ',') (h : ∀ field ∈ row.getLast?, field.getLast? ≠ some c) :
    (line row).getLast? ≠ some c := by
  intro hl
  rcases Text.mem_getLast?_join (List.cons_ne_nil _ _) hl with hs | ⟨field, hf, hl⟩
  · exact hc (List.mem_singleton.1 hs)
  · exact h field hf hl

theorem isPlain_fields {l : Text} (h : '\n' ∉ l) : IsPlain (fields l) where
  ne_nil := List.splitOn_ne_nil ',' l
  comma_not_mem _ hf := Text.not_mem_of_mem_splitOn hf
  newline_not_mem _ hf hn := h ((Text.isInfix_of_mem_splitOn hf).subset hn)

/-! ## All rows -/

theorem rows_written {rs : List Row}
    (h : ∀ row ∈ rs, IsPlain row ∧ ∀ field ∈ row.getLast?, field.getLast? ≠ some '\r') :
    rows (written rs) = rs := by
  have hlines : Text.lines (written rs) = rs.map line := by
    refine Text.lines_ofLines fun l hl => ?_
    obtain ⟨row, hr, rfl⟩ := List.mem_map.1 hl
    obtain ⟨hplain, hlast⟩ := h row hr
    exact ⟨hplain.newline_not_mem_line, getLast?_line_ne (by decide) hlast⟩
  rw [rows, hlines, List.map_map]
  exact (List.map_congr_left fun row hr => (h row hr).1.fields_line).trans (List.map_id rs)

theorem isPlain_of_mem_rows {t : Text} (h : row ∈ rows t) : IsPlain row := by
  obtain ⟨l, hl, rfl⟩ := List.mem_map.1 h
  exact isPlain_fields (Text.newline_not_mem_of_mem_lines hl)

theorem written_rows (t : Text) : written (rows t) = Text.ofLines (Text.lines t) := by
  have hlines : (rows t).map line = Text.lines t := by
    rw [rows, List.map_map]
    exact (List.map_congr_left fun l _ => line_fields l).trans (List.map_id _)
  rw [written, hlines]

/-- Rows of plain fields come back from the text that they are written in. A text without carriage
returns comes back from its rows, which are plain; only a last line that was not ended is. -/
theorem rows_written_inverse :
    (∀ rs : List Row,
      (∀ row ∈ rs, IsPlain row ∧ ∀ field ∈ row.getLast?, field.getLast? ≠ some '\r') →
        rows (written rs) = rs) ∧
    ∀ t : Text, '\r' ∉ t →
      (∀ row ∈ rows t, IsPlain row) ∧
      ((t = [] ∨ t.getLast? = some '\n') → written (rows t) = t) ∧
      (t ≠ [] → t.getLast? ≠ some '\n' → written (rows t) = t ++ ['\n']) := by
  refine ⟨fun rs h => rows_written h, fun t ht => ⟨fun row => isPlain_of_mem_rows, ?_, ?_⟩⟩
  · intro hended
    rw [written_rows, Text.ofLines_lines_of_ended ht hended]
  · intro hne hlast
    rw [written_rows, Text.ofLines_lines_of_unended ht hne hlast]

example : rows "a,,\r,b,\n\n,".toList =
    [["a".toList, [], ['\r'], ['b'], []], [[]], [[], []]] := by decide

end SourceSurvey.Csv
