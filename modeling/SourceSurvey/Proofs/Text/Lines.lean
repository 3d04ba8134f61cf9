import SourceSurvey.Proofs.Text.Joining
import SourceSurvey.Proofs.Text.Normalize
import SourceSurvey.Proofs.Text.Words
import SourceSurvey.Text.Lines

/-!
# Lines and the texts they are written in

A text is read line by line: `lines_append_newline` takes off the first line. So lines that are
written one after the other, each ended by a newline, are read again as they were
(`lines_ofLines`).
-/

namespace SourceSurvey.Text

variable {line s t : Text}

/-- The text of the lines, each ended by a newline. -/
def ofLines (ls : List Text) : Text := ls.flatMap fun line => line ++ ['\n']

@[simp] theorem ofLines_nil : ofLines [] = [] := rfl

@[simp] theorem ofLines_cons (line : Text) (ls : List Text) :
    ofLines (line :: ls) = line ++ '\n' :: ofLines ls := by
  simp [ofLines]

theorem ofLines_eq_nil_iff {ls : List Text} : ofLines ls = [] ↔ ls = [] := by
  cases ls <;> simp

theorem dropReturn_eq_self (h : line.getLast? ≠ some '\r') : dropReturn line = line := if_neg h

theorem eq_dropReturn_or (line : Text) :
    dropReturn line = line ∨ line = dropReturn line ++ ['\r'] := by
  unfold dropReturn
  split
  · next h =>
    obtain ⟨init, rfl⟩ := List.getLast?_eq_some_iff.1 h
    exact .inr (by rw [List.dropLast_concat])
  · exact .inl rfl

theorem dropReturn_isPrefix (line : Text) : dropReturn line <+: line := by
  unfold dropReturn
  split
  · exact List.dropLast_prefix line
  · exact List.prefix_refl line

theorem dropFinalEmpty_cons (piece : Text) {pieces : List Text} (h : pieces ≠ []) :
    dropFinalEmpty (piece :: pieces) = piece :: dropFinalEmpty pieces := by
  obtain ⟨next, rest, rfl⟩ := List.exists_cons_of_ne_nil h
  unfold dropFinalEmpty
  rw [List.getLast?_cons_cons, List.dropLast_cons_cons]
  split <;> rfl

theorem dropFinalEmpty_append (pieces : List Text) {rest : List Text} (h : rest ≠ []) :
    dropFinalEmpty (pieces ++ rest) = pieces ++ dropFinalEmpty rest := by
  induction pieces with
  | nil => rfl
  | cons piece pieces ih =>
    rw [List.cons_append, dropFinalEmpty_cons piece (List.append_ne_nil_of_right_ne_nil pieces h),
      ih, List.cons_append]

theorem lines_append_cons (s t : Text) :
    lines (s ++ '\n' :: t) = (s.splitOn '\n').map dropReturn ++ lines t := by
  rw [lines, splitOn_append_cons_self, dropFinalEmpty_append _ (List.splitOn_ne_nil _ _),
    List.map_append]
  rfl

theorem lines_append_newline (h : '\n' ∉ line) (rest : Text) :
    lines (line ++ '\n' :: rest) = dropReturn line :: lines rest := by
  rw [lines_append_cons, List.splitOn_eq_singleton h, List.map_singleton, List.singleton_append]

theorem lines_eq_nil_iff {source : Text} : lines source = [] ↔ source = [] := by
  constructor
  · intro h
    have hd : dropFinalEmpty (source.splitOn '\n') = [] := List.map_eq_nil_iff.1 h
    unfold dropFinalEmpty at hd
    split at hd
    · next hl =>
      have hs : source.splitOn '\n' = [[]] := by
        obtain ⟨init, hi⟩ := List.getLast?_eq_some_iff.1 hl
        rw [hi, List.dropLast_concat] at hd
        rw [hi, hd, List.nil_append]
      have hj : List.intercalate ['\n'] (source.splitOn '\n') = source := List.intercalate_splitOn _
      rw [hs] at hj
      simpa using hj.symm
    · exact absurd hd (List.splitOn_ne_nil _ _)
  · rintro rfl
    rfl

theorem lines_unended (hne : line ≠ []) (hn : '\n' ∉ line) : lines line = [dropReturn line] := by
  have hlast : [line].getLast? ≠ some [] := by simpa using hne
  rw [lines, List.splitOn_eq_singleton hn, dropFinalEmpty, if_neg hlast, List.map_singleton]

/-- Lines that are ended keep apart from what comes after them. -/
theorem lines_append_of_ended (hs : ∀ c ∈ s.getLast?, c = '\n') (t : Text) :
    lines (s ++ t) = lines s ++ lines t := by
  induction s using List.reverseRecOn with
  | nil => rw [lines_eq_nil_iff.2 rfl, List.nil_append, List.nil_append]
  | append_singleton s c =>
    obtain rfl : c = '\n' := hs c List.getLast?_concat
    rw [List.append_assoc, List.singleton_append, lines_append_cons, lines_append_cons,
      lines_eq_nil_iff.2 rfl, List.append_nil]

/-- A text that ends in the middle of a line keeps apart from the lines after it. -/
theorem lines_append_of_unended {rest : Text} (hne : t ≠ []) (ht : '\n' ∉ t)
    (hrest : ∀ c ∈ rest.head?, c = '\n') :
    lines (s ++ t ++ rest) = ((s ++ t).splitOn '\n').map dropReturn ++ lines rest.tail := by
  cases rest with
  | nil =>
    obtain ⟨init, last, hs⟩ := exists_splitOn_concat '\n' s
    have hsplit : (s ++ t).splitOn '\n' = init ++ [last ++ t] :=
      splitOn_append hs (List.splitOn_eq_singleton ht)
    have hlast : (init ++ [last ++ t]).getLast? ≠ some [] := by simp [hne]
    rw [List.append_nil, lines, hsplit, dropFinalEmpty, if_neg hlast, List.tail_nil,
      lines_eq_nil_iff.2 rfl, List.append_nil]
  | cons c rest =>
    obtain rfl : c = '\n' := hrest c rfl
    exact lines_append_cons _ rest

theorem firstLine?_append_of_ended (hs : ∀ c ∈ s.getLast?, c = '\n') (hne : s ≠ []) (t : Text) :
    firstLine? (s ++ t) = firstLine? s := by
  have hlines : lines s ≠ [] := fun h => hne (lines_eq_nil_iff.1 h)
  rw [firstLine?, lines_append_of_ended hs, List.head?_append_of_ne_nil _ hlines, firstLine?]

/-- The first line goes on from a text without a newline. -/
theorem exists_firstLine?_append (hne : s ≠ []) (hs : '\n' ∉ s) (t : Text) :
    ∃ u, firstLine? (s ++ t) = some (dropReturn (s ++ u)) := by
  by_cases ht : '\n' ∈ t
  · obtain ⟨u, rest, rfl, hu⟩ := List.eq_append_cons_of_mem ht
    have hline : '\n' ∉ s ++ u := by simp [hs, hu]
    refine ⟨u, ?_⟩
    rw [← List.append_assoc, firstLine?, lines_append_newline hline, List.head?_cons]
  · have hline : '\n' ∉ s ++ t := by simp [hs, ht]
    refine ⟨t, ?_⟩
    rw [firstLine?, lines_unended (by simp [hne]) hline, List.head?_cons]

theorem newline_not_mem_of_mem_lines {source : Text} (h : line ∈ lines source) : '\n' ∉ line := by
  obtain ⟨piece, hp, rfl⟩ := List.mem_map.1 h
  have hm : piece ∈ source.splitOn '\n' := by
    unfold dropFinalEmpty at hp
    split at hp
    · exact List.mem_of_mem_dropLast hp
    · exact hp
  intro hn
  exact not_mem_of_mem_splitOn hm ((dropReturn_isPrefix piece).subset hn)

/-- What is dropped would be trimmed. -/
theorem normalize_dropReturn (line : Text) : normalize (dropReturn line) = normalize line := by
  rcases eq_dropReturn_or line with h | h
  · rw [h]
  · conv_rhs => rw [h]
    exact (normalize_concat (by decide) _).symm

/-- Lines that are written are read again, each without a final carriage return. -/
theorem lines_ofLines_eq_map {ls : List Text} (h : ∀ line ∈ ls, '\n' ∉ line) :
    lines (ofLines ls) = ls.map dropReturn := by
  induction ls with
  | nil => exact lines_eq_nil_iff.2 rfl
  | cons line ls ih =>
    rw [ofLines_cons, lines_append_newline (h line (by simp)), List.map_cons,
      ih fun l hm => h l (by simp [hm])]

theorem lines_ofLines {ls : List Text} (h : ∀ line ∈ ls, '\n' ∉ line ∧ line.getLast? ≠ some '\r') :
    lines (ofLines ls) = ls := by
  rw [lines_ofLines_eq_map fun line hl => (h line hl).1]
  exact (List.map_congr_left fun line hl => dropReturn_eq_self (h line hl).2).trans ls.map_id

theorem ofLines_eq_join {ls : List Text} (h : ls ≠ []) : ofLines ls = join ['\n'] ls ++ ['\n'] := by
  induction ls with
  | nil => exact absurd rfl h
  | cons line ls ih =>
    cases ls with
    | nil => rw [join_singleton, ofLines_cons, ofLines_nil]
    | cons next ls =>
      rw [ofLines_cons, ih (List.cons_ne_nil next ls), join_cons_cons]
      simp only [List.append_assoc, List.cons_append, List.nil_append]

theorem ofLines_splitOn (source : Text) : ofLines (source.splitOn '\n') = source ++ ['\n'] := by
  have hjoin : join ['\n'] (source.splitOn '\n') = source := List.intercalate_splitOn '\n'
  rw [ofLines_eq_join (List.splitOn_ne_nil _ _), hjoin]

theorem map_dropReturn_splitOn {source : Text} (h : '\r' ∉ source) :
    (source.splitOn '\n').map dropReturn = source.splitOn '\n' := by
  refine (List.map_congr_left fun line hl => ?_).trans (List.map_id _)
  exact dropReturn_eq_self fun hr =>
    h ((isInfix_of_mem_splitOn hl).subset (List.mem_of_getLast? hr))

/-- Lines that are read and written again, where every one of them was ended. -/
theorem ofLines_lines_of_ended {source : Text} (h : '\r' ∉ source)
    (hs : source = [] ∨ source.getLast? = some '\n') : ofLines (lines source) = source := by
  rcases hs with rfl | hs
  · rfl
  · obtain ⟨init, rfl⟩ := List.getLast?_eq_some_iff.1 hs
    have hinit : '\r' ∉ init := fun hr => h (List.mem_append_left _ hr)
    rw [lines_append_cons, lines_eq_nil_iff.2 rfl, List.append_nil, map_dropReturn_splitOn hinit,
      ofLines_splitOn]

/-- A last line that was not ended is ended when it is written. -/
theorem ofLines_lines_of_unended {source : Text} (h : '\r' ∉ source) (hne : source ≠ [])
    (hs : source.getLast? ≠ some '\n') : ofLines (lines source) = source ++ ['\n'] := by
  have hlast : (source.splitOn '\n').getLast? ≠ some [] := by
    intro hl
    obtain ⟨init, hi⟩ := List.getLast?_eq_some_iff.1 hl
    -- the final piece would be what follows a final newline
    have hsource : ofLines init = source := by
      have hj := ofLines_splitOn source
      rw [hi, ofLines, List.flatMap_append] at hj
      exact List.append_cancel_right hj
    have hinit : init ≠ [] := fun hi => hne (hsource.symm.trans (ofLines_eq_nil_iff.2 hi))
    rw [ofLines_eq_join hinit] at hsource
    exact hs (hsource ▸ List.getLast?_concat)
  rw [lines, dropFinalEmpty, if_neg hlast, map_dropReturn_splitOn h, ofLines_splitOn]

/-- A text is read if it has a first line and that is not the marker. -/
theorem skipReason?_lines_eq_none_iff {marker source : Text} :
    skipReason? marker (lines source) = none ↔
      source ≠ [] ∧ firstLine? source ≠ some marker := by
  rw [Ne, ← lines_eq_nil_iff, firstLine?]
  cases lines source with
  | nil => simp [skipReason?]
  | cons line rest => by_cases hm : line = marker <;> simp [skipReason?, hm]

end SourceSurvey.Text
