import SourceSurvey.Csv
import SourceSurvey.DeclarationScan
import SourceSurvey.Dependence
import SourceSurvey.Proofs.Text.Lines
import SourceSurvey.Text.Newline

/-!
# Line ends

A line ends in a newline or in a carriage return and a newline, and a last line that is not empty
can go without an end. `Written` tells which texts hold given lines, each with an end of its own.

* `lines_of_written`: whatever the ends, the text has these lines;
* `outcomes_of_written`: so all that is read from the text is the same;
* `lines_unifyNewlines`: with every end made a newline, a text keeps its lines, as long as no
  carriage return stands alone.
-/

namespace SourceSurvey.Text

variable {line s t : Text} {ls : List Text}

/-! ## Ends of lines -/

inductive LineEnd where
  | newline
  | returnNewline
  deriving DecidableEq, Repr

def LineEnd.text : LineEnd → Text
  | .newline => ['\n']
  | .returnNewline => ['\r', '\n']

/-- The text holds the lines, one after the other. -/
inductive Written : List Text → Text → Prop where
  | nothing : Written [] []
  | unended {line : Text} (h : line ≠ []) : Written [line] line
  | ended {line rest : Text} {ls : List Text} (e : LineEnd) (h : Written ls rest) :
      Written (line :: ls) (line ++ e.text ++ rest)

theorem dropReturn_append_return (line : Text) : dropReturn (line ++ ['\r']) = line := by
  rw [dropReturn, if_pos List.getLast?_concat, List.dropLast_concat]

theorem lines_ended (e : LineEnd) (hn : '\n' ∉ line) (hr : line.getLast? ≠ some '\r')
    (rest : Text) : lines (line ++ e.text ++ rest) = line :: lines rest := by
  cases e with
  | newline =>
    rw [LineEnd.text, List.append_assoc, List.singleton_append, lines_append_newline hn,
      dropReturn_eq_self hr]
  | returnNewline =>
    have hnr : '\n' ∉ line ++ ['\r'] := by simpa using hn
    have hsplit : line ++ ['\r', '\n'] ++ rest = (line ++ ['\r']) ++ '\n' :: rest := by simp
    rw [LineEnd.text, hsplit, lines_append_newline hnr, dropReturn_append_return]

theorem lines_of_written (h : Written ls s)
    (hl : ∀ line ∈ ls, '\n' ∉ line ∧ line.getLast? ≠ some '\r') : lines s = ls := by
  induction h with
  | nothing => rfl
  | @unended line hne =>
    obtain ⟨hn, hr⟩ := hl line List.mem_cons_self
    rw [lines_unended hne hn, dropReturn_eq_self hr]
  | @ended line rest ls e h ih =>
    obtain ⟨⟨hn, hr⟩, hrest⟩ := List.forall_mem_cons.1 hl
    rw [lines_ended e hn hr, ih hrest]

/-- Texts that hold the same lines are read alike, whether they are skipped, scanned for includes or
declarations, or cut into rows. -/
theorem outcomes_of_written (hl : ∀ line ∈ ls, '\n' ∉ line ∧ line.getLast? ≠ some '\r')
    (hs : Written ls s) (ht : Written ls t) :
    lines s = ls ∧ lines t = ls ∧ (s = [] ↔ t = []) ∧ firstLine? s = firstLine? t ∧
      (∀ marker, skipReason? marker (lines s) = skipReason? marker (lines t)) ∧
      (∀ className label,
        Dependence.ofSource className label s = Dependence.ofSource className label t) ∧
      (∀ className label, Method.ofSource className label s = Method.ofSource className label t) ∧
      Csv.rows s = Csv.rows t := by
  have hsl : lines s = ls := lines_of_written hs hl
  have htl : lines t = ls := lines_of_written ht hl
  have heq : lines s = lines t := hsl.trans htl.symm
  refine ⟨hsl, htl, ?_, ?_, ?_, ?_, ?_, ?_⟩
  · rw [← lines_eq_nil_iff, heq, lines_eq_nil_iff]
  · rw [firstLine?, heq, firstLine?]
  · intro marker
    rw [heq]
  · intro className label
    rw [Dependence.ofSource, heq, Dependence.ofSource]
  · intro className label
    rw [Method.ofSource, heq, Method.ofSource]
  · rw [Csv.rows, heq, Csv.rows]

/-- A form feed, a return inside a line and a line separator are no ends of lines. The parameter
list that is left open is met on line three in both texts. -/
theorem outcomes_of_written_mixed :
    let ls : List Text := ["int\x0cf();".toList, [], "int g(\r a,\u2028".toList]
    let s : Text := "int\x0cf();\r\n\nint g(\r a,\u2028\r\n".toList
    let t : Text := "int\x0cf();\n\r\nint g(\r a,\u2028".toList
    lines s = ls ∧ lines t = ls ∧
      Method.ofSource "Counter".toList "Counter.h".toList s =
        .error ⟨.openParameters 3, some "Counter.h".toList, some 3⟩ ∧
      Method.ofSource "Counter".toList "Counter.h".toList s =
        Method.ofSource "Counter".toList "Counter.h".toList t := by
  intro ls s t
  have hl : ∀ line ∈ ls, '\n' ∉ line ∧ line.getLast? ≠ some '\r' := by decide +kernel
  have hs : Written ls s :=
    .ended .returnNewline (.ended .newline (.ended .returnNewline .nothing))
  have ht : Written ls t :=
    .ended .newline (.ended .returnNewline (.unended (by decide +kernel)))
  obtain ⟨hsl, htl, -, -, -, -, hm, -⟩ := outcomes_of_written hl hs ht
  exact ⟨hsl, htl, by decide +kernel, hm "Counter".toList "Counter.h".toList⟩

/-! ## Ends made newlines -/

/-- Every carriage return stands before a newline. -/
def NoLoneReturn (t : Text) : Prop := ∀ s u, t = s ++ '\r' :: u → u.head? = some '\n'

theorem noLoneReturn_nil : NoLoneReturn [] := by
  intro s u h
  simp at h

theorem noLoneReturn_cons {c : Char} :
    NoLoneReturn (c :: t) ↔ (c = '\r' → t.head? = some '\n') ∧ NoLoneReturn t := by
  constructor
  · intro h
    refine ⟨?_, ?_⟩
    · rintro rfl
      exact h [] t rfl
    · rintro s u rfl
      exact h (c :: s) u rfl
  · rintro ⟨hc, ht⟩ s u h
    cases s with
    | nil =>
      obtain ⟨rfl, rfl⟩ := List.cons.inj h
      exact hc rfl
    | cons d s => exact ht s u (List.cons.inj h).2

instance decidableNoLoneReturn : DecidablePred NoLoneReturn
  | [] => isTrue noLoneReturn_nil
  | c :: t =>
    have := decidableNoLoneReturn t
    decidable_of_iff ((c = '\r' → t.head? = some '\n') ∧ NoLoneReturn t) noLoneReturn_cons.symm

theorem NoLoneReturn.of_append (h : NoLoneReturn (s ++ t)) : NoLoneReturn t := by
  rintro a u rfl
  exact h (s ++ a) u (List.append_assoc s a _).symm

theorem unifyNewlines_append (h : '\r' ∉ s) (t : Text) :
    unifyNewlines (s ++ t) = s ++ unifyNewlines t := by
  induction s with
  | nil => rfl
  | cons c s ih =>
    simp only [List.mem_cons, not_or] at h
    rw [List.cons_append, unifyNewlines, ih h.2, List.cons_append]
    · rintro u rfl
      exact absurd rfl h.1
    · rintro rfl
      exact absurd rfl h.1

theorem unifyNewlines_eq_self (h : '\r' ∉ t) : unifyNewlines t = t := by
  have happend := unifyNewlines_append h []
  rwa [List.append_nil, unifyNewlines, List.append_nil] at happend

theorem unifyNewlines_ended (e : LineEnd) (h : '\r' ∉ line) (rest : Text) :
    unifyNewlines (line ++ e.text ++ rest) =
      line ++ LineEnd.newline.text ++ unifyNewlines rest := by
  rw [List.append_assoc, unifyNewlines_append h, List.append_assoc]
  cases e <;> simp [LineEnd.text, unifyNewlines]

/-- Up to its first newline, a text without lone returns is a line and its end. -/
theorem exists_ended (h : NoLoneReturn t) (hn : '\n' ∈ t) :
    ∃ line rest, ∃ e : LineEnd, t = line ++ e.text ++ rest ∧ '\n' ∉ line ∧ '\r' ∉ line := by
  obtain ⟨before, rest, rfl, hb⟩ := List.eq_append_cons_of_mem hn
  by_cases hr : '\r' ∈ before
  · obtain ⟨line, more, rfl, hl⟩ := List.eq_append_cons_of_mem hr
    simp only [List.mem_append, List.mem_cons, not_or] at hb
    -- nothing stands between the first return and the newline
    have hmore : more = [] := by
      have hhead := h line (more ++ '\n' :: rest) (by simp)
      cases more with
      | nil => rfl
      | cons d more =>
        obtain rfl : d = '\n' := by simpa using hhead
        simp at hb
    subst hmore
    exact ⟨line, rest, .returnNewline, by simp [LineEnd.text], hb.1, hl⟩
  · exact ⟨before, rest, .newline, by simp [LineEnd.text], hb, hr⟩

theorem return_not_mem (h : NoLoneReturn t) (hn : '\n' ∉ t) : '\r' ∉ t := by
  intro hr
  obtain ⟨s, u, rfl⟩ := List.append_of_mem hr
  have hu : '\n' ∈ u := List.mem_of_mem_head? (h s u rfl)
  exact hn (by simp [hu])

theorem getLast?_ne_of_not_mem {c : Char} (h : c ∉ t) : t.getLast? ≠ some c :=
  fun hl => h (List.mem_of_getLast? hl)

/-- With every end made a newline, the text holds the same lines as before. -/
theorem exists_written (h : NoLoneReturn t) :
    ∃ ls, (∀ line ∈ ls, '\n' ∉ line ∧ line.getLast? ≠ some '\r') ∧ Written ls t ∧
      Written ls (unifyNewlines t) := by
  induction hk : t.length using Nat.strongRecOn generalizing t with
  | ind k ih =>
    by_cases hn : '\n' ∈ t
    · obtain ⟨line, rest, e, rfl, hl, hr⟩ := exists_ended h hn
      have hlt : rest.length < k := by
        rw [← hk]
        cases e <;> simp [LineEnd.text] <;> omega
      obtain ⟨ls, hls, hw, hu⟩ := ih rest.length hlt h.of_append rfl
      refine ⟨line :: ls, ?_, .ended e hw, ?_⟩
      · exact List.forall_mem_cons.2 ⟨⟨hl, getLast?_ne_of_not_mem hr⟩, hls⟩
      · rw [unifyNewlines_ended e hr]
        exact .ended .newline hu
    · have hr := return_not_mem h hn
      rw [unifyNewlines_eq_self hr]
      by_cases hne : t = []
      · subst hne
        exact ⟨[], by simp, .nothing, .nothing⟩
      · exact ⟨[t], by simpa using ⟨hn, getLast?_ne_of_not_mem hr⟩, .unended hne, .unended hne⟩

theorem lines_unifyNewlines (h : NoLoneReturn t) : lines (unifyNewlines t) = lines t := by
  obtain ⟨ls, hls, hw, hu⟩ := exists_written h
  rw [lines_of_written hu hls, lines_of_written hw hls]

end SourceSurvey.Text
