import SourceSurvey.Proofs.DeclarationScan.Run
import SourceSurvey.Proofs.Text.Normalize

/-!
# Logical lines

What is normalized stays so when it is joined: the space between two lines keeps a slash at the end
of one apart from a slash at the beginning of the next, and a first line that is not empty begins
with what is not white space. A run of the scan joins nothing else: the text of an open parameter
list is the logical line of the lines since it was opened (`joining_run`).
-/

namespace SourceSurvey.DeclarationScan

/-! ## Joined lines -/

theorem commentFree_joined (head : List Text) : Text.CommentFree (joined head) := by
  refine Text.commentFree_join (by decide) ?_
  intro t ht
  obtain ⟨line, -, rfl⟩ := List.mem_map.1 ht
  exact Text.commentFree_normalize line

@[simp] theorem joined_singleton (line : Text) : joined [line] = Text.normalize line := by
  rw [joined, List.map_singleton, Text.join_singleton]

theorem joined_cons_cons (line next : Text) (rest : List Text) :
    joined (line :: next :: rest) = Text.normalize line ++ ' ' :: joined (next :: rest) := by
  rw [joined, List.map_cons, List.map_cons, Text.join_cons_cons, List.append_assoc,
    ← List.map_cons, ← joined, List.singleton_append]

/-- Where the first line is not empty, its first character begins the logical line. -/
theorem isBlank_of_mem_head?_joined {line : Text} (h : Text.normalize line ≠ [])
    (rest : List Text) : ∀ c ∈ (joined (line :: rest)).head?, Text.isBlank c = false := by
  have hhead : (joined (line :: rest)).head? = (Text.normalize line).head? := by
    cases rest with
    | nil => rw [joined_singleton]
    | cons next rest => rw [joined_cons_cons, List.head?_append_of_ne_nil _ h]
  rw [hhead]
  exact (Text.trimmed_normalize line).1

theorem normalize_ne_nil_of_not_closes {line : Text} (h : ¬Closes [line]) :
    Text.normalize line ≠ [] := by
  intro hn
  exact h ⟨by simp, .inl (by simp [hn])⟩

/-- Only a line that is not blank is joined with the next. -/
theorem head?_joined {head : List Text} (h : Shortest Closes head) :
    ∀ c ∈ (joined head).head?, Text.isBlank c = false := by
  match head with
  | [] => exact absurd rfl h.1.1
  | [line] =>
    rw [joined_singleton]
    exact (Text.trimmed_normalize line).1
  | line :: next :: rest =>
    have hopen : ¬Closes [line] := by
      intro hc
      have he := h.2 [line] ⟨next :: rest, rfl⟩ hc
      simp at he
    exact isBlank_of_mem_head?_joined (normalize_ne_nil_of_not_closes hopen) _

/-! ## Runs -/

variable {ls : List Text} {start : Nat} {text : Text}

theorem line_join (line first : Nat) (t : Text) (found : List Declaration) :
    (join line first t found).line = line := by
  unfold join
  split
  · rfl
  · split <;> rfl

theorem line_feed (s : State) (raw : Text) : (feed s raw).line = s.line + 1 := by
  unfold feed
  split
  · exact line_join _ _ _ _
  · exact line_join _ _ _ _
  · rfl

theorem run_concat (ls : List Text) (raw : Text) : run (ls ++ [raw]) = feed (run ls) raw := by
  rw [run, List.foldl_append]
  rfl

theorem line_run (ls : List Text) : (run ls).line = ls.length := by
  induction ls using List.reverseRecOn with
  | nil => rfl
  | append_singleton ls raw ih =>
    rw [run_concat, line_feed, ih, List.length_append, List.length_singleton]

theorem skip_ne_joining {first : Nat} {depth : Int} {t : Text} :
    skip first depth t ≠ .joining start text := by
  unfold skip
  split <;> simp

/-- What is joined further on is open, and is the text that was read. -/
theorem joining_join {line first : Nat} {t : Text} {found : List Declaration}
    (h : (join line first t found).mode = .joining start text) :
    Declaration.isOpen t = true ∧ first = start ∧ t = text := by
  unfold join at h
  split at h
  · next ho =>
    rw [Mode.joining.injEq] at h
    exact ⟨ho, h⟩
  · split at h
    · cases h
    · simp only at h
      split at h
      · exact absurd h skip_ne_joining
      · cases h

/-- The lines since `start` make the text, and no beginning of them is complete. -/
inductive Joins : List Text → Nat → Text → Prop where
  | since {before head : List Text} (hne : head ≠ [])
      (hopen : ∀ part, part <+: head → ¬Closes part) :
      Joins (before ++ head) (before.length + 1) (joined head)

theorem Joins.of_ready {raw : Text} (ls : List Text)
    (ho : Declaration.isOpen (Text.normalize raw) = true) :
    Joins (ls ++ [raw]) (ls.length + 1) (Text.normalize raw) := by
  rw [← joined_singleton] at ho ⊢
  have hopen : ¬Closes [raw] := (isOpen_joined_iff (List.cons_ne_nil raw [])).1 ho
  refine .since (List.cons_ne_nil raw []) ?_
  intro part hp hc
  rcases List.prefix_cons_iff.1 hp with rfl | ⟨rest, rfl, hr⟩
  · exact hc.1 rfl
  · rw [List.prefix_nil.1 hr] at hc
    exact hopen hc

theorem Joins.feed {raw : Text} (h : Joins ls start text)
    (ho : Declaration.isOpen (text ++ ' ' :: Text.normalize raw) = true) :
    Joins (ls ++ [raw]) start (text ++ ' ' :: Text.normalize raw) := by
  obtain @⟨before, head, hne, hopen⟩ := h
  rw [← joined_append_singleton hne] at ho ⊢
  rw [List.append_assoc]
  refine .since (by simp) ?_
  intro part hp
  rcases List.prefix_concat_iff.1 hp with rfl | hp
  · exact (isOpen_joined_iff (by simp)).1 ho
  · exact hopen part hp

theorem joining_feed {s : State} {raw : Text} (hl : s.line = ls.length)
    (hj : ∀ start text, s.mode = .joining start text → Joins ls start text)
    (h : (feed s raw).mode = .joining start text) : Joins (ls ++ [raw]) start text := by
  unfold DeclarationScan.feed at h
  cases hm : s.mode with
  | ready =>
    simp only [hm] at h
    obtain ⟨ho, rfl, rfl⟩ := joining_join h
    rw [hl]
    exact .of_ready ls ho
  | joining first t =>
    simp only [hm] at h
    obtain ⟨ho, rfl, rfl⟩ := joining_join h
    exact (hj first t hm).feed ho
  | skipping first depth =>
    simp only [hm] at h
    exact absurd h skip_ne_joining

/-- A run that has an open parameter list has joined the lines since it was opened. -/
theorem joining_run (h : (run ls).mode = .joining start text) : Joins ls start text := by
  induction ls using List.reverseRecOn generalizing start text with
  | nil => cases h
  | append_singleton ls raw ih =>
    rw [run_concat] at h
    exact joining_feed (line_run ls) (fun _ _ => ih) h

theorem Joins.begins (h : Joins ls start text) : ∀ c ∈ text.head?, Text.isBlank c = false := by
  obtain @⟨before, head, hne, hopen⟩ := h
  obtain ⟨line, rest, rfl⟩ := List.exists_cons_of_ne_nil hne
  have hline : ¬Closes [line] := hopen [line] ⟨rest, rfl⟩
  exact isBlank_of_mem_head?_joined (normalize_ne_nil_of_not_closes hline) rest

/-- A normalized line is a part of its line without a comment or white space around it, whatever
comment the line is given. Joined by spaces, as a run joins them, such lines make a text that has
no comment either and begins as the first of them does. -/
theorem normalized_and_joined :
    (∀ line, Text.normalize line <:+: line ∧ Text.CommentFree (Text.normalize line) ∧
      Text.Trimmed (Text.normalize line) ∧
      Text.normalize (Text.normalize line) = Text.normalize line) ∧
    (∀ line c, line.getLast? ≠ some '/' →
      Text.normalize (line ++ Text.commentMark ++ c) = Text.normalize line) ∧
    (∀ ls : List Text, Text.CommentFree (Text.join [' '] (ls.map Text.normalize)) ∧
      ∀ first ∈ ls.head?, Text.normalize first ≠ [] →
        ∀ c ∈ (Text.join [' '] (ls.map Text.normalize)).head?, Text.isBlank c = false) ∧
    ∀ ls start text, (run ls).mode = .joining start text →
      (∃ before head, ls = before ++ head ∧ start = before.length + 1 ∧
        text = Text.join [' '] (head.map Text.normalize)) ∧
      Text.CommentFree text ∧ ∀ c ∈ text.head?, Text.isBlank c = false := by
  refine ⟨fun line => ?_, fun line c h => ?_, fun ls => ⟨?_, ?_⟩, fun ls start text h => ?_⟩
  · exact ⟨Text.normalize_isInfix line, Text.commentFree_normalize line,
      Text.trimmed_normalize line, Text.normalize_normalize line⟩
  · exact Text.normalize_append_comment h c
  · exact commentFree_joined ls
  · intro first hfirst hne
    obtain ⟨rest, rfl⟩ := List.head?_eq_some_iff.1 hfirst
    exact isBlank_of_mem_head?_joined hne rest
  · have hj := joining_run h
    have hbegins := hj.begins
    obtain @⟨before, head, -, -⟩ := hj
    exact ⟨⟨before, head, rfl, rfl, rfl⟩, commentFree_joined head, hbegins⟩

end SourceSurvey.DeclarationScan
