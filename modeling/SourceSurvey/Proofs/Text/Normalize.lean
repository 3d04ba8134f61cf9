import Mathlib.Data.List.DropRight
import Mathlib.Data.List.Infix
import SourceSurvey.Text.Lines

/-!
# Comments and normalized lines

A text is free of comments when `//` stands nowhere in it, and trimmed when no white space stands
at its ends. A normalized line is a part of its line and is both; a line that is both already is
its own normalized line.
-/

namespace SourceSurvey.Text

variable {s t : Text} {c : Char}

/-! ## Comments -/

def CommentFree (t : Text) : Prop := ¬commentMark <:+: t

theorem CommentFree.of_isInfix (h : CommentFree t) (hs : s <:+: t) : CommentFree s :=
  fun hc => h (hc.trans hs)

theorem commentFree_nil : CommentFree [] := by
  simp [CommentFree, commentMark]

theorem commentFree_cons :
    CommentFree (c :: t) ↔ ¬(c = '/' ∧ t.head? = some '/') ∧ CommentFree t := by
  have hp : commentMark <+: c :: t ↔ c = '/' ∧ t.head? = some '/' := by
    cases t <;> simp [commentMark, eq_comm]
  rw [CommentFree, List.infix_cons_iff, hp, not_or, CommentFree]

/-- A character other than a slash keeps what stands around it apart. -/
theorem commentFree_append_cons (hc : c ≠ '/') :
    CommentFree (s ++ c :: t) ↔ CommentFree s ∧ CommentFree t := by
  induction s with
  | nil => simp [commentFree_cons, commentFree_nil, hc]
  | cons d s ih =>
    rw [List.cons_append, commentFree_cons, commentFree_cons, ih, and_assoc]
    cases s <;> simp [hc]

theorem CommentFree.append_left (ht : CommentFree t) (hs : '/' ∉ s) : CommentFree (s ++ t) := by
  induction s with
  | nil => exact ht
  | cons d s ih =>
    simp only [List.mem_cons, not_or] at hs
    rw [List.cons_append, commentFree_cons]
    exact ⟨fun h => hs.1 h.1.symm, ih hs.2⟩

theorem CommentFree.blank_append (ht : CommentFree t) (hs : ∀ c ∈ s, isBlank c = true) :
    CommentFree (s ++ t) :=
  ht.append_left fun hm => absurd (hs '/' hm) (by decide)

/-- Texts free of comments can be joined by anything without a slash. -/
theorem commentFree_join {ts : List Text} (hc : '/' ∉ c :: s) (h : ∀ t ∈ ts, CommentFree t) :
    CommentFree (join (c :: s) ts) := by
  simp only [List.mem_cons, not_or] at hc
  induction ts with
  | nil => exact commentFree_nil
  | cons t ts ih =>
    have ht := h t (by simp)
    cases ts with
    | nil => simpa [join] using ht
    | cons u ts =>
      have hu := ih fun v hv => h v (by simp [hv])
      rw [join, List.intercalate_cons_cons, List.append_assoc, List.cons_append,
        commentFree_append_cons (Ne.symm hc.1)]
      exact ⟨ht, hu.append_left hc.2⟩

theorem beforeComment_cons :
    beforeComment (c :: t) =
      if c = '/' ∧ t.head? = some '/' then [] else c :: beforeComment t := by
  cases t with
  | nil => simp [beforeComment]
  | cons d t =>
    split
    · next h =>
      obtain ⟨rfl, hd⟩ := h
      simp only [List.head?_cons, Option.some.injEq] at hd
      rw [hd, beforeComment]
    · next h =>
      rw [beforeComment]
      rintro u rfl he
      cases he
      exact h ⟨rfl, rfl⟩

theorem beforeComment_isPrefix (t : Text) : beforeComment t <+: t := by
  induction t with
  | nil => exact List.nil_prefix
  | cons c t ih =>
    rw [beforeComment_cons]
    split
    · exact List.nil_prefix
    · exact List.cons_prefix_cons.2 ⟨rfl, ih⟩

theorem commentFree_beforeComment (t : Text) : CommentFree (beforeComment t) := by
  induction t with
  | nil => exact commentFree_nil
  | cons c t ih =>
    rw [beforeComment_cons]
    split
    · exact commentFree_nil
    · next h =>
      refine commentFree_cons.2 ⟨?_, ih⟩
      rintro ⟨rfl, hb⟩
      -- what is left of the rest begins like the rest
      obtain ⟨u, hu⟩ := beforeComment_isPrefix t
      apply h
      refine ⟨rfl, ?_⟩
      rw [← hu, List.head?_append, hb]
      rfl

theorem CommentFree.beforeComment_eq (h : CommentFree t) : beforeComment t = t := by
  induction t with
  | nil => rfl
  | cons c t ih =>
    obtain ⟨hc, ht⟩ := commentFree_cons.1 h
    rw [beforeComment_cons, if_neg hc, ih ht]

/-- A character other than a slash is kept, with what stands before the comment behind it. -/
theorem beforeComment_append_cons (hs : CommentFree s) (hc : c ≠ '/') :
    beforeComment (s ++ c :: t) = s ++ c :: beforeComment t := by
  induction s with
  | nil => rw [List.nil_append, beforeComment_cons, if_neg fun h => hc h.1, List.nil_append]
  | cons d s ih =>
    obtain ⟨hd, hs⟩ := commentFree_cons.1 hs
    have hhead : ¬(d = '/' ∧ (s ++ c :: t).head? = some '/') := by
      cases s with
      | nil => simp [hc]
      | cons e s => exact hd
    rw [List.cons_append, beforeComment_cons, if_neg hhead, ih hs, List.cons_append]

/-- A last character other than a slash is kept or stands in the comment. -/
theorem beforeComment_concat (hc : c ≠ '/') (s : Text) :
    beforeComment (s ++ [c]) = beforeComment s ++ [c] ∨
      beforeComment (s ++ [c]) = beforeComment s := by
  induction s with
  | nil => exact .inl (beforeComment_append_cons commentFree_nil hc)
  | cons d s ih =>
    have hhead : (s ++ [c]).head? = some '/' ↔ s.head? = some '/' := by
      cases s <;> simp [hc]
    rw [List.cons_append, beforeComment_cons, beforeComment_cons]
    simp only [hhead]
    split
    · exact .inr rfl
    · rcases ih with h | h
      · exact .inl (by rw [h, List.cons_append])
      · exact .inr (by rw [h])

/-- A comment takes nothing off the text before it, unless a slash there makes the mark begin
earlier. -/
theorem beforeComment_append_commentMark (hs : s.getLast? ≠ some '/') (u : Text) :
    beforeComment (s ++ commentMark ++ u) = beforeComment s := by
  induction s with
  | nil => rfl
  | cons d s ih =>
    cases s with
    | nil =>
      have hd : d ≠ '/' := by simpa using hs
      have hkeep (t : Text) : beforeComment (d :: t) = d :: beforeComment t := by
        rw [beforeComment_cons, if_neg fun h => hd h.1]
      exact (hkeep _).trans (hkeep []).symm
    | cons e s =>
      rw [List.getLast?_cons_cons] at hs
      rw [List.cons_append, List.cons_append, beforeComment_cons, beforeComment_cons, ih hs]
      rfl

/-- What stands from the first `//` on. -/
def comment (t : Text) : Text := t.drop (beforeComment t).length

theorem beforeComment_append_comment (t : Text) : beforeComment t ++ comment t = t :=
  List.prefix_iff_eq_append.1 (beforeComment_isPrefix t)

/-! ## White space at the ends -/

def Trimmed (t : Text) : Prop :=
  (∀ c ∈ t.head?, isBlank c = false) ∧ ∀ c ∈ t.getLast?, isBlank c = false

theorem trimStart_isSuffix (t : Text) : trimStart t <:+ t := List.dropWhile_suffix _

theorem trimEnd_isPrefix (t : Text) : trimEnd t <+: t := List.rdropWhile_prefix isBlank t

theorem trim_isInfix (t : Text) : trim t <:+: t :=
  (trimEnd_isPrefix _).isInfix.trans (trimStart_isSuffix t).isInfix

theorem head?_trimStart : ∀ c ∈ (trimStart t).head?, isBlank c = false := by
  intro c hc
  have h := List.head?_dropWhile_not isBlank t
  rw [show t.dropWhile isBlank = trimStart t from rfl, Option.mem_def.1 hc] at h
  simpa using h

theorem getLast?_trimEnd : ∀ c ∈ (trimEnd t).getLast?, isBlank c = false := by
  intro c hc
  rw [trimEnd, List.getLast?_reverse] at hc
  have h := List.head?_dropWhile_not isBlank t.reverse
  rw [Option.mem_def.1 hc] at h
  simpa using h

theorem trimmed_trim (t : Text) : Trimmed (trim t) := by
  refine ⟨?_, getLast?_trimEnd⟩
  intro c hc
  obtain ⟨u, hu⟩ := trimEnd_isPrefix (trimStart t)
  apply head?_trimStart (t := t)
  rw [← hu, List.head?_append, show trimEnd (trimStart t) = trim t from rfl, Option.mem_def.1 hc]
  rfl

theorem trimStart_eq_self (h : ∀ c ∈ t.head?, isBlank c = false) : trimStart t = t := by
  cases t with
  | nil => rfl
  | cons c t => rw [trimStart, List.dropWhile_cons_of_neg (by simp [h c rfl])]

theorem trimEnd_eq_reverse (t : Text) : trimEnd t = (trimStart t.reverse).reverse := rfl

theorem trimEnd_eq_self (h : ∀ c ∈ t.getLast?, isBlank c = false) : trimEnd t = t := by
  have hr : trimStart t.reverse = t.reverse := trimStart_eq_self (by rwa [List.head?_reverse])
  rw [trimEnd_eq_reverse, hr, List.reverse_reverse]

theorem Trimmed.trim_eq (h : Trimmed t) : trim t = t := by
  rw [trim, trimStart_eq_self h.1, trimEnd_eq_self h.2]

theorem trimStart_append_of_blank (hs : ∀ c ∈ s, isBlank c = true) :
    trimStart (s ++ t) = trimStart t :=
  List.dropWhile_append_of_pos hs

theorem trimStart_append_cons (hc : isBlank c = false) :
    trimStart (s ++ c :: t) = trimStart s ++ c :: t := by
  induction s with
  | nil => exact trimStart_eq_self (by simpa using hc)
  | cons d s ih =>
    unfold trimStart at ih ⊢
    rw [List.cons_append, List.dropWhile_cons, List.dropWhile_cons]
    split
    · exact ih
    · rfl

theorem trimEnd_append_of_blank (ht : ∀ c ∈ t, isBlank c = true) :
    trimEnd (s ++ t) = trimEnd s := by
  rw [trimEnd_eq_reverse, List.reverse_append,
    trimStart_append_of_blank fun c hc => ht c (List.mem_reverse.1 hc), trimEnd_eq_reverse]

theorem trimEnd_append_cons (hc : isBlank c = false) :
    trimEnd (s ++ c :: t) = s ++ c :: trimEnd t := by
  rw [trimEnd_eq_reverse, List.reverse_append, List.reverse_cons, List.append_assoc,
    List.singleton_append, trimStart_append_cons hc, trimEnd_eq_reverse]
  simp

theorem trim_append_of_blank (ht : ∀ c ∈ t, isBlank c = true) : trim (s ++ t) = trim s := by
  unfold trim
  rw [trimStart, List.dropWhile_append]
  split
  · next h =>
    have hs : trimStart s = [] := List.isEmpty_iff.1 h
    rw [List.dropWhile_eq_nil_iff.2 ht, hs]
  · exact trimEnd_append_of_blank ht

/-- Only white space is trimmed at the end. -/
theorem exists_after_trimEnd (t : Text) :
    ∃ b, t = trimEnd t ++ b ∧ ∀ c ∈ b, isBlank c = true := by
  let ending := t.reverse.takeWhile isBlank
  refine ⟨ending.reverse, ?_, ?_⟩
  · have hreverse : ending ++ t.reverse.dropWhile isBlank = t.reverse :=
      List.takeWhile_append_dropWhile
    rw [trimEnd, ← List.reverse_append, hreverse, List.reverse_reverse]
  · exact fun c hc => List.mem_takeWhile_imp (List.mem_reverse.1 hc)

/-- Only white space is trimmed. -/
theorem exists_around_trim (t : Text) :
    ∃ a b, t = a ++ trim t ++ b ∧ (∀ c ∈ a, isBlank c = true) ∧ ∀ c ∈ b, isBlank c = true := by
  obtain ⟨b, hend, hb⟩ := exists_after_trimEnd (trimStart t)
  have hstart : t.takeWhile isBlank ++ trimStart t = t := List.takeWhile_append_dropWhile
  refine ⟨t.takeWhile isBlank, b, ?_, fun c hc => List.mem_takeWhile_imp hc, hb⟩
  rw [List.append_assoc, show trim t = trimEnd (trimStart t) from rfl, ← hend, hstart]

/-! ## Normalized lines -/

theorem normalize_isInfix (line : Text) : normalize line <:+: line :=
  (trim_isInfix _).trans (beforeComment_isPrefix line).isInfix

theorem commentFree_normalize (line : Text) : CommentFree (normalize line) :=
  (commentFree_beforeComment line).of_isInfix (trim_isInfix _)

theorem trimmed_normalize (line : Text) : Trimmed (normalize line) := trimmed_trim _

theorem normalize_eq_self (hc : CommentFree t) (ht : Trimmed t) : normalize t = t := by
  rw [normalize, hc.beforeComment_eq, ht.trim_eq]

theorem normalize_normalize (line : Text) : normalize (normalize line) = normalize line :=
  normalize_eq_self (commentFree_normalize line) (trimmed_normalize line)

theorem normalize_concat (hc : isBlank c = true) (line : Text) :
    normalize (line ++ [c]) = normalize line := by
  have hslash : c ≠ '/' := by
    rintro rfl
    simp [isBlank] at hc
  unfold normalize
  rcases beforeComment_concat hslash line with h | h
  · rw [h, trim_append_of_blank (by simpa using hc)]
  · rw [h]

theorem normalize_append_comment {line : Text} (h : line.getLast? ≠ some '/') (u : Text) :
    normalize (line ++ commentMark ++ u) = normalize line := by
  rw [normalize, beforeComment_append_commentMark h, normalize]

/-- A line is its normalized line, white space around it, and its comment. -/
theorem exists_around_normalize (line : Text) :
    ∃ a b, line = a ++ normalize line ++ b ++ comment line ∧ (∀ c ∈ a, isBlank c = true) ∧
      ∀ c ∈ b, isBlank c = true := by
  obtain ⟨a, b, ht, ha, hb⟩ := exists_around_trim (beforeComment line)
  refine ⟨a, b, ?_, ha, hb⟩
  rw [normalize, ← ht, beforeComment_append_comment]

end SourceSurvey.Text
