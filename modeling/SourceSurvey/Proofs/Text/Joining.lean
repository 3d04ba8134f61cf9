import Mathlib.Data.List.Basic
import Mathlib.Data.List.Induction
import SourceSurvey.Text.Basic

/-!
# Joined texts

What stands in texts that are joined, and what stands at their end.
-/

namespace SourceSurvey.Text

variable {separator t : Text} {ts : List Text} {c : Char}

theorem join_singleton (separator t : Text) : join separator [t] = t := by
  rw [join, List.intercalate_singleton]

theorem join_cons_cons (separator t u : Text) (ts : List Text) :
    join separator (t :: u :: ts) = t ++ separator ++ join separator (u :: ts) := by
  rw [join, List.intercalate_cons_cons, join]

theorem join_append_singleton (separator t : Text) (h : ts ≠ []) :
    join separator (ts ++ [t]) = join separator ts ++ separator ++ t := by
  induction ts with
  | nil => exact absurd rfl h
  | cons s ts ih =>
    cases ts with
    | nil => rw [List.singleton_append, join_cons_cons, join_singleton, join_singleton]
    | cons r ts =>
      have hr := ih (List.cons_ne_nil r ts)
      rw [List.cons_append] at hr
      rw [List.cons_append, List.cons_append, join_cons_cons, hr, join_cons_cons]
      simp only [List.append_assoc]

/-- A character that does not separate the texts comes from one of them. -/
theorem mem_join (hc : c ∉ separator) : c ∈ join separator ts ↔ ∃ t ∈ ts, c ∈ t := by
  induction ts with
  | nil => simp [join]
  | cons t ts ih =>
    cases ts with
    | nil => simp [join_singleton]
    | cons u ts =>
      rw [join_cons_cons, List.mem_append, List.mem_append, ih, List.exists_mem_cons_iff]
      simp [hc]

theorem join_cons_ne_nil (separator : Text) (h : t ≠ []) (ts : List Text) :
    join separator (t :: ts) ≠ [] := by
  cases ts with
  | nil => rwa [join_singleton]
  | cons u ts =>
    rw [join_cons_cons]
    simp [h]

/-- The last character is that of the last text, or of the separator before it. -/
theorem mem_getLast?_join (hs : separator ≠ []) (h : c ∈ (join separator ts).getLast?) :
    c ∈ separator ∨ ∃ t ∈ ts.getLast?, c ∈ t.getLast? := by
  induction ts using List.reverseRecOn with
  | nil => cases h
  | append_singleton ts t _ =>
    rw [List.getLast?_concat]
    by_cases hts : ts = []
    · rw [hts, List.nil_append, join_singleton] at h
      exact .inr ⟨t, rfl, h⟩
    · rw [join_append_singleton _ _ hts] at h
      by_cases ht : t = []
      · rw [ht, List.append_nil, List.getLast?_append_of_ne_nil _ hs] at h
        exact .inl (List.mem_of_getLast? h)
      · rw [List.getLast?_append_of_ne_nil _ ht] at h
        exact .inr ⟨t, rfl, h⟩

end SourceSurvey.Text
