import Mathlib.Logic.Basic
import Mathlib.Tactic.ByContra
import SourceSurvey.Body

/-!
# What the count of the braces says

The balance of a text is the number of its opening braces less the number of its closing ones. A
body that is read with a count of `depth` ends in a text when one of the text's braces brings the
count to zero.

* `count_eq_none_iff`: the count gives nothing exactly when the body ends in the text;
* `count_eq_some_iff`: otherwise it gives the count at the start and the balance;
* `braceless_iff`: a body that has not begun is told by a balance of zero.
-/

namespace SourceSurvey.Body

def balance (t : Text) : Int := (t.count '{' : Int) - t.count '}'

/-- Some brace of the text brings the count to zero. -/
def Ends (depth : Int) (t : Text) : Prop :=
  ∃ s c, s ++ [c] <+: t ∧ (c = '{' ∨ c = '}') ∧ depth + balance (s ++ [c]) = 0

def Braceless (t : Text) : Prop := '{' ∉ t ∧ '}' ∉ t

instance : DecidablePred Braceless := fun t =>
  inferInstanceAs (Decidable ('{' ∉ t ∧ '}' ∉ t))

@[simp] theorem balance_nil : balance [] = 0 := rfl

theorem weight_eq_zero_iff {c : Char} : weight c = 0 ↔ ¬(c = '{' ∨ c = '}') := by
  unfold weight
  split
  · simp_all
  · split <;> simp_all

theorem balance_cons (c : Char) (t : Text) : balance (c :: t) = weight c + balance t := by
  unfold balance weight
  split
  · next ho =>
    subst ho
    rw [List.count_cons_self, List.count_cons_of_ne (by decide)]
    omega
  · next ho =>
    rw [List.count_cons_of_ne ho]
    split
    · next hc =>
      subst hc
      rw [List.count_cons_self]
      omega
    · next hc =>
      rw [List.count_cons_of_ne hc]
      omega

theorem braceless_cons {c : Char} {t : Text} :
    Braceless (c :: t) ↔ weight c = 0 ∧ Braceless t := by
  rw [weight_eq_zero_iff]
  simp only [Braceless, List.mem_cons, not_or, @eq_comm _ c]
  exact and_and_and_comm

theorem not_ends_nil (depth : Int) : ¬Ends depth [] := by
  rintro ⟨s, c, hp, -, -⟩
  simp at hp

theorem ends_cons {depth : Int} {c : Char} {t : Text} :
    Ends depth (c :: t) ↔
      (weight c ≠ 0 ∧ depth + weight c = 0) ∨ Ends (depth + weight c) t := by
  constructor
  · rintro ⟨s, d, hp, hd, hz⟩
    cases s with
    | nil =>
      obtain ⟨rfl, -⟩ := List.cons_prefix_cons.1 hp
      left
      exact ⟨fun h => weight_eq_zero_iff.1 h hd, by simpa [balance_cons] using hz⟩
    | cons e s =>
      obtain ⟨rfl, ht⟩ := List.cons_prefix_cons.1 hp
      refine .inr ⟨s, d, ht, hd, ?_⟩
      rw [List.cons_append, balance_cons] at hz
      omega
  · rintro (⟨hw, hz⟩ | ⟨s, d, hp, hd, hz⟩)
    · refine ⟨[], c, by simp, not_not.1 (mt weight_eq_zero_iff.2 hw), ?_⟩
      simpa [balance_cons] using hz
    · refine ⟨c :: s, d, by simpa using hp, hd, ?_⟩
      rw [List.cons_append, balance_cons]
      omega

/-- A body that has ended stays ended, whatever is read after it. -/
theorem Ends.append {depth : Int} {s : Text} (h : Ends depth s) (t : Text) :
    Ends depth (s ++ t) := by
  obtain ⟨r, c, hp, hc, hz⟩ := h
  exact ⟨r, c, hp.trans (List.prefix_append s t), hc, hz⟩

theorem count_eq_none_iff {depth : Int} {t : Text} : count depth t = none ↔ Ends depth t := by
  induction t generalizing depth with
  | nil => simp [count, not_ends_nil]
  | cons c t ih =>
    rw [count, ends_cons]
    by_cases hw : weight c = 0
    · simp [hw, ih]
    · by_cases hz : depth + weight c = 0 <;> simp [hw, hz, ih]

instance (depth : Int) : DecidablePred (Ends depth) := fun _ =>
  decidable_of_iff _ count_eq_none_iff

theorem count_eq_some_of_not_ends {depth : Int} {t : Text} (h : ¬Ends depth t) :
    count depth t = some (depth + balance t) := by
  induction t generalizing depth with
  | nil => simp [count]
  | cons c t ih =>
    simp only [ends_cons, not_or, not_and] at h
    have hi := ih h.2
    rw [count, balance_cons]
    by_cases hw : weight c = 0
    · rw [hw, Int.add_zero] at hi
      rw [if_pos hw, hw, Int.zero_add, hi]
    · rw [if_neg hw, if_neg (h.1 hw), hi]
      congr 1
      omega

theorem count_eq_some_iff {depth d : Int} {t : Text} :
    count depth t = some d ↔ ¬Ends depth t ∧ d = depth + balance t := by
  constructor
  · intro h
    have hn : ¬Ends depth t := by
      intro he
      rw [count_eq_none_iff.2 he] at h
      cases h
    rw [count_eq_some_of_not_ends hn] at h
    exact ⟨hn, (Option.some.inj h).symm⟩
  · rintro ⟨hn, rfl⟩
    exact count_eq_some_of_not_ends hn

/-- Two texts are counted like one. -/
theorem count_append (depth : Int) (s t : Text) :
    count depth (s ++ t) = (count depth s).bind fun d => count d t := by
  induction s generalizing depth with
  | nil => rfl
  | cons c s ih =>
    simp only [List.cons_append, count]
    split
    · exact ih depth
    · split
      · rfl
      · exact ih _

theorem ends_append_iff {depth : Int} {s t : Text} (h : ¬Ends depth s) :
    Ends depth (s ++ t) ↔ Ends (depth + balance s) t := by
  rw [← count_eq_none_iff, count_append, count_eq_some_of_not_ends h, Option.bind_some,
    count_eq_none_iff]

theorem balance_append (s t : Text) : balance (s ++ t) = balance s + balance t := by
  rw [balance, balance, balance, List.count_append, List.count_append]
  omega

theorem Braceless.not_ends {depth : Int} {t : Text} (h : Braceless t) : ¬Ends depth t := by
  rintro ⟨s, c, hp, hc, -⟩
  have hm : c ∈ t := hp.subset (by simp)
  rcases hc with rfl | rfl
  · exact h.1 hm
  · exact h.2 hm

theorem Braceless.balance {t : Text} (h : Braceless t) : balance t = 0 := by
  simp [Body.balance, List.count_eq_zero.2 h.1, List.count_eq_zero.2 h.2]

/-- A count that has left zero comes back to it only where the body ends. -/
theorem eq_zero_of_not_ends {depth : Int} {t : Text} (h : ¬Ends depth t)
    (hz : depth + balance t = 0) : depth = 0 ∧ Braceless t := by
  induction t generalizing depth with
  | nil => exact ⟨by simpa using hz, by simp [Braceless]⟩
  | cons c t ih =>
    simp only [ends_cons, not_or, not_and] at h
    rw [balance_cons] at hz
    obtain ⟨hd, ht⟩ := ih h.2 (by omega)
    have hw : weight c = 0 := by
      by_contra hw
      exact h.1 hw hd
    exact ⟨by omega, braceless_cons.2 ⟨hw, ht⟩⟩

theorem braceless_iff {t : Text} : Braceless t ↔ ¬Ends 0 t ∧ balance t = 0 := by
  constructor
  · intro h
    exact ⟨h.not_ends, h.balance⟩
  · rintro ⟨hn, hz⟩
    exact (eq_zero_of_not_ends hn (by omega)).2

end SourceSurvey.Body
