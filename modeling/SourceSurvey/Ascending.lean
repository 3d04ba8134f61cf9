/-!
# Strictly ascending lists

Insertion into an ascending list, which drops what is already there, and the ascending list of
the members of any list.

* `mem_ofList`: `ofList` keeps exactly the members;
* `pairwise_ofList`: its members ascend strictly, so each stands there once;
* `eq_of_mem_iff`: two ascending lists with the same members are equal;
* `ofList_filter`: members can be left out before or after.
-/

namespace SourceSurvey.Ascending

variable {α : Type} [LT α] [DecidableLT α] [DecidableEq α]

def insert (x : α) : List α → List α
  | [] => [x]
  | y :: ys => if x = y then y :: ys else if x < y then x :: y :: ys else y :: insert x ys

def ofList (xs : List α) : List α := xs.foldr insert []

theorem mem_insert {a x : α} {ys : List α} : a ∈ insert x ys ↔ a = x ∨ a ∈ ys := by
  induction ys with
  | nil => simp [insert]
  | cons y ys ih =>
    by_cases h : x = y
    · simp [insert, h]
    · by_cases hlt : x < y
      · simp [insert, h, hlt]
      · simp [insert, h, hlt, ih, or_left_comm]

theorem mem_ofList {a : α} {xs : List α} : a ∈ ofList xs ↔ a ∈ xs := by
  induction xs with
  | nil => simp [ofList]
  | cons x xs ih =>
    simp only [ofList, List.foldr_cons, mem_insert, List.mem_cons]
    rw [show xs.foldr insert [] = ofList xs from rfl, ih]

section Order

variable [LE α] [Std.IsLinearOrder α] [Std.LawfulOrderLT α]

theorem pairwise_insert (x : α) {ys : List α} (h : ys.Pairwise (· < ·)) :
    (insert x ys).Pairwise (· < ·) := by
  induction ys with
  | nil => simp [insert]
  | cons y ys ih =>
    have hy := List.pairwise_cons.1 h
    by_cases he : x = y
    · simpa [insert, he] using hy
    · by_cases hlt : x < y
      · simp only [insert, he, hlt, if_true, if_false, List.pairwise_cons]
        refine ⟨fun a ha => ?_, hy⟩
        rcases List.mem_cons.1 ha with rfl | ha
        · exact hlt
        · exact Std.lt_trans hlt (hy.1 a ha)
      · simp only [insert, he, hlt, if_false, List.pairwise_cons]
        refine ⟨fun a ha => ?_, ih hy.2⟩
        rcases mem_insert.1 ha with rfl | ha
        · exact Std.lt_of_le_of_ne (Std.not_lt.1 hlt) (Ne.symm he)
        · exact hy.1 a ha

theorem pairwise_ofList (xs : List α) : (ofList xs).Pairwise (· < ·) := by
  induction xs with
  | nil => exact List.Pairwise.nil
  | cons x xs ih => exact pairwise_insert x ih

theorem nodup_ofList (xs : List α) : (ofList xs).Nodup := by
  refine (pairwise_ofList xs).imp ?_
  rintro a b hab rfl
  exact Std.lt_irrefl hab

end Order

theorem eq_of_mem_iff {α : Type} [LT α] [LE α] [Std.IsLinearOrder α] [Std.LawfulOrderLT α]
    {xs ys : List α} (hx : xs.Pairwise (· < ·)) (hy : ys.Pairwise (· < ·))
    (h : ∀ a, a ∈ xs ↔ a ∈ ys) : xs = ys := by
  induction xs generalizing ys with
  | nil =>
    cases ys with
    | nil => rfl
    | cons y ys => exact absurd ((h y).2 (by simp)) (by simp)
  | cons x xs ih =>
    cases ys with
    | nil => exact absurd ((h x).1 (by simp)) (by simp)
    | cons y ys =>
      have hx' := List.pairwise_cons.1 hx
      have hy' := List.pairwise_cons.1 hy
      have hxy : x = y := by
        rcases List.mem_cons.1 ((h x).1 (by simp)) with e | hm
        · exact e
        · rcases List.mem_cons.1 ((h y).2 (by simp)) with e | hn
          · exact e.symm
          · exact absurd (Std.lt_trans (hy'.1 x hm) (hx'.1 y hn)) Std.lt_irrefl
      subst hxy
      congr 1
      refine ih hx'.2 hy'.2 fun a => ⟨fun ha => ?_, fun ha => ?_⟩
      · rcases List.mem_cons.1 ((h a).1 (List.mem_cons_of_mem _ ha)) with rfl | hm
        · exact absurd (hx'.1 a ha) Std.lt_irrefl
        · exact hm
      · rcases List.mem_cons.1 ((h a).2 (List.mem_cons_of_mem _ ha)) with rfl | hm
        · exact absurd (hy'.1 a ha) Std.lt_irrefl
        · exact hm

theorem ofList_filter [LE α] [Std.IsLinearOrder α] [Std.LawfulOrderLT α] (p : α → Bool)
    (xs : List α) : ofList (xs.filter p) = (ofList xs).filter p :=
  eq_of_mem_iff (pairwise_ofList _) ((pairwise_ofList xs).filter p) fun a => by
    simp only [mem_ofList, List.mem_filter]

end SourceSurvey.Ascending
