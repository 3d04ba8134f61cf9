import Mathlib.Logic.Relation
import SourceSurvey.Proofs.IncludeGraph.Queries

/-!
# What a walk through the graph meets

`explore` meets exactly the names that the frontier reaches through unmet names
(`mem_explore_iff`). So the descendants of a class are what its includes lead to
(`mem_descendants_iff`).
-/

namespace SourceSurvey.IncludeGraph

open Relation

/-- The first class includes the second. -/
def Includes (g : IncludeGraph) (a b : Text) : Prop := (a, b) ∈ g.edges

/-- A step of the walk that goes to an unmet name. -/
def Within (next : Text → List Text) (unmet : List Text) (a b : Text) : Prop :=
  b ∈ next a ∧ b ∈ unmet

variable {next : Text → List Text}

theorem Within.of_erase {unmet : List Text} {n a b : Text}
    (h : Within next (unmet.erase n) a b) : Within next unmet a b :=
  ⟨h.1, List.mem_of_mem_erase h.2⟩

/-- What is reached from an unmet name or the rest of the frontier is the name itself, or is reached
without it from what comes next. -/
theorem reached_without {unmet frontier : List Text} {n m x : Text} (hu : unmet.Nodup)
    (hm : m ∈ n :: frontier) (hmu : m ∈ unmet) (h : ReflTransGen (Within next unmet) m x) :
    x = n ∨ ∃ k ∈ next n ++ frontier, k ∈ unmet.erase n ∧
      ReflTransGen (Within next (unmet.erase n)) k x := by
  induction h with
  | refl =>
    by_cases hn : m = n
    · exact .inl hn
    · have hf : m ∈ frontier := (List.mem_cons.1 hm).resolve_left hn
      exact .inr ⟨m, List.mem_append_right _ hf, (hu.mem_erase_iff).2 ⟨hn, hmu⟩, .refl⟩
  | @tail b c _ hbc ih =>
    by_cases hn : c = n
    · exact .inl hn
    · have hc : c ∈ unmet.erase n := (hu.mem_erase_iff).2 ⟨hn, hbc.2⟩
      rcases ih with rfl | ⟨k, hk, hku, hkb⟩
      · exact .inr ⟨c, List.mem_append_left _ hbc.1, hc, .refl⟩
      · exact .inr ⟨k, hk, hku, hkb.tail ⟨hbc.1, hc⟩⟩

theorem mem_explore_iff {unmet frontier : List Text} (hu : unmet.Nodup) {x : Text} :
    x ∈ explore next unmet frontier ↔
      ∃ m ∈ frontier, m ∈ unmet ∧ ReflTransGen (Within next unmet) m x := by
  induction unmet, frontier using explore.induct next with
  | case1 unmet => simp [explore]
  | case2 unmet n frontier hn ih =>
    rw [explore, if_pos hn, List.mem_cons, ih (hu.erase n)]
    constructor
    · rintro (rfl | ⟨k, hk, hku, hkx⟩)
      · exact ⟨x, by simp, hn, .refl⟩
      · have hkx' := ReflTransGen.mono (fun _ _ => Within.of_erase) _ _ hkx
        rcases List.mem_append.1 hk with hk | hk
        · exact ⟨n, by simp, hn, hkx'.head ⟨hk, List.mem_of_mem_erase hku⟩⟩
        · exact ⟨k, by simp [hk], List.mem_of_mem_erase hku, hkx'⟩
    · rintro ⟨m, hm, hmu, hmx⟩
      exact reached_without hu hm hmu hmx
  | case3 unmet n frontier hn ih =>
    rw [explore, if_neg hn, ih hu]
    constructor
    · rintro ⟨m, hm, hmu, hmx⟩
      exact ⟨m, by simp [hm], hmu, hmx⟩
    · rintro ⟨m, hm, hmu, hmx⟩
      rcases List.mem_cons.1 hm with rfl | hm
      · exact absurd hmu hn
      · exact ⟨m, hm, hmu, hmx⟩

theorem mem_unmet_of_mem_explore {unmet frontier : List Text} (hu : unmet.Nodup) {x : Text}
    (h : x ∈ explore next unmet frontier) : x ∈ unmet := by
  obtain ⟨m, -, hmu, hmx⟩ := (mem_explore_iff hu).1 h
  cases hmx with
  | refl => exact hmu
  | tail _ h => exact h.2

theorem nodup_explore {unmet frontier : List Text} (hu : unmet.Nodup) :
    (explore next unmet frontier).Nodup := by
  induction unmet, frontier using explore.induct next with
  | case1 unmet => simp [explore]
  | case2 unmet n frontier hn ih =>
    rw [explore, if_pos hn, List.nodup_cons]
    refine ⟨?_, ih (hu.erase n)⟩
    intro h
    exact hu.not_mem_erase (mem_unmet_of_mem_explore (hu.erase n) h)
  | case3 unmet n frontier hn ih =>
    rw [explore, if_neg hn]
    exact ih hu

/-! ## Descendants -/

variable {g : IncludeGraph}

/-- All steps along edges stay among the names of the graph. -/
theorem WellFormed.within_names (h : WellFormed g) :
    Within g.successors g.names = g.Includes := by
  funext a b
  apply propext
  constructor
  · intro hab
    exact mem_successors.1 hab.1
  · intro hab
    exact ⟨mem_successors.2 hab, (h.mem_names a b hab).2⟩

theorem mem_descendants_iff (h : WellFormed g) {name x : Text} :
    x ∈ g.descendants name ↔ x ≠ name ∧ TransGen g.Includes name x := by
  by_cases hn : name ∈ g.names
  · -- the walk from the class meets the class first and then its descendants
    have hw : explore g.successors g.names [name] = name :: g.descendants name := by
      rw [explore, if_pos hn, List.append_nil, descendants]
    have hnd : (name :: g.descendants name).Nodup := hw ▸ nodup_explore h.nodup_names
    have hm : x ∈ name :: g.descendants name ↔ ReflTransGen g.Includes name x := by
      rw [← hw, mem_explore_iff h.nodup_names, h.within_names]
      simp [hn]
    rw [List.mem_cons, reflTransGen_iff_eq_or_transGen] at hm
    constructor
    · intro hx
      have hne : x ≠ name := fun he => (List.nodup_cons.1 hnd).1 (he ▸ hx)
      exact ⟨hne, (hm.1 (.inr hx)).resolve_left hne⟩
    · rintro ⟨hne, hx⟩
      exact (hm.2 (.inr hx)).resolve_left hne
  · have hs : g.successors name = [] := by
      rw [List.eq_nil_iff_forall_not_mem]
      exact fun b hb => hn (h.mem_names name b (mem_successors.1 hb)).1
    rw [descendants, hs]
    constructor
    · intro hx
      simp [explore] at hx
    · rintro ⟨-, hx⟩
      obtain ⟨b, hb, -⟩ := TransGen.head'_iff.1 hx
      exact absurd (h.mem_names name b hb).1 hn

theorem mem_transitiveProject_iff (h : WellFormed g) {name x : Text} :
    x ∈ g.transitiveProject name ↔ x ≠ name ∧ TransGen g.Includes name x :=
  NameSet.mem_ofList.trans (mem_descendants_iff h)

theorem mem_transitiveLibraries_iff {name l : Text} :
    l ∈ g.transitiveLibraries name ↔
      l ∈ g.libraries name ∨ ∃ m ∈ g.descendants name, l ∈ g.libraries m := by
  rw [transitiveLibraries, NameSet.unions, NameSet.mem_ofList, List.map_cons, List.flatMap_cons,
    List.mem_append, List.mem_flatMap]
  simp only [List.mem_map, exists_exists_and_eq_and]
  exact Iff.rfl

end SourceSurvey.IncludeGraph
