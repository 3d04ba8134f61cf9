import Mathlib.Data.List.Rotate
import SourceSurvey.Proofs.IncludeGraph.Cycles

/-!
# Every cycle is listed once

No way back is found twice (`nodup_waysBack`), and ways from different starts give different cycles,
so the search finds each cycle once and sorting drops none (`perm_cycles`). Of the lists that arise
from a cycle by turning it only one begins with its least name (`LeastFirst.eq_of_isRotated`). Hence
the list of cycles holds each cycle of the graph once, whatever class one writes it from
(`cycles_ofEdits`).
-/

namespace SourceSurvey.IncludeGraph

variable {g : IncludeGraph}

/-! ## What the search finds -/

/-- Lists that begin with different names are different. -/
theorem nodup_flatMap_of_head? {names : List Text} {f : Text → List (List Text)}
    (hn : names.Nodup) (hf : ∀ n ∈ names, (f n).Nodup)
    (hh : ∀ n ∈ names, ∀ w ∈ f n, w.head? = some n) : (names.flatMap f).Nodup := by
  refine List.nodup_flatMap.2 ⟨hf, List.Pairwise.imp_of_mem ?_ hn⟩
  intro a b ha hb hne w hwa hwb
  apply hne
  rw [← Option.some.injEq, ← hh a ha w hwa, hh b hb w hwb]

theorem nodup_waysBack (start current : Text) {free : List Text} (hf : free.Nodup) :
    (g.waysBack start current free).Nodup := by
  induction current, free using waysBack.induct with
  | case1 current free ih =>
    have hhead (n : Text) (w : List Text)
        (hw : w ∈ if (current, n) ∈ g.edges then (g.waysBack start n (free.erase n)).map (n :: ·)
          else []) : w.head? = some n := by
      split at hw
      · obtain ⟨v, -, rfl⟩ := List.mem_map.1 hw
        rfl
      · cases hw
    rw [waysBack_eq, List.nodup_append]
    refine ⟨by split <;> simp, nodup_flatMap_of_head? hf (fun n hn => ?_) fun n _ => hhead n, ?_⟩
    · split
      · exact (ih n hn (hf.erase n)).map (List.cons_injective)
      · exact List.nodup_nil
    · -- only the way without a stop on it is empty
      rintro v hv w hw rfl
      obtain ⟨n, -, hw⟩ := List.mem_flatMap.1 hw
      have hw := hhead n v hw
      split at hv <;> simp_all

/-- The cycles in the order in which the search finds them. -/
def foundCycles (g : IncludeGraph) : List (List Text) :=
  (Ascending.ofList g.names).flatMap g.cyclesFrom

theorem nodup_foundCycles (g : IncludeGraph) : g.foundCycles.Nodup := by
  refine nodup_flatMap_of_head? (Ascending.nodup_ofList _) (fun start _ => ?_)
    fun start _ c hc => ?_
  · exact (nodup_waysBack start start (nodup_companions start)).map List.cons_injective
  · obtain ⟨w, -, rfl⟩ := List.mem_map.1 hc
    rfl

/-- Sorting drops no cycle that is found. -/
theorem perm_cycles (g : IncludeGraph) : g.cycles.Perm g.foundCycles :=
  (List.perm_ext_iff_of_nodup (Ascending.nodup_ofList _) (nodup_foundCycles g)).2 fun _ =>
    Ascending.mem_ofList

/-! ## Turned cycles -/

theorem IsCycle.nodup {c : List Text} (h : g.IsCycle c) : c.Nodup := by
  cases c with
  | nil => exact h.elim
  | cons start way => exact h.1

/-- A list of different names can be turned in one way only to begin with the least. -/
theorem LeastFirst.eq_of_isRotated {c d : List Text} (hc : LeastFirst c) (hd : LeastFirst d)
    (h : c.IsRotated d) (hnd : c.Nodup) : c = d := by
  obtain ⟨n, hn, rfl⟩ := List.isRotated_iff_mod.1 h
  rw [List.rotate_eq_drop_append_take hn] at hd ⊢
  have hsplit := List.take_append_drop n c
  generalize c.take n = p at hsplit hd ⊢
  generalize c.drop n = q at hsplit hd ⊢
  subst hsplit
  cases p with
  | nil => rw [List.nil_append, List.append_nil]
  | cons a p =>
    cases q with
    | nil => rw [List.nil_append, List.append_nil]
    | cons b q =>
      -- each of the two first names would be less than the other
      have hab : a < b := hc b (by simp)
      have hba : b < a := hd a (by simp)
      exact absurd (Std.lt_trans hab hba) Std.lt_irrefl

theorem mem_cycles_of_isCycle (h : WellFormed g) {c : List Text} (hc : g.IsCycle c) :
    ∃ d ∈ g.cycles, d.IsRotated c := by
  obtain ⟨p, q, rfl, hcycle, hleast⟩ := exists_leastFirst hc
  exact ⟨q ++ p, (mem_cycles_iff h).2 ⟨hcycle, hleast⟩, List.isRotated_append⟩

/-- After any edits the list of cycles ascends, and holds what the search found. Its members are
cycles of at least two classes, written from the least of them, and each cycle of the graph is one
of them, and only one, up to the class it is written from. -/
theorem cycles_ofEdits (edits : List Edit) :
    let g := ofEdits edits
    g.cycles.Pairwise (· < ·) ∧ g.cycles.Perm g.foundCycles ∧
    (∀ c ∈ g.cycles, g.IsCycle c ∧ 2 ≤ c.length ∧ LeastFirst c) ∧
    ∀ c, g.IsCycle c → ∃ before d after, g.cycles = before ++ d :: after ∧ d.IsRotated c ∧
      ∀ e ∈ before ++ after, ¬e.IsRotated c := by
  intro g
  have h : WellFormed g := wellFormed_ofEdits edits
  refine ⟨Ascending.pairwise_ofList _, perm_cycles g, fun c hc => ?_, fun c hc => ?_⟩
  · obtain ⟨hcycle, hleast⟩ := (mem_cycles_iff h).1 hc
    exact ⟨hcycle, two_le_length h hcycle, hleast⟩
  · obtain ⟨d, hd, hdc⟩ := mem_cycles_of_isCycle h hc
    obtain ⟨before, after, heq⟩ := List.append_of_mem hd
    refine ⟨before, d, after, heq, hdc, fun e he hec => ?_⟩
    have hnodup : (before ++ d :: after).Nodup := heq ▸ Ascending.nodup_ofList _
    have hmem : e ∈ g.cycles := by
      rw [heq]
      rcases List.mem_append.1 he with he | he <;> simp [he]
    obtain ⟨hecycle, heleast⟩ := (mem_cycles_iff h).1 hmem
    have hed : e = d := heleast.eq_of_isRotated ((mem_cycles_iff h).1 hd).2
      (hec.trans hdc.symm) hecycle.nodup
    rw [hed] at he
    exact (List.nodup_cons.1 (List.nodup_middle.1 hnodup)).1 he

end SourceSurvey.IncludeGraph
