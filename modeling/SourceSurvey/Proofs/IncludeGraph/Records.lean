import SourceSurvey.Proofs.IncludeGraph.Closure
import SourceSurvey.Proofs.IncludeGraph.Enumeration
import SourceSurvey.Proofs.IncludeGraph.Permutation

/-!
# Graphs of the records of a survey

The records of a survey are of different classes. So what a graph of them answers can be told by
the records alone: who includes whom, which classes have a record, and which libraries a class needs
in the end (`mem_transitiveLibraries_ofRecords`).
-/

namespace SourceSurvey.IncludeGraph

open Relation

variable {g : IncludeGraph} {ds : List Dependence}

/-! ## What the records say of a class -/

theorem includes_ofRecords (ds : List Dependence) : (ofRecords ds).Includes = Lists ds := by
  funext a b
  exact propext ((shows_ofRecords ds).mem_edges a b)

theorem isSome_record?_ofRecords (hn : (ds.map Dependence.className).Nodup) {n : Text} :
    ((ofRecords ds).record? n).isSome = true ↔ ∃ d ∈ ds, d.className = n := by
  simp only [(shows_ofRecords ds).record?_eq, Option.isSome_iff_exists,
    lastRecord?_eq_some_iff_mem hn]

theorem mem_libraries_ofRecords (hn : (ds.map Dependence.className).Nodup) {n l : Text} :
    l ∈ (ofRecords ds).libraries n ↔ ∃ d ∈ ds, d.className = n ∧ l ∈ d.libraries := by
  simp only [mem_libraries_iff, (shows_ofRecords ds).record?_eq, lastRecord?_eq_some_iff_mem hn,
    and_assoc]

theorem mem_transitiveLibraries_ofRecords (hn : (ds.map Dependence.className).Nodup)
    {n l : Text} :
    l ∈ (ofRecords ds).transitiveLibraries n ↔ ∃ d ∈ ds,
      (d.className = n ∨ d.className ∈ (ofRecords ds).transitiveProject n) ∧ l ∈ d.libraries := by
  simp only [mem_transitiveLibraries_iff, mem_libraries_ofRecords hn, transitiveProject]
  constructor
  · rintro (⟨d, hd, rfl, hl⟩ | ⟨m, hm, d, hd, rfl, hl⟩)
    · exact ⟨d, hd, .inl rfl, hl⟩
    · exact ⟨d, hd, .inr (NameSet.mem_ofList.2 hm), hl⟩
  · rintro ⟨d, hd, rfl | hm, hl⟩
    · exact .inl ⟨d, hd, rfl, hl⟩
    · exact .inr ⟨d.className, NameSet.mem_ofList.1 hm, d, hd, rfl, hl⟩

/-- What a class leads to is included by some record. -/
theorem exists_of_mem_transitiveProject {n m : Text}
    (h : m ∈ (ofRecords ds).transitiveProject n) : ∃ d ∈ ds, m ∈ d.project := by
  rw [mem_transitiveProject_iff (shows_ofRecords ds).wellFormed, includes_ofRecords] at h
  obtain ⟨k, -, -, d, hd, -, hm⟩ := TransGen.tail'_iff.1 h.2
  exact ⟨d, hd, hm⟩

/-! ## Order and cycles -/

/-- Where a class stands in a build order, all that it leads to stands before it. -/
theorem IsBuildOrder.mem_of_split {order earlier later : List Text} {n m : Text}
    (h : g.IsBuildOrder order) (hs : order = earlier ++ n :: later)
    (hm : TransGen g.Includes n m) : m ∈ earlier := by
  have hlt := h.before n m hm
  have hn : n ∉ earlier := fun hn =>
    (List.nodup_append.1 (hs ▸ h.nodup)).2.2 n hn n List.mem_cons_self rfl
  by_contra hm
  -- anything that is not among the earlier classes has no smaller index
  rw [hs, List.idxOf_append_of_notMem hn, List.idxOf_append_of_notMem hm,
    List.idxOf_cons_self] at hlt
  omega

/-- The cycles of the graph, each listed once, from some class of it on. -/
structure ListsCycles (g : IncludeGraph) (cycles : List (List Text)) : Prop where
  isCycle : ∀ c ∈ cycles, g.IsCycle c ∧ 2 ≤ c.length
  exists_isRotated : ∀ c, g.IsCycle c → ∃ d ∈ cycles, d.IsRotated c
  once : cycles.Pairwise fun c d => ¬c.IsRotated d

theorem listsCycles_cycles (h : WellFormed g) : g.ListsCycles g.cycles where
  isCycle c hc := by
    have hcycle := ((mem_cycles_iff h).1 hc).1
    exact ⟨hcycle, two_le_length h hcycle⟩
  exists_isRotated c hc := mem_cycles_of_isCycle h hc
  once := by
    refine List.Pairwise.imp_of_mem ?_ (Ascending.nodup_ofList _)
    intro c d hc hd hne hcd
    obtain ⟨hcycle, hleast⟩ := (mem_cycles_iff h).1 hc
    exact hne (hleast.eq_of_isRotated ((mem_cycles_iff h).1 hd).2 hcd hcycle.nodup)

/-! ## Counts -/

theorem edgeCount_ofRecords (ds : List Dependence) :
    (ofRecords ds).edgeCount = {e : Edge | Lists ds e.1 e.2}.ncard := by
  have hshows := shows_ofRecords ds
  exact (ncard_setOf_mem hshows.nodup_edges fun e => (hshows.mem_edges e.1 e.2).symm).symm

theorem IsBuildOrder.nodeCount_eq {order : List Text} (h : g.IsBuildOrder order)
    (hg : WellFormed g) : g.nodeCount = order.length := by
  have hperm := (List.perm_ext_iff_of_nodup h.nodup hg.nodup_names).2 h.mem_iff
  simpa [nodeCount, names] using hperm.length_eq.symm

end SourceSurvey.IncludeGraph
