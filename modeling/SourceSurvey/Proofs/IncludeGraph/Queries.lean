import Mathlib.Data.Set.Card
import SourceSurvey.Proofs.IncludeGraph.History

/-!
# What the queries answer

`queries_ofEdits` tells every direct query of a graph from the records since the last clearing.
What later proofs use of such a graph is kept as `WellFormed`.
-/

namespace SourceSurvey.IncludeGraph

/-- Names and edges stand there once, edges join different names of the graph. -/
structure WellFormed (g : IncludeGraph) : Prop where
  nodup_names : g.names.Nodup
  nodup_edges : g.edges.Nodup
  mem_names : ∀ a b, (a, b) ∈ g.edges → a ∈ g.names ∧ b ∈ g.names
  ne_of_mem : ∀ a b, (a, b) ∈ g.edges → a ≠ b

theorem Shows.wellFormed {g : IncludeGraph} {rs : List Dependence} (h : Shows g rs) :
    WellFormed g where
  nodup_names := by
    rw [h.names_eq]
    exact nodup_eraseDups _
  nodup_edges := h.nodup_edges
  mem_names a b he := by
    obtain ⟨-, d, hd, rfl, hb⟩ := (h.mem_edges a b).1 he
    rw [h.names_eq, List.mem_eraseDups, List.mem_eraseDups, mem_mentions, mem_mentions]
    exact ⟨⟨d, hd, .inl rfl⟩, ⟨d, hd, .inr hb⟩⟩
  ne_of_mem a b he := ((h.mem_edges a b).1 he).1

theorem wellFormed_ofEdits (edits : List Edit) : WellFormed (ofEdits edits) :=
  (shows_ofEdits edits).wellFormed

variable {g : IncludeGraph}

theorem mem_successors {a b : Text} : b ∈ g.successors a ↔ (a, b) ∈ g.edges := by
  simp only [successors, List.mem_map, List.mem_filter, decide_eq_true_eq]
  constructor
  · rintro ⟨⟨x, y⟩, ⟨he, rfl⟩, rfl⟩
    exact he
  · intro he
    exact ⟨(a, b), ⟨he, rfl⟩, rfl⟩

theorem mem_dependents {a b : Text} : a ∈ g.dependents b ↔ (a, b) ∈ g.edges := by
  simp only [dependents, List.mem_map, List.mem_filter, decide_eq_true_eq]
  constructor
  · rintro ⟨⟨x, y⟩, ⟨he, rfl⟩, rfl⟩
    exact he
  · intro he
    exact ⟨(a, b), ⟨he, rfl⟩, rfl⟩

theorem mem_project {a b : Text} : b ∈ g.project a ↔ (a, b) ∈ g.edges :=
  NameSet.mem_ofList.trans mem_successors

theorem WellFormed.nodup_dependents (h : WellFormed g) (n : Text) : (g.dependents n).Nodup := by
  refine List.Nodup.map_on ?_ (h.nodup_edges.filter _)
  rintro ⟨a, b⟩ hx ⟨c, d⟩ hy rfl
  simp only [List.mem_filter, decide_eq_true_eq] at hx hy
  rw [hx.2, hy.2]

theorem lastRecord?_eq_some_iff {rs : List Dependence} {n : Text} {d : Dependence} :
    lastRecord? rs n = some d ↔
      ∃ before after, rs = before ++ d :: after ∧ d.className = n ∧
        ∀ e ∈ after, e.className ≠ n := by
  rw [lastRecord?, List.find?_eq_some_iff_append]
  simp only [decide_eq_true_eq, Bool.not_eq_true', decide_eq_false_iff_not]
  constructor
  · rintro ⟨hn, as, bs, hr, ha⟩
    refine ⟨bs.reverse, as.reverse, ?_, hn, ?_⟩
    · rw [← List.reverse_reverse rs, hr]
      simp
    · intro e he
      exact ha e (List.mem_reverse.1 he)
  · rintro ⟨before, after, rfl, hn, ha⟩
    refine ⟨hn, after.reverse, before.reverse, by simp, ?_⟩
    intro e he
    exact ha e (List.mem_reverse.1 he)

theorem ncard_setOf_mem {α : Type} {l : List α} {s : Set α} (h : l.Nodup)
    (hs : ∀ x, x ∈ s ↔ x ∈ l) : s.ncard = l.length := by
  classical
  have he : s = ↑l.toFinset := by
    ext x
    simp [hs]
  rw [he, Set.ncard_coe_finset, List.toFinset_card_of_nodup h]

/-- At every moment the queries answer from the records added since the last clearing. -/
theorem queries_ofEdits (edits : List Edit) :
    let g := ofEdits edits
    let rs := sinceClear edits
    g.names = (mentions rs).eraseDups ∧ g.names.Nodup ∧
    (∀ a b, (a, b) ∈ g.edges ↔ a ≠ b ∧ ∃ d ∈ rs, d.className = a ∧ b ∈ d.project) ∧
    (∀ n d, g.record? n = some d ↔
      ∃ before after, rs = before ++ d :: after ∧ d.className = n ∧
        ∀ e ∈ after, e.className ≠ n) ∧
    (∀ n, g.record? n = none ↔ ∀ d ∈ rs, d.className ≠ n) ∧
    (∀ n, g.libraries n =
      match g.record? n with
      | some d => d.libraries
      | none => NameSet.empty) ∧
    (∀ n m, m ∈ g.project n ↔ (n, m) ∈ g.edges) ∧
    (∀ n, (g.dependents n).Nodup ∧ ∀ m, m ∈ g.dependents n ↔ n ∈ g.project m) ∧
    g.nodeCount = {n | ∃ d ∈ rs, n = d.className ∨ n ∈ d.project}.ncard ∧
    g.edgeCount =
      {e : Edge | e.1 ≠ e.2 ∧ ∃ d ∈ rs, d.className = e.1 ∧ e.2 ∈ d.project}.ncard := by
  intro g rs
  have h : Shows g rs := shows_ofEdits edits
  have hw : WellFormed g := h.wellFormed
  refine ⟨h.names_eq, hw.nodup_names, h.mem_edges, ?_, ?_, ?_, ?_, ?_, ?_, ?_⟩
  · intro n d
    rw [h.record?_eq, lastRecord?_eq_some_iff]
  · intro n
    rw [h.record?_eq, lastRecord?, List.find?_eq_none]
    simp [rs]
  · intro n
    unfold libraries
    cases g.record? n <;> rfl
  · intro n m
    exact mem_project
  · intro n
    exact ⟨hw.nodup_dependents n, fun m => mem_dependents.trans mem_project.symm⟩
  · have hmem (n : Text) : n ∈ {n | ∃ d ∈ rs, n = d.className ∨ n ∈ d.project} ↔ n ∈ g.names := by
      rw [h.names_eq, List.mem_eraseDups, mem_mentions]
      rfl
    rw [ncard_setOf_mem hw.nodup_names hmem, names, List.length_map]
    rfl
  · symm
    apply ncard_setOf_mem hw.nodup_edges
    intro e
    exact (h.mem_edges e.1 e.2).symm

end SourceSurvey.IncludeGraph
