import SourceSurvey.Proofs.IncludeGraph.Cycles

/-!
# What a class needs in the end

The transitive libraries of a class are those recorded for it and for all that it leads to
(`mem_transitiveLibraries_iff_exists`). So they grow against the direction of the edges, and classes
that lead to one another share them (`transitive_ofEdits`).
-/

namespace SourceSurvey.IncludeGraph

open Relation

variable {g : IncludeGraph}

theorem mem_libraries_iff {n l : Text} :
    l ∈ g.libraries n ↔ ∃ d, g.record? n = some d ∧ l ∈ d.libraries := by
  rw [libraries]
  cases g.record? n with
  | none => simpa using NameSet.not_mem_empty l
  | some d => simp

theorem mem_transitiveLibraries_iff_exists (h : WellFormed g) {n l : Text} :
    l ∈ g.transitiveLibraries n ↔ ∃ m, ReflTransGen g.Includes n m ∧ l ∈ g.libraries m := by
  simp only [mem_transitiveLibraries_iff, mem_descendants_iff h, reflTransGen_iff_eq_or_transGen]
  constructor
  · rintro (hl | ⟨m, ⟨-, hm⟩, hl⟩)
    · exact ⟨n, .inl rfl, hl⟩
    · exact ⟨m, .inr hm, hl⟩
  · rintro ⟨m, hm, hl⟩
    by_cases hn : m = n
    · exact .inl (hn ▸ hl)
    · exact .inr ⟨m, ⟨hn, hm.resolve_left hn⟩, hl⟩

/-- What a class needs is needed by all that lead to it. -/
theorem mem_transitiveLibraries_of_reaches (h : WellFormed g) {a b l : Text}
    (hab : ReflTransGen g.Includes a b) (hl : l ∈ g.transitiveLibraries b) :
    l ∈ g.transitiveLibraries a := by
  obtain ⟨m, hm, hlm⟩ := (mem_transitiveLibraries_iff_exists h).1 hl
  exact (mem_transitiveLibraries_iff_exists h).2 ⟨m, hab.trans hm, hlm⟩

theorem transitiveLibraries_eq_of_reaches (h : WellFormed g) {a b : Text}
    (hab : ReflTransGen g.Includes a b) (hba : ReflTransGen g.Includes b a) :
    g.transitiveLibraries a = g.transitiveLibraries b :=
  NameSet.ext fun _ =>
    ⟨mem_transitiveLibraries_of_reaches h hba, mem_transitiveLibraries_of_reaches h hab⟩

/-- Every class on a way back to its start is reached from there and leads there. -/
theorem Way.reaches_of_mem {n a : Text} {w : List Text} (h : g.Way n w n) (ha : a ∈ n :: w) :
    ReflTransGen g.Includes n a ∧ ReflTransGen g.Includes a n := by
  rcases List.mem_cons.1 ha with rfl | ha
  · exact ⟨.refl, .refl⟩
  · obtain ⟨p, q, rfl⟩ := List.append_of_mem ha
    obtain ⟨hp, hq⟩ := way_append.1 h
    exact ⟨hp.transGen.to_reflTransGen, hq.transGen.to_reflTransGen⟩

theorem not_transGen_of_not_mem_names (h : WellFormed g) {n m : Text} (hn : n ∉ g.names) :
    ¬TransGen g.Includes n m := by
  intro hm
  obtain ⟨b, hb, -⟩ := TransGen.head'_iff.1 hm
  exact hn (h.mem_names n b hb).1

/-- After any edits the transitive includes of a class are the other classes that it leads to, and
its transitive libraries are those recorded for it and for them. Along an edge these libraries
cannot get more, and around a cycle they are the same. -/
theorem transitive_ofEdits (edits : List Edit) :
    let g := ofEdits edits
    (∀ n m, m ∈ g.transitiveProject n ↔ m ≠ n ∧ TransGen (fun a b => (a, b) ∈ g.edges) n m) ∧
    (∀ n l, l ∈ g.transitiveLibraries n ↔
      ∃ m, (m = n ∨ m ∈ g.transitiveProject n) ∧ ∃ d, g.record? m = some d ∧ l ∈ d.libraries) ∧
    (∀ n, n ∉ g.names →
      g.transitiveProject n = NameSet.empty ∧ g.transitiveLibraries n = NameSet.empty) ∧
    (∀ a b, (a, b) ∈ g.edges → ∀ l ∈ g.transitiveLibraries b, l ∈ g.transitiveLibraries a) ∧
    ∀ n w, g.Way n w n → ∀ a ∈ n :: w, ∀ b ∈ n :: w,
      g.transitiveLibraries a = g.transitiveLibraries b := by
  intro g
  have hshows : Shows g (sinceClear edits) := shows_ofEdits edits
  have h : WellFormed g := hshows.wellFormed
  refine ⟨fun n m => mem_transitiveProject_iff h, fun n l => ?_, fun n hn => ⟨?_, ?_⟩,
    fun a b hab l hl => ?_, fun n w hw a ha b hb => ?_⟩
  · simp only [mem_transitiveLibraries_iff, mem_libraries_iff, transitiveProject, or_and_right,
      exists_or, exists_eq_left]
    exact or_congr_right (exists_congr fun m => and_congr_left' NameSet.mem_ofList.symm)
  · rw [NameSet.eq_empty_iff]
    intro m hm
    exact not_transGen_of_not_mem_names h hn ((mem_transitiveProject_iff h).1 hm).2
  · rw [NameSet.eq_empty_iff]
    intro l hl
    obtain ⟨m, hm, hlm⟩ := (mem_transitiveLibraries_iff_exists h).1 hl
    rcases reflTransGen_iff_eq_or_transGen.1 hm with rfl | hm
    · obtain ⟨d, hd, -⟩ := mem_libraries_iff.1 hlm
      rw [record?_eq_none g hn] at hd
      cases hd
    · exact not_transGen_of_not_mem_names h hn hm
  · exact mem_transitiveLibraries_of_reaches h (.single hab) hl
  · obtain ⟨hna, han⟩ := hw.reaches_of_mem ha
    obtain ⟨hnb, hbn⟩ := hw.reaches_of_mem hb
    exact transitiveLibraries_eq_of_reaches h (han.trans hnb) (hbn.trans hna)

end SourceSurvey.IncludeGraph
