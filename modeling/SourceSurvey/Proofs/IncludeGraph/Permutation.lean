import SourceSurvey.Proofs.IncludeGraph.Order

/-!
# The order of the records

Graphs are alike when they have the same names, edges and records, in whatever order these stand.
Alike graphs answer every query alike, have the same cycles and share their build orders. Records
of different classes make alike graphs in every order (`alike_of_perm`), so the order in which they
are added shows in nothing but the order of names, edges and dependents (`ofRecords_of_perm`).
-/

namespace SourceSurvey.IncludeGraph

open Relation

structure Alike (g k : IncludeGraph) : Prop where
  mem_names : ∀ n, n ∈ g.names ↔ n ∈ k.names
  mem_edges : ∀ e, e ∈ g.edges ↔ e ∈ k.edges
  record?_eq : ∀ n, g.record? n = k.record? n

/-! ## Records in another order -/

theorem lastRecord?_eq_some_iff_mem {rs : List Dependence}
    (hn : (rs.map Dependence.className).Nodup) {n : Text} {d : Dependence} :
    lastRecord? rs n = some d ↔ d ∈ rs ∧ d.className = n := by
  constructor
  · intro h
    obtain ⟨before, after, rfl, hd, -⟩ := lastRecord?_eq_some_iff.1 h
    exact ⟨by simp, hd⟩
  · rintro ⟨hd, rfl⟩
    obtain ⟨before, after, rfl⟩ := List.append_of_mem hd
    rw [List.map_append, List.map_cons, List.nodup_append] at hn
    have hafter : d.className ∉ after.map Dependence.className := (List.nodup_cons.1 hn.2.1).1
    refine lastRecord?_eq_some_iff.2 ⟨before, after, rfl, rfl, fun e he heq => hafter ?_⟩
    exact List.mem_map.2 ⟨e, he, heq⟩

variable {ds es : List Dependence}

theorem alike_of_perm (h : ds.Perm es) (hn : (ds.map Dependence.className).Nodup) :
    Alike (ofRecords ds) (ofRecords es) where
  mem_names n := by
    rw [(shows_ofRecords ds).names_eq, (shows_ofRecords es).names_eq, List.mem_eraseDups,
      List.mem_eraseDups, mem_mentions, mem_mentions]
    simp only [h.mem_iff]
  mem_edges e := by
    have hlists : Lists ds e.1 e.2 ↔ Lists es e.1 e.2 := by simp only [Lists, h.mem_iff]
    exact ((shows_ofRecords ds).mem_edges e.1 e.2).trans
      (hlists.trans ((shows_ofRecords es).mem_edges e.1 e.2).symm)
  record?_eq n := by
    have hes : (es.map Dependence.className).Nodup := (h.map _).nodup hn
    rw [(shows_ofRecords ds).record?_eq, (shows_ofRecords es).record?_eq]
    refine Option.ext fun d => ?_
    rw [lastRecord?_eq_some_iff_mem hn, lastRecord?_eq_some_iff_mem hes, h.mem_iff]

/-! ## What alike graphs answer -/

namespace Alike

variable {g k : IncludeGraph}

theorem symm (h : Alike g k) : Alike k g :=
  ⟨fun n => (h.mem_names n).symm, fun e => (h.mem_edges e).symm, fun n => (h.record?_eq n).symm⟩

theorem includes_eq (h : Alike g k) : g.Includes = k.Includes := by
  funext a b
  exact propext (h.mem_edges (a, b))

theorem project_eq (h : Alike g k) (n : Text) : g.project n = k.project n :=
  NameSet.ext fun m => mem_project.trans ((h.mem_edges (n, m)).trans mem_project.symm)

theorem libraries_eq (h : Alike g k) (n : Text) : g.libraries n = k.libraries n := by
  rw [libraries, libraries, h.record?_eq]

theorem perm_dependents (h : Alike g k) (hg : WellFormed g) (hk : WellFormed k) (n : Text) :
    (g.dependents n).Perm (k.dependents n) := by
  rw [List.perm_ext_iff_of_nodup (hg.nodup_dependents n) (hk.nodup_dependents n)]
  intro m
  rw [mem_dependents, mem_dependents, h.mem_edges]

theorem mem_descendants (h : Alike g k) (hg : WellFormed g) (hk : WellFormed k) (n m : Text) :
    m ∈ g.descendants n ↔ m ∈ k.descendants n := by
  rw [mem_descendants_iff hg, mem_descendants_iff hk, h.includes_eq]

theorem transitiveProject_eq (h : Alike g k) (hg : WellFormed g) (hk : WellFormed k) (n : Text) :
    g.transitiveProject n = k.transitiveProject n :=
  NameSet.ext fun m =>
    NameSet.mem_ofList.trans ((h.mem_descendants hg hk n m).trans NameSet.mem_ofList.symm)

theorem transitiveLibraries_eq (h : Alike g k) (hg : WellFormed g) (hk : WellFormed k)
    (n : Text) : g.transitiveLibraries n = k.transitiveLibraries n := by
  refine NameSet.ext fun l => ?_
  simp only [mem_transitiveLibraries_iff, h.libraries_eq, h.mem_descendants hg hk]

theorem nodeCount_eq (h : Alike g k) (hg : WellFormed g) (hk : WellFormed k) :
    g.nodeCount = k.nodeCount := by
  have hperm : g.names.Perm k.names :=
    (List.perm_ext_iff_of_nodup hg.nodup_names hk.nodup_names).2 h.mem_names
  simpa [nodeCount, names] using hperm.length_eq

theorem edgeCount_eq (h : Alike g k) (hg : WellFormed g) (hk : WellFormed k) :
    g.edgeCount = k.edgeCount :=
  ((List.perm_ext_iff_of_nodup hg.nodup_edges hk.nodup_edges).2 h.mem_edges).length_eq

/-! ## Cycles and build orders -/

theorem isCycle_iff (h : Alike g k) (c : List Text) : g.IsCycle c ↔ k.IsCycle c := by
  cases c with
  | nil => exact Iff.rfl
  | cons start way => rw [IsCycle, IsCycle, Way, Way, h.includes_eq]

theorem cycles_eq (h : Alike g k) (hg : WellFormed g) (hk : WellFormed k) :
    g.cycles = k.cycles := by
  refine Ascending.eq_of_mem_iff (Ascending.pairwise_ofList _) (Ascending.pairwise_ofList _)
    fun c => ?_
  exact (mem_cycles_iff hg).trans
    ((and_congr_left' (h.isCycle_iff c)).trans (mem_cycles_iff hk).symm)

theorem acyclic_iff (h : Alike g k) : g.Acyclic ↔ k.Acyclic := by
  rw [Acyclic, Acyclic, h.includes_eq]

theorem isBuildOrder (h : Alike g k) {order : List Text} (ho : g.IsBuildOrder order) :
    k.IsBuildOrder order where
  nodup := ho.nodup
  mem_iff n := (ho.mem_iff n).trans (h.mem_names n)
  before a b hab := ho.before a b (by rwa [h.includes_eq])

/-- Both graphs have a build order, each valid for the other, or both report the same cycle. -/
theorem buildOrder_cases (h : Alike g k) (hg : WellFormed g) (hk : WellFormed k) :
    (∃ order other, g.buildOrder = .ok order ∧ k.buildOrder = .ok other ∧ order.Perm other ∧
      (g.IsBuildOrder order ∧ k.IsBuildOrder order) ∧
      g.IsBuildOrder other ∧ k.IsBuildOrder other) ∨
    ∃ e, g.buildOrder = .error e ∧ k.buildOrder = .error e := by
  rcases buildOrder_eq hg with ⟨ha, ho, hok⟩ | ⟨ha, herr⟩
  · rcases buildOrder_eq hk with ⟨-, hother, hkok⟩ | ⟨hna, -⟩
    · have hperm : g.dependentsFirst.reverse.Perm k.dependentsFirst.reverse :=
        (List.perm_ext_iff_of_nodup ho.nodup hother.nodup).2 fun n =>
          (ho.mem_iff n).trans ((h.mem_names n).trans (hother.mem_iff n).symm)
      exact .inl ⟨_, _, hok, hkok, hperm, ⟨ho, h.isBuildOrder ho⟩,
        h.symm.isBuildOrder hother, hother⟩
    · exact absurd (h.acyclic_iff.1 ha) hna
  · rcases buildOrder_eq hk with ⟨hka, -, -⟩ | ⟨-, hkerr⟩
    · exact absurd (h.acyclic_iff.2 hka) ha
    · have hfirst : g.firstCycle = k.firstCycle := by
        rw [firstCycle, firstCycle, h.cycles_eq hg hk]
      exact .inr ⟨_, herr, by rw [hkerr, hfirst]⟩

end Alike

/-- Records of different classes can be added in any order. -/
theorem ofRecords_of_perm (h : ds.Perm es) (hn : (ds.map Dependence.className).Nodup) :
    let g := ofRecords ds
    let k := ofRecords es
    (∀ n, n ∈ g.names ↔ n ∈ k.names) ∧ (∀ e, e ∈ g.edges ↔ e ∈ k.edges) ∧
    (∀ n, g.record? n = k.record? n ∧ g.project n = k.project n ∧
      g.transitiveProject n = k.transitiveProject n ∧
      (g.dependents n).Nodup ∧ (g.dependents n).Perm (k.dependents n) ∧
      g.libraries n = k.libraries n ∧ g.transitiveLibraries n = k.transitiveLibraries n) ∧
    g.nodeCount = k.nodeCount ∧ g.edgeCount = k.edgeCount ∧ g.cycles = k.cycles ∧
    ((∃ order other, g.buildOrder = .ok order ∧ k.buildOrder = .ok other ∧ order.Perm other ∧
        (g.IsBuildOrder order ∧ k.IsBuildOrder order) ∧
        g.IsBuildOrder other ∧ k.IsBuildOrder other) ∨
      ∃ e, g.buildOrder = .error e ∧ k.buildOrder = .error e) := by
  intro g k
  have halike : Alike g k := alike_of_perm h hn
  have hg : WellFormed g := (shows_ofRecords ds).wellFormed
  have hk : WellFormed k := (shows_ofRecords es).wellFormed
  refine ⟨halike.mem_names, halike.mem_edges, fun n => ?_, halike.nodeCount_eq hg hk,
    halike.edgeCount_eq hg hk, halike.cycles_eq hg hk, halike.buildOrder_cases hg hk⟩
  exact ⟨halike.record?_eq n, halike.project_eq n, halike.transitiveProject_eq hg hk n,
    hg.nodup_dependents n, halike.perm_dependents hg hk n, halike.libraries_eq n,
    halike.transitiveLibraries_eq hg hk n⟩

/-- A class that is mentioned before its own record comes stands elsewhere among the names, but all
answers about it stay. -/
theorem ofRecords_of_perm_mentioned :
    let main : Dependence := ⟨"Main".toList, NameSet.ofList ["Timer".toList, "View".toList],
      NameSet.ofList ["map".toList]⟩
    let timer : Dependence := ⟨"Timer".toList, NameSet.ofList ["View".toList],
      NameSet.ofList ["ctime".toList]⟩
    let view : Dependence := ⟨"View".toList, NameSet.ofList ["Timer".toList], NameSet.empty⟩
    let g := ofRecords [main, timer, view]
    let k := ofRecords [view, main, timer]
    g.names = ["Main".toList, "Timer".toList, "View".toList] ∧
      k.names = ["View".toList, "Timer".toList, "Main".toList] ∧
      g.record? "Timer".toList = some timer ∧ k.record? "Timer".toList = some timer ∧
      g.transitiveLibraries "View".toList = k.transitiveLibraries "View".toList ∧
      g.cycles = k.cycles := by
  intro main timer view g k
  have hperm : [main, timer, view].Perm [view, main, timer] := by decide +kernel
  have hnodup : ([main, timer, view].map Dependence.className).Nodup := by decide +kernel
  obtain ⟨-, -, hanswers, -, -, hcycles, -⟩ := ofRecords_of_perm hperm hnodup
  have hrecord : g.record? "Timer".toList = some timer := by decide +kernel
  refine ⟨by decide +kernel, by decide +kernel, hrecord, ?_, ?_, hcycles⟩
  · rw [← (hanswers "Timer".toList).1, hrecord]
  · exact (hanswers "View".toList).2.2.2.2.2.2

end SourceSurvey.IncludeGraph
