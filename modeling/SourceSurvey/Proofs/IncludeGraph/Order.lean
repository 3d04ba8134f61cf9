import SourceSurvey.IncludeGraph.Order
import SourceSurvey.Proofs.IncludeGraph.Cycles

/-!
# Build orders

The queue of the sort always holds the names left that no class left includes. So the names that
are taken stand in order, and a name that is never taken is included by another such name
(`taken_takeFrom`). In a finite graph that means a cycle, hence the order exists exactly when there
is none, and `buildOrder_ofEdits` says what it and its failure show.
-/

namespace SourceSurvey.IncludeGraph

open Relation

variable {g : IncludeGraph}

/-- No class that is left includes the name. -/
def Free (g : IncludeGraph) (left : List Text) (n : Text) : Prop := ∀ k ∈ left, ¬g.Includes k n

theorem isFree_iff {left : List Text} {n : Text} : g.isFree left n = true ↔ g.Free left n := by
  simp only [isFree, List.all_eq_true, decide_eq_true_eq, mem_dependents]
  exact ⟨fun h k hk hn => h k hn hk, fun h k hn hk => h k hk hn⟩

/-- The queue holds all names left that are free, and no other name left. -/
structure Queued (g : IncludeGraph) (left queue : List Text) : Prop where
  free : ∀ n ∈ queue, n ∈ left → g.Free left n
  mem : ∀ n ∈ left, g.Free left n → n ∈ queue

theorem Free.erase {left : List Text} {m n : Text} (h : g.Free left m) :
    g.Free (left.erase n) m :=
  fun k hk => h k (List.mem_of_mem_erase hk)

/-- Taking a name frees only names that it includes. -/
theorem Queued.take {left queue : List Text} {n : Text} (hl : left.Nodup)
    (h : Queued g left (n :: queue)) :
    Queued g (left.erase n)
      (queue ++ (g.successors n).filter (g.isFree (left.erase n))) where
  free m hm hml := by
    rcases List.mem_append.1 hm with hm | hm
    · exact (h.free m (by simp [hm]) (List.mem_of_mem_erase hml)).erase
    · exact isFree_iff.1 (List.mem_filter.1 hm).2
  mem m hm hf := by
    obtain ⟨hmn, hml⟩ := (hl.mem_erase_iff).1 hm
    by_cases hb : g.Includes n m
    · have hs : m ∈ (g.successors n).filter (g.isFree (left.erase n)) :=
        List.mem_filter.2 ⟨mem_successors.2 hb, isFree_iff.2 hf⟩
      exact List.mem_append_right _ hs
    · have hfree : g.Free left m := by
        intro k hk
        by_cases hkn : k = n
        · rwa [hkn]
        · exact hf k ((hl.mem_erase_iff).2 ⟨hkn, hk⟩)
      have hq := h.mem m hml hfree
      exact List.mem_append_left _ ((List.mem_cons.1 hq).resolve_left hmn)

theorem Queued.drop {left queue : List Text} {n : Text} (hn : n ∉ left)
    (h : Queued g left (n :: queue)) : Queued g left queue where
  free m hm hml := h.free m (by simp [hm]) hml
  mem m hml hf := by
    have hne : m ≠ n := fun he => hn (he ▸ hml)
    exact (List.mem_cons.1 (h.mem m hml hf)).resolve_left hne

/-- What the sort takes from the names left: names in order, and none that an untaken one blocks. -/
structure Taken (g : IncludeGraph) (left out : List Text) : Prop where
  nodup : out.Nodup
  mem_left : ∀ n ∈ out, n ∈ left
  ordered : out.Pairwise fun a b => ¬g.Includes b a
  blocked : ∀ n ∈ left, n ∉ out → ∃ k ∈ left, k ∉ out ∧ g.Includes k n

theorem taken_takeFrom {left queue : List Text} (hl : left.Nodup) (hq : Queued g left queue) :
    Taken g left (g.takeFrom left queue) := by
  induction left, queue using takeFrom.induct g with
  | case1 left =>
    -- the queue has run dry, so no name that is left is free
    rw [takeFrom]
    refine ⟨List.nodup_nil, by simp, List.Pairwise.nil, ?_⟩
    intro n hn _
    have hnf : ¬g.Free left n := by
      intro hf
      simpa using hq.mem n hn hf
    simp only [Free, not_forall, not_not] at hnf
    obtain ⟨k, hk, hkn⟩ := hnf
    exact ⟨k, hk, by simp, hkn⟩
  | case2 left n queue hn ih =>
    have ht := ih (hl.erase n) (hq.take hl)
    rw [takeFrom, if_pos hn]
    refine ⟨List.nodup_cons.2 ⟨?_, ht.nodup⟩, ?_, List.pairwise_cons.2 ⟨?_, ht.ordered⟩, ?_⟩
    · intro h
      exact hl.not_mem_erase (ht.mem_left n h)
    · intro m hm
      rcases List.mem_cons.1 hm with rfl | hm
      · exact hn
      · exact List.mem_of_mem_erase (ht.mem_left m hm)
    · intro m hm
      apply hq.free n (by simp) hn
      exact List.mem_of_mem_erase (ht.mem_left m hm)
    · intro m hm hmo
      rw [List.mem_cons, not_or] at hmo
      obtain ⟨k, hk, hko, hkm⟩ := ht.blocked m ((hl.mem_erase_iff).2 ⟨hmo.1, hm⟩) hmo.2
      obtain ⟨hkn, hkl⟩ := (hl.mem_erase_iff).1 hk
      exact ⟨k, hkl, by simp [hkn, hko], hkm⟩
  | case3 left n queue hn ih =>
    rw [takeFrom, if_neg hn]
    exact ih hl (hq.drop hn)

theorem taken_dependentsFirst (h : WellFormed g) : Taken g g.names g.dependentsFirst := by
  apply taken_takeFrom h.nodup_names
  constructor
  · intro n hn _
    exact isFree_iff.1 (List.mem_filter.1 hn).2
  · intro n hn hf
    exact List.mem_filter.2 ⟨hn, isFree_iff.2 hf⟩

/-! ## When every name is taken -/

/-- Where names that are left over block one another, some class leads back to itself. -/
theorem exists_transGen_self {s : List Text} (hs : s ≠ [])
    (h : ∀ n ∈ s, ∃ k ∈ s, g.Includes k n) : ∃ n, TransGen g.Includes n n := by
  by_contra hc
  -- else leading to one another is well-founded on the names, and a least one is not included
  have hirr : Std.Irrefl fun a b : {n // n ∈ s} => TransGen g.Includes a b :=
    ⟨fun a ha => hc ⟨a, ha⟩⟩
  have htrans : IsTrans {n // n ∈ s} fun a b => TransGen g.Includes a b :=
    ⟨fun _ _ _ => TransGen.trans⟩
  have hwf := Finite.wellFounded_of_trans_of_irrefl
    fun a b : {n // n ∈ s} => TransGen g.Includes a b
  obtain ⟨n, hn⟩ := List.exists_mem_of_ne_nil s hs
  obtain ⟨⟨m, hm⟩, -, hmin⟩ := hwf.has_min Set.univ ⟨⟨n, hn⟩, trivial⟩
  obtain ⟨k, hk, hkm⟩ := h m hm
  exact hmin ⟨k, hk⟩ trivial (.single hkm)

theorem Taken.mem_of_acyclic {left out : List Text} (h : Taken g left out) (ha : g.Acyclic)
    {n : Text} (hn : n ∈ left) : n ∈ out := by
  by_contra hno
  have hne : left.filter (· ∉ out) ≠ [] :=
    List.ne_nil_of_mem (List.mem_filter.2 ⟨hn, by simpa using hno⟩)
  have hblocked : ∀ m ∈ left.filter (· ∉ out), ∃ k ∈ left.filter (· ∉ out), g.Includes k m := by
    intro m hm
    obtain ⟨hml, hmo⟩ := List.mem_filter.1 hm
    obtain ⟨k, hkl, hko, hkm⟩ := h.blocked m hml (by simpa using hmo)
    exact ⟨k, List.mem_filter.2 ⟨hkl, by simpa using hko⟩, hkm⟩
  obtain ⟨m, hm⟩ := exists_transGen_self hne hblocked
  exact ha m hm

/-- Of two members that are not in order, the second stands first. -/
theorem idxOf_lt_of_not {R : Text → Text → Prop} {l : List Text} (h : l.Pairwise R) {a b : Text}
    (ha : a ∈ l) (hb : b ∈ l) (hne : a ≠ b) (hR : ¬R a b) : l.idxOf b < l.idxOf a := by
  by_contra hlt
  have hla := List.idxOf_lt_length_of_mem ha
  have hlb := List.idxOf_lt_length_of_mem hb
  have hidx : l.idxOf a ≠ l.idxOf b := fun he => hne ((List.idxOf_inj ha).1 he)
  have hR' := List.pairwise_iff_getElem.1 h (l.idxOf a) (l.idxOf b) hla hlb (by omega)
  rw [List.getElem_idxOf, List.getElem_idxOf] at hR'
  exact hR hR'

/-- An order of all names in which each class comes after what it includes. -/
structure IsBuildOrder (g : IncludeGraph) (order : List Text) : Prop where
  nodup : order.Nodup
  mem_iff : ∀ n, n ∈ order ↔ n ∈ g.names
  before : ∀ a b, TransGen g.Includes a b → order.idxOf b < order.idxOf a

theorem Taken.isBuildOrder (h : WellFormed g) {out : List Text} (ht : Taken g g.names out)
    (hall : ∀ n ∈ g.names, n ∈ out) : g.IsBuildOrder out.reverse where
  nodup := List.nodup_reverse.2 ht.nodup
  mem_iff n := by
    rw [List.mem_reverse]
    exact ⟨ht.mem_left n, hall n⟩
  before a b hab := by
    have hp : out.reverse.Pairwise fun a b => ¬g.Includes a b :=
      List.pairwise_reverse.2 ht.ordered
    have one (a b : Text) (he : g.Includes a b) : out.reverse.idxOf b < out.reverse.idxOf a := by
      obtain ⟨ha, hb⟩ := h.mem_names a b he
      exact idxOf_lt_of_not hp (List.mem_reverse.2 (hall a ha)) (List.mem_reverse.2 (hall b hb))
        (h.ne_of_mem a b he) (not_not.2 he)
    induction hab with
    | single he => exact one _ _ he
    | tail _ he ih => exact (one _ _ he).trans ih

theorem IsBuildOrder.acyclic {order : List Text} (h : g.IsBuildOrder order) : g.Acyclic :=
  fun n hn => (h.before n n hn).ne rfl

/-- The order exists exactly in a graph without a cycle. -/
theorem buildOrder_eq (h : WellFormed g) :
    (g.Acyclic ∧ g.IsBuildOrder g.dependentsFirst.reverse ∧
        g.buildOrder = .ok g.dependentsFirst.reverse) ∨
      (¬g.Acyclic ∧ g.buildOrder = .error (.includeCycle g.firstCycle)) := by
  have ht := taken_dependentsFirst h
  have hsub : g.dependentsFirst ⊆ g.names := ht.mem_left
  have hcount : g.nodeCount = g.names.length := by simp [nodeCount, names]
  unfold buildOrder
  rw [hcount]
  by_cases hlen : g.dependentsFirst.length = g.names.length
  · have hperm : g.dependentsFirst.Perm g.names :=
      (List.subperm_of_subset ht.nodup hsub).perm_of_length_le hlen.ge
    have ho := ht.isBuildOrder h fun n hn => hperm.mem_iff.2 hn
    exact .inl ⟨ho.acyclic, ho, if_pos hlen⟩
  · refine .inr ⟨?_, if_neg hlen⟩
    intro ha
    have hall : g.names ⊆ g.dependentsFirst := fun n hn => ht.mem_of_acyclic ha hn
    apply hlen
    exact Nat.le_antisymm (ht.nodup.subperm hsub).length_le (h.nodup_names.subperm hall).length_le

/-- After any edits the order exists exactly when there is no cycle, puts every class after all
that it leads to, and otherwise the first listed cycle is reported. -/
theorem buildOrder_ofEdits (edits : List Edit) :
    let g := ofEdits edits
    ((∃ order, g.buildOrder = .ok order) ↔ ¬∃ n, TransGen (fun a b => (a, b) ∈ g.edges) n n) ∧
    ((∃ order, g.buildOrder = .ok order) ↔ g.cycles = []) ∧
    (∀ order, g.buildOrder = .ok order →
      order.Nodup ∧ (∀ n, n ∈ order ↔ n ∈ g.names) ∧
      ∀ n, ∀ m ∈ g.transitiveProject n, order.idxOf m < order.idxOf n) ∧
    ∀ e, g.buildOrder = .error e →
      ∃ c others, g.cycles = c :: others ∧ g.IsCycle c ∧ 2 ≤ c.length ∧ e = .includeCycle c ∧
        e.message = "include cycle detected: ".toList ++ Text.join " -> ".toList c := by
  intro g
  have h : WellFormed g := wellFormed_ofEdits edits
  have hacyclic : (¬∃ n, TransGen (fun a b => (a, b) ∈ g.edges) n n) ↔ g.Acyclic := not_exists
  rw [hacyclic, cycles_eq_nil_iff h]
  rcases buildOrder_eq h with ⟨ha, ho, hok⟩ | ⟨ha, herr⟩
  · have hex : ∃ order, g.buildOrder = .ok order := ⟨_, hok⟩
    refine ⟨iff_of_true hex ha, iff_of_true hex ha, ?_, ?_⟩
    · intro order heq
      rw [hok] at heq
      cases heq
      refine ⟨ho.nodup, ho.mem_iff, ?_⟩
      intro n m hm
      apply ho.before
      exact ((mem_transitiveProject_iff h).1 hm).2
    · intro e heq
      rw [hok] at heq
      cases heq
  · have hex : ¬∃ order, g.buildOrder = .ok order := by
      rintro ⟨order, heq⟩
      rw [herr] at heq
      cases heq
    refine ⟨iff_of_false hex ha, iff_of_false hex ha, ?_, ?_⟩
    · intro order heq
      exact absurd ⟨order, heq⟩ hex
    · intro e heq
      rw [herr] at heq
      cases heq
      cases hc : g.cycles with
      | nil => exact absurd ((cycles_eq_nil_iff h).1 hc) ha
      | cons c others =>
        have hcycle := ((mem_cycles_iff h).1 (hc ▸ List.mem_cons_self ..)).1
        have hfirst : g.firstCycle = c := by simp [firstCycle, hc]
        rw [hfirst]
        exact ⟨c, others, rfl, hcycle, two_le_length h hcycle, rfl, rfl⟩

end SourceSurvey.IncludeGraph
