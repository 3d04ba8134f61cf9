import Mathlib.Data.List.Chain
import SourceSurvey.IncludeGraph.Cycles
import SourceSurvey.Proofs.IncludeGraph.Reach

/-!
# The cycles that are listed

A cycle is a way from a class through other classes, each once, back to it. The list of cycles
holds exactly those that begin with their least name (`mem_cycles_iff`). Every cycle can be turned
to begin there, and every way back holds a cycle, so the list is empty exactly when no class leads
back to itself (`cycles_eq_nil_iff`).
-/

namespace SourceSurvey.IncludeGraph

open Relation

/-! ## Ways -/

/-- From `a` through the names in between to `b`, each class includes the next. -/
def Way (g : IncludeGraph) (a : Text) (between : List Text) (b : Text) : Prop :=
  List.IsChain g.Includes (a :: (between ++ [b]))

def IsCycle (g : IncludeGraph) : List Text → Prop
  | [] => False
  | start :: way => (start :: way).Nodup ∧ g.Way start way start

def Acyclic (g : IncludeGraph) : Prop := ∀ n, ¬TransGen g.Includes n n

def LeastFirst : List Text → Prop
  | [] => True
  | start :: way => ∀ n ∈ way, start < n

variable {g : IncludeGraph}

theorem way_nil {a b : Text} : g.Way a [] b ↔ (a, b) ∈ g.edges := by
  simp [Way, Includes]

theorem way_cons {a n b : Text} {w : List Text} :
    g.Way a (n :: w) b ↔ (a, n) ∈ g.edges ∧ g.Way n w b :=
  List.isChain_cons_cons

theorem way_append {a n b : Text} {p q : List Text} :
    g.Way a (p ++ n :: q) b ↔ g.Way a p n ∧ g.Way n q b := by
  unfold Way
  rw [List.append_assoc, List.cons_append, List.isChain_cons_split]

theorem Way.transGen {a b : Text} {w : List Text} (h : g.Way a w b) : TransGen g.Includes a b := by
  induction w generalizing a with
  | nil => exact .single (way_nil.1 h)
  | cons n w ih =>
    obtain ⟨hn, hw⟩ := way_cons.1 h
    exact (ih hw).head hn

/-- A way can be cut short where it meets one of its ends or a name twice. -/
theorem exists_way {a b : Text} (h : TransGen g.Includes a b) :
    ∃ w, g.Way a w b ∧ (a :: w).Nodup ∧ b ∉ w := by
  induction h using TransGen.head_induction_on with
  | @single a hab => exact ⟨[], way_nil.2 hab, by simp, by simp⟩
  | @head a c hac _ ih =>
    obtain ⟨w, hw, hnd, hb⟩ := ih
    by_cases hcb : c = b
    · subst hcb
      exact ⟨[], way_nil.2 hac, by simp, by simp⟩
    by_cases hm : a ∈ c :: w
    · rcases List.mem_cons.1 hm with rfl | hm
      · exact ⟨w, hw, hnd, hb⟩
      · obtain ⟨p, q, rfl⟩ := List.append_of_mem hm
        have hq : (a :: q).Nodup :=
          (List.nodup_append.1 (List.nodup_cons.1 hnd).2).2.1
        exact ⟨q, (way_append.1 hw).2, hq, fun h => hb (by simp [h])⟩
    · refine ⟨c :: w, way_cons.2 ⟨hac, hw⟩, List.nodup_cons.2 ⟨hm, hnd⟩, ?_⟩
      simp [Ne.symm hcb, hb]

/-! ## Turning a cycle -/

theorem isCycle_append_comm {p q : List Text} (h : g.IsCycle (p ++ q)) : g.IsCycle (q ++ p) := by
  cases p with
  | nil => simpa using h
  | cons a p =>
    cases q with
    | nil => simpa using h
    | cons b q =>
      obtain ⟨hnd, hw⟩ := h
      obtain ⟨hp, hq⟩ := way_append.1 hw
      have hnd' : ((a :: p) ++ (b :: q)).Nodup := hnd
      exact ⟨List.nodup_append_comm.1 hnd', way_append.2 ⟨hq, hp⟩⟩

/-- Every cycle can be turned to begin with its least name. -/
theorem exists_leastFirst {c : List Text} (h : g.IsCycle c) :
    ∃ p q, c = p ++ q ∧ g.IsCycle (q ++ p) ∧ LeastFirst (q ++ p) := by
  have hmem (n : Text) : n ∈ Ascending.ofList c ↔ n ∈ c := Ascending.mem_ofList
  have hlt := Ascending.pairwise_ofList c
  cases hl : Ascending.ofList c with
  | nil =>
    cases c with
    | nil => exact h.elim
    | cons a c => exact absurd ((hmem a).2 (by simp)) (by simp [hl])
  | cons m rest =>
    rw [hl] at hlt hmem
    obtain ⟨p, q, rfl⟩ := List.append_of_mem ((hmem m).1 (by simp))
    have hc : g.IsCycle (m :: q ++ p) := isCycle_append_comm h
    refine ⟨p, m :: q, rfl, hc, ?_⟩
    intro n hn
    have hne : n ≠ m := fun he => (List.nodup_cons.1 hc.1).1 (he ▸ hn)
    have hnl : n ∈ m :: rest := (hmem n).2 (by
      rcases List.mem_append.1 hn with hn | hn <;> simp [hn])
    exact (List.pairwise_cons.1 hlt).1 n ((List.mem_cons.1 hnl).resolve_left hne)

/-! ## What is listed -/

theorem flatMap_attach (names : List Text) (f : Text → List (List Text)) :
    (names.attach.flatMap fun n => f n.val) = names.flatMap f := by
  conv_rhs => rw [← List.attach_map_subtype_val names, List.flatMap_map]

theorem waysBack_eq (start current : Text) (free : List Text) :
    g.waysBack start current free =
      (if (current, start) ∈ g.edges then [[]] else []) ++
        free.flatMap fun n =>
          if (current, n) ∈ g.edges then (g.waysBack start n (free.erase n)).map (n :: ·)
          else [] := by
  rw [waysBack, ← flatMap_attach]

theorem cons_mem_waysBack_iff {start current n : Text} {free w : List Text} :
    n :: w ∈ g.waysBack start current free ↔
      n ∈ free ∧ (current, n) ∈ g.edges ∧ w ∈ g.waysBack start n (free.erase n) := by
  rw [waysBack_eq, List.mem_append, List.mem_flatMap]
  constructor
  · rintro (h | ⟨k, hk, hw⟩)
    · split at h <;> simp at h
    · split at hw
      · next he =>
        obtain ⟨v, hv, hkv⟩ := List.mem_map.1 hw
        obtain ⟨rfl, rfl⟩ := List.cons.inj hkv
        exact ⟨hk, he, hv⟩
      · cases hw
  · rintro ⟨hn, he, hw⟩
    refine .inr ⟨n, hn, ?_⟩
    rw [if_pos he]
    exact List.mem_map.2 ⟨w, hw, rfl⟩

theorem mem_waysBack_iff {start current : Text} {free w : List Text} (hf : free.Nodup) :
    w ∈ g.waysBack start current free ↔
      w.Nodup ∧ (∀ n ∈ w, n ∈ free) ∧ g.Way current w start := by
  induction w generalizing current free with
  | nil =>
    rw [waysBack_eq, way_nil]
    by_cases he : (current, start) ∈ g.edges
    · simp [he]
    · simp only [he, if_false, List.nil_append, List.mem_flatMap]
      constructor
      · rintro ⟨n, -, hn⟩
        split at hn <;> simp at hn
      · rintro ⟨-, -, h⟩
        exact h.elim
  | cons n w ih =>
    rw [cons_mem_waysBack_iff, ih (hf.erase n), way_cons, List.nodup_cons]
    constructor
    · rintro ⟨hn, he, hnd, hw, hway⟩
      refine ⟨⟨?_, hnd⟩, ?_, he, hway⟩
      · intro h
        exact ((hf.mem_erase_iff).1 (hw n h)).1 rfl
      · simpa using ⟨hn, fun k hk => List.mem_of_mem_erase (hw k hk)⟩
    · rintro ⟨⟨hnw, hnd⟩, hw, he, hway⟩
      refine ⟨hw n (by simp), he, hnd, ?_, hway⟩
      intro k hk
      have hne : k ≠ n := by
        rintro rfl
        exact hnw hk
      exact (hf.mem_erase_iff).2 ⟨hne, hw k (by simp [hk])⟩

theorem mem_names_of_way (h : WellFormed g) {a b n : Text} {w : List Text} (hw : g.Way a w b)
    (hn : n ∈ w) : n ∈ g.names := by
  obtain ⟨p, q, rfl⟩ := List.append_of_mem hn
  obtain ⟨m, -, hm⟩ := TransGen.tail'_iff.1 (way_append.1 hw).1.transGen
  exact (h.mem_names m n hm).2

/-- A walk meets what a chain of its steps through unmet names leads to. -/
theorem exists_reached {next : Text → List Text} {unmet w : List Text} {a x : Text}
    (h : List.IsChain (fun a b => b ∈ next a) (a :: (w ++ [x])))
    (hu : ∀ n ∈ w ++ [x], n ∈ unmet) :
    ∃ m ∈ next a, m ∈ unmet ∧ ReflTransGen (Within next unmet) m x := by
  induction w generalizing a with
  | nil => exact ⟨x, by simpa using h, hu x (by simp), .refl⟩
  | cons n w ih =>
    obtain ⟨hn, hw⟩ := List.isChain_cons_cons.1 h
    obtain ⟨m, hm, hmu, hmx⟩ := ih hw fun k hk => hu k (List.mem_cons_of_mem n hk)
    exact ⟨n, hn, hu n (by simp), hmx.head ⟨hm, hmu⟩⟩

theorem nodup_companions (start : Text) : (g.companions start).Nodup :=
  Ascending.nodup_ofList _

theorem nodup_reached (h : WellFormed g) (start : Text) :
    (explore g.successors (g.names.filter (start < ·)) (g.successors start)).Nodup :=
  nodup_explore (h.nodup_names.filter _)

theorem lt_of_mem_companions (h : WellFormed g) {start n : Text} (hn : n ∈ g.companions start) :
    start < n := by
  have hr := mem_unmet_of_mem_explore (nodup_reached h start) (Ascending.mem_ofList.1 hn)
  have hf := mem_unmet_of_mem_explore (h.nodup_names.filter _) hr
  simpa using (List.mem_filter.1 hf).2

/-- The names on a cycle that begins with its least name are companions of it. -/
theorem mem_companions (h : WellFormed g) {start n : Text} {way : List Text}
    (hway : g.Way start way start) (hlt : ∀ k ∈ way, start < k) (hn : n ∈ way) :
    n ∈ g.companions start := by
  -- every name on the cycle is reached from the start
  have reached (k : Text) (hk : k ∈ way) :
      k ∈ explore g.successors (g.names.filter (start < ·)) (g.successors start) := by
    obtain ⟨p, q, hpq⟩ := List.append_of_mem hk
    have hp : g.Way start p k := (way_append.1 (hpq ▸ hway)).1
    rw [mem_explore_iff (h.nodup_names.filter _)]
    have hchain : List.IsChain (fun a b => b ∈ g.successors a) (start :: (p ++ [k])) :=
      List.IsChain.imp (fun _ _ => mem_successors.2) hp
    apply exists_reached hchain
    intro m hm
    have hmw : m ∈ way := by
      rw [hpq]
      rcases List.mem_append.1 hm with hm | hm
      · simp [hm]
      · simp [List.mem_singleton.1 hm]
    exact List.mem_filter.2 ⟨mem_names_of_way h hway hmw, by simpa using hlt m hmw⟩
  obtain ⟨p, q, hpq⟩ := List.append_of_mem hn
  have hq : g.Way n q start := (way_append.1 (hpq ▸ hway)).2
  refine Ascending.mem_ofList.2 ((mem_explore_iff (nodup_reached h start)).2 ?_)
  have hback : List.IsChain (fun a b => b ∈ g.dependents a) (start :: (q.reverse ++ [n])) := by
    rw [show start :: (q.reverse ++ [n]) = (n :: (q ++ [start])).reverse by simp,
      List.isChain_reverse]
    exact List.IsChain.imp (fun _ _ => mem_dependents.2) hq
  apply exists_reached hback
  intro m hm
  apply reached
  rw [hpq]
  simp only [List.mem_append, List.mem_reverse, List.mem_singleton] at hm
  rcases hm with hm | rfl <;> simp_all

theorem mem_cycles_iff (h : WellFormed g) {c : List Text} :
    c ∈ g.cycles ↔ g.IsCycle c ∧ LeastFirst c := by
  unfold cycles
  rw [Ascending.mem_ofList, List.mem_flatMap]
  constructor
  · rintro ⟨start, -, hc⟩
    obtain ⟨way, hw, rfl⟩ := List.mem_map.1 hc
    obtain ⟨hnd, hfree, hway⟩ := (mem_waysBack_iff (nodup_companions start)).1 hw
    have hlt (n : Text) (hn : n ∈ way) : start < n := lt_of_mem_companions h (hfree n hn)
    have hstart : start ∉ way := by
      intro hm
      exact Std.lt_irrefl (hlt start hm)
    exact ⟨⟨List.nodup_cons.2 ⟨hstart, hnd⟩, hway⟩, hlt⟩
  · rintro ⟨hc, hlt⟩
    cases c with
    | nil => exact hc.elim
    | cons start way =>
      obtain ⟨hnd, hway⟩ := hc
      obtain ⟨m, -, hm⟩ := TransGen.tail'_iff.1 hway.transGen
      refine ⟨start, Ascending.mem_ofList.2 (h.mem_names m start hm).2, ?_⟩
      refine List.mem_map.2 ⟨way, (mem_waysBack_iff (nodup_companions start)).2 ?_, rfl⟩
      exact ⟨(List.nodup_cons.1 hnd).2, fun n hn => mem_companions h hway hlt hn, hway⟩

theorem two_le_length (h : WellFormed g) {c : List Text} (hc : g.IsCycle c) : 2 ≤ c.length := by
  cases c with
  | nil => exact hc.elim
  | cons start way =>
    cases way with
    | nil => exact absurd rfl (h.ne_of_mem start start (way_nil.1 hc.2))
    | cons n way => simp

theorem not_acyclic_iff : ¬g.Acyclic ↔ ∃ c, g.IsCycle c := by
  constructor
  · intro h
    obtain ⟨n, hn⟩ := not_forall_not.1 h
    obtain ⟨w, hw, hnd, -⟩ := exists_way hn
    exact ⟨n :: w, hnd, hw⟩
  · rintro ⟨c, hc⟩ h
    cases c with
    | nil => exact hc
    | cons start way => exact h start hc.2.transGen

/-- There is a cycle to list exactly when some class leads back to itself. -/
theorem cycles_eq_nil_iff (h : WellFormed g) : g.cycles = [] ↔ g.Acyclic := by
  rw [← not_iff_not, not_acyclic_iff]
  constructor
  · intro hne
    obtain ⟨c, hc⟩ := List.exists_mem_of_ne_nil _ hne
    exact ⟨c, ((mem_cycles_iff h).1 hc).1⟩
  · rintro ⟨c, hc⟩ hnil
    obtain ⟨p, q, -, hqp, hl⟩ := exists_leastFirst hc
    have hm := (mem_cycles_iff h).2 ⟨hqp, hl⟩
    simp [hnil] at hm

end SourceSurvey.IncludeGraph
