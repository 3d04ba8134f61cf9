import SourceSurvey.IncludeGraph.Reach
import SourceSurvey.Proofs.Distinct

/-!
# What a graph holds after its edits

A graph is told by the records that were added since it was last cleared, in their order. `Shows`
says what the records make of it; adding one more record keeps that up, so every graph that edits
make from the empty one shows its records.
-/

namespace SourceSurvey.IncludeGraph

/-! ## Records and what they mention -/

/-- The records since the last clearing, when one more edit comes. -/
def Edit.records (rs : List Dependence) : Edit → List Dependence
  | .add d => rs ++ [d]
  | .clear => []

def sinceClear (edits : List Edit) : List Dependence := edits.foldl Edit.records []

/-- Each record's own name and then its targets. -/
def mentions (rs : List Dependence) : List Text :=
  rs.flatMap fun d => d.className :: d.project.names

/-- Some record of the class lists the name. -/
def Lists (rs : List Dependence) (source target : Text) : Prop :=
  source ≠ target ∧ ∃ d ∈ rs, d.className = source ∧ target ∈ d.project

def lastRecord? (rs : List Dependence) (name : Text) : Option Dependence :=
  rs.reverse.find? fun d => d.className = name

/-- The graph holds what the records say, each name and each edge once. -/
structure Shows (g : IncludeGraph) (rs : List Dependence) : Prop where
  names_eq : g.names = (mentions rs).eraseDups
  mem_edges : ∀ a b, (a, b) ∈ g.edges ↔ Lists rs a b
  nodup_edges : g.edges.Nodup
  record?_eq : ∀ n, g.record? n = lastRecord? rs n

theorem mem_mentions {rs : List Dependence} {n : Text} :
    n ∈ mentions rs ↔ ∃ d ∈ rs, n = d.className ∨ n ∈ d.project := by
  simp only [mentions, List.mem_flatMap, List.mem_cons]
  rfl

theorem lists_concat {rs : List Dependence} {d : Dependence} {a b : Text} :
    Lists (rs ++ [d]) a b ↔ Lists rs a b ∨ (d.className = a ∧ a ≠ b ∧ b ∈ d.project) := by
  simp only [Lists, List.mem_append, List.mem_singleton]
  constructor
  · rintro ⟨hne, e, he | rfl, ha, hb⟩
    · exact .inl ⟨hne, e, he, ha, hb⟩
    · exact .inr ⟨ha, hne, hb⟩
  · rintro (⟨hne, e, he, ha, hb⟩ | ⟨ha, hne, hb⟩)
    · exact ⟨hne, e, .inl he, ha, hb⟩
    · exact ⟨hne, d, .inr rfl, ha, hb⟩

/-! ## The name of a record -/

theorem find?_name_eq_none {g : IncludeGraph} {n : Text} (h : n ∉ g.names) :
    (g.nodes.find? fun m => m.name = n) = none := by
  rw [List.find?_eq_none]
  intro m hm he
  apply h
  exact List.mem_map.2 ⟨m, hm, by simpa using he⟩

theorem name_replaced (d : Dependence) (m : Node) :
    (if m.name = d.className then (⟨m.name, some d⟩ : Node) else m).name = m.name := by
  split <;> rfl

variable (g : IncludeGraph) (d : Dependence)

theorem names_attach :
    (g.attach d).names =
      if d.className ∈ g.names then g.names else g.names ++ [d.className] := by
  unfold attach
  split
  · simp only [names, List.map_map]
    exact List.map_congr_left fun m _ => name_replaced d m
  · simp [names]

theorem edges_attach : (g.attach d).edges = g.edges := by
  unfold attach
  split <;> rfl

theorem record?_eq_none {n : Text} (h : n ∉ g.names) : g.record? n = none := by
  rw [record?, find?_name_eq_none h, Option.bind_none]

/-- A node with a new name says what is recorded for the name and for no other. -/
theorem record?_append {node : Node} (h : node.name ∉ g.names) (edges : List Edge) (n : Text) :
    (⟨g.nodes ++ [node], edges⟩ : IncludeGraph).record? n =
      if n = node.name then node.record else g.record? n := by
  split
  · next he =>
    subst he
    simp [record?, find?_name_eq_none h]
  · next he => simp [record?, List.find?_append, Ne.symm he]

theorem record?_attach (n : Text) :
    (g.attach d).record? n = if n = d.className then some d else g.record? n := by
  unfold attach
  split
  · next h =>
    have hname : ((fun m : Node => decide (m.name = n)) ∘ fun m : Node =>
        if m.name = d.className then ⟨m.name, some d⟩ else m) = fun m => decide (m.name = n) := by
      funext m
      rw [Function.comp_apply, name_replaced]
    rw [record?, List.find?_map, hname, record?]
    cases hf : g.nodes.find? fun m => decide (m.name = n) with
    | none =>
      have hn : n ≠ d.className := by
        rintro rfl
        obtain ⟨m, hm, he⟩ := List.mem_map.1 h
        exact absurd he (by simpa using List.find?_eq_none.1 hf m hm)
      rw [if_neg hn]
      rfl
    | some k =>
      have hk : k.name = n := by simpa using List.find?_some hf
      subst hk
      simp only [Option.map_some, Option.bind_some]
      split <;> rfl
  · next h => exact record?_append g h g.edges n

/-! ## The targets of a record -/

theorem nodes_connect (source target : Text) :
    (g.connect source target).nodes =
      if target = source ∨ target ∈ g.names then g.nodes else g.nodes ++ [⟨target, none⟩] := by
  unfold connect
  split
  · next ht => rw [if_pos (.inl ht)]
  · next ht => simp only [ht, false_or]

theorem edges_connect (source target : Text) :
    (g.connect source target).edges =
      if target = source ∨ (source, target) ∈ g.edges then g.edges
      else g.edges ++ [(source, target)] := by
  unfold connect
  split
  · next ht => rw [if_pos (.inl ht)]
  · next ht => simp only [ht, false_or]

section Targets

variable {g} {source : Text}

theorem names_connect (hs : source ∈ g.names) (target : Text) :
    (g.connect source target).names =
      if target ∈ g.names then g.names else g.names ++ [target] := by
  have hm : target = source ∨ target ∈ g.names ↔ target ∈ g.names :=
    or_iff_right_of_imp fun ht => ht ▸ hs
  rw [names, nodes_connect]
  simp only [hm]
  split
  · rfl
  · exact List.map_append

theorem record?_connect (target n : Text) :
    (g.connect source target).record? n = g.record? n := by
  rw [record?, nodes_connect]
  split
  · rfl
  · next ht =>
    rw [not_or] at ht
    refine (record?_append g ht.2 g.edges n).trans ?_
    split
    · next he => rw [he, record?_eq_none g ht.2]
    · rfl

theorem mem_edges_connect (target a b : Text) :
    (a, b) ∈ (g.connect source target).edges ↔
      (a, b) ∈ g.edges ∨ (source = a ∧ a ≠ b ∧ b = target) := by
  rw [edges_connect]
  split
  · next h =>
    constructor
    · exact .inl
    · rintro (he | ⟨rfl, hne, rfl⟩)
      · exact he
      · exact h.resolve_left hne.symm
  · next h =>
    rw [not_or] at h
    rw [List.mem_append, List.mem_singleton, Prod.mk.injEq]
    constructor
    · rintro (he | ⟨rfl, rfl⟩)
      · exact .inl he
      · exact .inr ⟨rfl, Ne.symm h.1, rfl⟩
    · rintro (he | ⟨rfl, -, rfl⟩)
      · exact .inl he
      · exact .inr ⟨rfl, rfl⟩

theorem nodup_edges_connect (hg : g.edges.Nodup) (target : Text) :
    (g.connect source target).edges.Nodup := by
  rw [edges_connect]
  split
  · exact hg
  · next h =>
    refine List.nodup_append.2 ⟨hg, List.nodup_singleton _, ?_⟩
    rintro e he f hf rfl
    rw [List.mem_singleton] at hf
    apply h
    exact .inr (hf ▸ he)

variable (targets : List Text)

theorem names_foldl_connect {l : List Text} (hl : g.names = l.eraseDups) (hs : source ∈ l) :
    (targets.foldl (connect source) g).names = (l ++ targets).eraseDups := by
  induction targets generalizing g l with
  | nil => simpa using hl
  | cons t targets ih =>
    have hsg : source ∈ g.names := by rwa [hl, List.mem_eraseDups]
    have ht : (g.connect source t).names = (l ++ [t]).eraseDups := by
      rw [names_connect hsg, eraseDups_concat, hl]
      simp only [List.mem_eraseDups]
    rw [List.foldl_cons, ih ht (by simp [hs]), List.append_assoc, List.singleton_append]

theorem record?_foldl_connect (n : Text) :
    (targets.foldl (connect source) g).record? n = g.record? n := by
  induction targets generalizing g with
  | nil => rfl
  | cons t targets ih => rw [List.foldl_cons, ih, record?_connect]

theorem mem_edges_foldl_connect (a b : Text) :
    (a, b) ∈ (targets.foldl (connect source) g).edges ↔
      (a, b) ∈ g.edges ∨ (source = a ∧ a ≠ b ∧ b ∈ targets) := by
  induction targets generalizing g with
  | nil => simp
  | cons t targets ih =>
    rw [List.foldl_cons, ih, mem_edges_connect, or_assoc, ← and_or_left, ← and_or_left,
      List.mem_cons]

theorem nodup_edges_foldl_connect (h : g.edges.Nodup) :
    (targets.foldl (connect source) g).edges.Nodup := by
  induction targets generalizing g with
  | nil => exact h
  | cons t targets ih => exact ih (nodup_edges_connect h t)

end Targets

/-! ## Edits -/

theorem shows_empty : Shows empty [] where
  names_eq := rfl
  mem_edges a b := by simp [empty, Lists]
  nodup_edges := List.nodup_nil
  record?_eq n := rfl

/-- One more record keeps a graph true to its records. -/
theorem shows_add {g : IncludeGraph} {rs : List Dependence} (h : Shows g rs) (d : Dependence) :
    Shows (g.add d) (rs ++ [d]) := by
  have hnames : (g.attach d).names = (mentions rs ++ [d.className]).eraseDups := by
    rw [names_attach, eraseDups_concat, h.names_eq]
    simp only [List.mem_eraseDups]
  constructor
  · rw [add, names_foldl_connect _ hnames (by simp)]
    simp [mentions]
  · intro a b
    rw [add, mem_edges_foldl_connect, edges_attach, h.mem_edges, lists_concat]
    rfl
  · exact nodup_edges_foldl_connect _ (by rw [edges_attach]; exact h.nodup_edges)
  · intro n
    rw [add, record?_foldl_connect, record?_attach, h.record?_eq, lastRecord?, lastRecord?,
      List.reverse_concat, List.find?_cons]
    split
    · next hn => simp [hn]
    · next hn => simp [Ne.symm hn]

theorem shows_ofRecords (ds : List Dependence) : Shows (ofRecords ds) ds := by
  induction ds using List.reverseRecOn with
  | nil => exact shows_empty
  | append_singleton ds d ih =>
    rw [ofRecords, List.foldl_append]
    exact shows_add ih d

theorem shows_edit {g : IncludeGraph} {rs : List Dependence} (h : Shows g rs) (e : Edit) :
    Shows (g.edit e) (e.records rs) := by
  cases e with
  | add d => exact shows_add h d
  | clear => exact shows_empty

theorem shows_foldl_edit {g : IncludeGraph} {rs : List Dependence} (h : Shows g rs)
    (edits : List Edit) : Shows (edits.foldl edit g) (edits.foldl Edit.records rs) := by
  induction edits generalizing g rs with
  | nil => exact h
  | cons e edits ih => exact ih (shows_edit h e)

theorem shows_ofEdits (edits : List Edit) : Shows (ofEdits edits) (sinceClear edits) :=
  shows_foldl_edit shows_empty edits

end SourceSurvey.IncludeGraph
