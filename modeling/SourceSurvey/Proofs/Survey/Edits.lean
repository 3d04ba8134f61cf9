import SourceSurvey.Proofs.Survey.Contents

/-!
# What a survey holds after its edits

A survey recounts the edits that made it: the methods in the order they came, the first record of
each class, the labels of the skipped files. `Recounts` says so of every survey that edits make
from the empty one. Each edit changes only what it names (`Spares`), and of a method only the flags
can change, to those it was given last (`recounts_ofEdits`).
-/

namespace SourceSurvey

/-- What a method was declared as, which is all of it but its flags. -/
def Method.declared (m : Method) : Text × Text × Text × List Text :=
  (m.className, m.returnType, m.methodName, m.paramTypes)

/-- Records of different classes are all kept in their set. -/
theorem Dependence.distinct_eq_self {ds : List Dependence} (h : (ds.map className).Nodup) :
    distinct ds = ds := by
  induction ds with
  | nil => rfl
  | cons d ds ih =>
    rw [List.map_cons, List.nodup_cons] at h
    have hfilter : ds.filter (fun e => decide (sameClass e d = false)) = ds := by
      refine List.filter_eq_self.2 fun e he => ?_
      have hne : e.className ≠ d.className := fun heq => h.1 (heq ▸ List.mem_map_of_mem he)
      simpa [sameClass] using hne
    have hrest : ds.eraseDupsBy sameClass = ds := ih h.2
    rw [distinct, List.eraseDupsBy_cons, hfilter, hrest]

namespace Survey

/-! ## What edits add -/

def Edit.methods : Edit → List Method
  | .addMethods ms => ms
  | _ => []

def Edit.record? : Edit → Option Dependence
  | .addDependence d => some d
  | _ => none

def Edit.label? : Edit → Option Text
  | .skip label => some label
  | _ => none

def addedMethods (edits : List Edit) : List Method := edits.flatMap Edit.methods

def addedRecords (edits : List Edit) : List Dependence := edits.filterMap Edit.record?

def skippedLabels (edits : List Edit) : List Text := edits.filterMap Edit.label?

/-- The method at the index after the edit. -/
def Edit.flag (index : Nat) (m : Method) : Edit → Method
  | .setFlags i included inputData =>
    if i = index then { m with included := included, inputData := inputData } else m
  | _ => m

theorem filterMap_concat {α β : Type} (f : α → Option β) (l : List α) (a : α) :
    (l ++ [a]).filterMap f = l.filterMap f ++ (f a).toList := by
  rw [List.filterMap_append, List.filterMap_cons]
  cases f a <;> rfl

theorem ofEdits_concat (edits : List Edit) (e : Edit) :
    ofEdits (edits ++ [e]) = (ofEdits edits).edit e := by
  rw [ofEdits, List.foldl_append]
  rfl

/-! ## One edit -/

/-- The edit changes no component that it does not name. -/
structure Spares (s : Survey) (e : Edit) : Prop where
  methods : (∀ ms, e ≠ .addMethods ms) →
    (∀ i included inputData, e ≠ .setFlags i included inputData) →
    (s.edit e).methods = s.methods
  dependencies : (∀ d, e ≠ .addDependence d) → (s.edit e).dependencies = s.dependencies
  skipped : (∀ label, e ≠ .skip label) → (s.edit e).skipped = s.skipped
  filesScanned : (s.edit e).filesScanned = s.filesScanned

variable (s : Survey)

theorem spares_edit (e : Edit) : Spares s e := by
  cases e with
  | addMethods ms => exact ⟨fun h => absurd rfl (h ms), fun _ => rfl, fun _ => rfl, rfl⟩
  | addDependence d =>
    exact ⟨fun _ _ => methods_addDependence s d, fun h => absurd rfl (h d),
      fun _ => skipped_addDependence s d, filesScanned_addDependence s d⟩
  | skip label => exact ⟨fun _ _ => rfl, fun _ => rfl, fun h => absurd rfl (h label), rfl⟩
  | setFlags i included inputData =>
    exact ⟨fun _ h => absurd rfl (h i included inputData), fun _ => rfl, fun _ => rfl, rfl⟩

variable {s}

theorem dependencies_addDependence {d : Dependence} (h : s.isNew d = true) :
    (s.addDependence d).dependencies = s.dependencies ++ [(d.className, d)] := by
  rw [addDependence, if_pos h]

theorem addDependence_eq_self {d : Dependence} (h : s.isNew d = false) : s.addDependence d = s := by
  rw [addDependence, if_neg (by simp [h])]

theorem getElem?_methods_edit {i : Nat} (hi : i < s.methods.length) (e : Edit) :
    (s.edit e).methods[i]? = s.methods[i]?.map fun m => e.flag i m := by
  cases e with
  | addMethods ms => simp [edit, addMethods, Edit.flag, List.getElem?_append_left hi]
  | addDependence d => simp [edit, Edit.flag]
  | skip label => simp [edit, skip, Edit.flag]
  | setFlags j included inputData =>
    simp only [edit, setFlags, Edit.flag, List.getElem?_modify]
    rfl

theorem length_methods_edit (e : Edit) :
    (s.edit e).methods.length = s.methods.length + e.methods.length := by
  cases e with
  | addMethods ms => simp [edit, addMethods, Edit.methods]
  | addDependence d => simp [edit, Edit.methods]
  | skip label => rfl
  | setFlags i included inputData => simp [edit, setFlags, Edit.methods]

theorem declared_methods_edit (e : Edit) :
    (s.edit e).methods.map Method.declared =
      s.methods.map Method.declared ++ e.methods.map Method.declared := by
  cases e with
  | addMethods ms => simp [edit, addMethods, Edit.methods]
  | addDependence d => simp [edit, Edit.methods]
  | skip label => simp [edit, skip, Edit.methods]
  | setFlags i included inputData =>
    simp only [edit, setFlags, Edit.methods, List.map_nil, List.append_nil]
    refine List.ext_getElem? fun j => ?_
    rw [List.getElem?_map, List.getElem?_map, List.getElem?_modify]
    cases s.methods[j]? with
    | none => rfl
    | some m => by_cases h : i = j <;> simp [h, Method.declared]

/-! ## Many edits -/

/-- A method stays at its index, and the edits change its flags alone. -/
theorem getElem?_methods_foldl_edit {i : Nat} (hi : i < s.methods.length) (edits : List Edit) :
    (edits.foldl edit s).methods[i]? = s.methods[i]?.map fun m => edits.foldl (Edit.flag i) m := by
  induction edits generalizing s with
  | nil => simp
  | cons e edits ih =>
    have hlt : i < (s.edit e).methods.length := by
      have := length_methods_edit (s := s) e
      omega
    rw [List.foldl_cons, ih hlt, getElem?_methods_edit hi, Option.map_map]
    rfl

/-- The flags last until they are set again. -/
theorem foldl_flag_eq_self {i : Nat} (m : Method) {edits : List Edit}
    (h : ∀ included inputData, .setFlags i included inputData ∉ edits) :
    edits.foldl (Edit.flag i) m = m := by
  induction edits with
  | nil => rfl
  | cons e edits ih =>
    have hrest := ih fun included inputData hm => h included inputData (List.mem_cons_of_mem e hm)
    have hone : Edit.flag i m e = m := by
      cases e with
      | setFlags j included inputData =>
        refine if_neg fun hj => h included inputData ?_
        rw [hj]
        exact List.mem_cons_self
      | addMethods ms => rfl
      | addDependence d => rfl
      | skip label => rfl
    rw [List.foldl_cons, hone, hrest]

/-- What the survey holds is what the edits added to the empty one. -/
structure Recounts (s : Survey) (edits : List Edit) : Prop where
  keys : ∀ e ∈ s.dependencies, e.1 = e.2.className
  keeps : Keeps s (addedRecords edits)
  declared : s.methods.map Method.declared = (addedMethods edits).map Method.declared
  untouched : ∀ i, (∀ included inputData, .setFlags i included inputData ∉ edits) →
    s.methods[i]? = (addedMethods edits)[i]?
  skipped_eq : s.skipped = skippedLabels edits
  filesScanned_eq : s.filesScanned = 0

theorem recounts_empty : Recounts empty [] where
  keys _ he := absurd he List.not_mem_nil
  keeps := keeps_empty
  declared := rfl
  untouched _ _ := rfl
  skipped_eq := rfl
  filesScanned_eq := rfl

variable {edits : List Edit}

theorem keys_edit (h : ∀ e ∈ s.dependencies, e.1 = e.2.className) (e : Edit) :
    ∀ entry ∈ (s.edit e).dependencies, entry.1 = entry.2.className := by
  cases e with
  | addDependence d =>
    cases hn : s.isNew d with
    | true =>
      have hadd : (s.edit (.addDependence d)).dependencies = _ := dependencies_addDependence hn
      rw [hadd]
      intro entry he
      rcases List.mem_append.1 he with he | he
      · exact h entry he
      · rw [List.mem_singleton.1 he]
    | false =>
      have hsame : s.edit (.addDependence d) = s := addDependence_eq_self hn
      rwa [hsame]
  | _ => exact h

theorem Keeps.edit {ds : List Dependence} (h : Keeps s ds) (e : Edit) :
    Keeps (s.edit e) (ds ++ e.record?.toList) := by
  cases e with
  | addDependence d => exact h.addDependence d
  | _ =>
    show Keeps _ (ds ++ [])
    rw [List.append_nil]
    exact h.of_dependencies_eq rfl

theorem Recounts.length_methods (h : Recounts s edits) :
    s.methods.length = (addedMethods edits).length := by
  simpa using congrArg List.length h.declared

theorem Recounts.untouched_edit (h : Recounts s edits) (e : Edit) {i : Nat}
    (hi : ∀ included inputData, .setFlags i included inputData ∉ edits ++ [e]) :
    (s.edit e).methods[i]? = (addedMethods edits ++ e.methods)[i]? := by
  have hbefore := h.untouched i fun included inputData hm =>
    hi included inputData (List.mem_append_left _ hm)
  cases e with
  | addMethods ms =>
    show (s.methods ++ ms)[i]? = (addedMethods edits ++ ms)[i]?
    rw [List.getElem?_append, List.getElem?_append, h.length_methods, hbefore]
  | addDependence d => simpa [Survey.edit, Edit.methods] using hbefore
  | skip label => simpa [Survey.edit, skip, Edit.methods] using hbefore
  | setFlags j included inputData =>
    have hj : j ≠ i := fun hj => hi included inputData (by simp [hj])
    simpa [Survey.edit, setFlags, Edit.methods, List.getElem?_modify, hj] using hbefore

theorem skipped_edit (s : Survey) (e : Edit) :
    (s.edit e).skipped = s.skipped ++ e.label?.toList := by
  cases e with
  | skip label => rfl
  | addDependence d => simp [Survey.edit, Edit.label?]
  | addMethods ms => exact (List.append_nil _).symm
  | setFlags i included inputData => exact (List.append_nil _).symm

/-- One more edit is recounted with the others. -/
theorem Recounts.edit (h : Recounts s edits) (e : Edit) : Recounts (s.edit e) (edits ++ [e]) where
  keys := keys_edit h.keys e
  keeps := by
    rw [addedRecords, filterMap_concat]
    exact h.keeps.edit e
  declared := by
    rw [declared_methods_edit, h.declared, addedMethods, addedMethods, List.flatMap_append,
      List.flatMap_singleton, List.map_append]
  untouched i hi := by
    rw [h.untouched_edit e hi, addedMethods, addedMethods, List.flatMap_append,
      List.flatMap_singleton]
  skipped_eq := by
    rw [skipped_edit, h.skipped_eq, skippedLabels, skippedLabels, filterMap_concat]
  filesScanned_eq := (spares_edit s e).filesScanned.trans h.filesScanned_eq

theorem recounts_edits (edits : List Edit) : Recounts (ofEdits edits) edits := by
  -- from the last edit back, since each one is made on what all before it have left
  induction edits using List.reverseRecOn with
  | nil => exact recounts_empty
  | append_singleton edits e ih =>
    rw [ofEdits_concat]
    exact ih.edit e

/-- No record of the survey is lost in the set of its records. -/
theorem Recounts.dependencySet_eq (h : Recounts s edits) : s.dependencySet = s.records := by
  have hnames : s.records.map Dependence.className = s.classNames := by
    rw [records, classNames, List.map_map]
    exact List.map_congr_left fun e he => (h.keys e he).symm
  refine Dependence.distinct_eq_self ?_
  rw [hnames, h.keeps.classNames_eq]
  exact nodup_eraseDups _

theorem Recounts.isNew_iff (h : Recounts s edits) (d : Dependence) :
    s.isNew d = true ↔ ∀ e ∈ addedRecords edits, e.className ≠ d.className := by
  rw [isNew, decide_eq_true_eq, h.keeps.classNames_eq, List.mem_eraseDups, List.mem_map]
  simp only [not_exists, not_and, ne_eq]

/-- The flags of a method are those it was given last. -/
theorem flags_of_setFlags (before after : List Edit) {i : Nat} {m : Method} (included : Bool)
    (inputData : Option Path) (hm : (ofEdits before).methods[i]? = some m)
    (h : ∀ b p, .setFlags i b p ∉ after) :
    (ofEdits (before ++ .setFlags i included inputData :: after)).methods[i]? =
      some { m with included := included, inputData := inputData } := by
  have hi : i < (ofEdits before).methods.length := (List.getElem?_eq_some_iff.1 hm).1
  have hstep := getElem?_methods_edit hi (.setFlags i included inputData)
  rw [hm, Option.map_some, Edit.flag, if_pos rfl] at hstep
  have hi' := (List.getElem?_eq_some_iff.1 hstep).1
  rw [ofEdits, List.foldl_append, List.foldl_cons]
  refine (getElem?_methods_foldl_edit hi' after).trans ?_
  rw [hstep, Option.map_some, foldl_flag_eq_self _ h]

/-- After any edits the survey recounts them, and what one more edit does is told by them. -/
theorem recounts_ofEdits (edits : List Edit) :
    let s := ofEdits edits
    Recounts s edits ∧ s.dependencySet = s.records ∧ s.dependencySet.length = s.dependencyCount ∧
    (∀ d, (s.isNew d = true ↔ ∀ e ∈ addedRecords edits, e.className ≠ d.className) ∧
      (s.isNew d = true →
        (s.addDependence d).dependencies = s.dependencies ++ [(d.className, d)]) ∧
      (s.isNew d = false → s.addDependence d = s)) ∧
    (∀ i m included inputData after, s.methods[i]? = some m →
      (∀ b p, .setFlags i b p ∉ after) →
      (ofEdits (edits ++ .setFlags i included inputData :: after)).methods[i]? =
        some { m with included := included, inputData := inputData }) ∧
    ∀ e, Spares s e := by
  intro s
  have h : Recounts s edits := recounts_edits edits
  have hset := h.dependencySet_eq
  refine ⟨h, hset, ?_, fun d => ?_, ?_, fun e => spares_edit s e⟩
  · rw [hset, records, List.length_map]
    rfl
  · exact ⟨h.isNew_iff d, dependencies_addDependence, addDependence_eq_self⟩
  · intro i m included inputData after hm hafter
    exact flags_of_setFlags edits after included inputData hm hafter

end Survey

end SourceSurvey
