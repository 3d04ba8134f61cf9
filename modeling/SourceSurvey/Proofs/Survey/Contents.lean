import SourceSurvey.Proofs.Distinct
import SourceSurvey.Survey

/-!
# The records a survey keeps

A survey is told by the records that were added to it, in their order: it has one record for each
class, the first that came. `Keeps` says so, and adding one more record keeps that up.
-/

namespace SourceSurvey.Survey

/-- The survey has the classes of the records in the order of their first record, and for each
class that first record. -/
structure Keeps (s : Survey) (ds : List Dependence) : Prop where
  classNames_eq : s.classNames = (ds.map Dependence.className).eraseDups
  record?_eq : ∀ n, s.record? n = ds.find? fun d => d.className = n

variable (s : Survey) (d : Dependence)

theorem record?_eq_none_iff {n : Text} : s.record? n = none ↔ n ∉ s.classNames := by
  simp only [record?, classNames, Option.map_eq_none_iff, List.find?_eq_none, List.mem_map,
    decide_eq_true_eq, not_exists, not_and]

@[simp] theorem methods_addDependence : (s.addDependence d).methods = s.methods := by
  unfold addDependence
  split <;> rfl

@[simp] theorem filesScanned_addDependence :
    (s.addDependence d).filesScanned = s.filesScanned := by
  unfold addDependence
  split <;> rfl

@[simp] theorem skipped_addDependence : (s.addDependence d).skipped = s.skipped := by
  unfold addDependence
  split <;> rfl

theorem classNames_addDependence :
    (s.addDependence d).classNames =
      if d.className ∈ s.classNames then s.classNames else s.classNames ++ [d.className] := by
  by_cases h : d.className ∈ s.classNames
  · simp [addDependence, isNew, h]
  · rw [addDependence, if_pos (by simpa [isNew] using h), if_neg h]
    simp [classNames]

/-- A record that is there stays; only a class without a record gets one. -/
theorem record?_addDependence (n : Text) :
    (s.addDependence d).record? n =
      (s.record? n).or (if d.className = n then some d else none) := by
  by_cases h : d.className ∈ s.classNames
  · have hs : (s.addDependence d) = s := by simp [addDependence, isNew, h]
    rw [hs]
    split
    · next he =>
      subst he
      cases hr : s.record? d.className with
      | none => exact absurd h ((record?_eq_none_iff s).1 hr)
      | some r => rfl
    · rw [Option.or_none]
  · rw [addDependence, if_pos (by simpa [isNew] using h)]
    simp only [record?, List.find?_append, List.find?_singleton]
    cases s.dependencies.find? fun e => decide (e.1 = n) with
    | none => by_cases he : d.className = n <;> simp [he]
    | some e => rfl

theorem keeps_empty : Keeps empty [] where
  classNames_eq := rfl
  record?_eq _ := rfl

variable {s} {ds : List Dependence}

theorem Keeps.addDependence (h : Keeps s ds) : Keeps (s.addDependence d) (ds ++ [d]) where
  classNames_eq := by
    rw [classNames_addDependence, h.classNames_eq, List.map_append, List.map_singleton,
      eraseDups_concat]
    simp only [List.mem_eraseDups]
  record?_eq n := by
    rw [record?_addDependence, h.record?_eq, List.find?_append, List.find?_singleton]
    simp only [decide_eq_true_eq]

/-- What a survey keeps depends on its records alone. -/
theorem Keeps.of_dependencies_eq {t : Survey} (h : Keeps s ds)
    (ht : t.dependencies = s.dependencies) : Keeps t ds where
  classNames_eq := by
    rw [classNames, ht]
    exact h.classNames_eq
  record?_eq n := by
    rw [record?, ht]
    exact h.record?_eq n

/-! ## The records that are kept -/

variable {d}

theorem Keeps.nodup_classNames (h : Keeps s ds) : s.classNames.Nodup := by
  rw [h.classNames_eq]
  exact nodup_eraseDups _

/-- Each entry is found by the name it has. -/
theorem Keeps.record?_of_mem (h : Keeps s ds) {e : Text × Dependence} (he : e ∈ s.dependencies) :
    s.record? e.1 = some e.2 := by
  obtain ⟨k, hk⟩ : ∃ k, (s.dependencies.find? fun k => k.1 = e.1) = some k :=
    Option.isSome_iff_exists.1 (List.find?_isSome.2 ⟨e, he, by simp⟩)
  have hname : k.1 = e.1 := by simpa using List.find?_some hk
  have hke := List.inj_on_of_nodup_map h.nodup_classNames (List.mem_of_find?_eq_some hk) he hname
  rw [record?, hk, hke, Option.map_some]

/-- Each entry holds one of the records, under the name of its class. -/
theorem Keeps.entry (h : Keeps s ds) {e : Text × Dependence} (he : e ∈ s.dependencies) :
    e.2 ∈ ds ∧ e.2.className = e.1 := by
  have hr := h.record?_of_mem he
  rw [h.record?_eq] at hr
  exact ⟨List.mem_of_find?_eq_some hr, by simpa using List.find?_some hr⟩

theorem Keeps.className_of_record? (h : Keeps s ds) {n : Text} (hd : s.record? n = some d) :
    d.className = n := by
  rw [h.record?_eq] at hd
  simpa using List.find?_some hd

theorem Keeps.exists_record? (h : Keeps s ds) {n : Text} (hn : n ∈ s.classNames) :
    ∃ d ∈ s.records, s.record? n = some d := by
  obtain ⟨e, he, rfl⟩ := List.mem_map.1 hn
  exact ⟨e.2, List.mem_map_of_mem he, h.record?_of_mem he⟩

/-- Found by their names, the records are all there. -/
theorem Keeps.filterMap_record? (h : Keeps s ds) :
    s.classNames.filterMap s.record? = s.records := by
  rw [classNames, List.filterMap_map, records, ← List.filterMap_eq_map]
  exact List.filterMap_congr fun e he => h.record?_of_mem he

theorem Keeps.mem_of_mem_records (h : Keeps s ds) (hd : d ∈ s.records) : d ∈ ds := by
  obtain ⟨e, he, rfl⟩ := List.mem_map.1 hd
  exact (h.entry he).1

/-- The records that are kept are of different classes. -/
theorem Keeps.nodup_records (h : Keeps s ds) : (s.records.map Dependence.className).Nodup := by
  have hnames : s.records.map Dependence.className = s.classNames := by
    rw [records, List.map_map]
    exact List.map_congr_left fun e he => (h.entry he).2
  rw [hnames]
  exact h.nodup_classNames

end SourceSurvey.Survey
