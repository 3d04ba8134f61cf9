import SourceSurvey.Proofs.DeclarationScan.Prototypes
import SourceSurvey.Proofs.FileSystem.Reading
import SourceSurvey.Proofs.Include.Extraction
import SourceSurvey.Proofs.Survey.Contents

/-!
# What scanning a list of files gives

The outcome is told file by file. `faultOf?`, `methodsOf`, `recordOf?` and `skips` say what one
file gives on its own. A file name without an accepted ending counts before every other fault,
whatever the files hold; otherwise the first fault counts; and without faults the survey `Covers`
the files. One more file keeps that up (`Covers.scanFile`), so a whole list does.
-/

namespace SourceSurvey

theorem Dependence.exists_ofSource_of_ofFile {fs : FileSystem} {p : Path} {d : Dependence}
    (h : ofFile fs p = .ok (some d)) :
    ∃ source, ofSource p.className p.toText source = .ok (some d) := by
  unfold ofFile at h
  cases hr : fs.readSource p with
  | error f => simp [hr] at h
  | ok source =>
    simp only [hr, mapError_eq_ok_iff] at h
    exact ⟨source, h⟩

/-- A record bears the class name of the path it was read from. -/
theorem Dependence.className_of_ofFile {fs : FileSystem} {p : Path} {d : Dependence}
    (h : ofFile fs p = .ok (some d)) : d.className = p.className := by
  obtain ⟨source, hs⟩ := exists_ofSource_of_ofFile h
  obtain ⟨-, found, -, rfl⟩ := ofSource_eq_some_iff.1 hs
  rfl

theorem Method.exists_ofSource_of_ofFile {fs : FileSystem} {p : Path} {ms : List Method}
    (h : ofFile fs p = .ok (some ms)) :
    ∃ source, ofSource p.className p.toText source = .ok (some ms) := by
  unfold ofFile at h
  cases hr : fs.readSource p with
  | error f => simp [hr] at h
  | ok source =>
    simp only [hr, mapError_eq_ok_iff] at h
    exact ⟨source, h⟩

namespace Survey

/-! ## One file -/

def failure? {ε α : Type} : Except ε α → Option ε
  | .error e => some e
  | .ok _ => none

section File

variable (fs : FileSystem) (x : Extensions) (p : Path)

/-- Why the file cannot be read or scanned, if it cannot. -/
def faultOf? : Option Fault :=
  if p.suffix ∈ x.sources then failure? (Dependence.ofFile fs p) else failure? (Method.ofFile fs p)

/-- The methods of a header. -/
def methodsOf : List Method :=
  if p.suffix ∈ x.sources then [] else (Method.ofFile fs p).toOption.join.getD []

/-- The record of a translation unit. -/
def recordOf? : Option Dependence :=
  if p.suffix ∈ x.sources then (Dependence.ofFile fs p).toOption.join else none

/-- Whether the file is blank or generated. -/
def skips : Bool :=
  if p.suffix ∈ x.sources then (Dependence.ofFile fs p).toOption = some none
  else (Method.ofFile fs p).toOption = some none

end File

variable {fs : FileSystem} {x : Extensions} {p : Path}

theorem faultOf?_of_readBytes {bytes : List UInt8} (h : fs.readBytes p = .ok bytes) :
    faultOf? fs x p =
      let source := Text.unifyNewlines (Text.Utf8.decodeLossy bytes)
      if p.suffix ∈ x.sources then
        failure? ((Dependence.ofSource p.className p.toText source).mapError .scan)
      else failure? ((Method.ofSource p.className p.toText source).mapError .scan) := by
  have hsource : fs.readSource p = .ok (Text.unifyNewlines (Text.Utf8.decodeLossy bytes)) := by
    rw [FileSystem.readSource, h]
    rfl
  simp only [faultOf?, Dependence.ofFile, Method.ofFile, hsource]

theorem faultOf?_of_holds {bytes : List UInt8} (h : fs.Holds p bytes) :
    faultOf? fs x p =
      let source := Text.unifyNewlines (Text.Utf8.decodeLossy bytes)
      if p.suffix ∈ x.sources then
        failure? ((Dependence.ofSource p.className p.toText source).mapError .scan)
      else failure? ((Method.ofSource p.className p.toText source).mapError .scan) :=
  faultOf?_of_readBytes (FileSystem.readBytes_of_holds h)

theorem ofFile_of_recordOf? {d : Dependence} (h : recordOf? fs x p = some d) :
    Dependence.ofFile fs p = .ok (some d) := by
  unfold recordOf? at h
  split at h
  · cases hd : Dependence.ofFile fs p with
    | error f => simp [hd, Except.toOption] at h
    | ok d? =>
      simp only [hd, Except.toOption, Option.join_some] at h
      rw [h]
  · cases h

theorem className_of_recordOf? {d : Dependence} (h : recordOf? fs x p = some d) :
    d.className = p.className :=
  Dependence.className_of_ofFile (ofFile_of_recordOf? h)

theorem exists_ofFile_of_mem_methodsOf {m : Method} (h : m ∈ methodsOf fs x p) :
    ∃ ms, Method.ofFile fs p = .ok (some ms) ∧ m ∈ ms := by
  unfold methodsOf at h
  split at h
  · cases h
  · cases hm : Method.ofFile fs p with
    | error f => simp [hm, Except.toOption] at h
    | ok ms? =>
      cases ms? with
      | none => simp [hm, Except.toOption] at h
      | some ms => exact ⟨ms, rfl, by simpa [hm, Except.toOption] using h⟩

theorem scanFile_eq_error {f : Fault} (s : Survey) (h : faultOf? fs x p = some f) :
    scanFile fs x s p = .error f := by
  unfold faultOf? at h
  unfold scanFile
  split at h
  · next hs =>
    rw [if_pos hs]
    cases hd : Dependence.ofFile fs p with
    | error g => simpa [hd, failure?, Except.map] using h
    | ok d? => simp [hd, failure?] at h
  · next hs =>
    rw [if_neg hs]
    cases hm : Method.ofFile fs p with
    | error g => simpa [hm, failure?, Except.map] using h
    | ok ms? => simp [hm, failure?] at h

/-- A file without a fault adds to the survey what it gives, and counts. -/
theorem scanFile_eq_ok (s : Survey) (h : faultOf? fs x p = none) :
    ∃ t, scanFile fs x s p = .ok t ∧ t.filesScanned = s.filesScanned + 1 ∧
      t.methods = s.methods ++ methodsOf fs x p ∧
      t.skipped = s.skipped ++ (if skips fs x p then [p.toText] else []) ∧
      t.dependencies = ((recordOf? fs x p).elim s s.addDependence).dependencies := by
  unfold faultOf? at h
  unfold scanFile methodsOf skips recordOf?
  by_cases hs : p.suffix ∈ x.sources
  · simp only [hs, if_true] at h ⊢
    cases hd : Dependence.ofFile fs p with
    | error f => simp [hd, failure?] at h
    | ok d? =>
      cases d? with
      | none => exact ⟨_, rfl, by simp [skip, countFile, Except.toOption]⟩
      | some d => exact ⟨_, rfl, by simp [countFile, Except.toOption]⟩
  · simp only [hs, if_false] at h ⊢
    cases hm : Method.ofFile fs p with
    | error f => simp [hm, failure?] at h
    | ok ms? =>
      cases ms? with
      | none => exact ⟨_, rfl, by simp [skip, countFile, Except.toOption]⟩
      | some ms => exact ⟨_, rfl, by simp [addMethods, countFile, Except.toOption]⟩

/-! ## A list of files -/

/-- The paths of the translation units that are not skipped. -/
def recorded (fs : FileSystem) (x : Extensions) (paths : List Path) : List Path :=
  paths.filter fun p => (recordOf? fs x p).isSome

/-- The survey holds what the files at the paths give, in their order, and of each class the record
of the first path that gives one. -/
structure Covers (fs : FileSystem) (x : Extensions) (paths : List Path) (s : Survey) : Prop where
  filesScanned_eq : s.filesScanned = paths.length
  methods_eq : s.methods = paths.flatMap (methodsOf fs x)
  skipped_eq : s.skipped = (paths.filter (skips fs x)).map Path.toText
  classNames_eq : s.classNames = ((recorded fs x paths).map Path.className).eraseDups
  record?_eq : ∀ n, s.record? n =
    ((recorded fs x paths).find? fun p => p.className = n).bind (recordOf? fs x)

/-- The records of the paths are found by the class names of the paths. -/
theorem records_eq (fs : FileSystem) (x : Extensions) (paths : List Path) :
    (paths.filterMap (recordOf? fs x)).map Dependence.className =
        (recorded fs x paths).map Path.className ∧
      ∀ n, ((paths.filterMap (recordOf? fs x)).find? fun d => d.className = n) =
        ((recorded fs x paths).find? fun p => p.className = n).bind (recordOf? fs x) := by
  induction paths with
  | nil => exact ⟨rfl, fun _ => rfl⟩
  | cons p paths ih =>
    cases hp : recordOf? fs x p with
    | none => simpa [recorded, hp] using ih
    | some d =>
      have hd := className_of_recordOf? hp
      refine ⟨?_, fun n => ?_⟩
      · simpa [recorded, hp, hd] using ih.1
      · by_cases hn : p.className = n
        · simp [recorded, hp, hd, hn]
        · simpa [recorded, hp, hd, hn] using ih.2 n

theorem covers_iff {paths : List Path} {s : Survey} :
    Covers fs x paths s ↔ s.filesScanned = paths.length ∧
      s.methods = paths.flatMap (methodsOf fs x) ∧
      s.skipped = (paths.filter (skips fs x)).map Path.toText ∧
      Keeps s (paths.filterMap (recordOf? fs x)) := by
  obtain ⟨hc, hf⟩ := records_eq fs x paths
  constructor
  · intro h
    refine ⟨h.filesScanned_eq, h.methods_eq, h.skipped_eq, ?_, fun n => ?_⟩
    · rw [hc, h.classNames_eq]
    · rw [hf, h.record?_eq]
  · rintro ⟨hn, hm, hs, hk⟩
    refine ⟨hn, hm, hs, ?_, fun n => ?_⟩
    · rw [← hc, hk.classNames_eq]
    · rw [← hf, hk.record?_eq]

theorem covers_empty : Covers fs x [] empty :=
  covers_iff.2 ⟨rfl, rfl, rfl, keeps_empty⟩

/-- One more file without a fault. -/
theorem Covers.scanFile {paths : List Path} {s : Survey} (h : Covers fs x paths s)
    (hp : faultOf? fs x p = none) :
    ∃ t, Survey.scanFile fs x s p = .ok t ∧ Covers fs x (paths ++ [p]) t := by
  obtain ⟨hn, hm, hs, hk⟩ := covers_iff.1 h
  obtain ⟨t, ht, hn', hm', hs', hd'⟩ := scanFile_eq_ok s hp
  refine ⟨t, ht, covers_iff.2 ⟨?_, ?_, ?_, ?_⟩⟩
  · rw [hn', hn, List.length_append, List.length_singleton]
  · rw [hm', hm, List.flatMap_append, List.flatMap_singleton]
  · rw [hs', hs, List.filter_append, List.map_append]
    cases hk : skips fs x p <;> simp [hk]
  · rw [List.filterMap_append]
    cases hr : recordOf? fs x p with
    | none =>
      rw [hr, Option.elim_none] at hd'
      simpa [hr] using hk.of_dependencies_eq hd'
    | some d =>
      rw [hr, Option.elim_some] at hd'
      simpa [hr] using (hk.addDependence d).of_dependencies_eq hd'

theorem Covers.scanFiles {before paths : List Path} {s : Survey} (h : Covers fs x before s)
    (hp : paths.findSome? (faultOf? fs x) = none) :
    ∃ t, Survey.scanFiles fs x s paths = .ok t ∧ Covers fs x (before ++ paths) t := by
  induction paths generalizing before s with
  | nil => exact ⟨s, rfl, by rwa [List.append_nil]⟩
  | cons p paths ih =>
    rw [List.findSome?_cons] at hp
    cases hf : faultOf? fs x p with
    | some f => simp [hf] at hp
    | none =>
      obtain ⟨t, ht, hc⟩ := h.scanFile hf
      obtain ⟨u, hu, hcu⟩ := ih hc (by simpa [hf] using hp)
      refine ⟨u, ?_, by simpa using hcu⟩
      rw [Survey.scanFiles, ht]
      exact hu

/-- The first fault ends a scan. -/
theorem scanFiles_eq_error {paths : List Path} {f : Fault} (s : Survey)
    (h : paths.findSome? (faultOf? fs x) = some f) : scanFiles fs x s paths = .error f := by
  induction paths generalizing s with
  | nil => cases h
  | cons p paths ih =>
    rw [List.findSome?_cons] at h
    cases hf : faultOf? fs x p with
    | some g =>
      have hg : g = f := by simpa [hf] using h
      rw [scanFiles, scanFile_eq_error s hf, hg]
    | none =>
      obtain ⟨t, ht, -⟩ := scanFile_eq_ok s hf
      rw [scanFiles, ht]
      exact ih t (by simpa [hf] using h)

/-! ## File names that are not accepted -/

/-- No extractor accepts the file name. -/
def Unsupported (x : Extensions) (p : Path) : Prop := p.suffix ∉ x.sources ∧ p.suffix ∉ x.headers

instance (x : Extensions) : DecidablePred (Unsupported x) := fun p =>
  inferInstanceAs (Decidable (p.suffix ∉ x.sources ∧ p.suffix ∉ x.headers))

theorem unsupported_iff : Unsupported x p ↔ p.suffix ∉ x.accepted := by
  rw [Unsupported, Extensions.accepted, Ascending.mem_ofList, List.mem_append, not_or]

theorem unsupported?_eq (x : Extensions) (paths : List Path) :
    unsupported? x paths = (paths.find? fun p => Unsupported x p).map fun p =>
      ⟨.unsupportedExtension p.suffix x.accepted, some p.toText, none⟩ := by
  induction paths with
  | nil => rfl
  | cons p paths ih =>
    by_cases hp : Unsupported x p
    · rw [unsupported?, if_neg (unsupported_iff.1 hp), List.find?_cons_of_pos (by simpa using hp)]
      rfl
    · rw [unsupported?, if_pos (not_not.1 (mt unsupported_iff.2 hp)),
        List.find?_cons_of_neg (by simpa using hp), ih]

theorem ofFiles_outcome (x : Extensions) (paths : List Path) :
    (∀ p, (paths.find? fun p => Unsupported x p) = some p → ∀ fs, ofFiles fs x paths =
      .error (.scan ⟨.unsupportedExtension p.suffix x.accepted, some p.toText, none⟩)) ∧
    ((∀ p ∈ paths, p.suffix ∈ x.sources ∨ p.suffix ∈ x.headers) → ∀ fs,
      (∀ f, paths.findSome? (faultOf? fs x) = some f → ofFiles fs x paths = .error f) ∧
      (paths.findSome? (faultOf? fs x) = none →
        ∃ s, ofFiles fs x paths = .ok s ∧ Covers fs x paths s)) := by
  refine ⟨?_, ?_⟩
  · intro p hp fs
    rw [ofFiles, unsupported?_eq, hp]
    rfl
  · intro hall fs
    have hnone : unsupported? x paths = none := by
      rw [unsupported?_eq, Option.map_eq_none_iff, List.find?_eq_none]
      intro p hp hu
      have hu : Unsupported x p := by simpa using hu
      exact (hall p hp).elim hu.1 hu.2
    rw [ofFiles, hnone]
    refine ⟨fun f hf => scanFiles_eq_error empty hf, fun hf => ?_⟩
    obtain ⟨s, hs, hc⟩ := covers_empty.scanFiles hf
    exact ⟨s, hs, hc⟩

theorem covers_of_ofFiles {paths : List Path} {s : Survey} (h : ofFiles fs x paths = .ok s) :
    Covers fs x paths s := by
  rw [ofFiles] at h
  split at h
  · cases h
  · cases hf : paths.findSome? (faultOf? fs x) with
    | some f => cases h.symm.trans (scanFiles_eq_error empty hf)
    | none =>
      obtain ⟨t, ht, hc⟩ := covers_empty.scanFiles hf
      exact Except.ok.inj (ht.symm.trans h) ▸ hc

theorem Covers.keeps {paths : List Path} {s : Survey} (h : Covers fs x paths s) :
    Keeps s (paths.filterMap (recordOf? fs x)) :=
  (covers_iff.1 h).2.2.2

/-- What a survey records was read from sources, so all that is included has a name. -/
theorem Covers.name_ne_nil {paths : List Path} {s : Survey} (h : Covers fs x paths s)
    {d : Dependence} (hd : d ∈ s.records) {n : Text} (hn : n ∈ d.project ∨ n ∈ d.libraries) :
    n ≠ [] := by
  obtain ⟨p, -, hp⟩ := List.mem_filterMap.1 (h.keeps.mem_of_mem_records hd)
  obtain ⟨source, hsource⟩ := Dependence.exists_ofSource_of_ofFile (ofFile_of_recordOf? hp)
  have hw := Dependence.wellFormed_of_mem_includes hsource
  rcases hn with hn | hn
  · exact (hw ⟨n, false⟩ (Dependence.mem_includes.2 (.inl ⟨rfl, hn⟩))).ne_nil
  · exact (hw ⟨n, true⟩ (Dependence.mem_includes.2 (.inr ⟨rfl, hn⟩))).ne_nil

/-- The types of parameters were read from declarations, so each is a word. -/
theorem Covers.paramType_ne_nil {paths : List Path} {s : Survey} (h : Covers fs x paths s)
    {m : Method} (hm : m ∈ s.methods) {t : Text} (ht : t ∈ m.paramTypes) : t ≠ [] := by
  rw [h.methods_eq, List.mem_flatMap] at hm
  obtain ⟨p, -, hp⟩ := hm
  obtain ⟨ms, hfile, hmem⟩ := exists_ofFile_of_mem_methodsOf hp
  obtain ⟨source, hsource⟩ := Method.exists_ofSource_of_ofFile hfile
  obtain ⟨d, hd, rfl⟩ := Method.wellFormed_of_ofSource hsource m hmem
  exact (hd.paramTypes t ht).isWord.1

/-- A file name that is not accepted counts before a broken header, and a broken header before a
later file that is missing. The second of two units of one class is read in vain. -/
theorem ofFiles_outcome_order :
    let bytes (t : String) : List UInt8 := Text.Utf8.encode t.toList
    let fs : FileSystem := ⟨[(["A.h".toList], .file (bytes "void reset();\n")),
      (["B.x".toList], .file (bytes "#include <map>\n")), (["sub".toList], .directory),
      (["sub".toList, "B.cpp".toList], .file (bytes "#include <set>\n")),
      (["empty.h".toList], .file []), (["bad.h".toList], .file (bytes "int sum(\n"))],
      [], by decide⟩
    let x : Extensions := ⟨[".cpp".toList, ".x".toList], [".h".toList, ".x".toList]⟩
    let path (t : String) : Path := Path.ofText t.toList
    ofFiles fs x [path "bad.h", path "notes.txt"] = .error (.scan
        ⟨.unsupportedExtension ".txt".toList x.accepted, some "notes.txt".toList, none⟩) ∧
      ofFiles fs x [path "A.h", path "bad.h", path "missing.h"] = .error (.scan
        ⟨.openParameters 1, some "bad.h".toList, some 1⟩) ∧
      ∃ s, ofFiles fs x [path "A.h", path "B.x", path "empty.h", path "sub/B.cpp"] = .ok s ∧
        Covers fs x [path "A.h", path "B.x", path "empty.h", path "sub/B.cpp"] s := by
  intro bytes fs x path
  have hA : fs.Holds (path "A.h") (bytes "void reset();\n") := by decide +kernel
  have hB : fs.Holds (path "B.x") (bytes "#include <map>\n") := by decide +kernel
  have hC : fs.Holds (path "sub/B.cpp") (bytes "#include <set>\n") := by decide +kernel
  have hE : fs.Holds (path "empty.h") [] := by decide +kernel
  have hbad : fs.Holds (path "bad.h") (bytes "int sum(\n") := by decide +kernel
  have hfault : [path "A.h", path "bad.h", path "missing.h"].findSome? (faultOf? fs x) =
      some (.scan ⟨.openParameters 1, some "bad.h".toList, some 1⟩) := by
    rw [List.findSome?_cons, faultOf?_of_holds hA, List.findSome?_cons, faultOf?_of_holds hbad]
    rfl
  have hnone : [path "A.h", path "B.x", path "empty.h", path "sub/B.cpp"].findSome?
      (faultOf? fs x) = none := by
    rw [List.findSome?_cons, faultOf?_of_holds hA, List.findSome?_cons, faultOf?_of_holds hB,
      List.findSome?_cons, faultOf?_of_holds hE, List.findSome?_cons, faultOf?_of_holds hC]
    rfl
  refine ⟨?_, ?_, ?_⟩
  · exact (ofFiles_outcome x [path "bad.h", path "notes.txt"]).1 (path "notes.txt")
      (by decide +kernel) fs
  · exact ((ofFiles_outcome x [path "A.h", path "bad.h", path "missing.h"]).2
      (by decide +kernel) fs).1 _ hfault
  · exact ((ofFiles_outcome x [path "A.h", path "B.x", path "empty.h", path "sub/B.cpp"]).2
      (by decide +kernel) fs).2 hnone

end Survey

end SourceSurvey
