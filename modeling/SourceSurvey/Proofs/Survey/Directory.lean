import SourceSurvey.Proofs.Discovery.Files
import SourceSurvey.Proofs.Include.Sources
import SourceSurvey.Proofs.Survey.Faults

/-!
# The survey of a directory

Every file that is found can be read and is accepted by one of the extractors, so the survey of a
directory can fail only with a defect of what a file holds. What the extractors report is of three
kinds and names the file it was met in. Hence a survey counts all files that were found, or it
reports the first of them that cannot be scanned (`ofDirectory_outcome`).
-/

namespace SourceSurvey

/-! ## Defects of a source -/

variable {className label source : Text} {e : ScanError}

theorem DeclarationScan.kind_of_declarations {lines : List Text} {d : Defect}
    (h : declarations lines = .error d) : d.kind = .openParameters ∨ d.kind = .openBody := by
  rw [declarations, State.finish] at h
  cases hm : (run lines).mode with
  | ready => simp [hm, Mode.defect?] at h
  | joining start text =>
    simp only [hm, Mode.defect?, Except.error.injEq] at h
    exact .inl (h ▸ rfl)
  | skipping start depth =>
    by_cases hz : depth = 0
    · simp [hm, Mode.defect?, hz] at h
    · simp only [hm, Mode.defect?, hz, if_false, Except.error.injEq] at h
      exact .inr (h ▸ rfl)

theorem Method.ofSource_error (h : ofSource className label source = .error e) :
    e.label = some label ∧ (e.defect.kind = .openParameters ∨ e.defect.kind = .openBody) := by
  rw [ofSource] at h
  split at h
  · cases h
  · rw [map_eq_error_iff, ofLines] at h
    split at h
    · next d hd =>
      rw [← Except.error.inj h]
      exact ⟨rfl, DeclarationScan.kind_of_declarations hd⟩
    · cases h

/-! ## Found files -/

variable {fs : FileSystem} {x : Survey.Extensions} {patterns : List Text} {directory : Path}
  {location : Location} {parts : List Text} {paths : List Path} {p : Path}

namespace Discovery

theorem mem_iff_of_discover (hw : fs.WellNamed) (hb : IsBase fs directory location)
    (hp : NoneEmpty patterns) (hl : ∀ parts, ¬IsTooLong fs directory location parts)
    (h : discover fs x patterns directory = .ok paths) :
    p ∈ paths ↔
      ∃ parts, IsSource fs x patterns directory location parts ∧ p = directory.below parts := by
  classical
  rw [discover_eq_ok hw hb hp hl, Except.ok.injEq] at h
  rw [← h]
  simp only [List.mem_map, List.mem_filter, Ascending.mem_ofList, mem_waysBelow_iff,
    decide_eq_true_eq]
  constructor
  · rintro ⟨parts, ⟨-, hs⟩, rfl⟩
    exact ⟨parts, hs, rfl⟩
  · rintro ⟨parts, hs, rfl⟩
    exact ⟨parts, ⟨hs.reached, hs⟩, rfl⟩

/-- What is found as a file is read as one. -/
theorem IsSource.exists_readBytes (h : IsSource fs x patterns directory location parts)
    (hw : fs.WellNamed) (hb : IsBase fs directory location)
    (hl : ¬IsTooLong fs directory location parts) :
    ∃ bytes, fs.readBytes (directory.below parts) = .ok bytes := by
  obtain ⟨bytes, hs⟩ := (status_eq_file_iff hw hb h.reached hl).2 h.isFile
  exact ⟨bytes, FileSystem.readBytes_of_status (nul_notMem_below hw hb h.reached) hs⟩

end Discovery

namespace Survey

variable {bytes : List UInt8} {f : Fault}

/-- An error that an extractor reports of a file. -/
structure IsDefectOf (p : Path) (e : ScanError) : Prop where
  label : e.label = some p.toText
  kind : e.defect.kind = .malformedInclude ∨ e.defect.kind = .openParameters ∨
    e.defect.kind = .openBody

/-- A file that is read can only have a defect. -/
theorem exists_isDefectOf (hr : fs.readBytes p = .ok bytes) (h : faultOf? fs x p = some f) :
    ∃ e, f = .scan e ∧ IsDefectOf p e := by
  simp only [faultOf?_of_readBytes hr] at h
  split at h
  · obtain ⟨e, he, rfl⟩ := mapError_eq_error_iff.1 (failure?_eq_some_iff.1 h)
    obtain ⟨hlabel, hkind⟩ := Dependence.ofSource_error he
    exact ⟨e, rfl, hlabel, .inl hkind⟩
  · obtain ⟨e, he, rfl⟩ := mapError_eq_error_iff.1 (failure?_eq_some_iff.1 h)
    obtain ⟨hlabel, hkind⟩ := Method.ofSource_error he
    exact ⟨e, rfl, hlabel, .inr hkind⟩

theorem ofFiles_eq_scanFiles (h : ∀ p ∈ paths, ¬Unsupported x p) :
    ofFiles fs x paths = scanFiles fs x empty paths := by
  have hnone : unsupported? x paths = none := by
    rw [unsupported?_eq, Option.map_eq_none_iff, List.find?_eq_none]
    exact fun p hp => by simpa using h p hp
  rw [ofFiles, hnone]

/-- All accepted files are counted, or the first with a fault is reported. -/
theorem ofFiles_cases (h : ∀ p ∈ paths, ¬Unsupported x p) :
    (∃ s, ofFiles fs x paths = .ok s ∧ s.filesScanned = paths.length ∧
      ∀ p ∈ paths, faultOf? fs x p = none) ∨
    ∃ before p after f, paths = before ++ p :: after ∧
      (∀ q ∈ before, faultOf? fs x q = none) ∧ faultOf? fs x p = some f ∧
      ofFiles fs x paths = .error f := by
  rw [ofFiles_eq_scanFiles h]
  cases hf : paths.findSome? (faultOf? fs x) with
  | none =>
    obtain ⟨s, hs, hc⟩ := covers_empty.scanFiles hf
    exact .inl ⟨s, hs, hc.filesScanned_eq, List.findSome?_eq_none_iff.1 hf⟩
  | some f =>
    obtain ⟨before, p, after, hpaths, hp, hbefore⟩ := List.findSome?_eq_some_iff.1 hf
    exact .inr ⟨before, p, after, f, hpaths, hbefore, hp, scanFiles_eq_error empty hf⟩

theorem exists_covers_of_ofDirectory {s : Survey}
    (h : ofDirectory fs patterns directory = .ok s) : ∃ paths, Covers fs .standard paths s := by
  rw [ofDirectory] at h
  split at h
  · cases h
  · next paths _ => exact ⟨paths, covers_of_ofFiles h⟩

/-- The survey of a directory counts every file that is found there, or it reports a defect of the
first one that cannot be scanned. -/
theorem ofDirectory_outcome (hw : fs.WellNamed) (hb : Discovery.IsBase fs directory location)
    (hp : Discovery.NoneEmpty patterns)
    (hl : ∀ parts, ¬Discovery.IsTooLong fs directory location parts) :
    ∃ paths, Discovery.discover fs .standard patterns directory = .ok paths ∧
      (∀ p ∈ paths, ¬Unsupported .standard p ∧ ∃ bytes, fs.readBytes p = .ok bytes) ∧
      ((∃ s, ofDirectory fs patterns directory = .ok s ∧ s.filesScanned = paths.length ∧
          ∀ p ∈ paths, faultOf? fs .standard p = none) ∨
        ∃ before p after e, paths = before ++ p :: after ∧
          (∀ q ∈ before, faultOf? fs .standard q = none) ∧
          faultOf? fs .standard p = some (.scan e) ∧
          ofDirectory fs patterns directory = .error (.scan e) ∧ IsDefectOf p e) := by
  obtain ⟨paths, hd⟩ : ∃ paths, Discovery.discover fs .standard patterns directory = .ok paths := by
    classical
    exact ⟨_, Discovery.discover_eq_ok hw hb hp hl⟩
  have hgood : ∀ p ∈ paths, ¬Unsupported .standard p ∧ ∃ bytes, fs.readBytes p = .ok bytes := by
    intro p hm
    obtain ⟨parts, hs, rfl⟩ := (Discovery.mem_iff_of_discover hw hb hp hl hd).1 hm
    exact ⟨fun hu => hs.suffix.elim hu.1 hu.2, hs.exists_readBytes hw hb (hl parts)⟩
  have hsurvey : ofDirectory fs patterns directory = ofFiles fs .standard paths := by
    rw [ofDirectory, hd]
  refine ⟨paths, hd, hgood, ?_⟩
  rw [hsurvey]
  rcases ofFiles_cases fun p hm => (hgood p hm).1 with hok | ⟨before, p, after, f, rfl, hq, hf, he⟩
  · exact .inl hok
  · obtain ⟨bytes, hbytes⟩ := (hgood p (by simp)).2
    obtain ⟨e, rfl, hdefect⟩ := exists_isDefectOf hbytes hf
    exact .inr ⟨before, p, after, e, rfl, hq, hf, he, hdefect⟩

/-- A link to a text is scanned as the header that its own name makes it, and a directory that is
named like a source is not scanned. -/
theorem ofDirectory_outcome_links :
    let fs : FileSystem := ⟨[(["src".toList], .directory),
      (["src".toList, "text".toList], .file (Text.Utf8.encode "int sum(\n".toList)),
      (["src".toList, "Sum.h".toList], .link "text".toList),
      (["src".toList, "Bar.cpp".toList], .file [0xFF, 0x0A, 0xC3]),
      (["src".toList, "Dir.h".toList], .directory)], [], by decide +kernel⟩
    ∃ e, ofDirectory fs [] (Path.ofText "src".toList) = .error (.scan e) ∧
      e.label = some "src/Sum.h".toList := by
  intro fs
  let directory := Path.ofText "src".toList
  have hw : fs.WellNamed := by decide +kernel
  have hlead : fs.Leads [] ["src".toList] := by decide +kernel
  have hb : Discovery.IsBase fs directory ["src".toList] :=
    ⟨by decide +kernel, FileSystem.walk_of_leads FileSystem.maxLinks hlead, by decide +kernel⟩
  have hways : Discovery.waysBelow fs ["src".toList] = [["text".toList], ["Sum.h".toList],
      ["Bar.cpp".toList], ["Dir.h".toList]] := by decide +kernel
  have hlink : fs.status (directory.below ["Sum.h".toList]) =
      .ok (some (.file (Text.Utf8.encode "int sum(\n".toList))) := by
    have hparts : (directory.below ["Sum.h".toList]).parts =
        ["src".toList] ++ ["Sum.h".toList] := by decide +kernel
    have htarget : fs.linkAt? ["src".toList, "Sum.h".toList] = some "text".toList := by
      decide +kernel
    refine (FileSystem.status_link _ hparts (by decide +kernel) hlead (by decide +kernel)
      (by decide +kernel) htarget (by decide +kernel)).trans ?_
    decide +kernel
  have hnone : ∀ parts, ¬Discovery.IsTooLong fs directory ["src".toList] parts := by
    intro parts hl
    have hmem := Discovery.mem_waysBelow_iff.2 hl.1
    simp only [hways, List.mem_cons, List.not_mem_nil, or_false] at hmem
    rcases hmem with rfl | rfl | rfl | rfl
    · exact Discovery.not_isTooLong hw hb (by decide +kernel) (by decide +kernel) hl
    · cases hlink.symm.trans hl.2
    · exact Discovery.not_isTooLong hw hb (by decide +kernel) (by decide +kernel) hl
    · exact Discovery.not_isTooLong hw hb (by decide +kernel) (by decide +kernel) hl
  have hsum : (faultOf? fs .standard (directory.below ["Sum.h".toList])).isSome = true := by
    rw [faultOf?_of_readBytes (FileSystem.readBytes_of_status (by decide +kernel) hlink)]
    decide +kernel
  have hbar : faultOf? fs .standard (directory.below ["Bar.cpp".toList]) = none := by
    have hholds : fs.Holds (directory.below ["Bar.cpp".toList]) [0xFF, 0x0A, 0xC3] := by
      decide +kernel
    rw [faultOf?_of_holds hholds]
    decide +kernel
  have hempty : Discovery.NoneEmpty [] := by decide
  obtain ⟨paths, hd, -, hcases⟩ := ofDirectory_outcome hw hb hempty hnone
  have hmem (p : Path) := Discovery.mem_iff_of_discover (p := p) hw hb hempty hnone hd
  rcases hcases with ⟨s, -, -, hall⟩ | ⟨before, p, after, e, rfl, -, hf, he, hdefect⟩
  · have hfound : directory.below ["Sum.h".toList] ∈ paths := by
      refine (hmem _).2 ⟨["Sum.h".toList], ?_, rfl⟩
      exact ⟨Discovery.mem_waysBelow_iff.1 (by rw [hways]; decide +kernel),
        .inr ⟨"text".toList, _, by decide +kernel, hlink⟩, by decide +kernel, by simp, by simp⟩
    rw [hall _ hfound] at hsum
    cases hsum
  · refine ⟨e, he, ?_⟩
    obtain ⟨parts, hs, rfl⟩ := (hmem p).1 (by simp)
    have hparts := Discovery.mem_waysBelow_iff.2 hs.reached
    simp only [hways, List.mem_cons, List.not_mem_nil, or_false] at hparts
    rcases hparts with rfl | rfl | rfl | rfl
    · exact absurd hs.suffix (by decide +kernel)
    · rw [hdefect.label]
      decide +kernel
    · cases hbar.symm.trans hf
    · have hdir : fs.entry? (["src".toList] ++ ["Dir.h".toList]) = some .directory := by
        decide +kernel
      rcases hs.isFile with ⟨bytes, hentry⟩ | ⟨target, bytes, hentry, -⟩
      · cases hdir.symm.trans hentry
      · cases hdir.symm.trans hentry

end Survey

end SourceSurvey
