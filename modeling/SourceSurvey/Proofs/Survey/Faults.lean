import SourceSurvey.Csv
import SourceSurvey.Proofs.Survey.Files

/-!
# Faults of reading and scanning

A file at a path without a nul is read or refused by the system. So scanning a list of such files
fails with a defect of the input or with a refusal (`ofFiles_fault`), and reading rows fails with a
refusal or with bytes that cannot be decoded (`Csv.ofFile_fault`).
-/

namespace SourceSurvey

variable {fs : FileSystem} {p : Path} {f : Fault}

namespace FileSystem

theorem readBytes_fault (hn : nul ∉ p.toText) (h : fs.readBytes p = .error f) :
    ∃ r, f = .refused r p.toText := by
  rw [readBytes, if_neg hn] at h
  split at h
  · next r hs => exact ⟨r, (Except.error.inj h).symm⟩
  · cases h
  · exact ⟨.isADirectory, (Except.error.inj h).symm⟩
  · exact ⟨.notFound, (Except.error.inj h).symm⟩

theorem readSource_fault (hn : nul ∉ p.toText) (h : fs.readSource p = .error f) :
    ∃ r, f = .refused r p.toText := by
  rw [readSource, map_eq_error_iff] at h
  exact readBytes_fault hn h

end FileSystem

theorem Csv.ofFile_fault (hn : nul ∉ p.toText) (h : Csv.ofFile fs p = .error f) :
    (∃ g, f = .undecodable g) ∨ ∃ r, f = .refused r p.toText := by
  rw [Csv.ofFile, map_eq_error_iff, FileSystem.readStrictly] at h
  split at h
  · next g hb =>
    rw [Except.error.injEq] at h
    exact .inr (FileSystem.readBytes_fault hn (h ▸ hb))
  · split at h
    · next g hd => exact .inl ⟨g, (Except.error.inj h).symm⟩
    · cases h

/-- What the input or the system is to blame for. -/
def Fault.IsExternal (f : Fault) : Prop := (∃ e, f = .scan e) ∨ ∃ r path, f = .refused r path

theorem Fault.isExternal_of_mapError {α : Type} {r : Except ScanError α}
    (h : r.mapError Fault.scan = .error f) : f.IsExternal := by
  cases r with
  | ok a => cases h
  | error e => exact .inl ⟨e, (Except.error.inj h).symm⟩

theorem Method.ofFile_fault (hn : nul ∉ p.toText) (h : ofFile fs p = .error f) :
    f.IsExternal := by
  rw [ofFile] at h
  split at h
  · next g hr =>
    obtain ⟨r, rfl⟩ := FileSystem.readSource_fault hn hr
    exact .inr ⟨r, p.toText, (Except.error.inj h).symm⟩
  · exact Fault.isExternal_of_mapError h

theorem Dependence.ofFile_fault (hn : nul ∉ p.toText) (h : ofFile fs p = .error f) :
    f.IsExternal := by
  rw [ofFile] at h
  split at h
  · next g hr =>
    obtain ⟨r, rfl⟩ := FileSystem.readSource_fault hn hr
    exact .inr ⟨r, p.toText, (Except.error.inj h).symm⟩
  · exact Fault.isExternal_of_mapError h

namespace Survey

variable {x : Extensions} {paths : List Path}

theorem failure?_eq_some_iff {ε α : Type} {r : Except ε α} {e : ε} :
    failure? r = some e ↔ r = .error e := by
  cases r <;> simp [failure?]

theorem faultOf?_isExternal (hn : nul ∉ p.toText) (h : faultOf? fs x p = some f) :
    f.IsExternal := by
  rw [faultOf?] at h
  split at h
  · exact Dependence.ofFile_fault hn (failure?_eq_some_iff.1 h)
  · exact Method.ofFile_fault hn (failure?_eq_some_iff.1 h)

theorem ofFiles_fault (hn : ∀ p ∈ paths, nul ∉ p.toText) (h : ofFiles fs x paths = .error f) :
    f.IsExternal := by
  rw [ofFiles] at h
  split at h
  · next e he => exact .inl ⟨e, (Except.error.inj h).symm⟩
  · cases hf : paths.findSome? (faultOf? fs x) with
    | none =>
      obtain ⟨s, hs, -⟩ := covers_empty.scanFiles hf
      cases h.symm.trans hs
    | some g =>
      obtain ⟨p, hp, hg⟩ := List.exists_of_findSome?_eq_some hf
      rw [scanFiles_eq_error empty hf, Except.error.injEq] at h
      exact h ▸ faultOf?_isExternal (hn p hp) hg

end Survey

end SourceSurvey
