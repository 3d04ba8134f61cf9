import SourceSurvey.Proofs.FileSystem.Reading
import SourceSurvey.Proofs.LineEnds
import SourceSurvey.Proofs.Text.Utf8

/-!
# Files that hold a text

A file that holds the bytes of a text is read as the text with every line end made a newline. Where
no carriage return stands alone this keeps the lines, so the file and the text are scanned alike
(`ofFile_eq_ofSource`).
-/

namespace SourceSurvey

namespace FileSystem

variable {fs : FileSystem} {p : Path} {t : Text}

theorem readSource_of_status (hn : nul ∉ p.toText)
    (h : fs.status p = .ok (some (.file (Text.Utf8.encode t)))) :
    fs.readSource p = .ok (Text.unifyNewlines t) := by
  rw [readSource, readBytes_of_status hn h]
  exact congrArg (Except.ok ∘ Text.unifyNewlines) (Text.Utf8.decodeLossy_encode t)

theorem readStrictly_of_status (hn : nul ∉ p.toText)
    (h : fs.status p = .ok (some (.file (Text.Utf8.encode t)))) :
    fs.readStrictly p = .ok (Text.unifyNewlines t) := by
  rw [readStrictly, readBytes_of_status hn h]
  simp only [Text.Utf8.decode_encode]

end FileSystem

variable {fs : FileSystem} {p : Path} {t : Text}

/-- A file is scanned like the text it holds, under the name and the label of its path. -/
theorem ofFile_eq_ofSource (hn : nul ∉ p.toText)
    (h : fs.status p = .ok (some (.file (Text.Utf8.encode t)))) (ht : Text.NoLoneReturn t) :
    Method.ofFile fs p = (Method.ofSource p.className p.toText t).mapError .scan ∧
      Dependence.ofFile fs p = (Dependence.ofSource p.className p.toText t).mapError .scan ∧
      Csv.ofFile fs p = .ok (Csv.rows t) := by
  have hlines : Text.lines (Text.unifyNewlines t) = Text.lines t := Text.lines_unifyNewlines ht
  refine ⟨?_, ?_, ?_⟩
  · rw [Method.ofFile, FileSystem.readSource_of_status hn h]
    simp only [Method.ofSource, hlines]
  · rw [Dependence.ofFile, FileSystem.readSource_of_status hn h]
    simp only [Dependence.ofSource, hlines]
  · rw [Csv.ofFile, FileSystem.readStrictly_of_status hn h]
    exact congrArg (Except.ok ∘ List.map Csv.fields) hlines

/-- Ends of both kinds and characters of two, three and four bytes: the open parameter list is met
on line three of the file. -/
theorem ofFile_eq_ofSource_mixed :
    let t : Text := "int été();\r\n// € 😀\nint g(".toList
    let p : Path := ⟨[], ["src".toList, "Counter.h".toList]⟩
    let fs : FileSystem := ⟨[(["src".toList], .directory),
      (["src".toList, "Counter.h".toList], .file (Text.Utf8.encode t))], [], by decide +kernel⟩
    Method.ofSource p.className p.toText t =
        .error ⟨.openParameters 3, some "src/Counter.h".toList, some 3⟩ ∧
      Method.ofFile fs p =
        .error (.scan ⟨.openParameters 3, some "src/Counter.h".toList, some 3⟩) := by
  intro t p fs
  have hsource : Method.ofSource p.className p.toText t =
      .error ⟨.openParameters 3, some "src/Counter.h".toList, some 3⟩ := by decide +kernel
  have hfile : fs.Holds p (Text.Utf8.encode t) := by decide +kernel
  have hfs := ofFile_eq_ofSource hfile.1 (FileSystem.status_of_holds hfile) (by decide +kernel)
  refine ⟨hsource, ?_⟩
  rw [hfs.1, hsource]
  rfl

end SourceSurvey
