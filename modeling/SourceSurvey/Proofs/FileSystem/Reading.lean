import SourceSurvey.FileSystem.Read

/-!
# Reading files

A path without links that leads through directories is walked as it is written. So when a file
stands at its end, that file is read, and it is scanned like the text its bytes make.
-/

namespace SourceSurvey

namespace FileSystem

/-- A name that a walk takes as it is written. -/
def IsPlain (name : Text) : Prop :=
  name ≠ ['.'] ∧ name ≠ ['.', '.'] ∧ byteLength name ≤ maxNameBytes

instance : DecidablePred IsPlain := fun name =>
  inferInstanceAs (Decidable (name ≠ ['.'] ∧ name ≠ ['.', '.'] ∧ byteLength name ≤ maxNameBytes))

/-- The names lead through directories to an entry, and no link is met. -/
def Leads (fs : FileSystem) (here : Location) : List Text → Prop
  | [] => True
  | name :: names =>
    fs.isDirectory here = true ∧ IsPlain name ∧ (fs.entry? (here ++ [name])).isSome = true ∧
      fs.linkAt? (here ++ [name]) = none ∧ Leads fs (here ++ [name]) names

instance decidableLeads (fs : FileSystem) (here : Location) : DecidablePred (fs.Leads here)
  | [] => isTrue trivial
  | name :: names =>
    have := decidableLeads fs (here ++ [name]) names
    inferInstanceAs (Decidable (fs.isDirectory here = true ∧ IsPlain name ∧
      (fs.entry? (here ++ [name])).isSome = true ∧ fs.linkAt? (here ++ [name]) = none ∧
      Leads fs (here ++ [name]) names))

variable {fs : FileSystem} {p : Path} {bytes : List UInt8}

theorem walk_append_of_leads {here : Location} {names : List Text} (links : Nat)
    (h : fs.Leads here names) (more : List Text) :
    fs.walk links here (names ++ more) = fs.walk links (here ++ names) more := by
  induction names generalizing here with
  | nil => rw [List.nil_append, List.append_nil]
  | cons name names ih =>
    obtain ⟨hd, ⟨hdot, hdots, hlen⟩, he, hl, hr⟩ := h
    have hrest := ih hr
    rw [List.append_assoc, List.singleton_append] at hrest
    rw [List.cons_append, walk, hd, if_neg (by simp), if_neg hdot, if_neg hdots,
      if_neg (by omega)]
    cases hentry : fs.entry? (here ++ [name]) with
    | none => simp [hentry] at he
    | some e =>
      cases e with
      | file bytes => exact hrest
      | directory => exact hrest
      | link target => simp [linkAt?, hentry] at hl

theorem walk_of_leads {here : Location} {names : List Text} (links : Nat)
    (h : fs.Leads here names) : fs.walk links here names = .ok (here ++ names) := by
  have hnil := walk_append_of_leads links h []
  rwa [List.append_nil, walk] at hnil

/-- The path leads to a file of these bytes. -/
def Holds (fs : FileSystem) (p : Path) (bytes : List UInt8) : Prop :=
  nul ∉ p.toText ∧ byteLength p.toText ≤ maxPathBytes ∧ fs.Leads (fs.origin p) p.parts ∧
    fs.entry? (fs.origin p ++ p.parts) = some (.file bytes)

instance : Decidable (fs.Holds p bytes) :=
  inferInstanceAs (Decidable (nul ∉ p.toText ∧ byteLength p.toText ≤ maxPathBytes ∧
    fs.Leads (fs.origin p) p.parts ∧ fs.entry? (fs.origin p ++ p.parts) = some (.file bytes)))

theorem readBytes_of_status (hn : nul ∉ p.toText) (h : fs.status p = .ok (some (.file bytes))) :
    fs.readBytes p = .ok bytes := by
  rw [readBytes, if_neg hn, h]

theorem status_of_holds (h : fs.Holds p bytes) : fs.status p = .ok (some (.file bytes)) := by
  obtain ⟨-, hlen, hl, he⟩ := h
  rw [status, locate, if_neg (by omega), walk_of_leads maxLinks hl]
  exact congrArg Except.ok he

theorem readBytes_of_holds (h : fs.Holds p bytes) : fs.readBytes p = .ok bytes :=
  readBytes_of_status h.1 (status_of_holds h)

theorem readSource_of_holds (h : fs.Holds p bytes) :
    fs.readSource p = .ok (Text.unifyNewlines (Text.Utf8.decodeLossy bytes)) := by
  rw [readSource, readBytes_of_holds h]
  rfl

end FileSystem

variable {fs : FileSystem} {p : Path} {bytes : List UInt8}

theorem Method.ofFile_of_holds (h : fs.Holds p bytes) :
    ofFile fs p =
      (ofSource p.className p.toText
        (Text.unifyNewlines (Text.Utf8.decodeLossy bytes))).mapError .scan := by
  rw [ofFile, FileSystem.readSource_of_holds h]

theorem Dependence.ofFile_of_holds (h : fs.Holds p bytes) :
    ofFile fs p =
      (ofSource p.className p.toText
        (Text.unifyNewlines (Text.Utf8.decodeLossy bytes))).mapError .scan := by
  rw [ofFile, FileSystem.readSource_of_holds h]

end SourceSurvey
