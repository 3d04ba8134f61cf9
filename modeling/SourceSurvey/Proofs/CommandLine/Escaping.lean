import SourceSurvey.Proofs.CommandLine.Layout
import SourceSurvey.Proofs.CommandLine.Outcome
import SourceSurvey.Proofs.Text.Markup
import SourceSurvey.Proofs.Text.Utf8

/-!
# Markup in what is printed

Reports of faults hold the texts of the project escaped (`Reported`), so they are read as they stand
(`shown_of_reported`). Findings are printed with these texts as they are. That is the same as
escaped unless a text has a tag or ends in a single backslash (`run_printed`).
-/

namespace SourceSurvey.CommandLine

open Text.Markup (closes ended escape shown EndsInBackslash TagFree)

variable {fs : FileSystem} {arg elapsed : Text} {stage : Stage} {f : Fault} {inv : Invocation}
  {c : Cell}

/-! ## Reports -/

/-- What is printed about a fault; the location is that of rows that cannot be decoded. -/
def report (location : Cell) (f : Fault) : Cell :=
  .own (bold " red".toList "Error:".toList ++ [' ']) :: (location ++ [.project f.message])

def locationOf (file : Path) : Cell := [.project file.toText, .own ": ".toList]

/-- What is read where no text of the project is taken for markup. -/
def Cell.literal (c : Cell) : Text :=
  c.flatMap fun
    | .own t => shown t
    | .project t => ended t

theorem written_report (location : Cell) (f : Fault) :
    Cell.written escape (report location f) =
      bold " red".toList "Error:".toList ++
        ' ' :: (Cell.written escape location ++ escape f.message) := by
  simp [report, Cell.written, Piece.written]

theorem literal_report (location : Cell) (f : Fault) :
    Cell.literal (report location f) =
      "Error: ".toList ++ (Cell.literal location ++ ended f.message) := by
  rw [report, Cell.literal, List.flatMap_cons, List.flatMap_append, ← Cell.literal]
  exact congrArg _ (congrArg _ (List.append_nil _))

theorem shown_error_append (t : Text) :
    shown (bold " red".toList "Error:".toList ++ ' ' :: t) = "Error: ".toList ++ shown t := rfl

theorem shown_report (f : Fault) :
    shown (Cell.written escape (report [] f)) = Cell.literal (report [] f) := by
  rw [written_report, literal_report, shown_error_append]
  exact congrArg _ (Text.Markup.shown_escape f.message)

theorem written_locationOf (file : Path) (g : Text.Utf8.Fault) :
    Cell.written escape (locationOf file) ++ escape g.message =
      escape file.toText ++ (": ".toList ++ escape g.message) := by
  simp [locationOf, Cell.written, Piece.written]

theorem shown_report_locationOf (file : Path) (g : Text.Utf8.Fault) :
    shown (Cell.written escape (report (locationOf file) (.undecodable g))) =
      Cell.literal (report (locationOf file) (.undecodable g)) := by
  have hmessage : closes (escape g.message) = false := by
    have h := Text.Markup.closes_escapeAfter_append 0 g.message (u := []) rfl
    rw [List.append_nil] at h
    exact h.trans (Text.Markup.closes_of_notMem (Text.Utf8.bracket_notMem_message g))
  have hclosed : closes (": ".toList ++ escape g.message) = false := hmessage
  have hhead : ∀ c ∈ (": ".toList ++ escape g.message).head?, c ≠ '\\' ∧ c ≠ '[' := by
    intro c hc
    cases hc
    decide
  have hliteral : Cell.literal (locationOf file) = ended file.toText ++ ": ".toList :=
    congrArg _ (List.append_nil _)
  calc shown (Cell.written escape (report (locationOf file) (.undecodable g)))
      = "Error: ".toList ++ shown (escape file.toText ++ (": ".toList ++ escape g.message)) := by
        rw [written_report, shown_error_append]
        exact congrArg (fun t => _ ++ shown t) (written_locationOf file g)
    _ = "Error: ".toList ++ (ended file.toText ++ (": ".toList ++ shown (escape g.message))) := by
        rw [Text.Markup.shown_escape_append hclosed hhead]
        rfl
    _ = Cell.literal (report (locationOf file) (.undecodable g)) := by
        rw [Text.Markup.shown_escape, literal_report, hliteral, List.append_assoc]
        rfl

/-- The report of a failure, or of rows that cannot be decoded with the file that has them. -/
inductive Reported (fs : FileSystem) : Invocation → Cell → Prop where
  | failure {inv : Invocation} {stage : Stage} {f : Fault} (h : Fails fs inv stage f)
      (hs : stage ≠ .expanding) (hr : isReported f = true) : Reported fs inv (report [] f)
  | undecodable {arg : Text} {excluded : List Text} {p : Path} {g : Text.Utf8.Fault}
      (hp : existing fs .other arg = .ok p) (h : Csv.ofFile fs p = .error (.undecodable g)) :
      Reported fs (.run .data [arg] excluded) (report (locationOf p) (.undecodable g))

theorem ofFault_of_isReported (h : isReported f = true) :
    (ofFault f).printed = [.text (Cell.written escape (report [] f))] := by
  rw [ofFault, if_pos h, written_report]
  rfl

theorem printed_of_reported (h : Reported fs inv c) :
    (perform fs elapsed inv).printed = [.text (Cell.written escape c)] := by
  cases h with
  | @failure inv stage f h hs hr =>
    rw [← ofFault_of_isReported hr]
    cases h with
    | expanding hp h => exact absurd rfl hs
    | scanning hp he h => rw [perform_scanning hp he h]
    | graphing hp h => rw [perform_graphing hp h]
    | reading hp h =>
      have hf : ∀ g, f ≠ .undecodable g := by
        rintro g rfl
        cases hr
      rw [perform_reading hp h hf]
  | undecodable hp h =>
    rw [perform_undecodable hp h, written_report]
    exact congrArg (fun detail => [errorText detail])
      ((List.append_assoc _ _ _).trans (written_locationOf _ _).symm)

theorem shown_of_reported (h : Reported fs inv c) :
    shown (Cell.written escape c) = c.literal := by
  cases h with
  | failure h hs hr => exact shown_report _
  | undecodable hp h => exact shown_report_locationOf _ _

/-! ## Results -/

def Finding.items (elapsed : Text) : Finding → List Item
  | .survey s => surveyItems elapsed s
  | .graph g =>
    match g.buildOrder with
    | .error _ => cyclesItems g
    | .ok order => graphItems g order
  | .data name rows => dataItems name rows

theorem Finding.items_plain (elapsed : Text) (r : Finding) :
    (r.items elapsed).map (Item.written id) = (r.outcome elapsed).printed := by
  cases r with
  | survey s => exact surveyItems_plain elapsed s
  | data name rows => exact dataItems_plain name rows
  | graph g =>
    rw [Finding.items, Finding.outcome]
    cases g.buildOrder with
    | error e => exact cyclesItems_plain g
    | ok order => exact graphItems_plain g order

/-! ## Neither -/

theorem printed_of_existing {wanted : Wanted} {o : Outcome}
    (h : existing fs wanted arg = .error o) : o.printed = [] := by
  rw [existing] at h
  split at h
  · rw [← Except.error.inj h]
    rfl
  · split at h
    · split at h
      · cases h
      · rw [← Except.error.inj h]
        rfl
    · rw [← Except.error.inj h]
      rfl

theorem Idle.printed {o : Outcome} (h : Idle fs inv o) :
    o.printed = [] ∨ o.printed = [versionText] := by
  cases h with
  | misuse => exact .inl rfl
  | help => exact .inl rfl
  | version => exact .inr rfl
  | argument harg h => exact .inl (printed_of_existing h)

/-- What is not reported is not printed. -/
theorem printed_of_fails (hr : ∀ c, ¬Reported fs inv c) (h : Fails fs inv stage f) :
    (perform fs elapsed inv).printed = [] := by
  have hnot (hs : stage ≠ .expanding) : (ofFault f).printed = [] := by
    rw [ofFault, if_neg fun hf => hr _ (.failure h hs hf)]
    rfl
  cases h with
  | expanding hp h =>
    rw [perform_expanding hp h]
    rfl
  | scanning hp he h =>
    rw [perform_scanning hp he h]
    exact hnot (by simp)
  | graphing hp h =>
    rw [perform_graphing hp h]
    exact hnot (by simp)
  | reading hp h =>
    have hf : ∀ g, f ≠ .undecodable g := by
      rintro g rfl
      exact hr _ (.undecodable hp h)
    rw [perform_reading hp h hf]
    exact hnot (by simp)

/-! ## Runs -/

/-- Reports are read as they stand. Findings are printed as they are, which is escaped exactly if
escaping leaves each text of the project alone. -/
theorem run_printed (fs : FileSystem) (elapsed : Text) (args : List Text) :
    let printed := (run fs elapsed args).printed
    let inv := Invocation.ofArguments args
    (∀ c, Reported fs inv c → printed = [.text (Cell.written escape c)] ∧
      shown (Cell.written escape c) = c.literal) ∧
    (∀ r, Finds fs inv r → printed = (r.items elapsed).map (Item.written id) ∧
      (printed = (r.items elapsed).map (Item.written escape) ↔
        ∀ item ∈ r.items elapsed, ∀ t, .project t ∈ item.pieces →
          TagFree t ∧ ¬EndsInBackslash t)) ∧
    ((∀ c, ¬Reported fs inv c) → (∀ r, ¬Finds fs inv r) →
      printed = [] ∨ printed = [versionText]) := by
  intro printed inv
  have hlonger (t : Text) : t.length ≤ (escape t).length :=
    (Text.Markup.sublist_escape t).length_le
  refine ⟨fun c h => ⟨printed_of_reported h, shown_of_reported h⟩, fun r h => ?_, fun hr hf => ?_⟩
  · have hplain : printed = (r.items elapsed).map (Item.written id) := by
      rw [Finding.items_plain, ← perform_of_finds h]
      rfl
    refine ⟨hplain, ?_⟩
    rw [hplain, eq_comm, written_eq_plain_iff hlonger]
    simp only [Text.Markup.escape_eq_self_iff]
  · rcases perform_cases fs elapsed inv with ⟨stage, f, h⟩ | ⟨r, h⟩ | hidle
    · exact .inl (printed_of_fails hr h)
    · exact absurd h (hf r)
    · exact hidle.printed

/-- Two members of a list can make up a tag that escaping each of them leaves alone. -/
example : shown (Cell.written escape (joined [',', ' '] ["[b".toList, "c]".toList])) = [] := by
  decide +kernel

/-- A field with tags is printed as it is, and read without them. -/
theorem data_prints_tags :
    let fs : FileSystem := ⟨[(["rows.csv".toList],
      .file (Text.Utf8.encode "[b]x[/b]\n".toList))], [], by decide +kernel⟩
    let printed := (run fs [] ["data".toList, "rows.csv".toList]).printed
    let r := Finding.data "rows.csv".toList [["[b]x[/b]".toList]]
    Finds fs (.ofArguments ["data".toList, "rows.csv".toList]) r ∧
      printed ≠ (r.items []).map (Item.written escape) ∧
      printed = [.table ⟨some "rows.csv".toList, ["Row".toList, "Field 1".toList],
        [[['1'], "[b]x[/b]".toList]]⟩] ∧
      escape "[b]x[/b]".toList = "\\[b]x\\[/b]".toList ∧ shown "[b]x[/b]".toList = ['x'] := by
  intro fs printed r
  have hinv : Invocation.ofArguments ["data".toList, "rows.csv".toList] =
      .run .data ["rows.csv".toList] [] := by decide +kernel
  have hp : existing fs .other "rows.csv".toList = .ok ⟨['/'], ["rows.csv".toList]⟩ :=
    existing_of_leads .other (.file (Text.Utf8.encode "[b]x[/b]\n".toList)) (by decide +kernel)
      (by decide +kernel) (by decide +kernel) (by decide +kernel) (by decide +kernel)
      (by decide +kernel) rfl
  have hfile : fs.Holds ⟨['/'], ["rows.csv".toList]⟩
      (Text.Utf8.encode "[b]x[/b]\n".toList) := by decide +kernel
  have hrows : Csv.ofFile fs ⟨['/'], ["rows.csv".toList]⟩ = .ok [["[b]x[/b]".toList]] := by
    rw [Csv.ofFile, FileSystem.readStrictly, FileSystem.readBytes_of_holds hfile]
    decide +kernel
  have hfinds : Finds fs (.ofArguments ["data".toList, "rows.csv".toList]) r := by
    rw [hinv]
    exact .reading hp hrows
  have hprinted : printed = (r.outcome []).printed :=
    congrArg Outcome.printed (perform_of_finds hfinds)
  refine ⟨hfinds, ?_, ?_, ?_, ?_⟩
  · rw [hprinted]
    decide +kernel
  · rw [hprinted]
    decide +kernel
  · decide +kernel
  · decide +kernel

end SourceSurvey.CommandLine
