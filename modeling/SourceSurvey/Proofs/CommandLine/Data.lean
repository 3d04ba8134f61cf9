import SourceSurvey.Proofs.CommandLine.Outcome
import SourceSurvey.Proofs.FileSystem.TextFiles
import SourceSurvey.Proofs.Text.Pieces

/-!
# What is printed of rows

A table of rows has as many columns as the widest row has fields, and one for the numbers. Each row
stands in a line of its own (`Fills`), with its fields in the first columns and nothing in the rest.
So a run on a file prints the table of its rows, if the file holds a text, and otherwise one report
(`run_data`).
-/

namespace SourceSurvey.CommandLine

variable {fs : FileSystem} {args excluded : List Text} {arg : Text} {p : Path}
  {rows : List Csv.Row} {row : Csv.Row} {width number : Nat}

/-! ## Numbered rows -/

theorem length_numberedRows {α β : Type} (f : Nat → α → List β) (number : Nat) (items : List α) :
    (numberedRows f number items).length = items.length := by
  induction items generalizing number with
  | nil => rfl
  | cons a items ih => rw [numberedRows, List.length_cons, ih, List.length_cons]

theorem getElem?_numberedRows {α β : Type} (f : Nat → α → List β) (number i : Nat)
    (items : List α) :
    (numberedRows f number items)[i]? = items[i]?.map (f (number + i)) := by
  induction items generalizing number i with
  | nil => rfl
  | cons a items ih =>
    cases i with
    | zero => rfl
    | succ i =>
      rw [numberedRows, List.getElem?_cons_succ, ih, List.getElem?_cons_succ]
      congr 2
      omega

/-! ## One row -/

/-- The cells of a line are the number, the fields of the row and nothing else. -/
structure Fills (columns number : Nat) (row : Csv.Row) (cells : List Text) : Prop where
  length_eq : cells.length = columns
  number_eq : cells[0]? = some (Text.ofNat number)
  field_eq : ∀ j field, row[j]? = some field → cells[j + 1]? = some field
  empty_after : ∀ j, row.length < j → j < columns → cells[j]? = some []

theorem fills_dataRow (number : Nat) (h : row.length ≤ width) :
    Fills (width + 1) number row (dataRow width number row) where
  length_eq := by
    simp only [dataRow, List.cons_append, List.length_cons, List.length_append,
      List.length_replicate]
    omega
  number_eq := rfl
  field_eq j field hj := by
    obtain ⟨hlt, rfl⟩ := List.getElem?_eq_some_iff.1 hj
    rw [dataRow, List.cons_append, List.getElem?_cons_succ, List.getElem?_append_left hlt, hj]
  empty_after j hle hlt := by
    have hcells : (Text.ofNat number :: row).length ≤ j := hle
    rw [dataRow, List.getElem?_append_right hcells, List.length_cons, List.getElem?_replicate,
      if_pos (by omega)]

/-! ## The table -/

/-- The width is that of the widest row; without rows it is zero. -/
structure IsWidth (rows : List Csv.Row) (width : Nat) : Prop where
  length_le : ∀ row ∈ rows, row.length ≤ width
  attained : width = 0 ∨ ∃ row ∈ rows, row.length = width

theorem isWidth_widest (rows : List Csv.Row) : IsWidth rows (widest rows) := by
  induction rows with
  | nil => exact ⟨nofun, .inl rfl⟩
  | cons row rows ih =>
    have hwidest : widest (row :: rows) = max row.length (widest rows) := rfl
    rw [hwidest]
    refine ⟨List.forall_mem_cons.2 ⟨Nat.le_max_left _ _, fun r hr => ?_⟩, ?_⟩
    · exact Nat.le_trans (ih.length_le r hr) (Nat.le_max_right _ _)
    · by_cases hle : row.length ≤ widest rows
      · rw [Nat.max_eq_right hle]
        exact ih.attained.imp_right fun ⟨r, hr, hlen⟩ => ⟨r, List.mem_cons_of_mem row hr, hlen⟩
      · rw [Nat.max_eq_left (by omega)]
        exact .inr ⟨row, List.mem_cons_self, rfl⟩

theorem IsWidth.le {other : Nat} (h : IsWidth rows width) (ho : IsWidth rows other) :
    width ≤ other := by
  rcases h.attained with hzero | ⟨row, hr, hlen⟩
  · omega
  · exact hlen ▸ ho.length_le row hr

theorem IsWidth.eq_widest (h : IsWidth rows width) : width = widest rows :=
  Nat.le_antisymm (h.le (isWidth_widest rows)) ((isWidth_widest rows).le h)

/-- The table shows each row in a line of its own and has no further lines. -/
structure Displays (rows : List Csv.Row) (t : Table) : Prop where
  columns : ∃ width, IsWidth rows width ∧ t.columns = "Row".toList ::
    (List.range width).map fun column => "Field ".toList ++ Text.ofNat (column + 1)
  length_rows : t.rows.length = rows.length
  fills : ∀ i row, rows[i]? = some row →
    ∃ cells, t.rows[i]? = some cells ∧ Fills t.columns.length (i + 1) row cells

theorem displays_dataTable (name : Text) (rows : List Csv.Row) :
    Displays rows (dataTable name rows) where
  columns := ⟨widest rows, isWidth_widest rows, rfl⟩
  length_rows := length_numberedRows _ 1 rows
  fills i row hi := by
    have hcolumns : (dataTable name rows).columns.length = widest rows + 1 := by simp [dataTable]
    have hle : row.length ≤ widest rows :=
      (isWidth_widest rows).length_le row (List.mem_of_getElem? hi)
    rw [hcolumns]
    refine ⟨_, ?_, fills_dataRow (i + 1) hle⟩
    rw [dataTable, getElem?_numberedRows, hi, Option.map_some, Nat.add_comm]

/-! ## Runs -/

theorem decode_error_of_forall_ne {bytes : List UInt8} (h : ∀ t, bytes ≠ Text.Utf8.encode t) :
    ∃ g, Text.Utf8.decode bytes = .error g := by
  cases hd : Text.Utf8.decode bytes with
  | error g => exact ⟨g, rfl⟩
  | ok t => exact absurd (Text.Utf8.decode_eq_ok_iff.1 hd) (h t)

/-- A run on a file prints one table that shows the rows of its text, or one report if its bytes are
not those of a text. It ends so if the console accepts what is printed. -/
theorem run_data (console : Console) (elapsed : Text) (hw : fs.WellNamed)
    (hinv : Invocation.ofArguments args = .run .data [arg] excluded)
    (hp : existing fs .other arg = .ok p) :
    ∃ bytes, fs.status p = .ok (some (.file bytes)) ∧
      (∀ t, bytes = Text.Utf8.encode t → ∃ table, table.title = some p.name ∧
        Displays (Csv.rows (Text.unifyNewlines t)) table ∧
        (console.Accepts [.table table] →
          runOn console fs elapsed args = .success [.table table])) ∧
      (bytes = [] → console.Accepts [.table ⟨some p.name, ["Row".toList], []⟩] →
        runOn console fs elapsed args =
          .success [.table ⟨some p.name, ["Row".toList], []⟩]) ∧
      ((∀ t, bytes ≠ Text.Utf8.encode t) → ∃ g report, Text.Utf8.decode bytes = .error g ∧
        report = errorText
          (Text.Markup.escape p.toText ++ ": ".toList ++ Text.Markup.escape g.message) ∧
        (console.Accepts [report] → runOn console fs elapsed args = .failure [report])) := by
  obtain ⟨bytes, hs⟩ := exists_file_of_existing hp
  have hn : nul ∉ p.toText := (existing_eq_ok hw hp).1
  have htext (t : Text) (ht : bytes = Text.Utf8.encode t) : run fs elapsed args =
      .success [.table (dataTable p.name (Csv.rows (Text.unifyNewlines t)))] := by
    rw [ht] at hs
    rw [run, hinv, perform_data hp, data, Csv.ofFile, FileSystem.readStrictly_of_status hn hs]
    rfl
  refine ⟨bytes, hs, fun t ht => ?_, fun hnil hc => ?_, fun hne => ?_⟩
  · exact ⟨_, rfl, displays_dataTable _ _, runOn_of_accepts (htext t ht)⟩
  · exact runOn_of_accepts (htext [] hnil) hc
  · obtain ⟨g, hg⟩ := decode_error_of_forall_ne hne
    refine ⟨g, _, hg, rfl, fun hc => runOn_of_accepts ?_ hc⟩
    rw [run, hinv]
    apply perform_undecodable hp
    rw [Csv.ofFile, FileSystem.readStrictly, FileSystem.readBytes_of_status hn hs]
    simp only [hg]
    rfl

/-- Both line ends, an empty field and the widest row last: the first row is filled up. -/
theorem run_data_ragged :
    let fs : FileSystem := ⟨[(["rows.csv".toList],
      .file (Text.Utf8.encode "é,b\r\n\n1,,2".toList))], [], by decide +kernel⟩
    ∃ table, runOn .plain fs [] ["data".toList, "rows.csv".toList] = .success [.table table] ∧
      table.columns.length = 4 ∧ table.rows.length = 3 ∧
      ∃ cells, table.rows[0]? = some cells ∧ Fills 4 1 ["é".toList, ['b']] cells := by
  intro fs
  let t := "é,b\r\n\n1,,2".toList
  let rows : List Csv.Row := [["é".toList, ['b']], [[]], [['1'], [], ['2']]]
  have hw : fs.WellNamed := by decide +kernel
  have hinv : Invocation.ofArguments ["data".toList, "rows.csv".toList] =
      .run .data ["rows.csv".toList] [] := by decide +kernel
  have hp : existing fs .other "rows.csv".toList = .ok ⟨['/'], ["rows.csv".toList]⟩ :=
    existing_of_leads .other (.file (Text.Utf8.encode t)) (by decide +kernel) (by decide +kernel)
      (by decide +kernel) (by decide +kernel) (by decide +kernel) (by decide +kernel) rfl
  have hholds : fs.Holds ⟨['/'], ["rows.csv".toList]⟩ (Text.Utf8.encode t) := by decide +kernel
  obtain ⟨bytes, hs, htext, -, -⟩ := run_data .plain [] hw hinv hp
  have hbytes : bytes = Text.Utf8.encode t := by
    have heq := hs.symm.trans (FileSystem.status_of_holds hholds)
    simpa using heq
  obtain ⟨table, -, hdisplays, hrun⟩ := htext t hbytes
  have hrows : Csv.rows (Text.unifyNewlines t) = rows := by decide +kernel
  rw [hrows] at hdisplays
  obtain ⟨width, hwidth, hcolumns⟩ := hdisplays.columns
  have hthree : width = 3 := hwidth.eq_widest
  have hfour : table.columns.length = 4 := by simp [hcolumns, hthree]
  refine ⟨table, hrun (Console.plain_accepts _), hfour, hdisplays.length_rows, ?_⟩
  rw [← hfour]
  exact hdisplays.fills 0 ["é".toList, ['b']] rfl

end SourceSurvey.CommandLine
