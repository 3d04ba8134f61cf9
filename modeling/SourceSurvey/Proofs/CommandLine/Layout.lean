import SourceSurvey.CommandLine.Command
import SourceSurvey.Proofs.Text.Joining

/-!
# Where the texts of the project stand

What the commands print, taken apart into texts of the program and texts of the scanned project
(`Piece`). The texts of the project can be written in different ways: as they are, which is what
the commands do with their results (`surveyItems_plain`, `cyclesItems_plain`, `graphItems_plain`,
`dataItems_plain`), or escaped. A way of writing that never shortens a text changes the whole if
and only if it changes one of those texts (`written_eq_plain_iff`).
-/

namespace SourceSurvey.CommandLine

inductive Piece where
  | own (t : Text)
  | project (t : Text)
  deriving DecidableEq, Repr

abbrev Cell := List Piece

inductive Item where
  | fixed (p : Printed)
  | line (c : Cell)
  | table (title : Cell) (columns : List Text) (rows : List (List Cell))
  deriving DecidableEq, Repr

def Piece.written (write : Text → Text) : Piece → Text
  | .own t => t
  | .project t => write t

def Cell.written (write : Text → Text) (c : Cell) : Text := c.flatMap (Piece.written write)

/-- The item with the texts of the project written by `write`. -/
def Item.written (write : Text → Text) : Item → Printed
  | .fixed p => p
  | .line c => .text (Cell.written write c)
  | .table title columns rows =>
    .table ⟨some (Cell.written write title), columns, rows.map (·.map (Cell.written write))⟩

def Item.pieces : Item → List Piece
  | .fixed _ => []
  | .line c => c
  | .table title _ rows => title ++ rows.flatten.flatten

variable {write : Text → Text} {c : Cell} {item : Item} {items : List Item} {names : List Text}

/-! ## Ways of writing -/

theorem Piece.length_plain_le (hw : ∀ t, t.length ≤ (write t).length) (p : Piece) :
    (p.written id).length ≤ (p.written write).length := by
  cases p with
  | own t => exact Nat.le_refl _
  | project t => exact hw t

theorem Cell.length_plain_le (hw : ∀ t, t.length ≤ (write t).length) (c : Cell) :
    (Cell.written id c).length ≤ (Cell.written write c).length := by
  induction c with
  | nil => exact Nat.le_refl _
  | cons p c ih =>
    have hp := p.length_plain_le hw
    rw [Cell.written, Cell.written, List.flatMap_cons, List.flatMap_cons, List.length_append,
      List.length_append]
    exact Nat.add_le_add hp ih

theorem Piece.written_eq_plain_iff {p : Piece} :
    p.written write = p.written id ↔ ∀ t, p = .project t → write t = t := by
  cases p with
  | own t => exact iff_of_true rfl fun t h => Piece.noConfusion h
  | project t =>
    constructor
    · rintro h u hu
      injection hu with hu
      exact hu ▸ h
    · exact fun h => h t rfl

theorem Cell.written_eq_plain_iff (hw : ∀ t, t.length ≤ (write t).length) :
    Cell.written write c = Cell.written id c ↔ ∀ t, .project t ∈ c → write t = t := by
  induction c with
  | nil => exact iff_of_true rfl fun t h => absurd h List.not_mem_nil
  | cons p c ih =>
    have hsplit : Cell.written write (p :: c) = Cell.written id (p :: c) ↔
        p.written write = p.written id ∧ Cell.written write c = Cell.written id c := by
      constructor
      · intro h
        -- both parts are at least as long as before, so neither is longer
        have hlength := congrArg List.length h
        have hp := p.length_plain_le hw
        have hc := Cell.length_plain_le hw c
        simp only [Cell.written, List.flatMap_cons, List.length_append] at hlength hc
        exact List.append_inj h (by omega)
      · intro h
        exact congrArg₂ (· ++ ·) h.1 h.2
    rw [hsplit, Piece.written_eq_plain_iff, ih]
    simp only [List.mem_cons]
    constructor
    · rintro ⟨hp, hc⟩ t (h | h)
      · exact hp t h.symm
      · exact hc t h
    · exact fun h => ⟨fun t ht => h t (.inl ht.symm), fun t ht => h t (.inr ht)⟩

theorem rows_written_eq_plain_iff (hw : ∀ t, t.length ≤ (write t).length)
    {rows : List (List Cell)} :
    rows.map (·.map (Cell.written write)) = rows.map (·.map (Cell.written id)) ↔
      ∀ t, .project t ∈ rows.flatten.flatten → write t = t := by
  simp only [List.map_inj_left, Cell.written_eq_plain_iff hw, List.mem_flatten]
  constructor
  · rintro h t ⟨c, ⟨row, hrow, hc⟩, ht⟩
    exact h row hrow c hc t ht
  · exact fun h row hrow c hc t ht => h t ⟨c, ⟨row, hrow, hc⟩, ht⟩

theorem Item.written_eq_plain_iff (hw : ∀ t, t.length ≤ (write t).length) :
    item.written write = item.written id ↔ ∀ t, .project t ∈ item.pieces → write t = t := by
  cases item with
  | fixed p => exact iff_of_true rfl fun t h => absurd h List.not_mem_nil
  | line c =>
    rw [Item.written, Item.written, Printed.text.injEq, Cell.written_eq_plain_iff hw, Item.pieces]
  | table title columns rows =>
    simp only [Item.written, Item.pieces, Printed.table.injEq, Table.mk.injEq, Option.some.injEq,
      true_and, Cell.written_eq_plain_iff hw, rows_written_eq_plain_iff hw, List.mem_append,
      or_imp, forall_and]

/-- What is printed changes exactly if one of the texts of the project does. -/
theorem written_eq_plain_iff (hw : ∀ t, t.length ≤ (write t).length) :
    items.map (Item.written write) = items.map (Item.written id) ↔
      ∀ item ∈ items, ∀ t, .project t ∈ item.pieces → write t = t := by
  rw [List.map_inj_left]
  exact forall₂_congr fun item _ => Item.written_eq_plain_iff hw

/-! ## Cells -/

theorem written_own_cons (t : Text) (c : Cell) :
    Cell.written write (.own t :: c) = t ++ Cell.written write c := rfl

theorem own_plain (t : Text) : Cell.written id [.own t] = t := List.append_nil t

theorem project_plain (t : Text) : Cell.written id [.project t] = t := List.append_nil t

/-! ## Lists of names -/

def joined (separator : Text) (names : List Text) : Cell :=
  (names.map Piece.project).intersperse (.own separator)

theorem written_joined (separator : Text) (names : List Text) :
    Cell.written write (joined separator names) = Text.join separator (names.map write) := by
  induction names with
  | nil => rfl
  | cons name names ih =>
    cases names with
    | nil => rfl
    | cons next names =>
      rw [joined, List.map_cons, List.map_cons, List.intersperse_cons_cons, Cell.written,
        List.flatMap_cons, List.flatMap_cons, ← List.map_cons, ← joined, ← Cell.written, ih]
      rfl

def dimmed (c : Cell) : Cell := .own "[dim]".toList :: (c ++ [.own "[/dim]".toList])

theorem written_dimmed (c : Cell) :
    Cell.written write (dimmed c) = Text.Markup.dim (Cell.written write c) := by
  simp [dimmed, Cell.written, Piece.written, Text.Markup.dim, Text.Markup.styled]

/-- The names, or the placeholder where there is nothing to print. -/
def listed (placeholder : Text) (names : List Text) : Cell :=
  if (Text.commaSeparated names).isEmpty then [.own placeholder]
  else joined [',', ' '] names

theorem listed_plain (placeholder : Text) (names : List Text) :
    Cell.written id (listed placeholder names) =
      orElse placeholder (Text.commaSeparated names) := by
  rw [listed, orElse]
  split
  · exact List.append_nil _
  · rw [written_joined, List.map_id, Text.commaSeparated]

def namesOr (placeholder : Text) : List Text → Text
  | [] => placeholder
  | name :: names => Text.commaSeparated (name :: names)

/-- Where every name is read in the text, the text is empty only if there is none. -/
theorem orElse_commaSeparated (placeholder : Text) (h : ∀ name ∈ names, name ≠ []) :
    orElse placeholder (Text.commaSeparated names) = namesOr placeholder names := by
  cases names with
  | nil => rfl
  | cons name names =>
    have hne : Text.commaSeparated (name :: names) ≠ [] :=
      Text.join_cons_ne_nil [',', ' '] (h name List.mem_cons_self) names
    exact if_neg (by simpa using hne)

theorem map_numberedRows {α β γ : Type} (f : β → γ) (row : Nat → α → List β) (number : Nat)
    (items : List α) : (numberedRows row number items).map (·.map f) =
      numberedRows (fun number a => (row number a).map f) number items := by
  induction items generalizing number with
  | nil => rfl
  | cons a items ih => rw [numberedRows, List.map_cons, ih, numberedRows]

/-! ## Surveys -/

def methodCells (m : Method) : List Cell :=
  [[.project m.className], [.project m.returnType], [.project m.methodName],
    listed (Text.Markup.dim dash) m.paramTypes]

def methodsItem (s : Survey) : Item :=
  .table [.own "Methods".toList] (methodsTable s).columns (s.methods.map methodCells)

def dependenceCells (s : Survey) (className : Text) : List Cell :=
  let names (part : Dependence → NameSet) : Cell :=
    listed (Text.Markup.dim dash) (((s.record? className).map fun d => (part d).names).getD [])
  [[.project className], names Dependence.project, names Dependence.libraries]

def dependenciesItem (s : Survey) : Item :=
  .table [.own "Dependencies".toList] (dependenciesTable s).columns
    ((Ascending.ofList s.classNames).map (dependenceCells s))

/-- Only the first of the skipped labels are printed. -/
def skippedItems (skipped : List Text) : List Item :=
  if skipped.isEmpty then []
  else
    .fixed (.text ('\n' :: Text.Markup.dim (Text.ofNat skipped.length ++
        " blank or generated file(s) skipped:".toList))) ::
      (skipped.take maxShown).map (fun label =>
        .line (.own "   • ".toList :: dimmed [.project label])) ++
      (if maxShown < skipped.length then
        [.fixed (.text ("   ".toList ++ Text.Markup.dim ("... and ".toList ++
          Text.ofNat (skipped.length - maxShown) ++ " more".toList)))]
      else [])

def surveyItems (elapsed : Text) (s : Survey) : List Item :=
  (if s.methods.isEmpty then [] else [methodsItem s]) ++
    (if s.dependencies.isEmpty then [] else [dependenciesItem s]) ++
    [.fixed (.text []), .fixed (.panel (bold " green".toList "✓ Scan Complete".toList)
      (summaryTable elapsed s))] ++
    skippedItems s.skipped

theorem methodCells_plain (m : Method) :
    (methodCells m).map (Cell.written id) = methodRow m := by
  simp only [methodCells, methodRow, List.map_cons, List.map_nil, listed_plain, project_plain]

theorem methodsItem_plain (s : Survey) :
    (methodsItem s).written id = .table (methodsTable s) := by
  simp only [methodsItem, Item.written, own_plain, List.map_map, Function.comp_def,
    methodCells_plain]
  rfl

theorem dependenceCells_plain (s : Survey) (className : Text) :
    (dependenceCells s className).map (Cell.written id) = dependenceRow s className := by
  simp only [dependenceCells, dependenceRow, List.map_cons, List.map_nil, listed_plain,
    project_plain]
  cases s.record? className <;> rfl

theorem dependenciesItem_plain (s : Survey) :
    (dependenciesItem s).written id = .table (dependenciesTable s) := by
  simp only [dependenciesItem, Item.written, own_plain, List.map_map, Function.comp_def,
    dependenceCells_plain]
  rfl

theorem skippedItems_plain (skipped : List Text) :
    (skippedItems skipped).map (Item.written id) = (skippedTexts skipped).map .text := by
  rw [skippedItems, skippedTexts]
  split
  · rfl
  · simp only [List.map_cons, List.map_nil, List.map_append, List.map_map, Function.comp_def,
      apply_ite (List.map (Item.written id)), apply_ite (List.map Printed.text), Item.written,
      written_own_cons, written_dimmed, project_plain]

theorem surveyItems_plain (elapsed : Text) (s : Survey) :
    (surveyItems elapsed s).map (Item.written id) = surveyPrinted elapsed s := by
  simp only [surveyItems, surveyPrinted, List.map_append, List.map_cons, List.map_nil,
    apply_ite (List.map (Item.written id)), methodsItem_plain, dependenciesItem_plain,
    skippedItems_plain]
  rfl

/-! ## Include graphs -/

def cyclesItems (g : IncludeGraph) : List Item :=
  .fixed (.text (bold " yellow".toList "⚠️  Include cycles found:".toList)) ::
    g.cycles.map fun cycle =>
      .line (.own "   • ".toList :: joined " -> ".toList (cycle ++ cycle.take 1))

def graphCells (g : IncludeGraph) (number : Nat) (name : Text) : List Cell :=
  [[.own (Text.ofNat number)],
    if (g.record? name).isSome then [.project name] else dimmed [.project name],
    listed dash (g.transitiveProject name).names, listed dash (g.transitiveLibraries name).names]

def graphItems (g : IncludeGraph) (order : List Text) : List Item :=
  [.table [.own "Include Graph".toList] (graphTable g order).columns
      (numberedRows (graphCells g) 1 order),
    .fixed (.text (graphSummary g))]

theorem cyclesItems_plain (g : IncludeGraph) :
    (cyclesItems g).map (Item.written id) = cyclesPrinted g := by
  simp only [cyclesItems, cyclesPrinted, List.map_cons, List.map_map, Function.comp_def,
    Item.written, written_own_cons, written_joined, List.map_id]
  rfl

theorem graphCells_plain (g : IncludeGraph) (number : Nat) (name : Text) :
    (graphCells g number name).map (Cell.written id) = graphRow g number name := by
  simp only [graphCells, graphRow, List.map_cons, List.map_nil, listed_plain, own_plain]
  split
  · rw [project_plain]
    rfl
  · rw [written_dimmed, project_plain]
    rfl

theorem graphItems_plain (g : IncludeGraph) (order : List Text) :
    (graphItems g order).map (Item.written id) = [.table (graphTable g order),
      .text (graphSummary g)] := by
  simp only [graphItems, List.map_cons, List.map_nil, Item.written, own_plain, map_numberedRows,
    graphCells_plain]
  rfl

/-! ## Data -/

def dataCells (width number : Nat) (row : Csv.Row) : List Cell :=
  [.own (Text.ofNat number)] :: row.map (fun field => [.project field]) ++
    List.replicate (width - row.length) []

def dataItems (name : Text) (rows : List Csv.Row) : List Item :=
  [.table [.project name] (dataTable name rows).columns
    (numberedRows (dataCells (widest rows)) 1 rows)]

theorem dataCells_plain (width number : Nat) (row : Csv.Row) :
    (dataCells width number row).map (Cell.written id) = dataRow width number row := by
  simp only [dataCells, dataRow, List.map_cons, List.map_append, List.map_map, Function.comp_def,
    own_plain, project_plain, List.map_replicate, List.map_id']
  rfl

theorem dataItems_plain (name : Text) (rows : List Csv.Row) :
    (dataItems name rows).map (Item.written id) = [.table (dataTable name rows)] := by
  simp only [dataItems, List.map_cons, List.map_nil, Item.written, project_plain,
    map_numberedRows, dataCells_plain]
  rfl

end SourceSurvey.CommandLine
