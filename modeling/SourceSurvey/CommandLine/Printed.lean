import SourceSurvey.IncludeGraph.Order
import SourceSurvey.Survey
import SourceSurvey.Text.Markup

/-!
# What the commands print

Texts with markup, tables, and a table in a panel. An empty list is shown by a placeholder, and
table rows of data are filled up with empty cells to the width of the widest row.
-/

namespace SourceSurvey.CommandLine

structure Table where
  title : Option Text
  columns : List Text
  rows : List (List Text)
  deriving DecidableEq, Repr

inductive Printed where
  | text (t : Text)
  | table (t : Table)
  | panel (title : Text) (t : Table)
  deriving DecidableEq, Repr

def orElse (placeholder t : Text) : Text := if t.isEmpty then placeholder else t

def bold (style t : Text) : Text := Text.Markup.styled ("bold".toList ++ style) t

/-- The report of a fault whose detail has been escaped. -/
def errorText (detail : Text) : Printed :=
  .text (bold " red".toList "Error:".toList ++ ' ' :: detail)

def versionText : Printed :=
  .text (bold [] "cppscan".toList ++ " version 0.1.0".toList)

/-! ## Surveys -/

def dash : Text := ['-']

def methodRow (m : Method) : List Text :=
  [m.className, m.returnType, m.methodName,
    orElse (Text.Markup.dim dash) (Text.commaSeparated m.paramTypes)]

def methodsTable (s : Survey) : Table where
  title := some "Methods".toList
  columns := ["Class", "Return type", "Method", "Parameter types"].map String.toList
  rows := s.methods.map methodRow

def dependenceRow (s : Survey) (className : Text) : List Text :=
  let listed (part : Dependence → NameSet) : Text :=
    orElse (Text.Markup.dim dash) (((s.record? className).map fun d => (part d).listed).getD [])
  [className, listed Dependence.project, listed Dependence.libraries]

def dependenciesTable (s : Survey) : Table where
  title := some "Dependencies".toList
  columns := ["Class", "Project", "Libraries"].map String.toList
  rows := (Ascending.ofList s.classNames).map (dependenceRow s)

def summaryTable (elapsed : Text) (s : Survey) : Table where
  title := none
  columns := ["Label", "Value"].map String.toList
  rows := [["Files scanned".toList, Text.ofNat s.filesScanned],
    ["Methods found".toList, Text.ofNat s.methods.length],
    ["Classes with includes".toList, Text.ofNat s.dependencies.length],
    ["Skipped".toList, Text.ofNat s.skipped.length],
    ["Scan time".toList, elapsed]]

def maxShown : Nat := 5

def skippedTexts (skipped : List Text) : List Text :=
  if skipped.isEmpty then []
  else
    ('\n' :: Text.Markup.dim (Text.ofNat skipped.length ++
        " blank or generated file(s) skipped:".toList)) ::
      (skipped.take maxShown).map (fun label => "   • ".toList ++ Text.Markup.dim label) ++
      (if maxShown < skipped.length then
        ["   ".toList ++ Text.Markup.dim ("... and ".toList ++
          Text.ofNat (skipped.length - maxShown) ++ " more".toList)]
      else [])

def surveyPrinted (elapsed : Text) (s : Survey) : List Printed :=
  (if s.methods.isEmpty then [] else [.table (methodsTable s)]) ++
    (if s.dependencies.isEmpty then [] else [.table (dependenciesTable s)]) ++
    [.text [], .panel (bold " green".toList "✓ Scan Complete".toList) (summaryTable elapsed s)] ++
    (skippedTexts s.skipped).map .text

/-! ## Include graphs -/

def cycleText (cycle : List Text) : Text :=
  "   • ".toList ++ arrows (cycle ++ cycle.take 1)

def cyclesPrinted (g : IncludeGraph) : List Printed :=
  .text (bold " yellow".toList "⚠️  Include cycles found:".toList) ::
    g.cycles.map fun cycle => .text (cycleText cycle)

def graphRow (g : IncludeGraph) (number : Nat) (name : Text) : List Text :=
  [Text.ofNat number,
    if (g.record? name).isSome then name else Text.Markup.dim name,
    orElse dash (g.transitiveProject name).listed,
    orElse dash (g.transitiveLibraries name).listed]

/-- One row per item, numbered from `number` on. -/
def numberedRows {α β : Type} (row : Nat → α → List β) (number : Nat) : List α → List (List β)
  | [] => []
  | a :: rest => row number a :: numberedRows row (number + 1) rest

def graphTable (g : IncludeGraph) (order : List Text) : Table where
  title := some "Include Graph".toList
  columns := ["#", "Class", "Project dependencies", "Libraries"].map String.toList
  rows := numberedRows (graphRow g) 1 order

def graphSummary (g : IncludeGraph) : Text :=
  '\n' :: Text.Markup.dim (Text.ofNat g.nodeCount ++ " classes, ".toList ++
    Text.ofNat g.edgeCount ++ " project includes".toList)

/-! ## Data -/

def widest (rows : List Csv.Row) : Nat := rows.foldr (fun row w => max row.length w) 0

def dataRow (width number : Nat) (row : Csv.Row) : List Text :=
  Text.ofNat number :: row ++ List.replicate (width - row.length) []

def dataTable (name : Text) (rows : List Csv.Row) : Table where
  title := some name
  columns := "Row".toList ::
    (List.range (widest rows)).map fun column => "Field ".toList ++ Text.ofNat (column + 1)
  rows := numberedRows (dataRow (widest rows)) 1 rows

end SourceSurvey.CommandLine
