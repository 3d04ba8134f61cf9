import SourceSurvey.CommandLine.Command

/-!
# Plain output

The printed items as lines of plain text: a title, the headings and the rows of a table, with every
column as wide as its widest cell.
-/

namespace SourceSurvey.CommandLine

def width (rows : List (List Text)) (column : Nat) : Nat :=
  rows.foldr (fun row w => max ((row[column]?).getD []).length w) 0

def padded (w : Nat) (t : Text) : Text := t ++ List.replicate (w - t.length) ' '

def rowLine (rows : List (List Text)) (row : List Text) : Text :=
  Text.trimEnd (Text.join [' ', ' '] (row.mapIdx fun i cell => padded (width rows i) cell))

def Table.lines (t : Table) : List Text :=
  let rows := (t.columns :: t.rows).map (·.map Text.Markup.shown)
  (t.title.map Text.Markup.shown).toList ++ rows.map (rowLine rows)

/-- The rows of a panel's table are shown without the headings. -/
def Printed.lines : Printed → List Text
  | .text t => [Text.Markup.shown t]
  | .table t => t.lines
  | .panel title t => Text.Markup.shown title :: { t with title := none }.lines.drop 1

def usage : List Text :=
  ["Usage: cppscan [--version | -v] [--verbose] [--help] COMMAND [ARGUMENTS]",
    "  scan PATH... [--exclude | -e PATTERN]...   methods and include dependencies",
    "  graph DIRECTORY [--exclude | -e PATTERN]... the include graph in build order",
    "  data FILE                                  the rows of a test input file"].map String.toList

/-- Seconds with two decimals. -/
def elapsedText (milliseconds : Nat) : Text :=
  let hundredths := (milliseconds + 5) / 10
  Text.ofNat (hundredths / 100) ++ '.' :: (Text.ofNat (hundredths % 100)).leftpad 2 '0' ++ ['s']

end SourceSurvey.CommandLine
