import SourceSurvey.Text.Quoted

/-!
# Defects of scanned input

What can be wrong with a source, a list of files or an include graph, and the text that reports it.
A `ScanError` adds where the defect was met: the label of the file and the number of the last line
read. The label stands before the detail, with the line number if there is one.
-/

namespace SourceSurvey

inductive Defect where
  | noTarget (line : Text)
  | unterminatedTarget (line : Text)
  | emptyTarget (line : Text)
  | openParameters (start : Nat)
  | openBody (start : Nat) (depth : Int)
  | unsupportedExtension (extension : Text) (accepted : List Text)
  | includeCycle (cycle : List Text)
  deriving DecidableEq, Repr

/-- Names joined by arrows, as a cycle or a chain of includes is shown. -/
def arrows (names : List Text) : Text := Text.join " -> ".toList names

def Defect.message : Defect → Text
  | .noTarget line =>
    "#include must be followed by <name> or \"name\", got: ".toList ++ Text.quoted line
  | .unterminatedTarget line => "unterminated #include target: ".toList ++ Text.quoted line
  | .emptyTarget line => "empty #include target: ".toList ++ Text.quoted line
  | .openParameters start =>
    "parameter list opened on line ".toList ++ Text.ofNat start ++ " is never closed".toList
  | .openBody start depth =>
    "body opened after line ".toList ++ Text.ofNat start ++ " is never closed (depth ".toList ++
      Text.ofInt depth ++ " at end of input)".toList
  | .unsupportedExtension extension accepted =>
    "unsupported file extension ".toList ++
      Text.quoted (if extension = [] then "(none)".toList else extension) ++
      "; expected one of: ".toList ++ Text.commaSeparated accepted
  | .includeCycle cycle => "include cycle detected: ".toList ++ arrows cycle

/-- The label of a source: its path or, where none is given, the name of its class. -/
def labelOf (className : Text) (path : Option Text) : Text := path.getD className

/-- A detail after its place. A line number without a label is not shown. -/
def locate (label : Option Text) (line : Option Int) (detail : Text) : Text :=
  match label, line with
  | none, _ => detail
  | some l, none => l ++ ": ".toList ++ detail
  | some l, some n => l ++ ':' :: Text.ofInt n ++ ": ".toList ++ detail

structure ScanError where
  defect : Defect
  label : Option Text
  line : Option Nat
  deriving DecidableEq, Repr

def ScanError.message (e : ScanError) : Text :=
  locate e.label (e.line.map Int.ofNat) e.defect.message

end SourceSurvey
