import SourceSurvey.Text.Basic

/-!
# Lines of a source text

Only a newline ends a line. A carriage return before it is dropped, a final newline starts no
further line, and every other character stays in its line. A normalized line is what is left of
a line without its comment and the white space around it.
-/

namespace SourceSurvey.Text

def dropReturn (line : Text) : Text :=
  if line.getLast? = some '\r' then line.dropLast else line

def dropFinalEmpty (pieces : List Text) : List Text :=
  if pieces.getLast? = some [] then pieces.dropLast else pieces

def lines (source : Text) : List Text := (dropFinalEmpty (source.splitOn '\n')).map dropReturn

def firstLine? (source : Text) : Option Text := (lines source).head?

/-! ## Comments -/

def commentMark : Text := ['/', '/']

/-- What stands before the first `//`. -/
def beforeComment : Text → Text
  | [] => []
  | '/' :: '/' :: _ => []
  | c :: t => c :: beforeComment t

def normalize (line : Text) : Text := trim (beforeComment line)

/-! ## Files that are not scanned -/

inductive SkipReason where
  | blank
  | generated
  deriving DecidableEq, Repr

/-- A text without lines is blank, and one whose first line is the marker was generated. -/
def skipReason? (marker : Text) (lines : List Text) : Option SkipReason :=
  match lines with
  | [] => some .blank
  | first :: _ => if first = marker then some .generated else none

end SourceSurvey.Text
