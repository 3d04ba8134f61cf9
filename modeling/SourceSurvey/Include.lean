import SourceSurvey.Defect
import SourceSurvey.Settings
import SourceSurvey.Text.Lines

/-!
# Include directives

A normalized line that begins with the keyword names its target between angle brackets, which
makes it a library, or between double quotes, which makes it part of the project. What follows the
closing delimiter is ignored. The included name is the target without the extension of its last
component; directories stay.
-/

namespace SourceSurvey

structure Include where
  name : Text
  isLibrary : Bool
  deriving DecidableEq, Repr

namespace Include

/-- The target up to the first dot after its last slash. -/
def withoutExtension (target : Text) : Text :=
  let directories := (target.reverse.dropWhile (· ≠ '/')).reverse
  let last := (target.reverse.takeWhile (· ≠ '/')).reverse
  directories ++ last.takeWhile (· ≠ '.')

/-- The closing delimiter that belongs to an opening one, and whether the two enclose a library. -/
def delimiter? (opening : Char) : Option (Char × Bool) :=
  if opening = '<' then some ('>', true)
  else if opening = Text.doubleQuote then some (Text.doubleQuote, false)
  else none

/-- Reads what follows the keyword; `line` is the whole line, for the defect. -/
def ofTarget (line : Text) : Text → Except Defect Include
  | [] => .error (.noTarget line)
  | opening :: rest =>
    match delimiter? opening with
    | none => .error (.noTarget line)
    | some (closing, isLibrary) =>
      match Text.cut? closing rest with
      | none => .error (.unterminatedTarget line)
      | some (target, _) =>
        if withoutExtension target = [] then .error (.emptyTarget line)
        else .ok ⟨withoutExtension target, isLibrary⟩

/-- The directive on a normalized line, if the line is one. -/
def ofLine (line : Text) : Except Defect (Option Include) :=
  if Settings.includeKeyword.isPrefixOf line then
    (ofTarget line (Text.trim (line.drop Settings.includeKeyword.length))).map some
  else .ok none

/-- The directives on the lines, or the first malformed one with its number. -/
def ofLinesFrom (number : Nat) : List Text → Except (Nat × Defect) (List Include)
  | [] => .ok []
  | line :: lines =>
    match ofLine (Text.normalize line) with
    | .error d => .error (number, d)
    | .ok found =>
      match ofLinesFrom (number + 1) lines with
      | .error e => .error e
      | .ok rest => .ok (found.toList ++ rest)

def ofLines (lines : List Text) : Except (Nat × Defect) (List Include) := ofLinesFrom 1 lines

end Include

end SourceSurvey
