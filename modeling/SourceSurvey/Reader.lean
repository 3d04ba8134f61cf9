import SourceSurvey.Body
import SourceSurvey.Defect
import SourceSurvey.Text.Lines

/-!
# Line readers

A reader hands out the lines of a source one after the other and knows how many it has handed out.
Skipping a body consumes lines like reading does. A reader's steps can be run as a list, each with
its answer and the line number after it.
-/

namespace SourceSurvey

structure Reader where
  number : Nat
  remaining : List Text
  deriving DecidableEq, Repr

namespace Reader

def ofSource (source : Text) : Reader := ⟨0, Text.lines source⟩

def readLine (r : Reader) : Option Text × Reader :=
  match r.remaining with
  | [] => (none, r)
  | line :: rest => (some line, ⟨r.number + 1, rest⟩)

/-- Up to `k` lines. -/
def take (k : Nat) (r : Reader) : List Text × Reader :=
  (r.remaining.take k, ⟨r.number + (r.remaining.take k).length, r.remaining.drop k⟩)

def rest (r : Reader) : List Text × Reader :=
  (r.remaining, ⟨r.number + r.remaining.length, []⟩)

/-- Reads lines until the body ends, where the count of its braces is `depth` so far. The answer is
the count that is left at the end of input, which is zero if the body ended or never began. -/
def skipLines (depth : Int) (number : Nat) : List Text → Int × Reader
  | [] => (depth, ⟨number, []⟩)
  | line :: lines =>
    match Body.count depth line with
    | none => (0, ⟨number + 1, lines⟩)
    | some depth => skipLines depth (number + 1) lines

/-- Skips the body that begins in `fragment`, the end of the last line read. -/
def skipBody (fragment : Text) (r : Reader) : Int × Reader :=
  match Body.count 0 fragment with
  | none => (0, r)
  | some depth => skipLines depth r.number r.remaining

/-! ## Lists of steps -/

inductive Step where
  | readLine
  | take (k : Nat)
  | rest
  | skipBody (fragment : Text) (label : Option Text)
  deriving DecidableEq, Repr

inductive Answer where
  | line (l : Option Text)
  | lines (ls : List Text)
  | number (n : Nat)
  | failure (e : ScanError)
  deriving DecidableEq, Repr

def perform (r : Reader) : Step → Answer × Reader
  | .readLine => (.line r.readLine.1, r.readLine.2)
  | .take k => (.lines (r.take k).1, (r.take k).2)
  | .rest => (.lines r.rest.1, r.rest.2)
  | .skipBody fragment label =>
    let (depth, after) := r.skipBody fragment
    if depth = 0 then (.number after.number, after)
    else (.failure ⟨.openBody r.number depth, label, some after.number⟩, after)

/-- The answer of each step with the reader after it. -/
def run (r : Reader) : List Step → List (Answer × Reader)
  | [] => []
  | s :: steps => r.perform s :: run (r.perform s).2 steps

end Reader

end SourceSurvey
