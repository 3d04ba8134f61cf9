import SourceSurvey.Body
import SourceSurvey.Defect
import SourceSurvey.Method

/-!
# The scan for declarations

Physical lines are fed one at a time to a state. The state is ready for a new logical line, joins
the lines of an open parameter list, or skips the body of the last declaration found; each of the
two unfinished modes remembers the line it began at. Input may end when no parameter list and no
brace is open.
-/

namespace SourceSurvey.DeclarationScan

inductive Mode where
  | ready
  | joining (start : Nat) (text : Text)
  | skipping (start : Nat) (depth : Int)
  deriving DecidableEq, Repr

/-- The number of lines read, what the next line is for, and the declarations found. -/
structure State where
  line : Nat
  mode : Mode
  found : List Declaration
  deriving DecidableEq, Repr

def initial : State := ⟨0, .ready, []⟩

/-- Reads text of a body whose declaration ended on line `start`. -/
def skip (start : Nat) (depth : Int) (text : Text) : Mode :=
  match Body.count depth text with
  | none => .ready
  | some depth => .skipping start depth

/-- Reads the text of a logical line that began on line `start` and has been joined up to the line
numbered `line`. -/
def join (line start : Nat) (text : Text) (found : List Declaration) : State :=
  if Declaration.isOpen text then ⟨line, .joining start text, found⟩
  else match Declaration.ofLine? text with
    | none => ⟨line, .ready, found⟩
    | some d => ⟨line, if d.hasBody then skip line 0 d.trailing else .ready, found ++ [d]⟩

def feed (s : State) (raw : Text) : State :=
  let line := s.line + 1
  match s.mode with
  | .ready => join line line (Text.normalize raw) s.found
  | .joining start text => join line start (text ++ ' ' :: Text.normalize raw) s.found
  | .skipping start depth => ⟨line, skip start depth raw, s.found⟩

/-- What is wrong with an input that ends in the mode. -/
def Mode.defect? : Mode → Option Defect
  | .ready => none
  | .joining start _ => some (.openParameters start)
  | .skipping start depth => if depth = 0 then none else some (.openBody start depth)

def State.finish (s : State) : Except Defect (List Declaration) :=
  match s.mode.defect? with
  | none => .ok s.found
  | some d => .error d

def run (lines : List Text) : State := lines.foldl feed initial

/-- The declarations of the lines, in order. -/
def declarations (lines : List Text) : Except Defect (List Declaration) := (run lines).finish

end SourceSurvey.DeclarationScan

namespace SourceSurvey.Method

def ofLines (className label : Text) (lines : List Text) : Except ScanError (List Method) :=
  match DeclarationScan.declarations lines with
  | .error d => .error ⟨d, some label, some lines.length⟩
  | .ok found => .ok (found.map (ofDeclaration className))

/-- The methods of a source text. A blank or generated source has none to scan for. -/
def ofSource (className label source : Text) : Except ScanError (Option (List Method)) :=
  match Text.skipReason? Settings.fixtureMarker (Text.lines source) with
  | some _ => .ok none
  | none => (ofLines className label (Text.lines source)).map some

end SourceSurvey.Method
