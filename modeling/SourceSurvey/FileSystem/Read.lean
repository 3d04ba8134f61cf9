import SourceSurvey.Csv
import SourceSurvey.Dependence
import SourceSurvey.DeclarationScan
import SourceSurvey.Fault
import SourceSurvey.FileSystem.Walk
import SourceSurvey.Text.Newline

/-!
# Reading files

Sources are decoded with a replacement character for every ill-formed piece, rows only when all
bytes are well-formed; in both, all line ends become newlines. The label of a file is its path and
its class is named by its file name.
-/

namespace SourceSurvey

def nul : Char := '\x00'

namespace FileSystem

/-- A walk that succeeds ends at a file or a directory. -/
def readBytes (fs : FileSystem) (p : Path) : Except Fault (List UInt8) :=
  if nul ∈ p.toText then .error .embeddedNull
  else match fs.status p with
    | .error r => .error (.refused r p.toText)
    | .ok (some (.file bytes)) => .ok bytes
    | .ok (some .directory) => .error (.refused .isADirectory p.toText)
    | .ok _ => .error (.refused .notFound p.toText)

def readSource (fs : FileSystem) (p : Path) : Except Fault Text :=
  (fs.readBytes p).map fun bytes => Text.unifyNewlines (Text.Utf8.decodeLossy bytes)

def readStrictly (fs : FileSystem) (p : Path) : Except Fault Text :=
  match fs.readBytes p with
  | .error f => .error f
  | .ok bytes =>
    match Text.Utf8.decode bytes with
    | .error f => .error (.undecodable f)
    | .ok t => .ok (Text.unifyNewlines t)

end FileSystem

def Method.ofFile (fs : FileSystem) (p : Path) : Except Fault (Option (List Method)) :=
  match fs.readSource p with
  | .error f => .error f
  | .ok source => (Method.ofSource p.className p.toText source).mapError .scan

def Dependence.ofFile (fs : FileSystem) (p : Path) : Except Fault (Option Dependence) :=
  match fs.readSource p with
  | .error f => .error f
  | .ok source => (Dependence.ofSource p.className p.toText source).mapError .scan

def Csv.ofFile (fs : FileSystem) (p : Path) : Except Fault (List Csv.Row) :=
  (fs.readStrictly p).map Csv.rows

/-- The rows of a method's input data, if it has any. -/
def Method.loadInputData (fs : FileSystem) (m : Method) : Except Fault (Option (List Csv.Row)) :=
  match m.inputData with
  | none => .ok none
  | some p => (Csv.ofFile fs p).map some

end SourceSurvey
