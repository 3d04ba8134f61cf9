import SourceSurvey.CommandLine.Invocation
import SourceSurvey.CommandLine.Printed
import SourceSurvey.Discovery

/-!
# The commands

A run of the program ends with an exit code and the items it gives to the console: 0 on success, 1
when a fault is reported, 2 when the arguments are not understood. A fault that no command reports
ends the run as well, with exit code 1 and the fault itself as the outcome. All items are made
before the first is printed, so what a console does with them is told apart from the commands.
-/

namespace SourceSurvey.CommandLine

structure Outcome where
  exitCode : Nat
  printed : List Printed
  unreported : Option Fault
  deriving DecidableEq, Repr

namespace Outcome

def success (printed : List Printed) : Outcome := ⟨0, printed, none⟩

def failure (printed : List Printed) : Outcome := ⟨1, printed, none⟩

def misuse : Outcome := ⟨2, [], none⟩

def unreportedFault (f : Fault) : Outcome := ⟨1, [], some f⟩

end Outcome

/-- The faults of scanned input and of the system are reported as a text. -/
def isReported : Fault → Bool
  | .scan _ | .refused _ _ | .directoryNotFound _ => true
  | .undecodable _ | .notADirectory _ | .emptyPattern | .embeddedNull | .unprintable _ => false

def ofFault (f : Fault) : Outcome :=
  if isReported f then .failure [errorText (Text.Markup.escape f.message)] else .unreportedFault f

/-! ## Path arguments -/

inductive Wanted where
  | anything
  | directory
  | other
  deriving DecidableEq, Repr

def Wanted.admits : Wanted → Entry → Bool
  | .anything, _ => true
  | .directory, e => e = .directory
  | .other, e => e ≠ .directory

/-- The real path of an argument, which must lead to an entry that is wanted. -/
def existing (fs : FileSystem) (wanted : Wanted) (arg : Text) : Except Outcome Path :=
  if nul ∈ arg then .error (.unreportedFault .embeddedNull)
  else match fs.status (fs.realPath arg) with
    | .ok (some e) => if wanted.admits e then .ok (fs.realPath arg) else .error .misuse
    | _ => .error .misuse

def allExisting (fs : FileSystem) (wanted : Wanted) : List Text → Except Outcome (List Path)
  | [] => .ok []
  | arg :: args =>
    match existing fs wanted arg with
    | .error o => .error o
    | .ok p => (allExisting fs wanted args).map (p :: ·)

/-! ## Commands -/

def isDirectoryPath (fs : FileSystem) (p : Path) : Bool :=
  match fs.status p with
  | .ok (some .directory) => true
  | _ => false

/-- The paths with each directory replaced by the source files below it. -/
def expand (fs : FileSystem) (patterns : List Text) : List Path → Except Fault (List Path)
  | [] => .ok []
  | p :: paths =>
    match if isDirectoryPath fs p then Discovery.discover fs .standard patterns p else .ok [p] with
    | .error f => .error f
    | .ok found => (expand fs patterns paths).map (found ++ ·)

def scan (fs : FileSystem) (elapsed : Text) (paths : List Path) (patterns : List Text) : Outcome :=
  match expand fs patterns paths with
  | .error f => .unreportedFault f
  | .ok files =>
    match Survey.ofFiles fs .standard files with
    | .error f => ofFault f
    | .ok s => .success (surveyPrinted elapsed s)

def graph (fs : FileSystem) (directory : Path) (patterns : List Text) : Outcome :=
  match Survey.ofDirectory fs patterns directory with
  | .error f => ofFault f
  | .ok s =>
    let g := IncludeGraph.ofRecords s.records
    match g.buildOrder with
    | .error _ => .failure (cyclesPrinted g)
    | .ok order => .success [.table (graphTable g order), .text (graphSummary g)]

def data (fs : FileSystem) (file : Path) : Outcome :=
  match Csv.ofFile fs file with
  | .error (.undecodable f) =>
    .failure [errorText (Text.Markup.escape file.toText ++ ": ".toList ++
      Text.Markup.escape f.message)]
  | .error f => ofFault f
  | .ok rows => .success [.table (dataTable file.name rows)]

/-! ## Runs -/

def runScan (fs : FileSystem) (elapsed : Text) (arguments excluded : List Text) : Outcome :=
  if arguments.isEmpty then .misuse
  else match allExisting fs .anything arguments with
    | .error o => o
    | .ok paths => scan fs elapsed paths excluded

/-- Runs a command that takes exactly one path. The path is looked at before further arguments. -/
def runOnPath (fs : FileSystem) (wanted : Wanted) (command : Path → Outcome) :
    List Text → Outcome
  | [] => .misuse
  | arg :: others =>
    match existing fs wanted arg with
    | .error o => o
    | .ok p => if others.isEmpty then command p else .misuse

def perform (fs : FileSystem) (elapsed : Text) : Invocation → Outcome
  | .help => .success []
  | .version => .success [versionText]
  | .misuse => .misuse
  | .run .scan arguments excluded => runScan fs elapsed arguments excluded
  | .run .graph arguments excluded =>
    runOnPath fs .directory (fun p => graph fs p excluded) arguments
  | .run .data arguments _ => runOnPath fs .other (data fs) arguments

/-- The outcome of the program on a file system, with all that it gives to the console as if that
accepted every item; `elapsed` is shown as the time of a scan. -/
def run (fs : FileSystem) (elapsed : Text) (args : List Text) : Outcome :=
  perform fs elapsed (.ofArguments args)

end SourceSurvey.CommandLine
