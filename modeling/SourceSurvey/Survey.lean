import SourceSurvey.FileSystem.Read

/-!
# Surveys

A survey is what scanning a list of files gives: the methods, one dependence record per class name
in the order of first addition, the number of files and the files that were skipped. All file names
are checked before any file is read, and the first fault ends the survey.
-/

namespace SourceSurvey

structure Survey where
  methods : List Method
  dependencies : List (Text × Dependence)
  filesScanned : Nat
  skipped : List Text
  deriving DecidableEq, Repr

namespace Survey

def empty : Survey := ⟨[], [], 0, []⟩

/-! ## Contents -/

def records (s : Survey) : List Dependence := s.dependencies.map Prod.snd

def classNames (s : Survey) : List Text := s.dependencies.map Prod.fst

def record? (s : Survey) (className : Text) : Option Dependence :=
  (s.dependencies.find? fun e => e.1 = className).map Prod.snd

def dependencySet (s : Survey) : List Dependence := Dependence.distinct s.records

def dependencyCount (s : Survey) : Nat := s.dependencies.length

def addMethods (s : Survey) (ms : List Method) : Survey := { s with methods := s.methods ++ ms }

/-- Whether the survey has no record of the class yet. -/
def isNew (s : Survey) (d : Dependence) : Bool := d.className ∉ s.classNames

/-- The first record of a class stays. -/
def addDependence (s : Survey) (d : Dependence) : Survey :=
  if s.isNew d then { s with dependencies := s.dependencies ++ [(d.className, d)] } else s

def skip (s : Survey) (label : Text) : Survey := { s with skipped := s.skipped ++ [label] }

def setFlags (s : Survey) (index : Nat) (included : Bool) (inputData : Option Path) : Survey :=
  { s with methods := s.methods.modify index fun m =>
      { m with included := included, inputData := inputData } }

inductive Edit where
  | addMethods (ms : List Method)
  | addDependence (d : Dependence)
  | skip (label : Text)
  | setFlags (index : Nat) (included : Bool) (inputData : Option Path)
  deriving DecidableEq, Repr

def edit (s : Survey) : Edit → Survey
  | .addMethods ms => s.addMethods ms
  | .addDependence d => s.addDependence d
  | .skip label => s.skip label
  | .setFlags index included inputData => s.setFlags index included inputData

def ofEdits (edits : List Edit) : Survey := edits.foldl edit empty

/-! ## Scanning files -/

/-- The file name endings of translation units and of headers. -/
structure Extensions where
  sources : List Text
  headers : List Text
  deriving DecidableEq, Repr

def Extensions.standard : Extensions := ⟨Settings.sourceExtensions, Settings.headerExtensions⟩

def Extensions.accepted (x : Extensions) : List Text := Ascending.ofList (x.sources ++ x.headers)

/-- The error for the first path that has no accepted extension. -/
def unsupported? (x : Extensions) : List Path → Option ScanError
  | [] => none
  | p :: paths =>
    if p.suffix ∈ x.accepted then unsupported? x paths
    else some ⟨.unsupportedExtension p.suffix x.accepted, some p.toText, none⟩

def countFile (s : Survey) : Survey := { s with filesScanned := s.filesScanned + 1 }

/-- A file name ending of both kinds makes a translation unit. -/
def scanFile (fs : FileSystem) (x : Extensions) (s : Survey) (p : Path) : Except Fault Survey :=
  if p.suffix ∈ x.sources then
    (Dependence.ofFile fs p).map fun
      | none => (s.skip p.toText).countFile
      | some d => (s.addDependence d).countFile
  else
    (Method.ofFile fs p).map fun
      | none => (s.skip p.toText).countFile
      | some ms => (s.addMethods ms).countFile

def scanFiles (fs : FileSystem) (x : Extensions) (s : Survey) : List Path → Except Fault Survey
  | [] => .ok s
  | p :: paths =>
    match scanFile fs x s p with
    | .error f => .error f
    | .ok s => scanFiles fs x s paths

def ofFiles (fs : FileSystem) (x : Extensions) (paths : List Path) : Except Fault Survey :=
  match unsupported? x paths with
  | some e => .error (.scan e)
  | none => scanFiles fs x empty paths

end Survey

end SourceSurvey
