import SourceSurvey.Include
import SourceSurvey.NameSet

/-!
# Dependence records

What one translation unit includes: names of the project and names of libraries. Two records stand
for the same class exactly when their class names agree, whatever they include.
-/

namespace SourceSurvey

structure Dependence where
  className : Text
  project : NameSet
  libraries : NameSet
  deriving DecidableEq, Repr

namespace Dependence

def sameClass (d e : Dependence) : Bool := d.className = e.className

/-- The records as a set: of several records for one class the first stays. -/
def distinct (ds : List Dependence) : List Dependence := ds.eraseDupsBy sameClass

/-- The class names of the records, each once and in ascending order. -/
def classNames (ds : List Dependence) : List Text := Ascending.ofList (ds.map className)

/-- The record that a list of directives makes. -/
def ofIncludes (className : Text) (found : List Include) : Dependence :=
  ⟨className, NameSet.ofList ((found.filter fun i => !i.isLibrary).map Include.name),
    NameSet.ofList ((found.filter Include.isLibrary).map Include.name)⟩

def ofLines (className label : Text) (lines : List Text) : Except ScanError Dependence :=
  match Include.ofLines lines with
  | .error (number, d) => .error ⟨d, some label, some number⟩
  | .ok found => .ok (ofIncludes className found)

/-- The record of a source text. A blank or generated source has none. -/
def ofSource (className label source : Text) : Except ScanError (Option Dependence) :=
  match Text.skipReason? Settings.testMarker (Text.lines source) with
  | some _ => .ok none
  | none => (ofLines className label (Text.lines source)).map some

def toText (d : Dependence) : Text :=
  d.className ++ ": project=[".toList ++ d.project.listed ++ "] libraries=[".toList ++
    d.libraries.listed ++ [']']

end Dependence

end SourceSurvey
