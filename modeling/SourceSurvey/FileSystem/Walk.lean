import SourceSurvey.FileSystem.Basic

/-!
# Walking along paths

`locate` follows a path as the system does: each step needs a directory to start from, a symbolic
link is replaced by the steps of its target, and at most forty links are followed. `realPath` is
the path of an argument without links, where what does not exist stays as it is written.
-/

namespace SourceSurvey.FileSystem

def maxLinks : Nat := 40

def maxNameBytes : Nat := 255

def maxPathBytes : Nat := 4095

def byteLength (t : Text) : Nat := (Text.Utf8.encode t).length

/-- The steps of a link's target. A slash at its end asks for a directory, as a step to `.` does. -/
def stepsOf (target : Text) : List Text :=
  let steps := (target.splitOn '/').filter fun step => !step.isEmpty
  if target.getLast? = some '/' then steps ++ [['.']] else steps

/-- Where the steps of a target begin when its link stands in the directory `here`. -/
def originOf (here : Location) (target : Text) : Location :=
  if target.head? = some '/' then [] else here

/-! ## Following -/

def walk (fs : FileSystem) (links : Nat) (here : Location) : List Text → Except Refusal Location
  | [] => .ok here
  | step :: steps =>
    if !fs.isDirectory here then .error .notADirectory
    else if step = ['.'] then walk fs links here steps
    else if step = ['.', '.'] then walk fs links here.dropLast steps
    else if maxNameBytes < byteLength step then .error .nameTooLong
    else match fs.entry? (here ++ [step]) with
      | none => .error .notFound
      | some (.link target) =>
        match links with
        | 0 => .error .tooManyLinks
        | links + 1 => walk fs links (originOf here target) (stepsOf target ++ steps)
      | some _ => walk fs links (here ++ [step]) steps
termination_by steps => (links, steps.length)

def origin (fs : FileSystem) (p : Path) : Location := if p.isAbsolute then [] else fs.working

def locate (fs : FileSystem) (p : Path) : Except Refusal Location :=
  if maxPathBytes < byteLength p.toText then .error .nameTooLong
  else fs.walk maxLinks (fs.origin p) p.parts

/-- The entry that the path leads to, never a link. -/
def status (fs : FileSystem) (p : Path) : Except Refusal (Option Entry) :=
  (fs.locate p).map fs.entry?

/-! ## Real paths -/

/-- One step by its name alone. -/
def lexicalStep (here : Location) (step : Text) : Location :=
  if step = [] ∨ step = ['.'] then here
  else if step = ['.', '.'] then here.dropLast else here ++ [step]

/-- A path with the rest of a text behind it, by the names alone. A rest that begins with a slash
takes the place of the path. -/
def followedBy (p : Path) (rest : List Text) : Path :=
  let t := Text.join ['/'] rest
  if t.head? = some '/' then ⟨Path.rootOf t, rest.foldl lexicalStep []⟩
  else ⟨p.root, rest.foldl lexicalStep p.parts⟩

def linkAt? (fs : FileSystem) (l : Location) : Option Text :=
  match fs.entry? l with
  | some (.link target) => some target
  | _ => none

/-- A path under way to a location. It is spelled from the root, or from the working directory with
`ups` steps up before its names. -/
structure Spelled where
  ups : Option Nat
  here : Location
  deriving DecidableEq, Repr

namespace Spelled

def toPath (working : Location) (s : Spelled) : Path :=
  match s.ups with
  | none => ⟨['/'], s.here⟩
  | some ups => ⟨[], List.replicate ups ['.', '.'] ++ s.here.drop (working.length - ups)⟩

def enter (s : Spelled) (name : Text) : Spelled := ⟨s.ups, s.here ++ [name]⟩

/-- One step up, which takes the last name away or, where there is none, begins the path. -/
def up (working : Location) (s : Spelled) : Spelled :=
  ⟨s.ups.map fun ups => if s.here.length ≤ working.length - ups then ups + 1 else ups,
    s.here.dropLast⟩

/-- Where a text begins that is read behind the path. -/
def originOf (s : Spelled) (t : Text) : Spelled := if t.head? = some '/' then ⟨none, []⟩ else s

/-- Every spelling of a location that a path has room for. -/
def allOf (l : Location) : List Spelled :=
  ⟨none, l⟩ :: (List.range maxPathBytes).map fun ups => ⟨some ups, l⟩

end Spelled

/-- The target of the link that a path leads to. A path that is too long leads to none. -/
def linkSpelled? (fs : FileSystem) (s : Spelled) : Option Text :=
  if maxPathBytes < byteLength (s.toPath fs.working).toText then none else fs.linkAt? s.here

/-- Replaces the links on the way; `unentered` are those whose targets are not being followed now.
A link is known by its spelling. One met inside its own target stays, with all that comes after it,
and ends the search. -/
def resolve (fs : FileSystem) (unentered : List Spelled) (s : Spelled) :
    List Text → Except Path Spelled
  | [] => .ok s
  | step :: steps =>
    if step = [] ∨ step = ['.'] then resolve fs unentered s steps
    else if step = ['.', '.'] then resolve fs unentered (s.up fs.working) steps
    else match fs.linkSpelled? (s.enter step) with
      | none => resolve fs unentered (s.enter step) steps
      | some target =>
        if _h : s.enter step ∈ unentered then
          match resolve fs (unentered.erase (s.enter step)) (s.originOf target)
              (target.splitOn '/') with
          | .ok there => resolve fs unentered there steps
          | .error p => .error (followedBy p steps)
        else .error (followedBy ⟨['/'], s.here ++ [step]⟩ steps)
termination_by steps => (unentered.length, steps.length)
decreasing_by
  all_goals simp_wf
  · exact Prod.Lex.right _ (by omega)
  · exact Prod.Lex.right _ (by omega)
  · exact Prod.Lex.right _ (by omega)
  · have := List.length_erase_of_mem ‹s.enter step ∈ unentered›
    have := List.length_pos_of_mem ‹s.enter step ∈ unentered›
    exact Prod.Lex.left _ _ (by omega)
  · exact Prod.Lex.right _ (by omega)

/-- Every spelling of a link. -/
def spelledLinks (fs : FileSystem) : List Spelled :=
  ((fs.entries.map Prod.fst).filter fun l => (fs.linkAt? l).isSome).flatMap Spelled.allOf

/-- The absolute path of an argument, without links as far as they can be followed. -/
def realPath (fs : FileSystem) (t : Text) : Path :=
  let start : Spelled := ⟨some 0, fs.working⟩
  match fs.resolve fs.spelledLinks (start.originOf t) (t.splitOn '/') with
  | .ok s => ⟨['/'], s.here⟩
  | .error p => p

end SourceSurvey.FileSystem
