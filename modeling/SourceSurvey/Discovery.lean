import SourceSurvey.Survey
import SourceSurvey.Text.Glob

/-!
# Discovery

The source files below a directory: entries at any depth, reached through real directories only,
that are files or links to files and have an accepted extension. Files in excluded directories and
files that a pattern matches are left out. Entries are looked at in the order of the walk, and the
first that cannot be looked at ends the search; the paths found ascend by their components.
-/

namespace SourceSurvey.Discovery

/-! ## Patterns -/

/-- Compares the components from the right; a pattern with more components than the path has does
not match, nor does an absolute one. -/
def patternMatches (pattern : Path) (parts : List Text) : Bool :=
  !pattern.isAbsolute && pattern.parts.length ≤ parts.length &&
    (pattern.parts.reverse.zip parts.reverse).all fun m => Text.Glob.isMatch m.1 m.2

def isEmptyPattern (pattern : Path) : Bool := !pattern.isAbsolute && pattern.parts.isEmpty

/-- Tries the patterns in order up to the first that matches. -/
def anyPatternMatches (parts : List Text) : List Path → Except Fault Bool
  | [] => .ok false
  | pattern :: patterns =>
    if isEmptyPattern pattern then .error .emptyPattern
    else if patternMatches pattern parts then .ok true
    else anyPatternMatches parts patterns

def inExcludedDirectory (parts : List Text) : Bool :=
  parts.dropLast.any fun part =>
    Settings.excludedDirectories.any fun pattern => Text.Glob.isMatch pattern part

def isExcluded (patterns : List Path) (parts : List Text) : Except Fault Bool :=
  if inExcludedDirectory parts then .ok true else anyPatternMatches parts patterns

/-! ## Entries -/

/-- The names of the entries in a directory, as the file system enumerates them. -/
def namesIn (fs : FileSystem) (l : Location) : List Text :=
  fs.entries.filterMap fun e => if e.1.dropLast = l then e.1.getLast? else none

/-- The ways of at most `depth` names from `base` to the entries below it, in the order of a walk:
all entries of a directory come before what lies in its real subdirectories. -/
def waysWithin (fs : FileSystem) (base : Location) : Nat → List (List Text)
  | 0 => []
  | depth + 1 =>
    (namesIn fs base).map (fun name => [name]) ++
      ((namesIn fs base).filter fun name => fs.isDirectory (base ++ [name])).flatMap fun name =>
        (waysWithin fs (base ++ [name]) depth).map fun parts => name :: parts

/-- The most names that an entry has on its way from the root. -/
def depth (fs : FileSystem) : Nat := fs.entries.foldr (fun e most => max e.1.length most) 0

/-- The way from `base` to each entry below it that is reached through real directories. -/
def waysBelow (fs : FileSystem) (base : Location) : List (List Text) :=
  waysWithin fs base (depth fs)

/-- Whether the refusal of a path only says that there is nothing at its end. -/
def isAbsence : Refusal → Bool
  | .notFound | .notADirectory | .tooManyLinks => true
  | .isADirectory | .nameTooLong => false

/-- What the path leads to, or nothing if it leads nowhere. -/
def entryAt (fs : FileSystem) (p : Path) : Except Fault (Option Entry) :=
  if nul ∈ p.toText then .ok none
  else match fs.status p with
    | .ok e => .ok e
    | .error r => if isAbsence r then .ok none else .error (.refused r p.toText)

def isFile (fs : FileSystem) (p : Path) : Except Fault Bool :=
  (entryAt fs p).map fun
    | some (.file _) => true
    | _ => false

/-- Whether the entry `parts` below the directory is among the discovered files. -/
def isWanted (fs : FileSystem) (accepted : List Text) (patterns : List Path) (directory : Path)
    (parts : List Text) : Except Fault Bool :=
  match isFile fs (directory.below parts) with
  | .error f => .error f
  | .ok false => .ok false
  | .ok true =>
    if (directory.below parts).suffix ∈ accepted then (isExcluded patterns parts).map (!·)
    else .ok false

def select (wanted : List Text → Except Fault Bool) : List (List Text) →
    Except Fault (List (List Text))
  | [] => .ok []
  | parts :: rest =>
    match wanted parts with
    | .error f => .error f
    | .ok keep => (select wanted rest).map fun found => if keep then parts :: found else found

/-- The location of a directory, or why it cannot be searched. -/
def base (fs : FileSystem) (directory : Path) : Except Fault Location :=
  match entryAt fs directory with
  | .error f => .error f
  | .ok none => .error (.directoryNotFound directory.toText)
  | .ok (some .directory) =>
    (fs.locate directory).mapError fun r => .refused r directory.toText
  | .ok (some _) => .error (.notADirectory directory.toText)

def discover (fs : FileSystem) (x : Survey.Extensions) (patterns : List Text) (directory : Path) :
    Except Fault (List Path) :=
  match base fs directory with
  | .error f => .error f
  | .ok location =>
    (select (isWanted fs x.accepted (patterns.map Path.ofText) directory)
      (waysBelow fs location)).map fun found => (Ascending.ofList found).map directory.below

end SourceSurvey.Discovery

/-- The survey of all source files below a directory. -/
def SourceSurvey.Survey.ofDirectory (fs : FileSystem) (patterns : List Text) (directory : Path) :
    Except Fault Survey :=
  match Discovery.discover fs Extensions.standard patterns directory with
  | .error f => .error f
  | .ok paths => ofFiles fs Extensions.standard paths
