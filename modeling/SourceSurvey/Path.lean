import SourceSurvey.Text.Basic

/-!
# Paths

A path is a root, if any, and its components. Empty components and `.` vanish when a path is read
and `..` stays. Exactly two leading slashes are a root of their own. The class name of a path is
its last component up to the first dot.
-/

namespace SourceSurvey

structure Path where
  root : Text
  parts : List Text
  deriving DecidableEq, Repr

namespace Path

def slashes (t : Text) : Nat := (t.takeWhile (· = '/')).length

def rootOf (t : Text) : Text :=
  match slashes t with
  | 0 => []
  | 2 => ['/', '/']
  | _ => ['/']

def componentsOf (t : Text) : List Text :=
  (t.splitOn '/').filter fun part => !(part.isEmpty || part = ['.'])

def ofText (t : Text) : Path := ⟨rootOf t, componentsOf t⟩

def toText (p : Path) : Text :=
  if p.root = [] ∧ p.parts = [] then ['.'] else p.root ++ Text.join ['/'] p.parts

def isAbsolute (p : Path) : Bool := !p.root.isEmpty

/-- The last component; a path without components has the empty name. -/
def name (p : Path) : Text := p.parts.getLast?.getD []

/-- What follows the last dot, with the dot, unless that is the first or the last character. -/
def extensionOf (name : Text) : Text :=
  let stem := (name.reverse.dropWhile (· ≠ '.')).tail
  let ending := (name.reverse.takeWhile (· ≠ '.')).reverse
  if stem = [] ∨ ending = [] then [] else '.' :: ending

def suffix (p : Path) : Text := extensionOf p.name

def className (p : Path) : Text := p.name.takeWhile (· ≠ '.')

/-- The path of an entry below a directory. -/
def below (p : Path) (parts : List Text) : Path := ⟨p.root, p.parts ++ parts⟩

end Path

end SourceSurvey
