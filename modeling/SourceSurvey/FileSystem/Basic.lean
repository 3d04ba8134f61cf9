import SourceSurvey.Path
import SourceSurvey.Text.Utf8

/-!
# File systems

A file system holds files, directories and symbolic links at locations, which are the names of the
entries on the way from the root. Each location holds at most one entry, the root is a directory
that needs none, and relative paths start at the working directory.
-/

namespace SourceSurvey

abbrev Location := List Text

inductive Entry where
  | file (bytes : List UInt8)
  | directory
  | link (target : Text)
  deriving DecidableEq, Repr

structure FileSystem where
  entries : List (Location × Entry)
  working : Location
  nodup : (entries.map Prod.fst).Nodup

namespace FileSystem

def emptyAt (working : Location) : FileSystem := ⟨[], working, List.nodup_nil⟩

def entry? (fs : FileSystem) (l : Location) : Option Entry :=
  if l = [] then some .directory else (fs.entries.find? fun e => e.1 = l).map Prod.snd

def isDirectory (fs : FileSystem) (l : Location) : Bool := fs.entry? l = some .directory

/-- The file system with the entry at the location, in place of the one there was. -/
def put (fs : FileSystem) (l : Location) (e : Entry) : FileSystem where
  entries := fs.entries.filter (fun f => f.1 ≠ l) ++ [(l, e)]
  working := fs.working
  nodup := by
    have hsub : ((fs.entries.filter fun f => f.1 ≠ l).map Prod.fst).Sublist
        (fs.entries.map Prod.fst) := List.Sublist.map _ List.filter_sublist
    simp only [List.map_append, List.map_cons, List.map_nil, List.nodup_append]
    refine ⟨hsub.nodup fs.nodup, by simp, ?_⟩
    intro a ha b hb
    obtain ⟨f, hf, rfl⟩ := List.mem_map.1 ha
    simp_all

end FileSystem

/-! ## What the system refuses -/

/-- The refusals that come from the entries of a file system. Every entry may be read and every
directory searched, so none is refused for want of a permission. -/
inductive Refusal where
  | notFound
  | notADirectory
  | isADirectory
  | nameTooLong
  | tooManyLinks
  deriving DecidableEq, Repr

def Refusal.number : Refusal → Nat
  | .notFound => 2
  | .notADirectory => 20
  | .isADirectory => 21
  | .nameTooLong => 36
  | .tooManyLinks => 40

def Refusal.description : Refusal → Text
  | .notFound => "No such file or directory".toList
  | .notADirectory => "Not a directory".toList
  | .isADirectory => "Is a directory".toList
  | .nameTooLong => "File name too long".toList
  | .tooManyLinks => "Too many levels of symbolic links".toList

end SourceSurvey
