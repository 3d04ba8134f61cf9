import SourceSurvey.FileSystem.Walk

/-!
# Placing entries

An entry is placed at a path below a directory. Directories on the way that are missing are made,
and links on the way to directories are followed.
-/

namespace SourceSurvey.FileSystem

def placeBelow (fs : FileSystem) (here : Location) (e : Entry) : List Text → FileSystem
  | [] => fs
  | [name] => fs.put (here ++ [name]) e
  | name :: names =>
    match fs.walk maxLinks here [name] with
    | .ok there => placeBelow fs there e names
    | .error _ => placeBelow (fs.put (here ++ [name]) .directory) (here ++ [name]) e names

/-- The file system with the entry at the path, which starts at the working directory. -/
def place (fs : FileSystem) (p : Path) (e : Entry) : FileSystem :=
  placeBelow fs (fs.origin p) e p.parts

end SourceSurvey.FileSystem
