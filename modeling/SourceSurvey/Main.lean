import SourceSurvey.CommandLine.Console
import SourceSurvey.CommandLine.Render
import SourceSurvey.FileSystem.Place

/-!
# The program

Loads what the path arguments lead to, runs the command on it, prints the outcome and ends with its
exit code. Everything that is decided is decided by the library.
-/

namespace SourceSurvey.Program

def textOf (s : String) : Text := s.toList

def stringOf (t : Text) : String := String.ofList t

/-- What a real path leads to and all that lies below it, added to the file system. A link is kept
as a link, with the entry it leads to beside it. -/
partial def load (fs : FileSystem) (path : String) : IO FileSystem := do
  let real ← IO.FS.realPath path
  if ← real.isDir then
    let mut loaded := fs.place (Path.ofText (textOf path)) .directory
    for entry in ← real.readDir do
      let below := entry.path.toString
      try
        let target := (← IO.FS.realPath below).toString
        if target == below then
          loaded ← load loaded below
        else
          loaded := loaded.place (Path.ofText (textOf below)) (.link (textOf target))
          if ← (← IO.FS.realPath target).isDir then
            loaded := loaded.place (Path.ofText (textOf target)) .directory
          else
            loaded ← load loaded target
      catch _ => pure ()
    return loaded
  else
    let bytes ← IO.FS.readBinFile path
    return fs.place (Path.ofText (textOf path)) (.file bytes.toList)

/-- Replaces each argument that leads somewhere by its real path and loads it. -/
def prepare (fs : FileSystem) : List Text → IO (List Text × FileSystem)
  | [] => return ([], fs)
  | arg :: args => do
    try
      let real := (← IO.FS.realPath (stringOf arg)).toString
      let (others, fs) ← prepare (← load fs real) args
      return (textOf real :: others, fs)
    catch _ =>
      let (others, fs) ← prepare fs args
      return (arg :: others, fs)

end SourceSurvey.Program

open SourceSurvey SourceSurvey.Program in
def main (args : List String) : IO UInt32 := do
  let start ← IO.monoMsNow
  let here := Path.ofText (textOf (← IO.currentDir).toString)
  let empty := (FileSystem.emptyAt here.parts).place here .directory
  let (invocation, fs) ← match CommandLine.Invocation.ofArguments (args.map textOf) with
    | .run verb arguments excluded => do
      let (arguments, fs) ← prepare empty arguments
      pure (CommandLine.Invocation.run verb arguments excluded, fs)
    | other => pure (other, empty)
  let elapsed := CommandLine.elapsedText ((← IO.monoMsNow) - start)
  let outcome := (CommandLine.perform fs elapsed invocation).on .plain
  if invocation = .help ∨ invocation = .misuse then
    for line in CommandLine.usage do IO.println (stringOf line)
  for item in outcome.printed do
    for line in item.lines do IO.println (stringOf line)
  match outcome.unreported with
  | none => pure ()
  | some f => IO.eprintln (stringOf f.message)
  return UInt32.ofNat outcome.exitCode
