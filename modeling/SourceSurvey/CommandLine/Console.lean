import SourceSurvey.CommandLine.Command

/-!
# Consoles

A console is given the items of a run one after the other and reads their markup. It can refuse an
item, as for a closing tag that nothing has opened. Nothing of that item is shown, and no command
reports the refusal, so it ends the run.
-/

namespace SourceSurvey.CommandLine

/-- A console, by what it says of each item that it refuses. -/
structure Console where
  refusal? : Printed → Option Text

namespace Console

/-- The console that takes every markup it is given. -/
def plain : Console := ⟨fun _ => none⟩

/-- The items before the first that is refused. -/
def accepted (c : Console) (items : List Printed) : List Printed :=
  items.takeWhile fun item => (c.refusal? item).isNone

end Console

/-- What is left of an outcome when its items are printed on the console. -/
def Outcome.on (c : Console) (o : Outcome) : Outcome :=
  match o.printed.findSome? c.refusal? with
  | none => o
  | some message => ⟨1, c.accepted o.printed, some (.unprintable message)⟩

/-- The outcome of the program on a file system and a console. -/
def runOn (c : Console) (fs : FileSystem) (elapsed : Text) (args : List Text) : Outcome :=
  (run fs elapsed args).on c

end SourceSurvey.CommandLine
