import SourceSurvey.CommandLine.Arguments

/-!
# Invocations

What a list of arguments asks for: help, the version, one of the three commands with its arguments
and exclude patterns, or nothing that is understood. Options of the program stand before the name
of the command; asking for help goes before all but a misuse, and asking for the version before
everything about a command except its name.
-/

namespace SourceSurvey.CommandLine

inductive Verb where
  | scan
  | graph
  | data
  deriving DecidableEq, Repr

inductive Invocation where
  | help
  | version
  | misuse
  | run (verb : Verb) (arguments excluded : List Text)
  deriving DecidableEq, Repr

def Verb.ofName? (name : Text) : Option Verb :=
  if name = "scan".toList then some .scan
  else if name = "graph".toList then some .graph
  else if name = "data".toList then some .data
  else none

def helpOption : Text × Kind := ("--help".toList, .flag .help)

def programGrammar : Grammar where
  long := [("--version".toList, .flag .version), ("--verbose".toList, .flag .verbose), helpOption]
  short := [('v', .flag .version)]
  mixed := false

def excludingGrammar : Grammar where
  long := [("--exclude".toList, .value), helpOption]
  short := [('e', .value)]
  mixed := true

def plainGrammar : Grammar := ⟨[helpOption], [], true⟩

def Verb.grammar : Verb → Grammar
  | .scan | .graph => excludingGrammar
  | .data => plainGrammar

def Parsed.has (p : Parsed) (s : Switch) : Bool := p.flags.contains s

def ofVerb (verb : Verb) (args : List Text) : Invocation :=
  match parse verb.grammar args with
  | none => .misuse
  | some p => if p.has .help then .help else .run verb p.others p.values

/-- Where no command has the name, the arguments from there on are read for help once more. -/
def ofUnknown (args : List Text) : Invocation :=
  match parse programGrammar args with
  | none => .misuse
  | some p => if p.has .help then .help else .misuse

def Invocation.ofArguments (args : List Text) : Invocation :=
  match parse programGrammar args with
  | none => .misuse
  | some p =>
    if p.has .help then .help
    else match p.others with
      | [] => if p.has .version then .version else .help
      | name :: others =>
        match Verb.ofName? name with
        | none => ofUnknown (name :: others)
        | some verb => if p.has .version then .version else ofVerb verb others

end SourceSurvey.CommandLine
