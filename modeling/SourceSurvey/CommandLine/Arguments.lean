import SourceSurvey.Text.Basic

/-!
# Command line arguments

A grammar says which long names and which single letters are options, whether an option takes a
value, and whether options may follow other arguments. `--` ends the options. A long option takes
its value after `=` or from the next argument, letters can be written together, and what follows a
letter that takes a value is that value.
-/

namespace SourceSurvey.CommandLine

inductive Switch where
  | version
  | verbose
  | help
  deriving DecidableEq, Repr

inductive Kind where
  | flag (s : Switch)
  | value
  deriving DecidableEq, Repr

structure Grammar where
  long : List (Text × Kind)
  short : List (Char × Kind)
  mixed : Bool
  deriving DecidableEq, Repr

/-- What the arguments hold: the flags set, the values given and all other arguments, in order. -/
structure Parsed where
  flags : List Switch
  values : List Text
  others : List Text
  deriving DecidableEq, Repr

/-- What one argument holds. A value that is still missing is the next argument. -/
inductive Reading where
  | flags (set : List Switch)
  | value (set : List Switch) (v : Text)
  | awaiting (set : List Switch)
  deriving DecidableEq, Repr

def Reading.withFlag (s : Switch) : Reading → Reading
  | .flags set => .flags (s :: set)
  | .value set v => .value (s :: set) v
  | .awaiting set => .awaiting (s :: set)

/-! ## One argument -/

def readLetters (g : Grammar) : Text → Option Reading
  | [] => some (.flags [])
  | c :: t =>
    match g.short.lookup c with
    | none => none
    | some (.flag s) => (readLetters g t).map (Reading.withFlag s)
    | some .value => some (if t.isEmpty then .awaiting [] else .value [] t)

def isDoubleDash (arg : Text) : Bool := ['-', '-'].isPrefixOf arg

/-- A long name ends at the first `=`. What is no long name and has one dash is read as letters. -/
def readOption (g : Grammar) (arg : Text) : Option Reading :=
  match Text.cut? '=' arg with
  | none =>
    match g.long.lookup arg with
    | some (.flag s) => some (.flags [s])
    | some .value => some (.awaiting [])
    | none => if isDoubleDash arg then none else readLetters g arg.tail
  | some (name, v) =>
    match g.long.lookup name with
    | some (.flag _) => none
    | some .value => some (.value [] v)
    | none => if isDoubleDash arg then none else readLetters g arg.tail

def isOption (arg : Text) : Bool := arg.head? = some '-' && 1 < arg.length

/-! ## All arguments -/

def Parsed.withReading (flags : List Switch) (values : List Text) (p : Parsed) : Parsed :=
  ⟨flags ++ p.flags, values ++ p.values, p.others⟩

def Parsed.withOther (arg : Text) (p : Parsed) : Parsed := { p with others := arg :: p.others }

/-- Nothing if an option is unknown, lacks its value, or has one that it does not take. -/
def parse (g : Grammar) : List Text → Option Parsed
  | [] => some ⟨[], [], []⟩
  | arg :: args =>
    if arg = ['-', '-'] then some ⟨[], [], args⟩
    else if isOption arg then
      match readOption g arg with
      | none => none
      | some (.flags flags) => (parse g args).map (Parsed.withReading flags [])
      | some (.value flags v) => (parse g args).map (Parsed.withReading flags [v])
      | some (.awaiting flags) =>
        match args with
        | [] => none
        | v :: args => (parse g args).map (Parsed.withReading flags [v])
    else if g.mixed then (parse g args).map (Parsed.withOther arg)
    else some ⟨[], [], arg :: args⟩

end SourceSurvey.CommandLine
