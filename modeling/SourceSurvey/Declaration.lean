import SourceSurvey.Settings
import SourceSurvey.Text.Lines

/-!
# Declarations

A line declares a method when exactly two words stand before its first opening parenthesis, the
first of them no statement keyword, a closing parenthesis follows with no further opening one before
it, and no opening parenthesis comes next after that. What stands between the two parentheses is
the parameter list, and what stands after them tells whether a body follows.
-/

namespace SourceSurvey

structure Declaration where
  returnType : Text
  methodName : Text
  paramTypes : List Text
  trailing : Text
  deriving DecidableEq, Repr

namespace Declaration

/-- The first word of each parameter that has one. -/
def paramTypesOf (parameters : Text) : List Text :=
  (parameters.splitOn ',').filterMap fun parameter => (Text.words parameter).head?

def ofParts (head parameters trailing : Text) : Option Declaration :=
  match Text.words head with
  | [returnType, methodName] =>
    if returnType ∈ Settings.nonTypeKeywords ∨ '(' ∈ parameters ∨
        (Text.trimStart trailing).head? = some '(' then none
    else some ⟨returnType, methodName, paramTypesOf parameters, trailing⟩
  | _ => none

def ofLine? (line : Text) : Option Declaration :=
  if line.head? = some '#' then none
  else match Text.cut? '(' line with
    | none => none
    | some (head, rest) =>
      match Text.cut? ')' rest with
      | none => none
      | some (parameters, trailing) => ofParts head parameters trailing

/-- A body follows unless a semicolon comes, and comes before any opening brace. -/
def hasBody (d : Declaration) : Bool :=
  match Text.cut? ';' d.trailing with
  | none => true
  | some (before, _) => before.contains '{'

/-- Whether a parameter list is open, so that the next line belongs to the same declaration. -/
def isOpen (line : Text) : Bool := line.contains '(' && !line.contains ')'

end Declaration

end SourceSurvey
