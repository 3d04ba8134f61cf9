import SourceSurvey.Declaration
import SourceSurvey.Path

/-! # Methods: a declaration with its class, and two flags for the test generator -/

namespace SourceSurvey

structure Method where
  className : Text
  returnType : Text
  methodName : Text
  paramTypes : List Text
  included : Bool
  inputData : Option Path
  deriving DecidableEq, Repr

namespace Method

/-- A declared method is included in the test suite and has no input data yet. -/
def ofDeclaration (className : Text) (d : Declaration) : Method :=
  ⟨className, d.returnType, d.methodName, d.paramTypes, true, none⟩

def signature (m : Method) : Text :=
  m.returnType ++ ' ' :: m.methodName ++ '(' :: Text.commaSeparated m.paramTypes ++ [')']

def toText (m : Method) : Text := m.className ++ ": ".toList ++ m.signature

end Method

end SourceSurvey
