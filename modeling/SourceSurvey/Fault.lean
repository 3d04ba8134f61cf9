import SourceSurvey.Defect
import SourceSurvey.FileSystem.Basic

/-!
# Faults

Everything that ends a survey or a run: a defect of the scanned input, a refusal of the system with
the path it was about, a request that cannot be carried out, or an item that the console refuses.
-/

namespace SourceSurvey

inductive Fault where
  | scan (e : ScanError)
  | refused (r : Refusal) (path : Text)
  | undecodable (f : Text.Utf8.Fault)
  | directoryNotFound (path : Text)
  | notADirectory (path : Text)
  | emptyPattern
  | embeddedNull
  | unprintable (message : Text)
  deriving DecidableEq, Repr

def refusalMessage (r : Refusal) (path : Text) : Text :=
  "[Errno ".toList ++ Text.ofNat r.number ++ "] ".toList ++ r.description ++ ": ".toList ++
    Text.quoted path

def Fault.message : Fault → Text
  | .scan e => e.message
  | .refused r path => refusalMessage r path
  | .undecodable f => f.message
  | .directoryNotFound path => "Directory not found: ".toList ++ path
  | .notADirectory path => "Not a directory: ".toList ++ path
  | .emptyPattern => "empty pattern".toList
  | .embeddedNull => "embedded null byte".toList
  | .unprintable message => message

end SourceSurvey
