import SourceSurvey.Text.Basic

/-!
# Settings

Which files are read and how: the extensions of translation units and of headers, the first lines
that mark generated files, the directories that are left out, and the words that begin a statement
and so are no return type.
-/

namespace SourceSurvey.Settings

def sourceExtensions : List Text := [".c", ".cc", ".cpp", ".cxx"].map String.toList

def headerExtensions : List Text := [".h", ".hpp", ".hxx"].map String.toList

/-- The first line of a generated unit test. -/
def testMarker : Text :=
  "// Unit test generated by cppscan. Edits will be overwritten.".toList

/-- The first line of a generated test fixture. -/
def fixtureMarker : Text :=
  "// Test fixture generated by cppscan. Edits will be overwritten.".toList

def includeKeyword : Text := "#include".toList

/-- Glob patterns for the names of directories whose files are never found. -/
def excludedDirectories : List Text := [".*", "build", "cmake-build-*", "out"].map String.toList

def nonTypeKeywords : List Text :=
  ["case", "delete", "else", "goto", "new", "return", "throw", "typedef", "using"].map String.toList

end SourceSurvey.Settings
