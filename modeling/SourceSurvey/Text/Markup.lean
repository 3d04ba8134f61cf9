import SourceSurvey.Text.Basic

/-!
# Console markup

A tag is an opening bracket, a lower-case letter or one of `#`, `/`, `@`, and everything up to the
next closing bracket with no opening bracket between. Escaping doubles the backslashes before what
would be a tag and adds one more; a single backslash at the end of the text is doubled too.
-/

namespace SourceSurvey.Text.Markup

def startsTag (c : Char) : Bool := ('a' ≤ c && c ≤ 'z') || c = '#' || c = '/' || c = '@'

/-- Whether a closing bracket comes before any opening one. -/
def closes : Text → Bool
  | [] => false
  | c :: t => c = ']' || (c ≠ '[' && closes t)

/-- Whether the text after an opening bracket makes it a tag. -/
def isTag : Text → Bool
  | [] => false
  | c :: t => startsTag c && closes t

def backslashes (n : Nat) : Text := List.replicate n '\\'

/-- Escapes a text before which `run` backslashes stand, and those with it. -/
def escapeAfter (run : Nat) : Text → Text
  | [] => backslashes (if run = 1 then 2 else run)
  | c :: t =>
    if c = '\\' then escapeAfter (run + 1) t
    else if c = '[' ∧ isTag t then backslashes (2 * run + 1) ++ c :: escapeAfter 0 t
    else backslashes run ++ c :: escapeAfter 0 t

def escape (t : Text) : Text := escapeAfter 0 t

/-- The text in the style of a tag. -/
def styled (style t : Text) : Text := '[' :: style ++ ']' :: t ++ ['[', '/'] ++ style ++ [']']

def dim (t : Text) : Text := styled "dim".toList t

/-- The text as it is shown: tags are left out, two backslashes before what looks like a tag are one
and a single one makes it plain text. -/
def shownAfter (run : Nat) (inTag : Bool) : Text → Text
  | [] => backslashes run
  | c :: t =>
    if inTag then shownAfter 0 (c ≠ ']') t
    else if c = '\\' then shownAfter (run + 1) false t
    else if c = '[' ∧ isTag t then
      backslashes (run / 2) ++
        if run % 2 = 1 then c :: shownAfter 0 false t else shownAfter 0 true t
    else backslashes run ++ c :: shownAfter 0 false t

def shown (t : Text) : Text := shownAfter 0 false t

end SourceSurvey.Text.Markup
