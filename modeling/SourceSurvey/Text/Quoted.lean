import SourceSurvey.Text.Numeral
import SourceSurvey.Text.Printable

/-!
# Quoted texts

A text is quoted with apostrophes, or with double quotes when it holds an apostrophe and no double
quote. The quote in use and the backslash get a backslash; tab, newline and carriage return have
short forms, and every other character that is not printable is written by its number.
-/

namespace SourceSurvey.Text

def apostrophe : Char := '\x27'

def doubleQuote : Char := '\x22'

def quoteMark (t : Text) : Char :=
  if t.contains apostrophe && !t.contains doubleQuote then doubleQuote else apostrophe

/-- The shortest of the three numbered forms that has room for the character. -/
def numbered (c : Char) : Text :=
  let n := c.toNat
  if n < 0x100 then '\\' :: 'x' :: hexadecimal 2 n
  else if n < 0x10000 then '\\' :: 'u' :: hexadecimal 4 n
  else '\\' :: 'U' :: hexadecimal 8 n

def quotedChar (mark c : Char) : Text :=
  if c = mark ∨ c = '\\' then ['\\', c]
  else if c = '\t' then ['\\', 't']
  else if c = '\n' then ['\\', 'n']
  else if c = '\r' then ['\\', 'r']
  else if isPrintable c then [c]
  else numbered c

def quoted (t : Text) : Text :=
  let mark := quoteMark t
  mark :: t.flatMap (quotedChar mark) ++ [mark]

end SourceSurvey.Text
