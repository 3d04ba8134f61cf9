import SourceSurvey.Text.Basic

/-! # Numerals: decimal numbers with a sign only below zero, hexadecimal ones of a least width -/

namespace SourceSurvey.Text

def ofNat (n : Nat) : Text := Nat.toDigits 10 n

def ofInt : Int → Text
  | .ofNat n => ofNat n
  | .negSucc n => '-' :: ofNat (n + 1)

/-- Lower-case hexadecimal digits, filled up with zeros on the left. -/
def hexadecimal (width n : Nat) : Text := (Nat.toDigits 16 n).leftpad width '0'

end SourceSurvey.Text
