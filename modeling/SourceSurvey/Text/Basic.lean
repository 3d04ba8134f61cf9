/-!
# Texts

A text is a list of characters. This module holds white space and what is cut at it (`trim`,
`words`), the cut at the first occurrence of a character (`cut?`), and joining.

* `cut?_eq_some_iff`: the two parts of a cut surround the first occurrence of the character;
* `cut?_eq_none_iff`: there is no cut exactly when the character does not occur.
-/

namespace SourceSurvey

abbrev Text := List Char

namespace Text

instance : LawfulBEq Text := inferInstanceAs (LawfulBEq (List Char))

/-! ## White space -/

/-- White space is tab to carriage return, the four information separators, the space, and the
spaces and line or paragraph separators beyond ASCII. -/
def isBlank (c : Char) : Bool :=
  let n := c.toNat
  (9 ≤ n && n ≤ 13) || (28 ≤ n && n ≤ 32) || n == 0x85 || n == 0xA0 || n == 0x1680 ||
    (0x2000 ≤ n && n ≤ 0x200A) || n == 0x2028 || n == 0x2029 || n == 0x202F || n == 0x205F ||
    n == 0x3000

def trimStart (t : Text) : Text := t.dropWhile isBlank

def trimEnd (t : Text) : Text := (t.reverse.dropWhile isBlank).reverse

def trim (t : Text) : Text := trimEnd (trimStart t)

/-- The maximal runs without white space, in order. -/
def words (t : Text) : List Text := (t.splitOnP isBlank).filter (fun w => !w.isEmpty)

/-! ## Cutting and joining -/

/-- The parts before and after the first `c`. -/
def cut? (c : Char) : Text → Option (Text × Text)
  | [] => none
  | d :: t => if d = c then some ([], t) else (cut? c t).map fun p => (d :: p.1, p.2)

theorem cut?_eq_none_iff {c : Char} {t : Text} : cut? c t = none ↔ c ∉ t := by
  induction t with
  | nil => simp [cut?]
  | cons d t ih =>
    by_cases h : d = c
    · simp [cut?, h]
    · simp [cut?, h, ih, Ne.symm h]

theorem cut?_eq_some_iff {c : Char} {t a b : Text} :
    cut? c t = some (a, b) ↔ t = a ++ c :: b ∧ c ∉ a := by
  induction t generalizing a with
  | nil => simp [cut?]
  | cons d t ih =>
    by_cases h : d = c
    · subst h
      cases a with
      | nil => simp [cut?, eq_comm]
      | cons e a => simp [cut?]; intro h; simp [h]
    · cases a with
      | nil => simp [cut?, h]
      | cons e a =>
        simp only [cut?, h, if_false, Option.map_eq_some_iff, Prod.exists, Prod.mk.injEq,
          List.cons.injEq, List.cons_append, List.mem_cons, not_or]
        constructor
        · rintro ⟨x, y, hxy, ⟨rfl, rfl⟩, rfl⟩
          have := ih.1 hxy
          exact ⟨⟨rfl, this.1⟩, Ne.symm h, this.2⟩
        · rintro ⟨⟨rfl, ht⟩, -, ha⟩
          exact ⟨a, b, ih.2 ⟨ht, ha⟩, ⟨rfl, rfl⟩, rfl⟩

/-- The texts one after the other, with `separator` between two neighbours. -/
def join (separator : Text) (ts : List Text) : Text := separator.intercalate ts

def commaSeparated (ts : List Text) : Text := join [',', ' '] ts

end Text

end SourceSurvey
