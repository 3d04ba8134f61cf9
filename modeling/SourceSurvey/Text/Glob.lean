import SourceSurvey.Text.Basic

/-!
# Glob patterns

`*` stands for any run of characters, `?` for one character, and a bracketed set for one character
inside or, after `!`, outside it. A bracket that is not closed stands for itself. A set is cut at
the hyphens that can join two of its characters; ranges that would run downwards are taken out, and
the set that is left decides: nothing at all matches no character, a lone `!` matches every one.
-/

namespace SourceSurvey.Text.Glob

abbrev Span := Char × Char

inductive Token where
  | star
  | anyChar
  | literal (c : Char)
  | oneOf (spans : List Span)
  | noneOf (spans : List Span)
  deriving DecidableEq, Repr

/-! ## Sets -/

/-- The pieces between the hyphens of a set. A hyphen is part of its piece when it is the first
character, one of the two after a joining hyphen, or the last. -/
def chunksFrom (kept : Nat) (chunk : Text) : Text → List Text
  | [] => [chunk]
  | c :: t =>
    if kept = 0 ∧ c = '-' then
      if t = [] then [chunk ++ ['-']] else chunk :: chunksFrom 2 [] t
    else chunksFrom (kept - 1) (chunk ++ [c]) t

def chunks (set : Text) : List Text := chunksFrom (if set.head? = some '!' then 2 else 1) [] set

/-- Neighbours whose joining range would run downwards are fused without the range's ends. -/
def dropDescending : List Text → List Text
  | [] => []
  | a :: rest =>
    match dropDescending rest with
    | [] => [a]
    | b :: more =>
      match a.getLast?, b.head? with
      | some x, some y => if y < x then (a.dropLast ++ b.tail) :: more else a :: b :: more
      | _, _ => a :: b :: more

/-- A character of a set, or the hyphen that joins the two beside it. -/
inductive Mark where
  | char (c : Char)
  | to
  deriving DecidableEq, Repr

def Mark.toChar : Mark → Char
  | .char c => c
  | .to => '-'

def marks (set : Text) : List Mark :=
  [Mark.to].intercalate ((dropDescending (chunks set)).map (·.map Mark.char))

def spans : List Mark → List Span
  | a :: .to :: b :: rest => (a.toChar, b.toChar) :: spans rest
  | a :: rest => (a.toChar, a.toChar) :: spans rest
  | [] => []

def setToken (set : Text) : Token :=
  match marks set with
  | [.char '!'] => .anyChar
  | .char '!' :: rest => .noneOf (spans rest)
  | all => .oneOf (spans all)

/-! ## Patterns -/

/-- The beginning of a set in which a closing bracket would be a member, and what follows it. -/
def setOpening : Text → Text × Text
  | '!' :: ']' :: t => (['!', ']'], t)
  | '!' :: t => (['!'], t)
  | ']' :: t => ([']'], t)
  | t => ([], t)

theorem length_setOpening_le (t : Text) : (setOpening t).2.length ≤ t.length := by
  unfold setOpening
  split <;> simp +arith

/-- The set that ends at the next closing bracket, and what follows it. -/
def set? (t : Text) : Option (Text × Text) :=
  (cut? ']' (setOpening t).2).map fun p => ((setOpening t).1 ++ p.1, p.2)

theorem length_lt_of_set? {t set rest : Text} (h : set? t = some (set, rest)) :
    rest.length < t.length := by
  simp only [set?, Option.map_eq_some_iff, Prod.exists, Prod.mk.injEq] at h
  obtain ⟨a, b, hc, -, rfl⟩ := h
  have hlen := congrArg List.length (cut?_eq_some_iff.1 hc).1
  have hle := length_setOpening_le t
  simp at hlen
  omega

def tokens : Text → List Token
  | [] => []
  | c :: t =>
    if c = '*' then .star :: tokens t
    else if c = '?' then .anyChar :: tokens t
    else if c = '[' then
      match _h : set? t with
      | some (set, rest) => setToken set :: tokens rest
      | none => .literal c :: tokens t
    else .literal c :: tokens t
termination_by t => t.length
decreasing_by
  all_goals simp_wf
  have := length_lt_of_set? ‹_›
  omega

def inSpans (spans : List Span) (c : Char) : Bool := spans.any fun s => s.1 ≤ c && c ≤ s.2

def Token.accepts (c : Char) : Token → Bool
  | .star => true
  | .anyChar => true
  | .literal d => c = d
  | .oneOf spans => inSpans spans c
  | .noneOf spans => !inSpans spans c

/-- For each place, whether one of the flags from there on is set. -/
def anyFrom (flags : List Bool) : List Bool :=
  flags.foldr (fun flag rest => (flag || rest.headD false) :: rest) []

/-- For each ending of the text, from the whole to the empty one, whether the tokens accept it. So
each token is tried once at each place, however many stars there are. -/
def acceptedEndings : List Token → Text → List Bool
  | [], t => t.map (fun _ => false) ++ [true]
  | .star :: rest, t => anyFrom (acceptedEndings rest t)
  | token :: rest, t =>
    List.zipWith (fun c next => token.accepts c && next) t (acceptedEndings rest t).tail ++ [false]

def accepts (tokens : List Token) (t : Text) : Bool := (acceptedEndings tokens t).headD false

/-- Whether the whole text is of the pattern's form. -/
def isMatch (pattern t : Text) : Bool := accepts (tokens pattern) t

end SourceSurvey.Text.Glob
