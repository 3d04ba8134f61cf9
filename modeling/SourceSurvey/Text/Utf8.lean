import SourceSurvey.Text.Numeral

/-!
# UTF-8

Bytes are read by an automaton whose state is the unfinished character: the bytes it has so far,
the number they stand for, and the ranges its next bytes must lie in. A byte outside its range ends
an ill-formed piece and is read again as a first byte, so each ill-formed piece is as long as it
can be. `decodeLossy` writes one replacement character for such a piece; `decode` stops there.
-/

namespace SourceSurvey.Text.Utf8

abbrev Range := Nat × Nat

inductive Defect where
  | invalidStart
  | invalidContinuation
  | unexpectedEnd
  deriving DecidableEq, Repr

inductive Piece where
  | char (c : Char)
  | malformed (bytes : List UInt8) (defect : Defect)
  deriving DecidableEq, Repr

/-- The range of the next byte and those of the bytes after it are kept apart, so one is always
due. -/
structure Unfinished where
  bytes : List UInt8
  value : Nat
  next : Range
  later : List Range
  deriving DecidableEq, Repr

/-! ## Reading -/

def continuation : Range := (0x80, 0xBF)

/-- The number that a first byte of a longer character stands for, and the ranges of the bytes that
must follow. The first of them leaves out overlong forms, surrogates and what lies above
U+10FFFF. -/
def opening? (n : Nat) : Option (Nat × Range × List Range) :=
  if n < 0xC2 then none
  else if n < 0xE0 then some (n - 0xC0, continuation, [])
  else if n = 0xE0 then some (0, (0xA0, 0xBF), [continuation])
  else if n = 0xED then some (0xD, (0x80, 0x9F), [continuation])
  else if n < 0xF0 then some (n - 0xE0, continuation, [continuation])
  else if n = 0xF0 then some (0, (0x90, 0xBF), [continuation, continuation])
  else if n < 0xF4 then some (n - 0xF0, continuation, [continuation, continuation])
  else if n = 0xF4 then some (4, (0x80, 0x8F), [continuation, continuation])
  else none

def first (b : UInt8) : List Piece × Option Unfinished :=
  if b.toNat < 0x80 then ([.char (Char.ofNat b.toNat)], none)
  else match opening? b.toNat with
    | none => ([.malformed [b] .invalidStart], none)
    | some (value, next, later) => ([], some ⟨[b], value, next, later⟩)

/-- Reads a byte that continues the unfinished character. -/
def Unfinished.extend (u : Unfinished) (b : UInt8) : List Piece × Option Unfinished :=
  let value := u.value * 64 + (b.toNat - 0x80)
  match u.later with
  | [] => ([.char (Char.ofNat value)], none)
  | next :: later => ([], some ⟨u.bytes ++ [b], value, next, later⟩)

/-- The pieces that a byte completes, and what is unfinished after it. -/
def advance (state : Option Unfinished) (b : UInt8) : List Piece × Option Unfinished :=
  match state with
  | none => first b
  | some u =>
    if u.next.1 ≤ b.toNat ∧ b.toNat ≤ u.next.2 then u.extend b
    else (.malformed u.bytes .invalidContinuation :: (first b).1, (first b).2)

def piecesFrom : Option Unfinished → List UInt8 → List Piece
  | none, [] => []
  | some u, [] => [.malformed u.bytes .unexpectedEnd]
  | state, b :: bytes => (advance state b).1 ++ piecesFrom (advance state b).2 bytes

def pieces (bytes : List UInt8) : List Piece := piecesFrom none bytes

def replacement : Char := '\uFFFD'

def decodeLossy (bytes : List UInt8) : Text :=
  (pieces bytes).map fun
    | .char c => c
    | .malformed _ _ => replacement

/-! ## Reading well-formed bytes only -/

/-- The first ill-formed piece and the number of bytes before it. -/
structure Fault where
  position : Nat
  bytes : List UInt8
  defect : Defect
  deriving DecidableEq, Repr

def textOfPieces (position : Nat) : List Piece → Except Fault Text
  | [] => .ok []
  | .char c :: rest =>
    match textOfPieces (position + c.utf8Size) rest with
    | .ok t => .ok (c :: t)
    | .error f => .error f
  | .malformed bytes defect :: _ => .error ⟨position, bytes, defect⟩

def decode (bytes : List UInt8) : Except Fault Text := textOfPieces 0 (pieces bytes)

def Defect.message : Defect → Text
  | .invalidStart => "invalid start byte".toList
  | .invalidContinuation => "invalid continuation byte".toList
  | .unexpectedEnd => "unexpected end of data".toList

def Fault.place (f : Fault) : Text :=
  match f.bytes with
  | [b] => "byte 0x".toList ++ hexadecimal 2 b.toNat ++ " in position ".toList ++ ofNat f.position
  | _ => "bytes in position ".toList ++ ofNat f.position ++ '-' ::
      ofNat (f.position + f.bytes.length - 1)

def Fault.message (f : Fault) : Text :=
  "'utf-8' codec can't decode ".toList ++ f.place ++ ": ".toList ++ f.defect.message

/-! ## Writing -/

/-- The continuation byte that carries the six bits of `n` above `unit`. -/
def tailByte (n unit : Nat) : UInt8 := UInt8.ofNat (0x80 + n / unit % 64)

def encodeChar (c : Char) : List UInt8 :=
  let n := c.toNat
  if n < 0x80 then [UInt8.ofNat n]
  else if n < 0x800 then [UInt8.ofNat (0xC0 + n / 64), tailByte n 1]
  else if n < 0x10000 then [UInt8.ofNat (0xE0 + n / 4096), tailByte n 64, tailByte n 1]
  else [UInt8.ofNat (0xF0 + n / 262144), tailByte n 4096, tailByte n 64, tailByte n 1]

def encode (t : Text) : List UInt8 := t.flatMap encodeChar

end SourceSurvey.Text.Utf8
