import SourceSurvey.Text.Utf8

/-!
# What is written in UTF-8 is read again

The bytes of a character take the automaton from the start to the start and complete that character
(`piecesFrom_encodeChar`). So the bytes of a text are read as the text, with and without
replacement. The message about bytes that cannot be read has no bracket (`bracket_notMem_message`).
-/

namespace SourceSurvey.Text.Utf8

/-! ## Bytes -/

theorem toNat_byte {n : Nat} (h : n < 256) : (UInt8.ofNat n).toNat = n :=
  UInt8.toNat_ofNat_of_lt h

theorem toNat_tailByte (n unit : Nat) : (tailByte n unit).toNat = 0x80 + n / unit % 64 :=
  toNat_byte (by omega)

theorem tailByte_mem_continuation (n unit : Nat) :
    continuation.1 ≤ (tailByte n unit).toNat ∧ (tailByte n unit).toNat ≤ continuation.2 := by
  rw [toNat_tailByte]
  simp only [continuation]
  omega

/-- What a first byte of three bytes wants of the second. -/
theorem opening?_three {m : Nat} (hm : m < 16) :
    ∃ next, opening? (0xE0 + m) = some (m, next, [continuation]) ∧
      ∀ x, 0x80 ≤ x → x ≤ 0xBF → (m = 0 → 0xA0 ≤ x) → (m = 0xD → x ≤ 0x9F) →
        next.1 ≤ x ∧ x ≤ next.2 := by
  have hlow : ¬0xE0 + m < 0xC2 := by omega
  have htwo : ¬0xE0 + m < 0xE0 := by omega
  rw [opening?, if_neg hlow, if_neg htwo]
  by_cases h0 : m = 0
  · subst h0
    exact ⟨_, rfl, fun x _ hx ha _ => ⟨ha rfl, hx⟩⟩
  · rw [if_neg (by omega)]
    by_cases hd : m = 0xD
    · subst hd
      exact ⟨_, rfl, fun x hx _ _ hb => ⟨hx, hb rfl⟩⟩
    · rw [if_neg (by omega), if_pos (by omega), Nat.add_sub_cancel_left]
      exact ⟨_, rfl, fun x hx hy _ _ => ⟨hx, hy⟩⟩

/-- What a first byte of four bytes wants of the second. -/
theorem opening?_four {m : Nat} (hm : m < 5) :
    ∃ next, opening? (0xF0 + m) = some (m, next, [continuation, continuation]) ∧
      ∀ x, 0x80 ≤ x → x ≤ 0xBF → (m = 0 → 0x90 ≤ x) → (m = 4 → x ≤ 0x8F) →
        next.1 ≤ x ∧ x ≤ next.2 := by
  rw [opening?, if_neg (by omega), if_neg (by omega), if_neg (by omega), if_neg (by omega),
    if_neg (by omega)]
  by_cases h0 : m = 0
  · subst h0
    exact ⟨_, rfl, fun x _ hx ha _ => ⟨ha rfl, hx⟩⟩
  · rw [if_neg (by omega)]
    by_cases h4 : m = 4
    · subst h4
      exact ⟨_, rfl, fun x hx _ _ hb => ⟨hx, hb rfl⟩⟩
    · rw [if_pos (by omega), Nat.add_sub_cancel_left]
      exact ⟨_, rfl, fun x hx hy _ _ => ⟨hx, hy⟩⟩

/-! ## Characters -/

theorem piecesFrom_cons (state : Option Unfinished) (b : UInt8) (bytes : List UInt8) :
    piecesFrom state (b :: bytes) =
      (advance state b).1 ++ piecesFrom (advance state b).2 bytes := by
  cases state <;> rfl

variable {n value : Nat} {next : Range} {later : List Range} {b : UInt8}

theorem piecesFrom_first (hb : 0x80 ≤ n) (hn : n < 256)
    (h : opening? n = some (value, next, later)) (bytes : List UInt8) :
    piecesFrom none (UInt8.ofNat n :: bytes) =
      piecesFrom (some ⟨[UInt8.ofNat n], value, next, later⟩) bytes := by
  rw [piecesFrom_cons, advance, first, toNat_byte hn, if_neg (by omega), h]
  rfl

theorem piecesFrom_next {range : Range} (seen : List UInt8)
    (h : next.1 ≤ b.toNat ∧ b.toNat ≤ next.2) (bytes : List UInt8) :
    piecesFrom (some ⟨seen, value, next, range :: later⟩) (b :: bytes) =
      piecesFrom (some ⟨seen ++ [b], value * 64 + (b.toNat - 0x80), range, later⟩) bytes := by
  rw [piecesFrom_cons, advance, if_pos h, Unfinished.extend]
  rfl

theorem piecesFrom_last (seen : List UInt8) (h : next.1 ≤ b.toNat ∧ b.toNat ≤ next.2)
    (bytes : List UInt8) :
    piecesFrom (some ⟨seen, value, next, []⟩) (b :: bytes) =
      .char (Char.ofNat (value * 64 + (b.toNat - 0x80))) :: piecesFrom none bytes := by
  rw [piecesFrom_cons, advance, if_pos h, Unfinished.extend]
  rfl

theorem piecesFrom_two (h : 0x80 ≤ n) (hn : n < 0x800) (bytes : List UInt8) :
    piecesFrom none (UInt8.ofNat (0xC0 + n / 64) :: tailByte n 1 :: bytes) =
      .char (Char.ofNat n) :: piecesFrom none bytes := by
  have ho : opening? (0xC0 + n / 64) = some (n / 64, continuation, []) := by
    rw [opening?, if_neg (by omega), if_pos (by omega), Nat.add_sub_cancel_left]
  have hvalue : n / 64 * 64 + ((tailByte n 1).toNat - 0x80) = n := by
    rw [toNat_tailByte]
    omega
  rw [piecesFrom_first (by omega) (by omega) ho,
    piecesFrom_last _ (tailByte_mem_continuation n 1), hvalue]

theorem piecesFrom_three (h : 0x800 ≤ n) (hn : n < 0x10000) (hv : n < 0xD800 ∨ 0xDFFF < n)
    (bytes : List UInt8) :
    piecesFrom none (UInt8.ofNat (0xE0 + n / 4096) :: tailByte n 64 :: tailByte n 1 :: bytes) =
      .char (Char.ofNat n) :: piecesFrom none bytes := by
  obtain ⟨next, ho, hnext⟩ := opening?_three (m := n / 4096) (by omega)
  have hsecond : next.1 ≤ (tailByte n 64).toNat ∧ (tailByte n 64).toNat ≤ next.2 := by
    -- neither overlong nor a surrogate
    rw [toNat_tailByte]
    exact hnext _ (by omega) (by omega) (by omega) (by omega)
  have hvalue : (n / 4096 * 64 + ((tailByte n 64).toNat - 0x80)) * 64 +
      ((tailByte n 1).toNat - 0x80) = n := by
    rw [toNat_tailByte, toNat_tailByte]
    omega
  rw [piecesFrom_first (by omega) (by omega) ho, piecesFrom_next _ hsecond,
    piecesFrom_last _ (tailByte_mem_continuation n 1), hvalue]

theorem piecesFrom_four (h : 0x10000 ≤ n) (hn : n < 0x110000) (bytes : List UInt8) :
    piecesFrom none (UInt8.ofNat (0xF0 + n / 262144) :: tailByte n 4096 :: tailByte n 64 ::
      tailByte n 1 :: bytes) = .char (Char.ofNat n) :: piecesFrom none bytes := by
  obtain ⟨next, ho, hnext⟩ := opening?_four (m := n / 262144) (by omega)
  have hsecond : next.1 ≤ (tailByte n 4096).toNat ∧ (tailByte n 4096).toNat ≤ next.2 := by
    -- neither overlong nor beyond the last character
    rw [toNat_tailByte]
    exact hnext _ (by omega) (by omega) (by omega) (by omega)
  have hvalue : ((n / 262144 * 64 + ((tailByte n 4096).toNat - 0x80)) * 64 +
      ((tailByte n 64).toNat - 0x80)) * 64 + ((tailByte n 1).toNat - 0x80) = n := by
    rw [toNat_tailByte, toNat_tailByte, toNat_tailByte]
    omega
  rw [piecesFrom_first (by omega) (by omega) ho, piecesFrom_next _ hsecond,
    piecesFrom_next _ (tailByte_mem_continuation n 64),
    piecesFrom_last _ (tailByte_mem_continuation n 1), hvalue]

/-- The bytes of a character complete it and leave nothing unfinished. -/
theorem piecesFrom_encodeChar (c : Char) (bytes : List UInt8) :
    piecesFrom none (encodeChar c ++ bytes) = .char c :: piecesFrom none bytes := by
  have hvalid : c.toNat < 0xD800 ∨ (0xDFFF < c.toNat ∧ c.toNat < 0x110000) := c.valid
  unfold encodeChar
  simp only
  split
  · next h =>
    rw [List.singleton_append, piecesFrom_cons, advance, first, toNat_byte (by omega), if_pos h,
      Char.ofNat_toNat]
    rfl
  · split
    · have htwo := piecesFrom_two (n := c.toNat) (by omega) (by omega) bytes
      rwa [Char.ofNat_toNat] at htwo
    · split
      · have hthree := piecesFrom_three (n := c.toNat) (by omega) (by omega) (by omega) bytes
        rwa [Char.ofNat_toNat] at hthree
      · have hfour := piecesFrom_four (n := c.toNat) (by omega) (by omega) bytes
        rwa [Char.ofNat_toNat] at hfour

/-! ## Texts -/

theorem pieces_encode (t : Text) : pieces (encode t) = t.map .char := by
  induction t with
  | nil => rfl
  | cons c t ih =>
    have hrest : piecesFrom none (encode t) = t.map .char := ih
    rw [pieces, encode, List.flatMap_cons, piecesFrom_encodeChar, List.map_cons]
    exact congrArg _ hrest

theorem decodeLossy_encode (t : Text) : decodeLossy (encode t) = t := by
  rw [decodeLossy, pieces_encode, List.map_map]
  exact List.map_id t

theorem textOfPieces_map_char (position : Nat) (t : Text) :
    textOfPieces position (t.map .char) = .ok t := by
  induction t generalizing position with
  | nil => rfl
  | cons c t ih => rw [List.map_cons, textOfPieces, ih]

theorem decode_encode (t : Text) : decode (encode t) = .ok t := by
  rw [decode, pieces_encode, textOfPieces_map_char]

/-! ## Messages about bytes -/

theorem digitChar_ne_bracket (n : Nat) : Nat.digitChar n ≠ ']' := by
  by_cases h : n < 16
  · have hdigits : ∀ n < 16, Nat.digitChar n ≠ ']' := by decide
    exact hdigits n h
  · rw [Nat.digitChar_eq_star.2 (Nat.not_lt.1 h)]
    decide

theorem bracket_notMem_toDigits {b : Nat} (hb : 1 < b) (n : Nat) : ']' ∉ Nat.toDigits b n := by
  induction n using Nat.strongRecOn with
  | ind n ih =>
    by_cases h : n < b
    · rw [Nat.toDigits_of_lt_base h, List.mem_singleton]
      exact (digitChar_ne_bracket n).symm
    · have hlt : n / b < n := Nat.div_lt_self (by omega) hb
      rw [Nat.toDigits_of_base_le hb (Nat.not_lt.1 h), List.mem_append, List.mem_singleton, not_or]
      exact ⟨ih (n / b) hlt, (digitChar_ne_bracket _).symm⟩

theorem bracket_notMem_hexadecimal (width n : Nat) : ']' ∉ hexadecimal width n := by
  rw [hexadecimal, List.leftpad, List.mem_append, not_or]
  exact ⟨fun h => absurd (List.eq_of_mem_replicate h) (by decide),
    bracket_notMem_toDigits (by decide) n⟩

theorem bracket_notMem_place (g : Fault) : ']' ∉ g.place := by
  have hnumber (n : Nat) : ']' ∉ ofNat n := bracket_notMem_toDigits (by decide) n
  have hbyte : ']' ∉ "byte 0x".toList := by decide +kernel
  have hone : ']' ∉ " in position ".toList := by decide +kernel
  have hmany : ']' ∉ "bytes in position ".toList := by decide +kernel
  rw [Fault.place]
  split
  · simp only [List.mem_append, not_or]
    exact ⟨⟨⟨hbyte, bracket_notMem_hexadecimal _ _⟩, hone⟩, hnumber _⟩
  · simp only [List.mem_append, List.mem_cons, not_or]
    exact ⟨⟨hmany, hnumber _⟩, by decide, hnumber _⟩

/-- So nothing in the message completes a tag that begins before it. -/
theorem bracket_notMem_message (g : Fault) : ']' ∉ g.message := by
  have hcodec : ']' ∉ "'utf-8' codec can't decode ".toList := by decide +kernel
  have hcolon : ']' ∉ ": ".toList := by decide +kernel
  have hdefect : ']' ∉ g.defect.message := by cases g.defect <;> decide +kernel
  unfold Fault.message
  rw [List.mem_append, List.mem_append, List.mem_append, not_or, not_or, not_or]
  exact ⟨⟨⟨hcodec, bracket_notMem_place g⟩, hcolon⟩, hdefect⟩

end SourceSurvey.Text.Utf8
