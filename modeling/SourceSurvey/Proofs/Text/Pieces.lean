import Mathlib.Tactic.SplitIfs
import SourceSurvey.Proofs.Text.Utf8

/-!
# The pieces of bytes are the bytes

However an unfinished character goes on within its ranges, the character it becomes is written in
the bytes that were read for it (`Unfinished.Faithful`). So no byte is lost or changed when bytes
are cut into pieces (`flatMap_bytes_pieces`), and bytes that are read as a text are the bytes of
that text (`decode_eq_ok_iff`).
-/

namespace SourceSurvey.Text.Utf8

def Piece.bytes : Piece → List UInt8
  | .char c => encodeChar c
  | .malformed bytes _ => bytes

def Range.Holds (r : Range) (b : UInt8) : Prop := r.1 ≤ b.toNat ∧ b.toNat ≤ r.2

/-- Whichever bytes come in the ranges, the character with the number that they make is written in
the bytes seen and those that came. -/
def Completes (bytes : List UInt8) (value : Nat) (next : Range) : List Range → Prop
  | [] => ∀ b, next.Holds b → encodeChar (Char.ofNat (value * 64 + (b.toNat - 0x80))) = bytes ++ [b]
  | range :: later => ∀ b, next.Holds b →
      Completes (bytes ++ [b]) (value * 64 + (b.toNat - 0x80)) range later

def Unfinished.Faithful (u : Unfinished) : Prop := Completes u.bytes u.value u.next u.later

/-! ## Characters -/

theorem ofNat_eq {n : Nat} {b : UInt8} (h : n = b.toNat) : UInt8.ofNat n = b := by
  rw [h, UInt8.ofNat_toNat]

theorem tailByte_eq {n unit : Nat} {b : UInt8} (h : 0x80 + n / unit % 64 = b.toNat) :
    tailByte n unit = b := ofNat_eq h

theorem toNat_ofNat_of_valid {n : Nat} (h : n.isValidChar) : (Char.ofNat n).toNat = n := by
  rw [Char.ofNat, dif_pos h]
  rfl

theorem encodeChar_one {a : UInt8} (h : a.toNat < 0x80) :
    encodeChar (Char.ofNat a.toNat) = [a] := by
  have hvalid : (Char.ofNat a.toNat).toNat = a.toNat := toNat_ofNat_of_valid (.inl (by omega))
  simp only [encodeChar, hvalid, if_pos h, UInt8.ofNat_toNat]

theorem encodeChar_two {a b : UInt8} (ha : 0xC2 ≤ a.toNat ∧ a.toNat < 0xE0)
    (hb : continuation.Holds b) :
    encodeChar (Char.ofNat ((a.toNat - 0xC0) * 64 + (b.toNat - 0x80))) = [a, b] := by
  simp only [Range.Holds, continuation] at hb
  generalize hn : (a.toNat - 0xC0) * 64 + (b.toNat - 0x80) = n
  have hvalue : (Char.ofNat n).toNat = n := toNat_ofNat_of_valid (.inl (by omega))
  have hfirst : UInt8.ofNat (0xC0 + n / 64) = a := ofNat_eq (by omega)
  have hsecond : tailByte n 1 = b := tailByte_eq (by omega)
  simp only [encodeChar, hvalue]
  rw [if_neg (by omega), if_pos (by omega), hfirst, hsecond]

theorem encodeChar_three {a b c : UInt8} (ha : 0xE0 ≤ a.toNat ∧ a.toNat < 0xF0)
    (hb : continuation.Holds b) (hlong : a.toNat = 0xE0 → 0xA0 ≤ b.toNat)
    (hvalid : a.toNat = 0xED → b.toNat ≤ 0x9F) (hc : continuation.Holds c) :
    encodeChar (Char.ofNat (((a.toNat - 0xE0) * 64 + (b.toNat - 0x80)) * 64 +
      (c.toNat - 0x80))) = [a, b, c] := by
  simp only [Range.Holds, continuation] at hb hc
  generalize hn : ((a.toNat - 0xE0) * 64 + (b.toNat - 0x80)) * 64 + (c.toNat - 0x80) = n
  have hvalue : (Char.ofNat n).toNat = n := by
    apply toNat_ofNat_of_valid
    unfold Nat.isValidChar
    omega
  have hfirst : UInt8.ofNat (0xE0 + n / 4096) = a := ofNat_eq (by omega)
  have hsecond : tailByte n 64 = b := tailByte_eq (by omega)
  have hthird : tailByte n 1 = c := tailByte_eq (by omega)
  simp only [encodeChar, hvalue]
  rw [if_neg (by omega), if_neg (by omega), if_pos (by omega), hfirst, hsecond, hthird]

theorem encodeChar_four {a b c d : UInt8} (ha : 0xF0 ≤ a.toNat ∧ a.toNat ≤ 0xF4)
    (hb : continuation.Holds b) (hlong : a.toNat = 0xF0 → 0x90 ≤ b.toNat)
    (hvalid : a.toNat = 0xF4 → b.toNat ≤ 0x8F) (hc : continuation.Holds c)
    (hd : continuation.Holds d) :
    encodeChar (Char.ofNat ((((a.toNat - 0xF0) * 64 + (b.toNat - 0x80)) * 64 +
      (c.toNat - 0x80)) * 64 + (d.toNat - 0x80))) = [a, b, c, d] := by
  simp only [Range.Holds, continuation] at hb hc hd
  generalize hn : (((a.toNat - 0xF0) * 64 + (b.toNat - 0x80)) * 64 + (c.toNat - 0x80)) * 64 +
    (d.toNat - 0x80) = n
  have hvalue : (Char.ofNat n).toNat = n := by
    apply toNat_ofNat_of_valid
    unfold Nat.isValidChar
    omega
  have hfirst : UInt8.ofNat (0xF0 + n / 262144) = a := ofNat_eq (by omega)
  have hsecond : tailByte n 4096 = b := tailByte_eq (by omega)
  have hthird : tailByte n 64 = c := tailByte_eq (by omega)
  have hfourth : tailByte n 1 = d := tailByte_eq (by omega)
  simp only [encodeChar, hvalue]
  rw [if_neg (by omega), if_neg (by omega), if_neg (by omega), hfirst, hsecond, hthird, hfourth]

/-! ## First bytes -/

variable {a : UInt8}

theorem completes_two (ha : 0xC2 ≤ a.toNat ∧ a.toNat < 0xE0) :
    Completes [a] (a.toNat - 0xC0) continuation [] :=
  fun _ hb => encodeChar_two ha hb

theorem completes_three (next : Range) (ha : 0xE0 ≤ a.toNat ∧ a.toNat < 0xF0)
    (hnext : ∀ b, next.Holds b → continuation.Holds b ∧ (a.toNat = 0xE0 → 0xA0 ≤ b.toNat) ∧
      (a.toNat = 0xED → b.toNat ≤ 0x9F)) :
    Completes [a] (a.toNat - 0xE0) next [continuation] := by
  intro b hb c hc
  obtain ⟨hb, hlong, hvalid⟩ := hnext b hb
  exact encodeChar_three ha hb hlong hvalid hc

theorem completes_four (next : Range) (ha : 0xF0 ≤ a.toNat ∧ a.toNat ≤ 0xF4)
    (hnext : ∀ b, next.Holds b → continuation.Holds b ∧ (a.toNat = 0xF0 → 0x90 ≤ b.toNat) ∧
      (a.toNat = 0xF4 → b.toNat ≤ 0x8F)) :
    Completes [a] (a.toNat - 0xF0) next [continuation, continuation] := by
  intro b hb c hc d hd
  obtain ⟨hb, hlong, hvalid⟩ := hnext b hb
  exact encodeChar_four ha hb hlong hvalid hc hd

theorem completes_opening {value : Nat} {next : Range} {later : List Range}
    (h : opening? a.toNat = some (value, next, later)) : Completes [a] value next later := by
  have hnext {lo hi : Nat} {b : UInt8} (hlo : 0x80 ≤ lo) (hhi : hi ≤ 0xBF)
      (hb : Range.Holds (lo, hi) b) : continuation.Holds b :=
    ⟨Nat.le_trans hlo hb.1, Nat.le_trans hb.2 hhi⟩
  unfold opening? at h
  split_ifs at h with hlow h2 he0 hed h3 hf0 h4 hf4 <;>
    simp only [Option.some.injEq, Prod.mk.injEq] at h <;> obtain ⟨rfl, rfl, rfl⟩ := h
  · exact completes_two ⟨Nat.not_lt.1 hlow, h2⟩
  · have hc := completes_three (a := a) (0xA0, 0xBF) (by omega) fun b hb =>
      ⟨hnext (by decide) (by decide) hb, fun _ => hb.1, by omega⟩
    rwa [he0] at hc
  · have hc := completes_three (a := a) (0x80, 0x9F) (by omega) fun b hb =>
      ⟨hnext (by decide) (by decide) hb, by omega, fun _ => hb.2⟩
    rwa [hed] at hc
  · exact completes_three continuation (by omega) fun b hb => ⟨hb, by omega, by omega⟩
  · have hc := completes_four (a := a) (0x90, 0xBF) (by omega) fun b hb =>
      ⟨hnext (by decide) (by decide) hb, fun _ => hb.1, by omega⟩
    rwa [hf0] at hc
  · exact completes_four continuation (by omega) fun b hb => ⟨hb, by omega, by omega⟩
  · have hc := completes_four (a := a) (0x80, 0x8F) (by omega) fun b hb =>
      ⟨hnext (by decide) (by decide) hb, by omega, fun _ => hb.2⟩
    rwa [hf4] at hc

/-! ## Runs of the automaton -/

def pending (state : Option Unfinished) : List UInt8 := state.elim [] Unfinished.bytes

/-- What one byte completes and leaves unfinished is what was unfinished, and the byte. -/
structure Keeps (seen : List UInt8) (result : List Piece × Option Unfinished) : Prop where
  bytes : result.1.flatMap Piece.bytes ++ pending result.2 = seen
  faithful : ∀ u ∈ result.2, u.Faithful

theorem keeps_first (b : UInt8) : Keeps [b] (first b) := by
  unfold first
  split
  · next hb =>
    exact ⟨by simp [Piece.bytes, pending, encodeChar_one hb], nofun⟩
  · split
    · exact ⟨rfl, nofun⟩
    · next value next later ho =>
      refine ⟨rfl, fun u hu => ?_⟩
      obtain rfl := Option.some.inj hu
      exact completes_opening ho

theorem Unfinished.Faithful.keeps_extend {u : Unfinished} {b : UInt8} (h : u.Faithful)
    (hb : u.next.Holds b) : Keeps (u.bytes ++ [b]) (u.extend b) := by
  obtain ⟨bytes, value, next, later⟩ := u
  cases later with
  | nil =>
    have hchar : encodeChar (Char.ofNat (value * 64 + (b.toNat - 0x80))) = bytes ++ [b] := h b hb
    exact ⟨by simp [Unfinished.extend, Piece.bytes, pending, hchar], nofun⟩
  | cons range later =>
    refine ⟨rfl, fun v hv => ?_⟩
    obtain rfl := Option.some.inj hv
    exact h b hb

/-- Whatever the byte, nothing that was read is lost, and what is unfinished stays faithful. -/
theorem keeps_advance {state : Option Unfinished} (h : ∀ u ∈ state, u.Faithful) (b : UInt8) :
    Keeps (pending state ++ [b]) (advance state b) := by
  cases state with
  | none => exact keeps_first b
  | some u =>
    unfold advance
    simp only
    split
    · next hb => exact (h u rfl).keeps_extend hb
    · refine ⟨?_, (keeps_first b).faithful⟩
      rw [List.flatMap_cons, List.append_assoc, (keeps_first b).bytes]
      rfl

theorem flatMap_bytes_piecesFrom {state : Option Unfinished} (h : ∀ u ∈ state, u.Faithful)
    (bytes : List UInt8) :
    (piecesFrom state bytes).flatMap Piece.bytes = pending state ++ bytes := by
  induction bytes generalizing state with
  | nil => cases state <;> simp [piecesFrom, pending, Piece.bytes]
  | cons b bytes ih =>
    have hk := keeps_advance h b
    rw [piecesFrom_cons, List.flatMap_append, ih hk.faithful, ← List.append_assoc, hk.bytes,
      List.append_assoc, List.singleton_append]

/-- The pieces, one after the other, are the bytes. -/
theorem flatMap_bytes_pieces (bytes : List UInt8) :
    (pieces bytes).flatMap Piece.bytes = bytes := by
  have hnone : ∀ u ∈ (none : Option Unfinished), u.Faithful := nofun
  exact flatMap_bytes_piecesFrom hnone bytes

/-! ## Texts -/

theorem textOfPieces_eq_ok {ps : List Piece} {position : Nat} {t : Text}
    (h : textOfPieces position ps = .ok t) : ps = t.map .char := by
  induction ps generalizing position t with
  | nil =>
    cases h
    rfl
  | cons p ps ih =>
    cases p with
    | malformed bytes defect => cases h
    | char c =>
      rw [textOfPieces] at h
      split at h
      · next rest hr =>
        cases h
        rw [ih hr, List.map_cons]
      · cases h

theorem flatMap_bytes_map_char (t : Text) : (t.map Piece.char).flatMap Piece.bytes = encode t :=
  List.flatMap_map ..

/-- Bytes are read as a text exactly if they are the bytes that the text is written in. -/
theorem decode_eq_ok_iff {bytes : List UInt8} {t : Text} :
    decode bytes = .ok t ↔ bytes = encode t := by
  constructor
  · intro h
    rw [← flatMap_bytes_map_char, ← textOfPieces_eq_ok h, flatMap_bytes_pieces]
  · rintro rfl
    exact decode_encode t

end SourceSurvey.Text.Utf8
