import Mathlib.Data.List.Infix
import SourceSurvey.Text.Basic

/-!
# Pieces and words of a text

The pieces between separators hold none, and each stands in the text as it is. Words are the pieces
between white space that are not empty.

* `isWord_of_mem_words`, `isInfix_of_mem_words`: what a word of a text is;
* `words_append_cons`: white space parts the words before it from those after it;
* `IsWord.words_eq`: a word has itself as its only word;
* `words_eq_iff`: the words of a text are those it is spelled out by, with white space around them.
-/

namespace SourceSurvey.Text

variable {t : Text}

/-! ## Pieces -/

/-- A text is cut at the first occurrence of a character in one way only. -/
theorem append_cons_inj_of_not_mem {a : Char} {s s' t t' : Text} (hs : a ∉ s) (hs' : a ∉ s') :
    s ++ a :: t = s' ++ a :: t' ↔ s = s' ∧ t = t' := by
  constructor
  · intro h
    have hcut : cut? a (s ++ a :: t) = some (s, t) := cut?_eq_some_iff.2 ⟨rfl, hs⟩
    have hcut' : cut? a (s' ++ a :: t') = some (s', t') := cut?_eq_some_iff.2 ⟨rfl, hs'⟩
    rw [h, hcut', Option.some.injEq, Prod.mk.injEq] at hcut
    exact ⟨hcut.1.symm, hcut.2.symm⟩
  · rintro ⟨rfl, rfl⟩
    rfl

/-- The first piece begins the text and the others stand in it; none holds a separator. -/
theorem exists_pieces (p : Char → Bool) (t : Text) :
    ∃ first rest, t.splitOnP p = first :: rest ∧ first <+: t ∧ (∀ piece ∈ rest, piece <:+: t) ∧
      ∀ piece ∈ first :: rest, ∀ c ∈ piece, p c = false := by
  induction t with
  | nil => exact ⟨[], [], rfl, List.nil_prefix, by simp, by simp⟩
  | cons d t ih =>
    obtain ⟨first, rest, hs, hf, hr, hn⟩ := ih
    by_cases hd : p d
    · refine ⟨[], first :: rest, ?_, List.nil_prefix, ?_, ?_⟩
      · rw [List.splitOnP_cons_eq_if_modifyHead, if_pos hd, hs]
      · intro piece hp
        rcases List.mem_cons.1 hp with rfl | hp
        · exact List.infix_cons hf.isInfix
        · exact List.infix_cons (hr piece hp)
      · simpa using hn
    · refine ⟨d :: first, rest, ?_, List.cons_prefix_cons.2 ⟨rfl, hf⟩, ?_, ?_⟩
      · rw [List.splitOnP_cons_eq_if_modifyHead, if_neg hd, hs, List.modifyHead_cons]
      · exact fun piece hp => List.infix_cons (hr piece hp)
      · simp only [List.mem_cons, forall_eq_or_imp] at hn ⊢
        exact ⟨⟨by simpa using hd, hn.1⟩, hn.2⟩

theorem not_of_mem_splitOnP {p : Char → Bool} {piece : Text} (h : piece ∈ t.splitOnP p) :
    ∀ c ∈ piece, p c = false := by
  obtain ⟨first, rest, hs, -, -, hn⟩ := exists_pieces p t
  exact hn piece (hs ▸ h)

theorem isInfix_of_mem_splitOnP {p : Char → Bool} {piece : Text} (h : piece ∈ t.splitOnP p) :
    piece <:+: t := by
  obtain ⟨first, rest, hs, hf, hr, -⟩ := exists_pieces p t
  rw [hs] at h
  rcases List.mem_cons.1 h with rfl | h
  · exact hf.isInfix
  · exact hr piece h

theorem not_mem_of_mem_splitOn {a : Char} {piece : Text} (h : piece ∈ t.splitOn a) :
    a ∉ piece := by
  rw [List.splitOn_eq_splitOnP] at h
  intro ha
  simpa using not_of_mem_splitOnP h a ha

theorem isInfix_of_mem_splitOn {a : Char} {piece : Text} (h : piece ∈ t.splitOn a) :
    piece <:+: t := by
  rw [List.splitOn_eq_splitOnP] at h
  exact isInfix_of_mem_splitOnP h

theorem exists_splitOn_concat (a : Char) (t : Text) :
    ∃ init last, t.splitOn a = init ++ [last] :=
  ⟨_, _, (List.dropLast_append_getLast (List.splitOn_ne_nil a t)).symm⟩

theorem splitOn_append_cons_self (a : Char) (s t : Text) :
    (s ++ a :: t).splitOn a = s.splitOn a ++ t.splitOn a := by
  rw [List.splitOn_eq_splitOnP, List.splitOnP_append_cons s t (by simp), ← List.splitOn_eq_splitOnP,
    ← List.splitOn_eq_splitOnP]

/-- Where two texts meet, the last piece of the first and the first piece of the second are one. -/
theorem splitOn_append {a : Char} {s last first : Text} {init rest : List Text}
    (hs : s.splitOn a = init ++ [last]) (ht : t.splitOn a = first :: rest) :
    (s ++ t).splitOn a = init ++ (last ++ first) :: rest := by
  induction s generalizing init last with
  | nil =>
    obtain ⟨rfl, rfl⟩ : init = [] ∧ last = [] := by
      cases init <;> simp_all
    simpa using ht
  | cons d s ih =>
    obtain ⟨pieces, piece, hpieces⟩ := exists_splitOn_concat a s
    have happend := ih hpieces
    rw [List.splitOn_cons_eq_if_modifyHead, hpieces] at hs
    rw [List.cons_append, List.splitOn_cons_eq_if_modifyHead, happend]
    split at hs
    · next hd =>
      have hpieces : ([] :: pieces) ++ [piece] = init ++ [last] := hs
      obtain ⟨rfl, hlast⟩ := List.append_inj' hpieces rfl
      rw [if_pos hd, (List.cons.inj hlast).1]
      rfl
    · next hd =>
      rw [if_neg hd]
      cases pieces with
      | nil =>
        have hpiece : [] ++ [d :: piece] = init ++ [last] := hs
        obtain ⟨rfl, hlast⟩ := List.append_inj' hpiece rfl
        rw [← (List.cons.inj hlast).1]
        rfl
      | cons head pieces =>
        have hpieces : ((d :: head) :: pieces) ++ [piece] = init ++ [last] := hs
        obtain ⟨rfl, hlast⟩ := List.append_inj' hpieces rfl
        rw [(List.cons.inj hlast).1]
        rfl

/-! ## Words -/

/-- A text that is not empty and holds no white space. -/
def IsWord (w : Text) : Prop := w ≠ [] ∧ ∀ c ∈ w, isBlank c = false

theorem isWord_of_mem_words {w : Text} (h : w ∈ words t) : IsWord w := by
  rw [words, List.mem_filter] at h
  exact ⟨by simpa using h.2, not_of_mem_splitOnP h.1⟩

theorem isInfix_of_mem_words {w : Text} (h : w ∈ words t) : w <:+: t :=
  isInfix_of_mem_splitOnP (List.mem_filter.1 h).1

theorem words_append_cons (s t : Text) {c : Char} (h : isBlank c = true) :
    words (s ++ c :: t) = words s ++ words t := by
  rw [words, List.splitOnP_append_cons s t h, List.filter_append]
  rfl

theorem IsWord.words_eq {w : Text} (h : IsWord w) : words w = [w] := by
  rw [words, List.splitOnP_eq_singleton h.2]
  simp [h.1]

/-- A text that does not begin with white space begins with its first word. -/
theorem exists_words_eq_cons {c : Char} (h : isBlank c = false) (t : Text) :
    ∃ w ws, words (c :: t) = (c :: w) :: ws := by
  obtain ⟨first, rest, hs, -⟩ := exists_pieces isBlank t
  refine ⟨first, rest.filter fun w => !w.isEmpty, ?_⟩
  rw [words, List.splitOnP_cons_eq_if_modifyHead, if_neg (by simp [h]), hs, List.modifyHead_cons]
  rfl

/-! ## Texts spelled out by words -/

/-- The text is the words in their order, with white space between them and perhaps around. -/
inductive Spaced : Text → List Text → Prop where
  | blank {t : Text} (ht : ∀ c ∈ t, isBlank c = true) : Spaced t []
  | word {before w rest : Text} {ws : List Text} (hb : ∀ c ∈ before, isBlank c = true)
      (hw : IsWord w) (hr : ∀ c ∈ rest.head?, isBlank c = true) (h : Spaced rest ws) :
      Spaced (before ++ (w ++ rest)) (w :: ws)

theorem words_cons {c : Char} (h : isBlank c = true) (t : Text) : words (c :: t) = words t :=
  words_append_cons [] t h

theorem words_blank_append {s : Text} (hs : ∀ c ∈ s, isBlank c = true) (t : Text) :
    words (s ++ t) = words t := by
  induction s with
  | nil => rfl
  | cons c s ih =>
    obtain ⟨hc, hs⟩ := List.forall_mem_cons.1 hs
    rw [List.cons_append, words_cons hc, ih hs]

theorem IsWord.words_append {w : Text} (hw : IsWord w) (ht : ∀ c ∈ t.head?, isBlank c = true) :
    words (w ++ t) = w :: words t := by
  cases t with
  | nil =>
    rw [List.append_nil, hw.words_eq]
    rfl
  | cons c t =>
    rw [words_append_cons w t (ht c rfl), words_cons (ht c rfl), hw.words_eq, List.singleton_append]

theorem Spaced.words_eq {ws : List Text} (h : Spaced t ws) : words t = ws := by
  induction h with
  | @blank t ht =>
    rw [← List.append_nil t, words_blank_append ht]
    rfl
  | word hb hw hr _ ih => rw [words_blank_append hb, hw.words_append hr, ih]

theorem spaced_word {w rest : Text} {ws : List Text} (hw : IsWord w)
    (hr : ∀ c ∈ rest.head?, isBlank c = true) (h : Spaced rest ws) :
    Spaced (w ++ rest) (w :: ws) :=
  Spaced.word (List.forall_mem_nil _) hw hr h

/-- One more character before a text is white space, a word, or the beginning of the first word. -/
theorem exists_spaced (t : Text) : ∃ ws, Spaced t ws := by
  induction t with
  | nil => exact ⟨[], .blank (List.forall_mem_nil _)⟩
  | cons c t ih =>
    obtain ⟨ws, h⟩ := ih
    by_cases hc : isBlank c = true
    · cases h with
      | blank ht => exact ⟨[], .blank (List.forall_mem_cons.2 ⟨hc, ht⟩)⟩
      | word hb hw hr h => exact ⟨_, .word (List.forall_mem_cons.2 ⟨hc, hb⟩) hw hr h⟩
    · rw [Bool.not_eq_true] at hc
      by_cases ht : ∀ d ∈ t.head?, isBlank d = true
      · exact ⟨_, spaced_word ⟨List.cons_ne_nil c [], List.forall_mem_singleton.2 hc⟩ ht h⟩
      · cases h with
        | blank hblank => exact absurd (fun d hd => hblank d (List.mem_of_head? hd)) ht
        | @word before w rest ws hb hw hr h =>
          cases before with
          | cons d before => exact absurd (by simpa using hb d (by simp)) ht
          | nil =>
            have hword : IsWord (c :: w) :=
              ⟨List.cons_ne_nil c w, List.forall_mem_cons.2 ⟨hc, hw.2⟩⟩
            exact ⟨_, spaced_word hword hr h⟩

theorem words_eq_iff {ws : List Text} : words t = ws ↔ Spaced t ws := by
  constructor
  · rintro rfl
    obtain ⟨ws, h⟩ := exists_spaced t
    rwa [h.words_eq]
  · exact Spaced.words_eq

end SourceSurvey.Text
