import SourceSurvey.Proofs.Text.Normalize
import SourceSurvey.Proofs.Text.Words

/-!
# Texts that differ in white space

Between two words any white space is as good as any other. Texts are respaced when they have the
same words between the same commas, and otherwise the same characters. White space at the ends makes
no difference (`respaced_append_blank`, `respaced_blank_append`), and one run of white space can
stand for another (`Respaced.append`).
-/

namespace SourceSurvey.Text

variable {s s' t t' : Text} {c d : Char}

/-- The words of each of the pieces between commas. -/
def wordLists (t : Text) : List (List Text) := (t.splitOn ',').map words

/-- The same words between the same commas, and the same characters but for white space. -/
structure Respaced (s t : Text) : Prop where
  wordLists_eq : wordLists s = wordLists t
  mem_iff : ∀ c, isBlank c = false → (c ∈ s ↔ c ∈ t)

theorem ne_of_isBlank (hc : isBlank c = true) (hd : isBlank d = false) : d ≠ c := by
  rintro rfl
  simp [hd] at hc

theorem wordLists_append_cons (hc : isBlank c = true) {init rest : List Text} {last first : Text}
    (hs : s.splitOn ',' = init ++ [last]) (ht : t.splitOn ',' = first :: rest) :
    wordLists (s ++ c :: t) = init.map words ++ (words last ++ words first) :: rest.map words := by
  have hcomma : c ≠ ',' := (ne_of_isBlank hc (by decide)).symm
  have hcons : (c :: t).splitOn ',' = (c :: first) :: rest := by
    rw [List.splitOn_cons_eq_if_modifyHead, if_neg (by simpa using hcomma), ht,
      List.modifyHead_cons]
  rw [wordLists, splitOn_append hs hcons, List.map_append, List.map_cons, words_append_cons _ _ hc]

theorem Respaced.refl (t : Text) : Respaced t t := ⟨rfl, fun _ _ => Iff.rfl⟩

theorem Respaced.trans {u : Text} (h : Respaced s t) (h' : Respaced t u) : Respaced s u :=
  ⟨h.wordLists_eq.trans h'.wordLists_eq, fun c hc => (h.mem_iff c hc).trans (h'.mem_iff c hc)⟩

/-- White space keeps what stands before it apart from what comes after it. -/
theorem Respaced.append (hs : Respaced s s') (hc : isBlank c = true) (hd : isBlank d = true)
    (ht : Respaced t t') : Respaced (s ++ c :: t) (s' ++ d :: t') where
  wordLists_eq := by
    obtain ⟨init, last, hsplit⟩ := exists_splitOn_concat ',' s
    obtain ⟨init', last', hsplit'⟩ := exists_splitOn_concat ',' s'
    obtain ⟨first, rest, hfirst⟩ := List.exists_cons_of_ne_nil (List.splitOn_ne_nil ',' t)
    obtain ⟨first', rest', hfirst'⟩ := List.exists_cons_of_ne_nil (List.splitOn_ne_nil ',' t')
    have hbefore := hs.wordLists_eq
    have hafter := ht.wordLists_eq
    rw [wordLists, wordLists, hsplit, hsplit', List.map_append, List.map_append] at hbefore
    rw [wordLists, wordLists, hfirst, hfirst', List.map_cons, List.map_cons] at hafter
    obtain ⟨hinit, hlast⟩ := List.append_inj' hbefore rfl
    rw [wordLists_append_cons hc hsplit hfirst, wordLists_append_cons hd hsplit' hfirst', hinit,
      (List.cons.inj hlast).1, (List.cons.inj hafter).1, (List.cons.inj hafter).2]
  mem_iff x hx := by
    simp only [List.mem_append, List.mem_cons, hs.mem_iff x hx, ht.mem_iff x hx,
      ne_of_isBlank hc hx, ne_of_isBlank hd hx, false_or]

/-! ## White space at the ends -/

theorem respaced_cons (hc : isBlank c = true) (t : Text) : Respaced (c :: t) t where
  wordLists_eq := by
    obtain ⟨first, rest, ht⟩ := List.exists_cons_of_ne_nil (List.splitOn_ne_nil ',' t)
    have hempty : ([] : Text).splitOn ',' = [] ++ [[]] := rfl
    have happend := wordLists_append_cons hc hempty ht
    rw [List.nil_append] at happend
    rw [happend, wordLists, ht]
    rfl
  mem_iff x hx := by simp [ne_of_isBlank hc hx]

theorem respaced_concat (hc : isBlank c = true) (t : Text) : Respaced (t ++ [c]) t where
  wordLists_eq := by
    obtain ⟨init, last, ht⟩ := exists_splitOn_concat ',' t
    have hempty : ([] : Text).splitOn ',' = [] :: [] := rfl
    rw [wordLists_append_cons hc ht hempty, wordLists, ht, List.map_append,
      show words [] = [] from rfl, List.append_nil]
    rfl
  mem_iff x hx := by simp [ne_of_isBlank hc hx]

theorem respaced_blank_append (hs : ∀ c ∈ s, isBlank c = true) (t : Text) :
    Respaced (s ++ t) t := by
  induction s with
  | nil => exact .refl t
  | cons c s ih =>
    obtain ⟨hc, hs⟩ := List.forall_mem_cons.1 hs
    exact (respaced_cons hc _).trans (ih hs)

theorem respaced_append_blank (ht : ∀ c ∈ t, isBlank c = true) (s : Text) :
    Respaced (s ++ t) s := by
  induction t using List.reverseRecOn with
  | nil => simpa using Respaced.refl s
  | append_singleton t c ih =>
    rw [← List.append_assoc]
    exact (respaced_concat (ht c (by simp)) _).trans (ih fun d hd => ht d (by simp [hd]))

theorem respaced_trimStart (t : Text) : Respaced t (trimStart t) := by
  have hblank : ∀ c ∈ t.takeWhile isBlank, isBlank c = true :=
    fun c hc => List.mem_takeWhile_imp hc
  have h := respaced_blank_append hblank (trimStart t)
  rwa [show t.takeWhile isBlank ++ trimStart t = t from List.takeWhile_append_dropWhile] at h

theorem respaced_trimEnd (t : Text) : Respaced t (trimEnd t) := by
  obtain ⟨ending, ht, hblank⟩ := exists_after_trimEnd t
  have h := respaced_append_blank hblank (trimEnd t)
  rwa [← ht] at h

theorem respaced_trim (t : Text) : Respaced t (trim t) :=
  (respaced_trimStart t).trans (respaced_trimEnd _)

end SourceSurvey.Text
