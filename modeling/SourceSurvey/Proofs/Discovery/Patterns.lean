import Mathlib.Data.List.Forall2
import SourceSurvey.Discovery
import SourceSurvey.Proofs.Text.Glob

/-!
# Which files patterns leave out

A pattern without a root matches a path when its components stand, one for one, for the last
components of the path (`patternMatches_iff`). The names of excluded directories are those of
hidden directories and of a few kinds of build directories (`exists_excludedDirectory_iff`). When
no pattern is empty, whether a file is excluded is told by its path alone (`isExcluded_eq`).
-/

namespace SourceSurvey

namespace Text.Glob

/-! ## Patterns that begin with plain characters -/

def IsSpecial (c : Char) : Prop := c = '*' ∨ c = '?' ∨ c = '['

instance : DecidablePred IsSpecial := fun c =>
  inferInstanceAs (Decidable (c = '*' ∨ c = '?' ∨ c = '['))

def IsPlain (pattern : Text) : Prop := ∀ c ∈ pattern, ¬IsSpecial c

-- named, so that it is not the characters that are enumerated
instance : DecidablePred IsPlain := fun pattern =>
  List.decidableBAll (fun c => ¬IsSpecial c) pattern

theorem tokens_append {plain : Text} (h : IsPlain plain) (rest : Text) :
    tokens (plain ++ rest) = plain.map .literal ++ tokens rest := by
  induction plain with
  | nil => rfl
  | cons c plain ih =>
    obtain ⟨hc, hp⟩ := List.forall_mem_cons.1 h
    simp only [IsSpecial, not_or] at hc
    rw [List.cons_append, tokens, if_neg hc.1, if_neg hc.2.1, if_neg hc.2.2, ih hp,
      List.map_cons, List.cons_append]

theorem accepts_literals_append {plain t : Text} {rest : List Token} :
    Accepts (plain.map .literal ++ rest) t ↔ ∃ left, t = plain ++ left ∧ Accepts rest left := by
  induction plain generalizing t with
  | nil => simp
  | cons c plain ih =>
    rw [List.map_cons, List.cons_append]
    cases t with
    | nil => simp [not_accepts_char_nil]
    | cons d t =>
      rw [accepts_char_cons (by simp), ih]
      simp only [Token.accepts, decide_eq_true_eq, List.cons_append, List.cons.injEq]
      constructor
      · rintro ⟨rfl, left, rfl, h⟩
        exact ⟨left, ⟨rfl, rfl⟩, h⟩
      · rintro ⟨left, ⟨rfl, rfl⟩, h⟩
        exact ⟨rfl, left, rfl, h⟩

/-- A pattern of plain characters matches itself only. -/
theorem accepts_plain_iff {plain t : Text} (h : IsPlain plain) :
    Accepts (tokens plain) t ↔ t = plain := by
  have hn : tokens [] = [] := by rw [tokens]
  rw [← List.append_nil plain, tokens_append h, hn, accepts_literals_append]
  simp [accepts_nil_iff]

/-- A pattern of plain characters and a star matches what begins with these characters. -/
theorem accepts_plain_star_iff {plain t : Text} (h : IsPlain plain) :
    Accepts (tokens (plain ++ ['*'])) t ↔ plain <+: t := by
  have hstar : tokens ['*'] = [.star] := by rw [tokens, if_pos rfl, tokens]
  rw [tokens_append h, hstar, accepts_literals_append]
  constructor
  · rintro ⟨left, rfl, -⟩
    exact List.prefix_append plain left
  · rintro ⟨left, rfl⟩
    exact ⟨left, rfl, accepts_star_iff.2 ⟨left, [], (List.append_nil left).symm, .nil⟩⟩

end Text.Glob

namespace Discovery

open Text.Glob (Accepts tokens)

variable {pattern : Path} {patterns : List Path} {parts : List Text}

/-! ## Excluded directories -/

theorem exists_excludedDirectory_iff (name : Text) :
    (∃ glob ∈ Settings.excludedDirectories, Accepts (tokens glob) name) ↔
      ['.'] <+: name ∨ name = "build".toList ∨ "cmake-build-".toList <+: name ∨
        name = "out".toList := by
  have hs : Settings.excludedDirectories =
      [['.'] ++ ['*'], "build".toList, "cmake-build-".toList ++ ['*'], "out".toList] := rfl
  simp only [hs, List.mem_cons, List.not_mem_nil, or_false, exists_eq_or_imp, exists_eq_left]
  rw [Text.Glob.accepts_plain_star_iff (by decide), Text.Glob.accepts_plain_iff (by decide),
    Text.Glob.accepts_plain_star_iff (by decide), Text.Glob.accepts_plain_iff (by decide)]

/-- A directory on the way has a name that is left out. -/
def InExcluded (parts : List Text) : Prop :=
  ∃ name ∈ parts.dropLast, ∃ glob ∈ Settings.excludedDirectories, Accepts (tokens glob) name

theorem inExcludedDirectory_iff : inExcludedDirectory parts = true ↔ InExcluded parts := by
  simp only [inExcludedDirectory, InExcluded, List.any_eq_true, Text.Glob.isMatch_iff]

/-! ## Patterns -/

/-- The components of the pattern stand for the last components of the path. -/
def Matches (pattern : Path) (parts : List Text) : Prop :=
  pattern.root = [] ∧ ∃ front back, parts = front ++ back ∧
    List.Forall₂ (fun glob part => Accepts (tokens glob) part) pattern.parts back

theorem all_zip_iff {α β : Type} (as : List α) (bs : List β) (test : α → β → Bool) :
    (as.length ≤ bs.length ∧ (as.zip bs).all (fun m => test m.1 m.2) = true) ↔
      ∃ front back, bs = front ++ back ∧ List.Forall₂ (fun a b => test a b = true) as front := by
  induction as generalizing bs with
  | nil => simp
  | cons a as ih =>
    cases bs with
    | nil => simp
    | cons b bs =>
      simp only [List.length_cons, Nat.add_le_add_iff_right, List.zip_cons_cons, List.all_cons,
        Bool.and_eq_true]
      rw [and_left_comm, ih]
      constructor
      · rintro ⟨hab, front, back, rfl, hf⟩
        exact ⟨b :: front, back, rfl, .cons hab hf⟩
      · rintro ⟨front, back, he, hf⟩
        cases hf with
        | cons hab hf =>
          obtain ⟨rfl, rfl⟩ := List.cons.inj he
          exact ⟨hab, _, back, rfl, hf⟩

theorem patternMatches_iff : patternMatches pattern parts = true ↔ Matches pattern parts := by
  have hroot : (!pattern.isAbsolute) = true ↔ pattern.root = [] := by simp [Path.isAbsolute]
  have hreverse := all_zip_iff pattern.parts.reverse parts.reverse Text.Glob.isMatch
  rw [patternMatches, Bool.and_eq_true, Bool.and_eq_true, hroot, decide_eq_true_eq, and_assoc]
  refine and_congr_right fun _ => ?_
  rw [List.length_reverse, List.length_reverse] at hreverse
  rw [hreverse]
  simp only [Text.Glob.isMatch_iff]
  constructor
  · rintro ⟨front, back, he, hf⟩
    refine ⟨back.reverse, front.reverse, ?_, List.forall₂_reverse_iff.1 ?_⟩
    · rw [← List.reverse_append, ← he, List.reverse_reverse]
    · rwa [List.reverse_reverse]
  · rintro ⟨front, back, rfl, hf⟩
    exact ⟨back.reverse, front.reverse, List.reverse_append, List.forall₂_reverse_iff.2 hf⟩

/-- A plain name leaves out the files of that name. -/
theorem matches_name_iff {plain : Text} (h : Text.Glob.IsPlain plain) :
    Matches ⟨[], [plain]⟩ parts ↔ ∃ front, parts = front ++ [plain] := by
  constructor
  · rintro ⟨-, front, back, rfl, hf⟩
    cases hf with
    | cons ha hf =>
      cases hf
      rw [(Text.Glob.accepts_plain_iff h).1 ha]
      exact ⟨front, rfl⟩
  · rintro ⟨front, rfl⟩
    exact ⟨rfl, front, [plain], rfl, .cons ((Text.Glob.accepts_plain_iff h).2 rfl) .nil⟩

theorem isEmptyPattern_iff : isEmptyPattern pattern = true ↔ pattern = ⟨[], []⟩ := by
  obtain ⟨root, parts⟩ := pattern
  simp [isEmptyPattern, Path.isAbsolute]

/-! ## Excluded files -/

open Classical in
theorem anyPatternMatches_eq (h : ∀ pattern ∈ patterns, pattern ≠ ⟨[], []⟩) :
    anyPatternMatches parts patterns = .ok (decide (∃ p ∈ patterns, Matches p parts)) := by
  induction patterns with
  | nil => simp [anyPatternMatches]
  | cons pattern patterns ih =>
    obtain ⟨hp, hrest⟩ := List.forall_mem_cons.1 h
    rw [anyPatternMatches, if_neg (mt isEmptyPattern_iff.1 hp)]
    by_cases hm : Matches pattern parts
    · rw [if_pos (patternMatches_iff.2 hm)]
      simp [hm]
    · rw [if_neg (mt patternMatches_iff.1 hm), ih hrest]
      simp [hm]

theorem anyPatternMatches_eq_error {f : Fault} (h : anyPatternMatches parts patterns = .error f) :
    f = .emptyPattern ∧ ⟨[], []⟩ ∈ patterns := by
  induction patterns with
  | nil => cases h
  | cons pattern patterns ih =>
    rw [anyPatternMatches] at h
    split at h
    · next he =>
      exact ⟨(Except.error.inj h).symm, List.mem_cons.2 (.inl (isEmptyPattern_iff.1 he).symm)⟩
    · split at h
      · cases h
      · exact ⟨(ih h).1, List.mem_cons_of_mem _ (ih h).2⟩

open Classical in
theorem isExcluded_eq (h : ∀ pattern ∈ patterns, pattern ≠ ⟨[], []⟩) :
    isExcluded patterns parts =
      .ok (decide (InExcluded parts ∨ ∃ p ∈ patterns, Matches p parts)) := by
  rw [isExcluded]
  by_cases he : InExcluded parts
  · rw [if_pos (inExcludedDirectory_iff.2 he)]
    simp [he]
  · rw [if_neg (mt inExcludedDirectory_iff.1 he), anyPatternMatches_eq h]
    simp [he]

theorem isExcluded_eq_error {f : Fault} (h : isExcluded patterns parts = .error f) :
    f = .emptyPattern ∧ ⟨[], []⟩ ∈ patterns := by
  rw [isExcluded] at h
  split at h
  · cases h
  · exact anyPatternMatches_eq_error h

end Discovery

end SourceSurvey
