import SourceSurvey.Text.Glob

/-!
# What a glob pattern matches

`Accepts` says which texts the tokens of a pattern stand for: a star for any run of characters and
every other token for one character. A pattern is matched by trying its tokens on all endings of
the text at once, and that finds exactly these texts (`isMatch_iff`).
-/

namespace SourceSurvey.Text.Glob

inductive Accepts : List Token → Text → Prop where
  | nil : Accepts [] []
  | star {rest : List Token} {t : Text} (skipped : Text) (h : Accepts rest t) :
      Accepts (.star :: rest) (skipped ++ t)
  | char {token : Token} {rest : List Token} {c : Char} {t : Text} (hs : token ≠ .star)
      (hc : token.accepts c = true) (h : Accepts rest t) : Accepts (token :: rest) (c :: t)

variable {rest : List Token} {token : Token} {c : Char} {t : Text}

theorem accepts_nil_iff : Accepts [] t ↔ t = [] := by
  constructor
  · rintro ⟨⟩
    rfl
  · rintro rfl
    exact .nil

theorem accepts_star_iff :
    Accepts (.star :: rest) t ↔ ∃ skipped left, t = skipped ++ left ∧ Accepts rest left := by
  constructor
  · intro h
    cases h with
    | star skipped h => exact ⟨skipped, _, rfl, h⟩
    | char hs _ _ => exact absurd rfl hs
  · rintro ⟨skipped, left, rfl, h⟩
    exact .star skipped h

/-- A star stands for nothing here, or also for the first character. -/
theorem accepts_star_cons :
    Accepts (.star :: rest) (c :: t) ↔ Accepts rest (c :: t) ∨ Accepts (.star :: rest) t := by
  rw [accepts_star_iff, accepts_star_iff]
  constructor
  · rintro ⟨skipped, left, he, h⟩
    cases skipped with
    | nil =>
      left
      rwa [he]
    | cons d skipped =>
      obtain ⟨rfl, rfl⟩ := List.cons.inj he
      exact .inr ⟨skipped, left, rfl, h⟩
  · rintro (h | ⟨skipped, left, rfl, h⟩)
    · exact ⟨[], _, rfl, h⟩
    · exact ⟨c :: skipped, left, rfl, h⟩

theorem accepts_star_nil : Accepts (.star :: rest) [] ↔ Accepts rest [] := by
  rw [accepts_star_iff]
  constructor
  · rintro ⟨skipped, left, he, h⟩
    obtain ⟨-, rfl⟩ := List.append_eq_nil_iff.1 he.symm
    exact h
  · intro h
    exact ⟨[], [], rfl, h⟩

theorem accepts_char_cons (hs : token ≠ .star) :
    Accepts (token :: rest) (c :: t) ↔ token.accepts c = true ∧ Accepts rest t := by
  constructor
  · intro h
    generalize he : c :: t = whole at h
    cases h with
    | star skipped h => exact absurd rfl hs
    | char _ hc h =>
      obtain ⟨rfl, rfl⟩ := List.cons.inj he
      exact ⟨hc, h⟩
  · rintro ⟨hc, h⟩
    exact .char hs hc h

theorem not_accepts_char_nil (hs : token ≠ .star) : ¬Accepts (token :: rest) [] := by
  intro h
  generalize he : ([] : Text) = whole at h
  cases h with
  | star skipped h => exact hs rfl
  | char _ _ _ => cases he

/-! ## All endings at once -/

/-- The flags say of each ending of the text whether it has the property. -/
def Tells (P : Text → Prop) : Text → List Bool → Prop
  | [], flags => ∃ flag, flags = [flag] ∧ (flag = true ↔ P [])
  | c :: t, flags =>
    ∃ flag more, flags = flag :: more ∧ (flag = true ↔ P (c :: t)) ∧ Tells P t more

theorem Tells.headD_iff {P : Text → Prop} {flags : List Bool} (h : Tells P t flags) :
    flags.headD false = true ↔ P t := by
  cases t with
  | nil =>
    obtain ⟨flag, rfl, hf⟩ := h
    exact hf
  | cons c t =>
    obtain ⟨flag, more, rfl, hf, -⟩ := h
    exact hf

theorem tells_anyFrom {flags : List Bool} (h : Tells (Accepts rest) t flags) :
    Tells (Accepts (.star :: rest)) t (anyFrom flags) := by
  induction t generalizing flags with
  | nil =>
    obtain ⟨flag, rfl, hf⟩ := h
    exact ⟨flag || false, rfl, by rw [Bool.or_false, hf, accepts_star_nil]⟩
  | cons c t ih =>
    obtain ⟨flag, more, rfl, hf, hm⟩ := h
    refine ⟨flag || (anyFrom more).headD false, anyFrom more, rfl, ?_, ih hm⟩
    rw [Bool.or_eq_true, hf, (ih hm).headD_iff, accepts_star_cons]

theorem tells_zipWith {flags : List Bool} (hs : token ≠ .star) (h : Tells (Accepts rest) t flags) :
    Tells (Accepts (token :: rest)) t
      (List.zipWith (fun c next => token.accepts c && next) t flags.tail ++ [false]) := by
  induction t generalizing flags with
  | nil => exact ⟨false, by simp, by simpa using not_accepts_char_nil hs⟩
  | cons c t ih =>
    obtain ⟨flag, more, rfl, -, hm⟩ := h
    have hhead := hm.headD_iff
    -- the flag of the ending behind `c` is the first of those that are left
    cases more with
    | nil => cases t <;> simp [Tells] at hm
    | cons next more =>
      refine ⟨token.accepts c && next, _, rfl, ?_, ih hm⟩
      rw [Bool.and_eq_true, accepts_char_cons hs]
      exact and_congr_right fun _ => hhead

theorem tells_acceptedEndings (tokens : List Token) (t : Text) :
    Tells (Accepts tokens) t (acceptedEndings tokens t) := by
  induction tokens with
  | nil =>
    induction t with
    | nil => exact ⟨true, rfl, by simp [accepts_nil_iff]⟩
    | cons c t ih => exact ⟨false, _, rfl, by simp [accepts_nil_iff], ih⟩
  | cons token rest ih =>
    by_cases hs : token = .star
    · subst hs
      exact tells_anyFrom ih
    · have he : acceptedEndings (token :: rest) t =
          List.zipWith (fun c next => token.accepts c && next) t
            (acceptedEndings rest t).tail ++ [false] := by
        cases token with
        | star => exact absurd rfl hs
        | anyChar => rfl
        | literal d => rfl
        | oneOf spans => rfl
        | noneOf spans => rfl
      rw [he]
      exact tells_zipWith hs ih

/-- A pattern matches exactly the texts that its tokens stand for. -/
theorem isMatch_iff {pattern : Text} : isMatch pattern t = true ↔ Accepts (tokens pattern) t :=
  (tells_acceptedEndings (tokens pattern) t).headD_iff

end SourceSurvey.Text.Glob
