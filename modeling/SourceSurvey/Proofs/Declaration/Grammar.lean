import Mathlib.Data.List.TakeWhile
import SourceSurvey.Proofs.Declaration.Prototype

/-!
# The grammar of declarations

`Declares` says of which parts a line that declares a method is put together, whatever reads it.
The reader accepts exactly these lines (`ofLine?_eq_some_iff_declares`). The first parenthesis of
each kind is where the parts meet, so there is one way to part a line, and every field of the
declaration is told by it (`ofLine?_grammar`).
-/

namespace SourceSurvey.Declaration

/-- The line is a head of two words, a parameter list without parentheses, and what trails it. The
first word begins no statement, and no second parameter list follows. -/
structure Declares (line head parameters trailing : Text) : Prop where
  line_eq : line = head ++ '(' :: (parameters ++ ')' :: trailing)
  not_directive : line.head? ≠ some '#'
  not_mem_head : '(' ∉ head
  words : ∃ returnType methodName, Text.Spaced head [returnType, methodName] ∧
    returnType ∉ Settings.nonTypeKeywords
  not_mem_parameters : '(' ∉ parameters ∧ ')' ∉ parameters
  not_called : trailing.find? (fun c => !Text.isBlank c) ≠ some '('

/-- The first word of each piece that has one, in the order of the pieces. -/
inductive FirstWords : List Text → List Text → Prop where
  | nil : FirstWords [] []
  | skip {piece : Text} {pieces ws : List Text} (hp : Text.Spaced piece [])
      (h : FirstWords pieces ws) : FirstWords (piece :: pieces) ws
  | take {piece w : Text} {rest pieces ws : List Text} (hp : Text.Spaced piece (w :: rest))
      (h : FirstWords pieces ws) : FirstWords (piece :: pieces) (w :: ws)

variable {line head parameters trailing : Text} {d : Declaration}

theorem find?_not_isBlank (t : Text) :
    t.find? (fun c => !Text.isBlank c) = (Text.trimStart t).head? := by
  rw [Text.trimStart, ← List.find?_not_eq_head?_dropWhile]

theorem firstWords_iff {pieces ws : List Text} :
    FirstWords pieces ws ↔ ws = pieces.filterMap fun piece => (Text.words piece).head? := by
  constructor
  · intro h
    induction h with
    | nil => rfl
    | skip hp _ ih =>
      rw [List.filterMap_cons, hp.words_eq, ih]
      rfl
    | take hp _ ih =>
      rw [List.filterMap_cons, hp.words_eq, ih]
      rfl
  · rintro rfl
    induction pieces with
    | nil => exact .nil
    | cons piece pieces ih =>
      rw [List.filterMap_cons]
      cases hw : Text.words piece with
      | nil => exact .skip (Text.words_eq_iff.1 hw) ih
      | cons w rest => exact .take (Text.words_eq_iff.1 hw) ih

theorem firstWords_paramTypesOf {parameters : Text} {ws : List Text} :
    FirstWords (parameters.splitOn ',') ws ↔ ws = paramTypesOf parameters :=
  firstWords_iff

/-- The reader and the grammar agree, with the fields that the parts make. -/
theorem ofLine?_eq_some_iff_declares :
    ofLine? line = some d ↔ ∃ head parameters, Declares line head parameters d.trailing ∧
      Text.Spaced head [d.returnType, d.methodName] ∧
      FirstWords (parameters.splitOn ',') d.paramTypes := by
  rw [ofLine?_eq_some_iff]
  constructor
  · rintro ⟨hd, head, parameters, hline, hho, hpc, hpo, hw, hk, ht, hp⟩
    have hspaced := Text.words_eq_iff.1 hw
    exact ⟨head, parameters, ⟨hline, hd, hho, ⟨_, _, hspaced, hk⟩, ⟨hpo, hpc⟩,
      by rwa [find?_not_isBlank]⟩, hspaced, firstWords_paramTypesOf.2 hp⟩
  · rintro ⟨head, parameters, h, hspaced, hp⟩
    obtain ⟨returnType, methodName, hwords, hk⟩ := h.words
    have hsame : [returnType, methodName] = [d.returnType, d.methodName] :=
      hwords.words_eq.symm.trans hspaced.words_eq
    refine ⟨h.not_directive, head, parameters, h.line_eq, h.not_mem_head, h.not_mem_parameters.2,
      h.not_mem_parameters.1, hspaced.words_eq, ?_, ?_, firstWords_paramTypesOf.1 hp⟩
    · rwa [← (List.cons.inj hsame).1]
    · rw [← find?_not_isBlank]
      exact h.not_called

theorem Declares.unique {head' parameters' trailing' : Text}
    (h : Declares line head parameters trailing) (h' : Declares line head' parameters' trailing') :
    head = head' ∧ parameters = parameters' ∧ trailing = trailing' := by
  have hline := h.line_eq.symm.trans h'.line_eq
  obtain ⟨hhead, hrest⟩ :=
    (Text.append_cons_inj_of_not_mem h.not_mem_head h'.not_mem_head).1 hline
  exact ⟨hhead, (Text.append_cons_inj_of_not_mem h.not_mem_parameters.2
    h'.not_mem_parameters.2).1 hrest⟩

/-- What the parts of a line declare. -/
theorem Declares.exists_declaration (h : Declares line head parameters trailing) :
    ∃ d, ofLine? line = some d ∧ Text.Spaced head [d.returnType, d.methodName] ∧
      FirstWords (parameters.splitOn ',') d.paramTypes ∧ d.trailing = trailing := by
  obtain ⟨returnType, methodName, hspaced, -⟩ := h.words
  have hfirst := firstWords_paramTypesOf.2 (Eq.refl (paramTypesOf parameters))
  exact ⟨⟨returnType, methodName, paramTypesOf parameters, trailing⟩,
    ofLine?_eq_some_iff_declares.2 ⟨head, parameters, h, hspaced, hfirst⟩, hspaced, hfirst, rfl⟩

/-- A line declares a method exactly when it can be parted as the grammar says. It can be parted in
one way only, and the parts are the fields of the declaration. -/
theorem ofLine?_grammar (line : Text) :
    ((∃ d, ofLine? line = some d) ↔
      ∃ head parameters trailing, Declares line head parameters trailing) ∧
    (∀ head parameters trailing, Declares line head parameters trailing →
      (∀ head' parameters' trailing', Declares line head' parameters' trailing' →
        head' = head ∧ parameters' = parameters ∧ trailing' = trailing) ∧
      ∃ d, ofLine? line = some d ∧ Text.Spaced head [d.returnType, d.methodName] ∧
        d.trailing = trailing ∧ FirstWords (parameters.splitOn ',') d.paramTypes ∧
        ∀ w ∈ d.paramTypes, Text.IsWord w ∧ ∀ c ∈ [',', '(', ')'], c ∉ w) := by
  refine ⟨⟨?_, ?_⟩, fun head parameters trailing h => ⟨fun _ _ _ h' => h'.unique h, ?_⟩⟩
  · rintro ⟨d, hd⟩
    obtain ⟨head, parameters, h, -⟩ := ofLine?_eq_some_iff_declares.1 hd
    exact ⟨head, parameters, d.trailing, h⟩
  · rintro ⟨head, parameters, trailing, h⟩
    obtain ⟨d, hd, -⟩ := h.exists_declaration
    exact ⟨d, hd⟩
  · obtain ⟨d, hd, hspaced, hfirst, ht⟩ := h.exists_declaration
    refine ⟨d, hd, hspaced, ht, hfirst, fun w hw => ?_⟩
    rw [firstWords_paramTypesOf.1 hfirst] at hw
    obtain ⟨hword, -, hplain⟩ :=
      plain_of_mem_paramTypesOf hw h.not_mem_parameters.1 h.not_mem_parameters.2
    exact ⟨hword, hplain⟩

/-- A closing parenthesis in the head, pieces without a word, and a no-break space in a name. -/
example : ofLine? ") f\u00a0 ( , int a,\u2003,b\u2028c= )(".toList = none ∧
    ofLine? ") f\u00a0 ( , int a,\u2003,b\u2028c= )  x(".toList =
      some ⟨[')'], ['f'], ["int".toList, ['b']], "  x(".toList⟩ := by
  decide +kernel

end SourceSurvey.Declaration
