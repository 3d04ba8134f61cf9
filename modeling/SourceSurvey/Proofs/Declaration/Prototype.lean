import SourceSurvey.Method
import SourceSurvey.Proofs.Text.Joining
import SourceSurvey.Proofs.Text.Normalize
import SourceSurvey.Proofs.Text.Spacing
import SourceSurvey.Proofs.Text.Words

/-!
# Prototypes

`ofLine?_eq_some_iff` says how a line that declares a method is put together. The parts that are
read from a line without comments are well-formed: words that can stand around parentheses and
commas. A method with such parts can be written as a prototype, from which they are read again
(`ofLine?_prototype`).
-/

namespace SourceSurvey

namespace Declaration

theorem ofParts_eq_some_iff {head parameters trailing : Text} {d : Declaration} :
    ofParts head parameters trailing = some d ↔
      Text.words head = [d.returnType, d.methodName] ∧ d.returnType ∉ Settings.nonTypeKeywords ∧
        '(' ∉ parameters ∧ (Text.trimStart trailing).head? ≠ some '(' ∧
        d.paramTypes = paramTypesOf parameters ∧ d.trailing = trailing := by
  unfold ofParts
  split
  · next returnType methodName hw =>
    rw [hw]
    constructor
    · intro h
      split at h
      · cases h
      · next hn =>
        cases h
        simp only [not_or] at hn
        exact ⟨rfl, hn.1, hn.2.1, hn.2.2, rfl, rfl⟩
    · rintro ⟨he, hk, hp, ht, hps, rfl⟩
      have hr : returnType = d.returnType := (List.cons.inj he).1
      have hm : methodName = d.methodName := (List.cons.inj (List.cons.inj he).2).1
      rw [hr, hm, if_neg (by simp only [not_or]; exact ⟨hk, hp, ht⟩), ← hps]
  · next hw =>
    constructor
    · intro h
      cases h
    · rintro ⟨he, -⟩
      exact absurd he (hw _ _)

/-- The line is a head of two words, the parameters between the first parentheses, and the rest. -/
theorem ofLine?_eq_some_iff {line : Text} {d : Declaration} :
    ofLine? line = some d ↔
      line.head? ≠ some '#' ∧ ∃ head parameters,
        line = head ++ '(' :: (parameters ++ ')' :: d.trailing) ∧
        '(' ∉ head ∧ ')' ∉ parameters ∧ '(' ∉ parameters ∧
        Text.words head = [d.returnType, d.methodName] ∧
        d.returnType ∉ Settings.nonTypeKeywords ∧
        (Text.trimStart d.trailing).head? ≠ some '(' ∧ d.paramTypes = paramTypesOf parameters := by
  unfold ofLine?
  constructor
  · intro h
    split at h
    · cases h
    · next hd =>
      split at h
      · cases h
      · next head rest hhead =>
        split at h
        · cases h
        · next parameters trailing hrest =>
          obtain ⟨hw, hk, hp, ht, hps, rfl⟩ := ofParts_eq_some_iff.1 h
          obtain ⟨rfl, hho⟩ := Text.cut?_eq_some_iff.1 hhead
          obtain ⟨rfl, hpc⟩ := Text.cut?_eq_some_iff.1 hrest
          exact ⟨hd, head, parameters, rfl, hho, hpc, hp, hw, hk, ht, hps⟩
  · rintro ⟨hd, head, parameters, rfl, hho, hpc, hp, hw, hk, ht, hps⟩
    rw [if_neg hd, Text.cut?_eq_some_iff.2 ⟨rfl, hho⟩]
    simp only [Text.cut?_eq_some_iff.2 ⟨rfl, hpc⟩]
    exact ofParts_eq_some_iff.2 ⟨hw, hk, hp, ht, hps, rfl⟩

/-- A word free of comments in which none of the separators occurs. -/
structure Token (separators : List Char) (w : Text) : Prop where
  isWord : Text.IsWord w
  commentFree : Text.CommentFree w
  not_mem : ∀ c ∈ separators, c ∉ w

/-- The parts can be told apart when they are written one after the other, and what is written is
neither a directive nor a statement. -/
structure WellFormed (d : Declaration) : Prop where
  returnType : Token ['('] d.returnType
  not_directive : d.returnType.head? ≠ some '#'
  not_keyword : d.returnType ∉ Settings.nonTypeKeywords
  methodName : Token ['('] d.methodName
  paramTypes : ∀ p ∈ d.paramTypes, Token [',', '(', ')'] p

/-- A parameter type is a word of the list, and holds nothing that ends one. -/
theorem plain_of_mem_paramTypesOf {parameters p : Text} (h : p ∈ paramTypesOf parameters)
    (ho : '(' ∉ parameters) (hc : ')' ∉ parameters) :
    Text.IsWord p ∧ p <:+: parameters ∧ ∀ c ∈ [',', '(', ')'], c ∉ p := by
  obtain ⟨piece, hpiece, hhead⟩ := List.mem_filterMap.1 h
  have hword : p ∈ Text.words piece := List.mem_of_head? hhead
  have hin := Text.isInfix_of_mem_words hword
  have hsub := hin.trans (Text.isInfix_of_mem_splitOn hpiece)
  refine ⟨Text.isWord_of_mem_words hword, hsub, ?_⟩
  intro c hs hcp
  simp only [List.mem_cons, List.not_mem_nil, or_false] at hs
  rcases hs with rfl | rfl | rfl
  · exact Text.not_mem_of_mem_splitOn hpiece (hin.subset hcp)
  · exact ho (hsub.subset hcp)
  · exact hc (hsub.subset hcp)

theorem wellFormed_of_ofLine? {line : Text} {d : Declaration} (h : ofLine? line = some d)
    (hc : Text.CommentFree line) (hb : ∀ c ∈ line.head?, Text.isBlank c = false) :
    d.WellFormed := by
  obtain ⟨hd, head, parameters, rfl, hho, hpc, hpo, hw, hk, -, hp⟩ := ofLine?_eq_some_iff.1 h
  have hhead : head <:+: head ++ '(' :: (parameters ++ ')' :: d.trailing) :=
    (List.prefix_append _ _).isInfix
  have hparams : parameters <:+: head ++ '(' :: (parameters ++ ')' :: d.trailing) :=
    (List.infix_cons (List.prefix_append _ _).isInfix).trans (List.suffix_append _ _).isInfix
  have token {w : Text} (hm : w ∈ Text.words head) : Token ['('] w := by
    have hin := Text.isInfix_of_mem_words hm
    refine ⟨Text.isWord_of_mem_words hm, hc.of_isInfix (hin.trans hhead), ?_⟩
    intro c hs hcw
    rw [List.mem_singleton] at hs
    exact hho (hs ▸ hin.subset hcw)
  refine ⟨token (by simp [hw]), ?_, hk, token (by simp [hw]), ?_⟩
  · -- the first word begins where the line begins
    cases head with
    | nil => simp [Text.words] at hw
    | cons c head =>
      obtain ⟨w, ws, he⟩ := Text.exists_words_eq_cons (hb c rfl) head
      rw [he, List.cons.injEq] at hw
      rw [← hw.1]
      exact hd
  · intro p hm
    rw [hp] at hm
    obtain ⟨hword, hsub, hplain⟩ := plain_of_mem_paramTypesOf hm hpo hpc
    exact ⟨hword, hc.of_isInfix (hsub.trans hparams), hplain⟩

/-! ## Parameter lists -/

theorem paramTypesOf_eq (parameters : Text) :
    paramTypesOf parameters = (Text.wordLists parameters).filterMap List.head? := by
  rw [Text.wordLists, List.filterMap_map]
  rfl

theorem paramTypesOf_cons {c : Char} (hb : Text.isBlank c = true) (parameters : Text) :
    paramTypesOf (c :: parameters) = paramTypesOf parameters := by
  rw [paramTypesOf_eq, (Text.respaced_cons hb parameters).wordLists_eq, ← paramTypesOf_eq]

theorem commaSeparated_singleton (t : Text) : Text.commaSeparated [t] = t :=
  Text.join_singleton _ t

theorem commaSeparated_cons_cons (t u : Text) (ts : List Text) :
    Text.commaSeparated (t :: u :: ts) = t ++ ',' :: ' ' :: Text.commaSeparated (u :: ts) := by
  rw [Text.commaSeparated, Text.join_cons_cons, List.append_assoc]
  rfl

theorem paramTypesOf_commaSeparated {ts : List Text} (h : ∀ t ∈ ts, Text.IsWord t ∧ ',' ∉ t) :
    paramTypesOf (Text.commaSeparated ts) = ts := by
  induction ts with
  | nil => rfl
  | cons t ts ih =>
    obtain ⟨hw, hc⟩ := h t (by simp)
    cases ts with
    | nil =>
      rw [commaSeparated_singleton, paramTypesOf, List.splitOn_eq_singleton hc,
        List.filterMap_cons, hw.words_eq]
      rfl
    | cons u ts =>
      have hr := ih fun v hv => h v (by simp [hv])
      rw [commaSeparated_cons_cons, paramTypesOf, List.splitOn_append_cons_self_of_not_mem hc,
        List.filterMap_cons, hw.words_eq, List.head?_cons]
      exact congrArg (t :: ·) ((paramTypesOf_cons rfl _).trans hr)

theorem mem_commaSeparated {ts : List Text} {c : Char} (h : c ∈ Text.commaSeparated ts) :
    c = ',' ∨ c = ' ' ∨ ∃ t ∈ ts, c ∈ t := by
  by_cases hc : c ∈ [',', ' ']
  · simp only [List.mem_cons, List.not_mem_nil, or_false] at hc
    exact hc.elim .inl fun hc => .inr (.inl hc)
  · exact .inr (.inr ((Text.mem_join hc).1 h))

end Declaration

namespace Method

open Declaration

def prototype (m : Method) : Text := m.signature ++ [';']

variable {d : Declaration} {className : Text}

theorem prototype_eq (className : Text) (d : Declaration) :
    (ofDeclaration className d).prototype =
      (d.returnType ++ ' ' :: d.methodName) ++
        '(' :: (Text.commaSeparated d.paramTypes ++ ')' :: [';']) := by
  simp [prototype, signature, ofDeclaration]

theorem head?_prototype (h : d.WellFormed) :
    (ofDeclaration className d).prototype.head? = d.returnType.head? := by
  obtain ⟨c, w, hc⟩ := List.exists_cons_of_ne_nil h.returnType.isWord.1
  rw [prototype_eq, hc]
  rfl

theorem getLast?_prototype (m : Method) : m.prototype.getLast? = some ';' := List.getLast?_concat

theorem ofLine?_prototype (h : d.WellFormed) :
    ofLine? (ofDeclaration className d).prototype =
      some ⟨d.returnType, d.methodName, d.paramTypes, [';']⟩ := by
  have not_mem {c : Char} (hne : c ≠ ',' ∧ c ≠ ' ') (hs : c ∈ [',', '(', ')']) :
      c ∉ Text.commaSeparated d.paramTypes := by
    intro hm
    rcases mem_commaSeparated hm with hc | hc | ⟨t, ht, hc⟩
    · exact hne.1 hc
    · exact hne.2 hc
    · exact (h.paramTypes t ht).not_mem c hs hc
  refine ofLine?_eq_some_iff.2 ⟨?_, _, _, prototype_eq className d, ?_,
    not_mem (by decide) (by simp), not_mem (by decide) (by simp), ?_, h.not_keyword, ?_, ?_⟩
  · rw [head?_prototype h]
    exact h.not_directive
  · simp [h.returnType.not_mem, h.methodName.not_mem]
  · rw [Text.words_append_cons _ _ rfl, h.returnType.isWord.words_eq, h.methodName.isWord.words_eq]
    rfl
  · show (Text.trimStart [';']).head? ≠ some '('
    decide
  · refine (paramTypesOf_commaSeparated fun t ht => ?_).symm
    exact ⟨(h.paramTypes t ht).isWord, (h.paramTypes t ht).not_mem ',' (by simp)⟩

theorem commentFree_prototype (h : d.WellFormed) :
    Text.CommentFree (ofDeclaration className d).prototype := by
  rw [prototype_eq, Text.commentFree_append_cons (by decide),
    Text.commentFree_append_cons (by decide), Text.commentFree_append_cons (by decide)]
  refine ⟨⟨h.returnType.commentFree, h.methodName.commentFree⟩, ?_, ?_⟩
  · exact Text.commentFree_join (by decide) fun p hp => (h.paramTypes p hp).commentFree
  · simp [Text.commentFree_cons, Text.commentFree_nil]

theorem trimmed_prototype (h : d.WellFormed) :
    Text.Trimmed (ofDeclaration className d).prototype := by
  refine ⟨?_, ?_⟩
  · intro c hc
    rw [head?_prototype h] at hc
    exact h.returnType.isWord.2 c (List.mem_of_head? hc)
  · intro c hc
    rw [getLast?_prototype] at hc
    cases hc
    rfl

theorem newline_not_mem_prototype (h : d.WellFormed) :
    '\n' ∉ (ofDeclaration className d).prototype := by
  have not_mem {w : Text} (hw : Text.IsWord w) : '\n' ∉ w := fun hm =>
    absurd (hw.2 '\n' hm) (by decide)
  have hp : '\n' ∉ Text.commaSeparated d.paramTypes := by
    intro hm
    rcases mem_commaSeparated hm with hc | hc | ⟨t, ht, hc⟩
    · exact absurd hc (by decide)
    · exact absurd hc (by decide)
    · exact not_mem (h.paramTypes t ht).isWord hc
  simp [prototype_eq, hp, not_mem h.returnType.isWord, not_mem h.methodName.isWord]

end Method

end SourceSurvey
