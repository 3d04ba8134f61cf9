import SourceSurvey.Include
import SourceSurvey.Proofs.Text.Normalize

/-!
# Directives and the names they include

What a directive on a normalized line includes is well-formed, and whatever is well-formed has a
directive that includes it. A name is cut at the first dot after its last slash, so a second cut
changes nothing.

* `wellFormed_of_ofLine`: directives give well-formed includes;
* `ofLine_directive`: the directive of a well-formed include gives it back.
-/

namespace SourceSurvey.Include

/-! ## Names without an extension -/

/-- The last component of a target begins after its last slash. -/
theorem exists_lastComponent (target : Text) :
    ∃ directories last, target = directories ++ last ∧ (∀ c ∈ directories.getLast?, c = '/') ∧
      '/' ∉ last := by
  induction target with
  | nil => exact ⟨[], [], rfl, by simp, by simp⟩
  | cons d target ih =>
    obtain ⟨directories, last, rfl, hd, hl⟩ := ih
    cases directories with
    | cons e directories =>
      refine ⟨d :: e :: directories, last, rfl, ?_, hl⟩
      simpa only [List.getLast?_cons_cons] using hd
    | nil =>
      by_cases h : d = '/'
      · exact ⟨[d], last, rfl, by simpa using h, hl⟩
      · exact ⟨[], d :: last, rfl, by simp, by simpa [eq_comm] using ⟨h, hl⟩⟩

theorem withoutExtension_append {directories last : Text}
    (hd : ∀ c ∈ directories.getLast?, c = '/') (hl : '/' ∉ last) :
    withoutExtension (directories ++ last) = directories ++ last.takeWhile (· ≠ '.') := by
  have hall : ∀ c ∈ last.reverse, decide (c ≠ '/') = true := by
    intro c hc
    rw [List.mem_reverse] at hc
    exact decide_eq_true fun he => hl (he ▸ hc)
  -- read from its end, the target has its last component first and then a slash
  have htake : directories.reverse.takeWhile (· ≠ '/') = [] := by
    cases h : directories.reverse with
    | nil => rfl
    | cons c rest =>
      have hc : c = '/' := hd c (by rw [← List.head?_reverse, h]; rfl)
      simp [hc]
  have hdrop : directories.reverse.dropWhile (· ≠ '/') = directories.reverse := by
    have h := List.takeWhile_append_dropWhile (p := (· ≠ '/')) (l := directories.reverse)
    rwa [htake, List.nil_append] at h
  simp only [withoutExtension, List.reverse_append, List.takeWhile_append_of_pos hall,
    List.dropWhile_append_of_pos hall, htake, hdrop, List.append_nil, List.reverse_reverse]

theorem withoutExtension_isPrefix (target : Text) : withoutExtension target <+: target := by
  obtain ⟨directories, last, rfl, hd, hl⟩ := exists_lastComponent target
  rw [withoutExtension_append hd hl]
  exact (List.prefix_append_right_inj directories).2 (List.takeWhile_prefix _)

theorem withoutExtension_idem (target : Text) :
    withoutExtension (withoutExtension target) = withoutExtension target := by
  obtain ⟨directories, last, rfl, hd, hl⟩ := exists_lastComponent target
  have hl' : '/' ∉ last.takeWhile (· ≠ '.') := fun h => hl ((List.takeWhile_subset _) h)
  rw [withoutExtension_append hd hl, withoutExtension_append hd hl', List.takeWhile_takeWhile]
  simp

/-! ## Directives -/

/-- The delimiters of a library or of a name of the project. -/
def delimiters (isLibrary : Bool) : Char × Char :=
  if isLibrary then ('<', '>') else (Text.doubleQuote, Text.doubleQuote)

/-- The name between its delimiters. -/
def target (i : Include) : Text :=
  (delimiters i.isLibrary).1 :: i.name ++ [(delimiters i.isLibrary).2]

def directive (i : Include) : Text := Settings.includeKeyword ++ ' ' :: i.target

/-- The name can stand between its delimiters on one line and is not cut there. -/
structure WellFormed (i : Include) : Prop where
  ne_nil : i.name ≠ []
  closing_not_mem : (delimiters i.isLibrary).2 ∉ i.name
  withoutExtension_eq : withoutExtension i.name = i.name
  commentFree : Text.CommentFree i.name
  newline_not_mem : '\n' ∉ i.name

theorem delimiter?_delimiters (isLibrary : Bool) :
    delimiter? (delimiters isLibrary).1 = some ((delimiters isLibrary).2, isLibrary) := by
  cases isLibrary <;> rfl

theorem delimiter?_eq_some {opening closing : Char} {isLibrary : Bool}
    (h : delimiter? opening = some (closing, isLibrary)) :
    delimiters isLibrary = (opening, closing) := by
  unfold delimiter? at h
  split at h
  · next ho =>
    cases h
    rw [ho]
    rfl
  · split at h
    · next ho =>
      cases h
      rw [ho]
      rfl
    · cases h

/-- What stands between the delimiters is included, up to where its extension begins. -/
theorem ofTarget_eq_ok_iff {line t : Text} {i : Include} :
    ofTarget line t = .ok i ↔ ∃ target after,
      t = (delimiters i.isLibrary).1 :: (target ++ (delimiters i.isLibrary).2 :: after) ∧
        (delimiters i.isLibrary).2 ∉ target ∧ withoutExtension target = i.name ∧ i.name ≠ [] := by
  constructor
  · intro h
    cases t with
    | nil => cases h
    | cons opening rest =>
      unfold ofTarget at h
      cases hd : delimiter? opening with
      | none => simp [hd] at h
      | some d =>
        obtain ⟨closing, isLibrary⟩ := d
        cases hcut : Text.cut? closing rest with
        | none => simp [hd, hcut] at h
        | some p =>
          obtain ⟨target, after⟩ := p
          simp only [hd, hcut] at h
          split at h
          · cases h
          · next hne =>
            cases h
            obtain ⟨rfl, hnot⟩ := Text.cut?_eq_some_iff.1 hcut
            refine ⟨target, after, ?_, ?_, rfl, hne⟩
            · rw [delimiter?_eq_some hd]
            · rwa [delimiter?_eq_some hd]
  · obtain ⟨name, isLibrary⟩ := i
    rintro ⟨target, after, rfl, hnot, rfl, hne⟩
    have hcut : Text.cut? (delimiters isLibrary).2 (target ++ (delimiters isLibrary).2 :: after) =
        some (target, after) := Text.cut?_eq_some_iff.2 ⟨rfl, hnot⟩
    rw [ofTarget, delimiter?_delimiters]
    simp only [hcut]
    exact if_neg hne

theorem wellFormed_of_ofTarget {line t : Text} {i : Include} (h : ofTarget line t = .ok i)
    (hc : Text.CommentFree t) (hn : '\n' ∉ t) : i.WellFormed := by
  obtain ⟨target, after, rfl, hnot, hname, hne⟩ := ofTarget_eq_ok_iff.1 h
  have hp : i.name <+: target := hname ▸ withoutExtension_isPrefix target
  have hin : i.name <:+: (delimiters i.isLibrary).1 ::
      (target ++ (delimiters i.isLibrary).2 :: after) :=
    List.infix_cons (hp.trans (List.prefix_append target _)).isInfix
  exact {
    ne_nil := hne
    closing_not_mem := fun hm => hnot (hp.subset hm)
    withoutExtension_eq := hname ▸ withoutExtension_idem target
    commentFree := hc.of_isInfix hin
    newline_not_mem := fun hm => hn (hin.subset hm) }

theorem wellFormed_of_ofLine {line : Text} {i : Include} (h : ofLine line = .ok (some i))
    (hc : Text.CommentFree line) (hn : '\n' ∉ line) : i.WellFormed := by
  unfold ofLine at h
  split at h
  · cases ht : ofTarget line (Text.trim (line.drop Settings.includeKeyword.length)) with
    | error d => simp [ht, Except.map] at h
    | ok j =>
      have hj : j = i := by simpa [ht, Except.map] using h
      have hin : Text.trim (line.drop Settings.includeKeyword.length) <:+: line :=
        (Text.trim_isInfix _).trans (List.drop_suffix _ line).isInfix
      exact hj ▸ wellFormed_of_ofTarget ht (hc.of_isInfix hin) fun hm => hn (hin.subset hm)
  · cases h

variable {i : Include}

theorem ofTarget_target (h : i.WellFormed) (line : Text) : ofTarget line i.target = .ok i :=
  ofTarget_eq_ok_iff.2 ⟨i.name, [], rfl, h.closing_not_mem, h.withoutExtension_eq, h.ne_nil⟩

theorem delimiters_plain (isLibrary : Bool) :
    ∀ c ∈ [(delimiters isLibrary).1, (delimiters isLibrary).2],
      c ≠ '/' ∧ c ≠ '\n' ∧ c ≠ '\r' ∧ Text.isBlank c = false := by
  intro c hc
  rw [List.mem_pair] at hc
  cases isLibrary <;> rcases hc with rfl | rfl <;> decide

theorem includeKeyword_eq :
    Settings.includeKeyword = ['#', 'i', 'n', 'c', 'l', 'u', 'd', 'e'] := by
  decide

theorem head?_directive (i : Include) : i.directive.head? = some '#' := by
  rw [directive, includeKeyword_eq]
  rfl

theorem getLast?_directive (i : Include) :
    i.directive.getLast? = some (delimiters i.isLibrary).2 := by
  rw [directive, target, ← List.cons_append, ← List.append_assoc, List.getLast?_concat]

theorem trimmed_target (i : Include) : Text.Trimmed i.target := by
  have hp := delimiters_plain i.isLibrary
  refine ⟨?_, ?_⟩
  · intro c hm
    cases hm
    exact (hp _ (by simp)).2.2.2
  · intro c hm
    rw [target, List.getLast?_concat] at hm
    cases hm
    exact (hp _ (by simp)).2.2.2

theorem commentFree_target (h : i.WellFormed) : Text.CommentFree i.target := by
  have hp := delimiters_plain i.isLibrary
  rw [target, ← List.nil_append (_ :: i.name), List.append_assoc, List.cons_append,
    Text.commentFree_append_cons (hp _ (by simp)).1,
    Text.commentFree_append_cons (hp _ (by simp)).1]
  exact ⟨Text.commentFree_nil, h.commentFree, Text.commentFree_nil⟩

theorem normalize_directive (h : i.WellFormed) : Text.normalize i.directive = i.directive := by
  apply Text.normalize_eq_self
  · rw [directive, Text.commentFree_append_cons (by decide)]
    refine ⟨?_, commentFree_target h⟩
    simp [includeKeyword_eq, Text.commentFree_cons, Text.commentFree_nil]
  · refine ⟨?_, ?_⟩
    · intro c hm
      rw [head?_directive] at hm
      cases hm
      rfl
    · intro c hm
      rw [getLast?_directive] at hm
      cases hm
      exact (delimiters_plain i.isLibrary _ (by simp)).2.2.2

theorem newline_not_mem_directive (h : i.WellFormed) : '\n' ∉ i.directive := by
  have hp := delimiters_plain i.isLibrary
  have ho : '\n' ≠ (delimiters i.isLibrary).1 := fun he => (hp _ (by simp)).2.1 he.symm
  have hc : '\n' ≠ (delimiters i.isLibrary).2 := fun he => (hp _ (by simp)).2.1 he.symm
  have hk : '\n' ∉ Settings.includeKeyword := by decide
  simp [directive, target, hk, ho, hc, h.newline_not_mem]

theorem getLast?_directive_ne (i : Include) : i.directive.getLast? ≠ some '\r' := by
  rw [getLast?_directive]
  intro h
  exact (delimiters_plain i.isLibrary _ (by simp)).2.2.1 (Option.some.inj h)

/-- The directive of a well-formed include gives it back. -/
theorem ofLine_directive (h : i.WellFormed) : ofLine i.directive = .ok (some i) := by
  have hkey : Settings.includeKeyword.isPrefixOf i.directive = true :=
    List.isPrefixOf_iff_prefix.2 (List.prefix_append _ _)
  have htrim : Text.trim (i.directive.drop Settings.includeKeyword.length) = i.target := by
    rw [directive, List.drop_left]
    exact (trimmed_target i).trim_eq
  rw [ofLine, if_pos hkey, htrim, ofTarget_target h]
  rfl

end SourceSurvey.Include
