import SourceSurvey.Proofs.Include.Directive
import SourceSurvey.Proofs.Outcome
import SourceSurvey.Proofs.Text.Words

/-!
# The grammar of directives

`Directs` says what follows the keyword in a directive: a target between two delimiters of one
kind, and anything after it. `IsNameOf` says which part of the target is the included name. A line
that begins with the keyword gives what the grammar says, and if the grammar has nothing to say of
it, it is malformed (`ofLine_grammar`).
-/

namespace SourceSurvey.Include

/-- The name is the target up to the first dot of its last component. -/
def IsNameOf (name target : Text) : Prop :=
  ∃ directories stem extension, target = directories ++ (stem ++ extension) ∧
    name = directories ++ stem ∧ (∀ c ∈ directories.getLast?, c = '/') ∧
    '/' ∉ stem ++ extension ∧ '.' ∉ stem ∧ ∀ c ∈ extension.head?, c = '.'

/-- The text is a target between delimiters and what comes after it, and the target has the name
that is included. -/
structure Directs (text target after : Text) (i : Include) : Prop where
  text_eq : text = (delimiters i.isLibrary).1 :: (target ++ (delimiters i.isLibrary).2 :: after)
  closing_not_mem : (delimiters i.isLibrary).2 ∉ target
  name : IsNameOf i.name target
  ne_nil : i.name ≠ []

variable {line rest text target after : Text} {i : Include}

/-! ## Names -/

theorem takeWhile_stem {stem extension : Text} (hs : '.' ∉ stem)
    (he : ∀ c ∈ extension.head?, c = '.') :
    (stem ++ extension).takeWhile (· ≠ '.') = stem := by
  have hstem : ∀ c ∈ stem, decide (c ≠ '.') = true := fun c hc =>
    decide_eq_true fun h => hs (h ▸ hc)
  have hextension : extension.takeWhile (· ≠ '.') = [] := by
    cases extension with
    | nil => rfl
    | cons c extension => simp [he c rfl]
  rw [List.takeWhile_append_of_pos hstem, hextension, List.append_nil]

theorem isNameOf_iff {name : Text} : IsNameOf name target ↔ withoutExtension target = name := by
  constructor
  · rintro ⟨directories, stem, extension, rfl, rfl, hd, hl, hs, he⟩
    rw [withoutExtension_append hd hl, takeWhile_stem hs he]
  · rintro rfl
    obtain ⟨directories, last, rfl, hd, hl⟩ := exists_lastComponent target
    have hlast : last.takeWhile (· ≠ '.') ++ last.dropWhile (· ≠ '.') = last :=
      List.takeWhile_append_dropWhile
    refine ⟨directories, last.takeWhile (· ≠ '.'), last.dropWhile (· ≠ '.'), by rw [hlast],
      withoutExtension_append hd hl, hd, by rwa [hlast], fun h => ?_, fun c hc => ?_⟩
    · simpa using List.mem_takeWhile_imp h
    · have hhead := List.head?_dropWhile_not (fun c => decide (c ≠ '.')) last
      rw [Option.mem_def.1 hc] at hhead
      simpa using hhead

/-- After the last slash of a name there is no dot. -/
theorem IsNameOf.slash_mem {name a b : Text} (h : IsNameOf name target)
    (hname : name = a ++ '.' :: b) : '/' ∈ b := by
  obtain ⟨directories, stem, extension, -, rfl, hd, -, hs, -⟩ := h
  rcases List.append_eq_append_iff.1 hname with ⟨c, rfl, hc⟩ | ⟨c, rfl, hc⟩
  · exact absurd (by rw [hc]; simp) hs
  · cases c with
    | nil => exact absurd (List.nil_append stem ▸ hc ▸ List.mem_cons_self) hs
    | cons e c =>
      obtain ⟨rfl, hb⟩ := List.cons.inj hc
      have hlast : (a ++ '.' :: c).getLast? = some '/' := by
        cases hl : (a ++ '.' :: c).getLast? with
        | none => simp at hl
        | some e => rw [hd e hl]
      rw [List.getLast?_append_cons] at hlast
      cases c with
      | nil => simp at hlast
      | cons e c =>
        rw [List.getLast?_cons_cons] at hlast
        rw [hb]
        exact List.mem_append_left _ (List.mem_of_getLast? hlast)

/-! ## Targets -/

theorem ofTarget_eq_ok_iff_directs :
    ofTarget line text = .ok i ↔ ∃ target after, Directs text target after i := by
  rw [ofTarget_eq_ok_iff]
  constructor
  · rintro ⟨target, after, htext, hnot, hname, hne⟩
    exact ⟨target, after, htext, hnot, isNameOf_iff.2 hname, hne⟩
  · rintro ⟨target, after, h⟩
    exact ⟨target, after, h.text_eq, h.closing_not_mem, isNameOf_iff.1 h.name, h.ne_nil⟩

theorem kind_of_ofTarget {d : Defect} (h : ofTarget line text = .error d) :
    d.kind = .malformedInclude := by
  cases text with
  | nil => exact Except.error.inj h ▸ rfl
  | cons opening rest =>
    rw [ofTarget] at h
    split at h
    · exact Except.error.inj h ▸ rfl
    · split at h
      · exact Except.error.inj h ▸ rfl
      · split at h
        · exact Except.error.inj h ▸ rfl
        · cases h

/-- The opening delimiter tells the closing one, and where that stands first the target ends. -/
theorem Directs.unique {target' after' : Text} {i' : Include} (h : Directs text target after i)
    (h' : Directs text target' after' i') : i' = i ∧ target' = target ∧ after' = after := by
  have htext := h'.text_eq.symm.trans h.text_eq
  have hlibrary : i'.isLibrary = i.isLibrary := by
    have hopening := (List.cons.inj htext).1
    revert hopening
    cases i.isLibrary <;> cases i'.isLibrary <;> decide
  have hclosing' := h'.closing_not_mem
  rw [hlibrary] at htext hclosing'
  obtain ⟨rfl, rfl⟩ :=
    (Text.append_cons_inj_of_not_mem hclosing' h.closing_not_mem).1 (List.cons.inj htext).2
  have hname : i'.name = i.name := (isNameOf_iff.1 h'.name).symm.trans (isNameOf_iff.1 h.name)
  obtain ⟨name, isLibrary⟩ := i
  obtain ⟨name', isLibrary'⟩ := i'
  obtain rfl : name' = name := hname
  obtain rfl : isLibrary' = isLibrary := hlibrary
  exact ⟨rfl, rfl, rfl⟩

/-! ## Lines -/

theorem ofLine_append (rest : Text) :
    ofLine (Settings.includeKeyword ++ rest) =
      (ofTarget (Settings.includeKeyword ++ rest) (Text.trim rest)).map some := by
  have hkey : Settings.includeKeyword.isPrefixOf (Settings.includeKeyword ++ rest) = true :=
    List.isPrefixOf_iff_prefix.2 (List.prefix_append _ _)
  rw [ofLine, if_pos hkey, List.drop_left]

theorem ofLine_eq_none_iff : ofLine line = .ok none ↔ ¬Settings.includeKeyword <+: line := by
  rw [ofLine, ← List.isPrefixOf_iff_prefix]
  split
  · next hk =>
    refine iff_of_false ?_ (not_not.2 hk)
    cases ofTarget line (Text.trim (line.drop Settings.includeKeyword.length)) <;>
      simp [Except.map]
  · next hk => exact iff_of_true rfl hk

theorem kind_of_ofLine {d : Defect} (h : ofLine line = .error d) : d.kind = .malformedInclude := by
  rw [ofLine] at h
  split at h
  · exact kind_of_ofTarget (map_eq_error_iff.1 h)
  · cases h

/-- A line without the keyword is no directive. What follows the keyword, without the white space
around it, is told by the grammar in one way at most, and if in none the line is malformed. -/
theorem ofLine_grammar (line : Text) :
    (ofLine line = .ok none ↔ ¬Settings.includeKeyword <+: line) ∧
    ∀ rest, line = Settings.includeKeyword ++ rest →
      ∃ text, Text.Trimmed text ∧
        (∃ before after, rest = before ++ text ++ after ∧ (∀ c ∈ before, Text.isBlank c = true) ∧
          ∀ c ∈ after, Text.isBlank c = true) ∧
        (∀ i, ofLine line = .ok (some i) ↔ ∃ target after, Directs text target after i) ∧
        ((∃ d, ofLine line = .error d ∧ d.kind = .malformedInclude) ↔
          ¬∃ i target after, Directs text target after i) ∧
        (∀ i target after, Directs text target after i →
          ∀ i' target' after', Directs text target' after' i' →
            i' = i ∧ target' = target ∧ after' = after) ∧
        ∀ i, ofLine line = .ok (some i) →
          (delimiters i.isLibrary).2 ∉ i.name ∧ ∀ a b, i.name = a ++ '.' :: b → '/' ∈ b := by
  refine ⟨ofLine_eq_none_iff, ?_⟩
  rintro rest rfl
  have hok (i : Include) : ofLine (Settings.includeKeyword ++ rest) = .ok (some i) ↔
      ∃ target after, Directs (Text.trim rest) target after i := by
    rw [ofLine_append, map_some_eq_ok_iff, ofTarget_eq_ok_iff_directs]
  refine ⟨Text.trim rest, Text.trimmed_trim rest, Text.exists_around_trim rest, hok, ?_,
    fun i target after h i' target' after' h' => h.unique h', fun i hi => ?_⟩
  · simp only [← hok]
    constructor
    · rintro ⟨d, hd, -⟩ ⟨i, hi⟩
      cases hd.symm.trans hi
    · intro hnone
      cases hline : ofLine (Settings.includeKeyword ++ rest) with
      | error d => exact ⟨d, rfl, kind_of_ofLine hline⟩
      | ok found =>
        cases found with
        | none => exact absurd (List.prefix_append _ _) (ofLine_eq_none_iff.1 hline)
        | some i => exact absurd ⟨i, hline⟩ hnone
  · obtain ⟨target, after, h⟩ := (hok i).1 hi
    have hstart : i.name <+: target := isNameOf_iff.1 h.name ▸ withoutExtension_isPrefix target
    exact ⟨fun hc => h.closing_not_mem (hstart.subset hc), fun a b hname => h.name.slash_mem hname⟩

/-- A delimiter of the other kind and a dot in a directory stay in the name. -/
example : ofLine "#include\u00a0\"../v1.2/a>b.tar.h\"c".toList =
    .ok (some ⟨"../v1.2/a>b".toList, false⟩) := by
  decide +kernel

end SourceSurvey.Include
