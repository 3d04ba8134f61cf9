import SourceSurvey.Proofs.DeclarationScan.Prototypes

/-!
# When a scan fails

A scan reads closed blocks one after the other and can only fail at the end of input, inside a block
that the lines left do not complete: a logical line whose parameter list is still open when all of
them are joined, or a body whose braces were never balanced. `Incomplete` tells the two apart and
says what is reported.

* `declarations_eq_error_iff`: a scan fails exactly in front of an incomplete block;
* `ofSource_eq_error_iff`: the errors of a source, with their label, their lines and their texts.
-/

namespace SourceSurvey

namespace DeclarationScan

/-! ## Blocks that are not completed -/

/-- The lines begin a logical line, which is still open when all of them are joined. -/
def OpenParameters (lines : List Text) : Prop :=
  (∃ line ∈ lines.head?, '(' ∈ Text.normalize line) ∧ ')' ∉ joined lines

instance : DecidablePred OpenParameters := fun lines =>
  inferInstanceAs (Decidable ((∃ line ∈ lines.head?, '(' ∈ Text.normalize line) ∧
    ')' ∉ joined lines))

/-- What the lines behind `before` others begin and do not complete. The count of the braces of a
body is taken over all of them, from the text behind the declaration on. -/
inductive Incomplete (before : Nat) : List Text → Defect → Prop where
  | parameters {lines : List Text} (h : OpenParameters lines) :
      Incomplete before lines (.openParameters (before + 1))
  | body {b : Block} {t : Text} (h : b.Unended t) (hb : ¬Body.Braceless (t ++ b.body.flatten)) :
      Incomplete before b.lines
        (.openBody (before + b.head.length) (Body.balance (t ++ b.body.flatten)))

theorem joined_isPrefix {part lines : List Text} (h : part <+: lines) :
    joined part <+: joined lines := by
  obtain ⟨rest, rfl⟩ := h
  induction rest using List.reverseRecOn with
  | nil => rw [List.append_nil]
  | append_singleton rest raw ih =>
    rw [← List.append_assoc]
    by_cases hp : part ++ rest = []
    · obtain ⟨rfl, rfl⟩ := List.append_eq_nil_iff.1 hp
      exact List.nil_prefix
    · rw [joined_append_singleton hp]
      exact ih.trans (List.prefix_append _ _)

/-- A logical line stays open as long as its first line opens a parenthesis and none of the lines
closes one. -/
theorem openParameters_iff {lines : List Text} :
    OpenParameters lines ↔ lines ≠ [] ∧ ∀ part, part <+: lines → ¬Closes part := by
  cases lines with
  | nil => simp [OpenParameters]
  | cons line rest =>
    have hfirst : [line] <+: line :: rest := ⟨rest, rfl⟩
    simp only [OpenParameters, List.head?_cons, Option.mem_some_iff, exists_eq_left', ne_eq,
      reduceCtorEq, not_false_eq_true, true_and]
    constructor
    · rintro ⟨ho, hc⟩ part hp ⟨hne, h | h⟩
      · apply h
        have hpart : [line] <+: part := by
          cases part with
          | nil => exact absurd rfl hne
          | cons first more =>
            obtain ⟨rfl, -⟩ := List.cons_prefix_cons.1 hp
            exact ⟨more, rfl⟩
        exact (joined_isPrefix hpart).subset (by rwa [joined_singleton])
      · exact hc ((joined_isPrefix hp).subset h)
    · intro h
      have hone := h [line] hfirst
      have hall := h (line :: rest) (List.prefix_refl _)
      simp only [Closes, joined_singleton, ne_eq, reduceCtorEq, not_false_eq_true, true_and,
        not_or, not_not] at hone hall
      exact ⟨hone.1, hall.2⟩

/-! ## The defect of a scan -/

/-- A scan fails exactly when the lines behind some closed blocks are incomplete. -/
theorem declarations_eq_error_iff {lines : List Text} {d : Defect} :
    declarations lines = .error d ↔
      ∃ blocks rest, (∀ b ∈ blocks, b.Closed) ∧ linesOf blocks ++ rest = lines ∧
        Incomplete (linesOf blocks).length rest d := by
  constructor
  · intro h
    obtain ⟨blocks, rest, hbs, rfl, ht⟩ := exists_split lines
    refine ⟨blocks, rest, hbs, rfl, ?_⟩
    cases ht with
    | nothing =>
      rw [List.append_nil, declarations_closed hbs] at h
      cases h
    | head hne ht =>
      rw [declarations_head hbs hne ht] at h
      cases h
      exact .parameters (openParameters_iff.2 ⟨hne, ht⟩)
    | @body b t hb =>
      rw [declarations_body hbs hb] at h
      split at h
      · cases h
      · next hz =>
        cases h
        exact .body hb (mt hb.braceless_iff.1 hz)
  · rintro ⟨blocks, rest, hbs, rfl, hi⟩
    cases hi with
    | parameters ho =>
      obtain ⟨hne, ht⟩ := openParameters_iff.1 ho
      exact declarations_head hbs hne ht
    | @body b t hb hn =>
      rw [declarations_body hbs hb, if_neg (mt hb.braceless_iff.2 hn)]

end DeclarationScan

namespace Method

open DeclarationScan

theorem ofLines_eq_error_iff {className label : Text} {lines : List Text} {e : ScanError} :
    ofLines className label lines = .error e ↔
      e.label = some label ∧ e.line = some lines.length ∧ declarations lines = .error e.defect := by
  obtain ⟨defect, at?, line?⟩ := e
  unfold ofLines
  cases declarations lines with
  | error d =>
    simp only [Except.error.injEq, ScanError.mk.injEq]
    constructor
    · rintro ⟨rfl, rfl, rfl⟩
      exact ⟨rfl, rfl, rfl⟩
    · rintro ⟨rfl, rfl, rfl⟩
      exact ⟨rfl, rfl, rfl⟩
  | ok found => simp

/-- A source fails exactly when it is scanned and its lines end in a block that they do not
complete. All its lines have been read then, whichever the defect is. -/
theorem ofSource_eq_error_iff (className : Text) (path : Option Text) (source : Text)
    (e : ScanError) :
    ofSource className (labelOf className path) source = .error e ↔
      source ≠ [] ∧ Text.firstLine? source ≠ some Settings.fixtureMarker ∧
        e.label = some (labelOf className path) ∧ e.line = some (Text.lines source).length ∧
        ∃ blocks rest, (∀ b ∈ blocks, b.Closed) ∧ linesOf blocks ++ rest = Text.lines source ∧
          ((OpenParameters rest ∧
              e.defect = .openParameters ((linesOf blocks).length + 1) ∧
              e.defect.message = "parameter list opened on line ".toList ++
                Text.ofNat ((linesOf blocks).length + 1) ++ " is never closed".toList) ∨
            ∃ (b : Block) (t : Text) (depth : Int), rest = b.lines ∧ b.Unended t ∧
              ¬Body.Braceless (t ++ b.body.flatten) ∧
              depth = Body.balance (t ++ b.body.flatten) ∧ depth ≠ 0 ∧
              e.defect = .openBody ((linesOf blocks).length + b.head.length) depth ∧
              e.defect.message = "body opened after line ".toList ++
                Text.ofNat ((linesOf blocks).length + b.head.length) ++
                " is never closed (depth ".toList ++ Text.ofInt depth ++
                " at end of input)".toList) := by
  by_cases h : source = [] ∨ Text.firstLine? source = some Settings.fixtureMarker
  · rw [ofSource_eq_none className _ h]
    simp only [reduceCtorEq, false_iff]
    rintro ⟨hb, hm, -⟩
    exact h.elim hb hm
  · rw [not_or] at h
    rw [ofSource_eq_ofLines className _ h.1 h.2, map_eq_error_iff, ofLines_eq_error_iff,
      declarations_eq_error_iff]
    constructor
    · rintro ⟨hl, hn, blocks, rest, hbs, hlines, hi⟩
      refine ⟨h.1, h.2, hl, hn, blocks, rest, hbs, hlines, ?_⟩
      generalize hd : e.defect = d at hi
      cases hi with
      | parameters ho => exact .inl ⟨ho, rfl, rfl⟩
      | @body b t hb hnb =>
        refine .inr ⟨b, t, _, rfl, hb, hnb, rfl, ?_, rfl, rfl⟩
        exact mt hb.braceless_iff.2 hnb
    · rintro ⟨-, -, hl, hn, blocks, rest, hbs, hlines, hi⟩
      refine ⟨hl, hn, blocks, rest, hbs, hlines, ?_⟩
      rcases hi with ⟨ho, hd, -⟩ | ⟨b, t, depth, rfl, hb, hnb, rfl, -, hd, -⟩
      · rw [hd]
        exact .parameters ho
      · rw [hd]
        exact .body hb hnb

/-- The braces of a body are counted from the second line of its declaration on. -/
example :
    ofSource "Counter".toList (labelOf "Counter".toList (some []))
        "bool empty();\nint sum(int a,\n  int b) \x7b\n  if (a) \x7b \x7d".toList =
      .error ⟨.openBody 3 1, some [], some 4⟩ := by
  decide +kernel

end Method

end SourceSurvey
