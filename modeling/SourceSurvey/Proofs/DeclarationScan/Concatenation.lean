import SourceSurvey.Proofs.DeclarationScan.Extraction

/-!
# Scanning lines after other lines

Nothing but the line number and the declarations found crosses from one closed block to the next.
So after lines whose bodies have all ended, further lines are scanned as if they stood alone, and a
defect in them is met that many lines later. Whatever follows, what was found stays found.
-/

namespace SourceSurvey

/-- The defect in lines that come after `n` others. -/
def Defect.after (n : Nat) : Defect → Defect
  | .openParameters start => .openParameters (n + start)
  | .openBody start depth => .openBody (n + start) depth
  | d => d

def ScanError.after (n : Nat) (e : ScanError) : ScanError :=
  ⟨e.defect.after n, e.label, e.line.map (n + ·)⟩

namespace DeclarationScan

def Mode.after (n : Nat) : Mode → Mode
  | .ready => .ready
  | .joining start text => .joining (n + start) text
  | .skipping start depth => .skipping (n + start) depth

/-- The state of a scan that came to its first line after `n` others, having found `before`. -/
def State.after (n : Nat) (before : List Declaration) (s : State) : State :=
  ⟨n + s.line, s.mode.after n, before ++ s.found⟩

variable (n : Nat) (before : List Declaration)

theorem skip_after (start : Nat) (depth : Int) (text : Text) :
    skip (n + start) depth text = (skip start depth text).after n := by
  unfold skip
  cases Body.count depth text <;> rfl

theorem join_after (line start : Nat) (text : Text) (found : List Declaration) :
    join (n + line) (n + start) text (before ++ found) =
      (join line start text found).after n before := by
  unfold join
  split
  · rfl
  · cases Declaration.ofLine? text with
    | none => rfl
    | some d => cases hd : d.hasBody <;> simp [State.after, Mode.after, hd, skip_after]

/-- One line moves a later scan as it moves the scan that stands alone. -/
theorem feed_after (s : State) (raw : Text) :
    feed (s.after n before) raw = (feed s raw).after n before := by
  obtain ⟨line, mode, found⟩ := s
  cases mode with
  | ready => exact join_after n before (line + 1) (line + 1) _ found
  | joining start text => exact join_after n before (line + 1) start _ found
  | skipping start depth =>
    simp only [feed, State.after, Mode.after, skip_after]
    rfl

theorem foldl_feed_after (lines : List Text) (s : State) :
    lines.foldl feed (s.after n before) = (lines.foldl feed s).after n before := by
  induction lines generalizing s with
  | nil => rfl
  | cons line lines ih => rw [List.foldl_cons, feed_after, ih, List.foldl_cons]

theorem finish_after (s : State) :
    (s.after n before).finish =
      match s.finish with
      | .ok found => .ok (before ++ found)
      | .error d => .error (d.after n) := by
  obtain ⟨line, mode, found⟩ := s
  cases mode with
  | ready => rfl
  | joining start text => rfl
  | skipping start depth =>
    by_cases h : depth = 0 <;> simp [State.after, Mode.after, State.finish, Mode.defect?, h,
      Defect.after]

theorem declarations_append {bs : List Block} (h : ∀ b ∈ bs, b.Closed) (lines : List Text) :
    declarations (linesOf bs ++ lines) =
      match declarations lines with
      | .ok found => .ok (declarationsOf bs ++ found)
      | .error d => .error (d.after (linesOf bs).length) := by
  have hs : (⟨(linesOf bs).length, .ready, declarationsOf bs⟩ : State) =
      initial.after (linesOf bs).length (declarationsOf bs) := by
    simp [State.after, initial, Mode.after]
  rw [declarations, run_linesOf_append h, hs, foldl_feed_after, finish_after]
  rfl

/-! ## What was found stays found -/

theorem found_prefix_feed (s : State) (raw : Text) : s.found <+: (feed s raw).found := by
  have hjoin (line start : Nat) (text : Text) :
      s.found <+: (join line start text s.found).found := by
    unfold join
    split
    · exact List.prefix_refl _
    · cases Declaration.ofLine? text with
      | none => exact List.prefix_refl _
      | some d => exact List.prefix_append _ _
  unfold feed
  cases s.mode with
  | ready => exact hjoin _ _ _
  | joining start text => exact hjoin _ _ _
  | skipping start depth => exact List.prefix_refl _

theorem found_prefix_foldl_feed (lines : List Text) (s : State) :
    s.found <+: (lines.foldl feed s).found := by
  induction lines generalizing s with
  | nil => exact List.prefix_refl _
  | cons line lines ih => exact (found_prefix_feed s line).trans (ih (feed s line))

theorem found_of_declarations {lines : List Text} {found : List Declaration}
    (h : declarations lines = .ok found) : (run lines).found = found := by
  unfold declarations State.finish at h
  cases hd : (run lines).mode.defect? with
  | none => simpa [hd] using h
  | some d => simp [hd] at h

theorem found_prefix_of_append {S T : List Text} {found more : List Declaration}
    (hS : declarations S = .ok found) (hST : declarations (S ++ T) = .ok more) :
    found <+: more := by
  rw [← found_of_declarations hS, ← found_of_declarations hST]
  unfold run
  rw [List.foldl_append]
  exact found_prefix_foldl_feed T _

/-! ## Bodies that have ended -/

/-- A body that was awaited was ended by a brace. -/
def Block.BodyEnded (b : Block) : Prop :=
  ∀ t ∈ b.awaited?, Body.Ends 0 (t ++ b.body.flatten)

instance : DecidablePred Block.BodyEnded := fun b =>
  inferInstanceAs (Decidable (∀ t ∈ b.awaited?, Body.Ends 0 (t ++ b.body.flatten)))

theorem closed_of_bodyEnded {bs : List Block} (hw : WellCut bs) (h : ∀ b ∈ bs, b.BodyEnded) :
    ∀ b ∈ bs, b.Closed := by
  rcases wellCut_cases hw with hc | ⟨init, b, t, rfl, -, hb, hn⟩
  · exact hc
  · exact absurd (h b (by simp) t hb.2.1) hn.not_ends

end DeclarationScan

namespace Method

open DeclarationScan

theorem ofLines_append {className label : Text} {S : List Text} {ms : List Method}
    (hS : ofLines className label S = .ok ms) (T : List Text) :
    ((∃ blocks, linesOf blocks = S ∧ WellCut blocks ∧ ∀ b ∈ blocks, b.BodyEnded) →
      ofLines className label (S ++ T) =
        match ofLines className label T with
        | .ok more => .ok (ms ++ more)
        | .error e => .error (e.after S.length)) ∧
    (∀ all, ofLines className label (S ++ T) = .ok all → ms <+: all) ∧
    ∀ source, S ≠ [] → S.head? ≠ some Settings.fixtureMarker → Text.lines source = S ++ T →
      ofSource className label source = (ofLines className label (S ++ T)).map some := by
  obtain ⟨found, hfound, rfl⟩ := ofLines_eq_ok_iff.1 hS
  refine ⟨?_, ?_, ?_⟩
  · rintro ⟨blocks, rfl, hw, he⟩
    have hc := closed_of_bodyEnded hw he
    have hd := declarations_append hc T
    have hf : found = declarationsOf blocks := by
      rw [declarations_closed hc] at hfound
      exact (Except.ok.inj hfound).symm
    unfold ofLines
    rw [hd]
    cases declarations T with
    | ok more => simp [hf]
    | error d => simp [ScanError.after, List.length_append]
  · intro all hall
    obtain ⟨more, hmore, rfl⟩ := ofLines_eq_ok_iff.1 hall
    exact (found_prefix_of_append hfound hmore).map _
  · intro source hne hm hl
    have hb : source ≠ [] := by
      intro h
      rw [← Text.lines_eq_nil_iff, hl] at h
      exact hne (List.append_eq_nil_iff.1 h).1
    rw [ofSource_eq_ofLines className label hb, hl]
    obtain ⟨line, rest, rfl⟩ := List.exists_cons_of_ne_nil hne
    simpa [Text.firstLine?, hl] using hm

/-- A parameter list that is left open after a definition of two lines was opened on line three. -/
theorem ofLines_append_openParameters :
    let S := ["void reset() \x7b".toList, "count = 0; \x7d".toList]
    let T := ["int sum(".toList]
    ofLines "Counter".toList "Counter.h".toList S =
        .ok [⟨"Counter".toList, "void".toList, "reset".toList, [], true, none⟩] ∧
      ofLines "Counter".toList "Counter.h".toList T =
        .error ⟨.openParameters 1, some "Counter.h".toList, some 1⟩ ∧
      ofLines "Counter".toList "Counter.h".toList (S ++ T) =
        .error ⟨.openParameters 3, some "Counter.h".toList, some 3⟩ := by
  intro S T
  have hS : ofLines "Counter".toList "Counter.h".toList S =
      .ok [⟨"Counter".toList, "void".toList, "reset".toList, [], true, none⟩] := by decide
  have hT : ofLines "Counter".toList "Counter.h".toList T =
      .error ⟨.openParameters 1, some "Counter.h".toList, some 1⟩ := by decide
  have hended : ∃ blocks, linesOf blocks = S ∧ WellCut blocks ∧ ∀ b ∈ blocks, b.BodyEnded :=
    ⟨[⟨["void reset() \x7b".toList], ["count = 0; \x7d".toList]⟩], by decide⟩
  refine ⟨hS, hT, ?_⟩
  rw [(ofLines_append hS T).1 hended, hT]
  rfl

end Method

end SourceSurvey
