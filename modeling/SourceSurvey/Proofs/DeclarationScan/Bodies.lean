import SourceSurvey.Proofs.DeclarationScan.Concatenation

/-!
# What stands in a body is not scanned

A definition is a closed block that declares a method and awaits a body. Whatever the lines of the
body are, the scan leaves the block with this one method, and no later line is read otherwise than
without the block. So a source with one body in place of another has the same outcome
(`ofSource_bodies`).
-/

namespace SourceSurvey

open DeclarationScan

/-! ## Definitions -/

/-- The head declares a method with a body, and the body ends on the last line, or behind the
declaration when it has no lines. -/
structure DeclarationScan.Block.Defines (b : Block) (d : Declaration) : Prop where
  head : Shortest Closes b.head
  declares : b.declaration? = some d
  hasBody : d.hasBody = true
  body : Shortest (fun run => Body.Ends 0 (d.trailing ++ run.flatten)) b.body

theorem DeclarationScan.Block.Defines.closed {b : Block} {d : Declaration} (h : b.Defines d) :
    b.Closed := by
  have ha : b.awaited? = some d.trailing := by
    rw [Block.awaited?, h.declares, Option.filter_some_pos h.hasBody, Option.map_some]
  refine ⟨h.head, ?_⟩
  rw [ha]
  exact h.body

theorem Defect.kind_after (n : Nat) (d : Defect) : (d.after n).kind = d.kind := by
  cases d <;> rfl

namespace Method

variable {className label : Text} {P D B Q : List Text} {d : Declaration}

theorem ofLines_linesOf_append {blocks : List Block} (h : ∀ b ∈ blocks, b.Closed)
    (lines : List Text) :
    ofLines className label (linesOf blocks ++ lines) =
      match ofLines className label lines with
      | .ok more => .ok ((declarationsOf blocks).map (ofDeclaration className) ++ more)
      | .error e => .error (e.after (linesOf blocks).length) := by
  unfold ofLines
  rw [declarations_append h]
  cases declarations lines with
  | ok found => simp
  | error defect => simp [ScanError.after]

/-- The lines after a definition are scanned as if they stood alone. -/
theorem ofLines_definition (className label : Text)
    (hP : ∃ blocks, linesOf blocks = P ∧ WellCut blocks ∧ ∀ b ∈ blocks, b.BodyEnded)
    (h : (⟨D, B⟩ : Block).Defines d) (Q : List Text) :
    ∃ before, ofLines className label P = .ok before ∧
      ofLines className label (P ++ D ++ B ++ Q) =
        match ofLines className label Q with
        | .ok after => .ok (before ++ ofDeclaration className d :: after)
        | .error e => .error (e.after (P ++ D ++ B).length) := by
  obtain ⟨blocks, rfl, hw, he⟩ := hP
  have hc := closed_of_bodyEnded hw he
  have hall : ∀ b ∈ blocks ++ [⟨D, B⟩], b.Closed := by
    intro b hb
    rcases List.mem_append.1 hb with hb | hb
    · exact hc b hb
    · rw [List.mem_singleton.1 hb]
      exact h.closed
  refine ⟨_, ofLines_eq_ok_iff.2 ⟨_, declarations_closed hc, rfl⟩, ?_⟩
  have hl : linesOf blocks ++ D ++ B = linesOf (blocks ++ [⟨D, B⟩]) := by
    simp [linesOf_append]
  have hd : declarationsOf (blocks ++ [⟨D, B⟩]) = declarationsOf blocks ++ [d] := by
    rw [declarationsOf_append, declarationsOf_cons, h.declares]
    rfl
  rw [hl, ofLines_linesOf_append hall, hd]
  cases ofLines className label Q with
  | ok after => simp
  | error e => rfl

/-- What stands in the body of a definition does not change the outcome. A scan that succeeds finds
what it finds before the definition, the method defined, and what it finds after. -/
theorem ofSource_bodies (className label : Text) {source₁ source₂ : Text} {B₁ B₂ : List Text}
    (hP : ∃ blocks, linesOf blocks = P ∧ WellCut blocks ∧ ∀ b ∈ blocks, b.BodyEnded)
    (h₁ : (⟨D, B₁⟩ : Block).Defines d) (h₂ : (⟨D, B₂⟩ : Block).Defines d)
    (hs₁ : Text.lines source₁ = P ++ D ++ B₁ ++ Q) (hs₂ : Text.lines source₂ = P ++ D ++ B₂ ++ Q) :
    SameOutcome (ofSource className label source₁) (ofSource className label source₂) ∧
      ∀ ms, ofSource className label source₁ = .ok (some ms) →
        ∃ before after, ofLines className label P = .ok before ∧
          ofLines className label Q = .ok after ∧
          ms = before ++ ofDeclaration className d :: after := by
  -- the first line stands before the bodies, so both sources are generated or neither is
  obtain ⟨line, rest, hline⟩ := List.exists_cons_of_ne_nil
    (List.append_ne_nil_of_right_ne_nil P (head_ne_nil h₁.head))
  have hcons (B : List Text) : P ++ D ++ B ++ Q = line :: (rest ++ B ++ Q) := by simp [hline]
  rw [ofSource_of_lines className label (hs₁.trans (hcons B₁)),
    ofSource_of_lines className label (hs₂.trans (hcons B₂))]
  by_cases hm : line = Settings.fixtureMarker
  · rw [if_pos hm, if_pos hm]
    exact ⟨rfl, fun ms h => by cases h⟩
  · obtain ⟨before, hbefore, hl₁⟩ := ofLines_definition className label hP h₁ Q
    obtain ⟨other, hother, hl₂⟩ := ofLines_definition className label hP h₂ Q
    obtain rfl : before = other := Except.ok.inj (hbefore.symm.trans hother)
    rw [if_neg hm, if_neg hm, ← hcons B₁, ← hcons B₂, hl₁, hl₂]
    cases ofLines className label Q with
    | ok after =>
      refine ⟨rfl, ?_⟩
      intro ms h
      cases h
      exact ⟨before, after, hbefore, rfl, rfl⟩
    | error e =>
      refine ⟨?_, fun ms h => by cases h⟩
      show (e.defect.after _).kind = (e.defect.after _).kind
      rw [Defect.kind_after, Defect.kind_after]

/-- Prototypes, open parentheses, blocks and text after the closing brace make no difference. -/
theorem ofSource_bodies_nested :
    let P : List Text := ["void reset() \x7b count = 0; \x7d".toList]
    let D : List Text := ["int sum(int a, // left".toList, "  int b) \x7b".toList]
    let B : List Text := ["  int inner(int x);".toList, "#if 0".toList,
      "  if (f(a \x7b // \x7d \x7b".toList, "  \x7d".toList, "\x7d int lost(int y);".toList]
    let Q : List Text := ["bool empty();".toList]
    let source (body : List Text) : Text := Text.ofLines (P ++ D ++ body ++ Q)
    ofSource "Counter".toList "Counter.h".toList (source ["\x7d".toList]) = .ok (some [
        ⟨"Counter".toList, "void".toList, "reset".toList, [], true, none⟩,
        ⟨"Counter".toList, "int".toList, "sum".toList, ["int".toList, "int".toList], true, none⟩,
        ⟨"Counter".toList, "bool".toList, "empty".toList, [], true, none⟩]) ∧
      SameOutcome (ofSource "Counter".toList "Counter.h".toList (source B))
        (ofSource "Counter".toList "Counter.h".toList (source ["\x7d".toList])) := by
  intro P D B Q source
  let d : Declaration :=
    ⟨"int".toList, "sum".toList, ["int".toList, "int".toList], " \x7b".toList⟩
  have hP : ∃ blocks, linesOf blocks = P ∧ WellCut blocks ∧ ∀ b ∈ blocks, b.BodyEnded :=
    ⟨[⟨P, []⟩], by decide +kernel⟩
  have h₁ : (⟨D, B⟩ : Block).Defines d :=
    ⟨by decide +kernel, by decide +kernel, by decide +kernel, by decide +kernel⟩
  have h₂ : (⟨D, ["\x7d".toList]⟩ : Block).Defines d :=
    ⟨by decide +kernel, by decide +kernel, by decide +kernel, by decide +kernel⟩
  have hs₁ : Text.lines (source B) = P ++ D ++ B ++ Q := Text.lines_ofLines (by decide +kernel)
  have hs₂ : Text.lines (source ["\x7d".toList]) = P ++ D ++ ["\x7d".toList] ++ Q :=
    Text.lines_ofLines (by decide +kernel)
  refine ⟨by decide +kernel, ?_⟩
  exact (ofSource_bodies "Counter".toList "Counter.h".toList hP h₁ h₂ hs₁ hs₂).1

end Method

end SourceSurvey
