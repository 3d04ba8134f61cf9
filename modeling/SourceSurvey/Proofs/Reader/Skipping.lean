import Mathlib.Data.List.Induction
import Mathlib.Data.Nat.Find
import SourceSurvey.DeclarationScan
import SourceSurvey.Proofs.BraceCount
import SourceSurvey.Reader

/-!
# Where a skipped body ends

A skip counts the braces of the fragment and of the lines that remain like those of one text. It
stops behind the line of the first brace that brings the count to zero. If there is no such brace
it reads all lines, and the count that is left is zero only where no brace was seen at all
(`perform_skipBody_outcome`). A scan for declarations skips the same lines and misses the same
braces (`skipsLike_skipBody`).
-/

namespace SourceSurvey

namespace Body

variable {s t u : Text} {c : Char}

/-- The brace behind `s` is the first of the text that brings the count to zero. -/
structure FirstEnd (t s : Text) (c : Char) : Prop where
  isPrefix : s ++ [c] <+: t
  isBrace : c = '{' ∨ c = '}'
  balance_eq : balance (s ++ [c]) = 0
  notBefore : ¬Ends 0 s

theorem exists_firstEnd (h : Ends 0 t) : ∃ s c, FirstEnd t s c := by
  induction t using List.reverseRecOn with
  | nil => exact absurd h (not_ends_nil 0)
  | append_singleton t d ih =>
    by_cases ht : Ends 0 t
    · obtain ⟨s, c, hs⟩ := ih ht
      exact ⟨s, c, hs.isPrefix.trans (List.prefix_append t [d]), hs.isBrace, hs.balance_eq,
        hs.notBefore⟩
    · -- the last brace is the one that ends it
      obtain ⟨s, c, hp, hc, hz⟩ := h
      rcases List.prefix_concat_iff.1 hp with he | hp
      · obtain ⟨rfl, hcd⟩ := List.append_inj' he rfl
        exact ⟨s, c, hp, hc, by simpa using hz, ht⟩
      · exact absurd ⟨s, c, hp, hc, hz⟩ ht

/-- A part in front has ended exactly when it holds the first ending brace. -/
theorem FirstEnd.ends_iff (h : FirstEnd t s c) (hu : u <+: t) :
    Ends 0 u ↔ s.length < u.length := by
  constructor
  · intro he
    by_contra hlt
    have hus : u <+: s :=
      List.prefix_of_prefix_length_le hu ((List.prefix_append s [c]).trans h.isPrefix) (by omega)
    obtain ⟨v, rfl⟩ := hus
    exact h.notBefore (he.append v)
  · intro hlt
    have hsu : s ++ [c] <+: u :=
      List.prefix_of_prefix_length_le h.isPrefix hu (by rw [List.length_append]; exact hlt)
    refine ⟨s, c, hsu, h.isBrace, ?_⟩
    rw [h.balance_eq, Int.zero_add]

end Body

namespace Reader

variable {depth : Int} {lines : List Text}

/-! ## Lines -/

theorem skipLines_of_ends {k : Nat} (hk : Body.Ends depth (lines.take k).flatten)
    (h : ∀ j < k, ¬Body.Ends depth (lines.take j).flatten) (number : Nat) :
    skipLines depth number lines = (0, ⟨number + k, lines.drop k⟩) := by
  induction lines generalizing depth number k with
  | nil =>
    rw [List.take_nil] at hk
    exact absurd hk (Body.not_ends_nil depth)
  | cons line lines ih =>
    cases k with
    | zero => exact absurd hk (Body.not_ends_nil depth)
    | succ k =>
      rw [skipLines]
      rw [List.take_succ_cons, List.flatten_cons] at hk
      by_cases hline : Body.Ends depth line
      · have hzero : k = 0 := by
          by_contra hne
          apply h 1 (by omega)
          simpa using hline
        subst hzero
        rw [Body.count_eq_none_iff.2 hline]
        rfl
      · rw [Body.count_eq_some_of_not_ends hline]
        have hbefore : ∀ j < k, ¬Body.Ends (depth + Body.balance line) (lines.take j).flatten := by
          intro j hj he
          apply h (j + 1) (by omega)
          rw [List.take_succ_cons, List.flatten_cons, Body.ends_append_iff hline]
          exact he
        have hrest := ih ((Body.ends_append_iff hline).1 hk) hbefore (number + 1)
        simp only [hrest, List.drop_succ_cons, Nat.add_right_comm, Nat.add_assoc]

theorem skipLines_of_not_ends (h : ¬Body.Ends depth lines.flatten) (number : Nat) :
    skipLines depth number lines =
      (depth + Body.balance lines.flatten, ⟨number + lines.length, []⟩) := by
  induction lines generalizing depth number with
  | nil => simp [skipLines]
  | cons line lines ih =>
    rw [List.flatten_cons] at h ⊢
    have hline : ¬Body.Ends depth line := fun he => h (he.append _)
    have hrest := ih (mt (Body.ends_append_iff hline).2 h) (number + 1)
    rw [skipLines, Body.count_eq_some_of_not_ends hline]
    simp only [hrest, Body.balance_append, List.length_cons, Int.add_assoc, Nat.add_right_comm,
      Nat.add_assoc]

/-! ## Bodies -/

/-- What a skip has counted after `k` lines. -/
def counted (r : Reader) (fragment : Text) (k : Nat) : Text :=
  fragment ++ (r.remaining.take k).flatten

/-- The first brace that brings the count to zero stands in the fragment, where `k` is zero, or in
the `k`-th of the lines that remain. -/
def ClosesIn (r : Reader) (fragment : Text) (k : Nat) : Prop :=
  ∃ s c, Body.FirstEnd (fragment ++ r.remaining.flatten) s c ∧
    s.length < (r.counted fragment k).length ∧ ∀ j < k, (r.counted fragment j).length ≤ s.length

variable {r : Reader} {fragment : Text} {k : Nat}

theorem counted_isPrefix (r : Reader) (fragment : Text) (k : Nat) :
    r.counted fragment k <+: fragment ++ r.remaining.flatten := by
  rw [counted, List.prefix_append_right_inj]
  refine ⟨(r.remaining.drop k).flatten, ?_⟩
  rw [← List.flatten_append, List.take_append_drop]

theorem closesIn_iff :
    r.ClosesIn fragment k ↔
      Body.Ends 0 (r.counted fragment k) ∧ ∀ j < k, ¬Body.Ends 0 (r.counted fragment j) := by
  constructor
  · rintro ⟨s, c, hs, hk, hj⟩
    refine ⟨(hs.ends_iff (counted_isPrefix r fragment k)).2 hk, fun j hlt he => ?_⟩
    have hin := (hs.ends_iff (counted_isPrefix r fragment j)).1 he
    have hout := hj j hlt
    omega
  · rintro ⟨hk, hj⟩
    obtain ⟨more, hmore⟩ := counted_isPrefix r fragment k
    obtain ⟨s, c, hs⟩ := Body.exists_firstEnd (hmore ▸ hk.append more)
    refine ⟨s, c, hs, (hs.ends_iff (counted_isPrefix r fragment k)).1 hk, fun j hlt => ?_⟩
    exact Nat.not_lt.1 (mt (hs.ends_iff (counted_isPrefix r fragment j)).2 (hj j hlt))

theorem exists_closesIn (h : Body.Ends 0 (fragment ++ r.remaining.flatten)) :
    ∃ k, r.ClosesIn fragment k := by
  have hall : ∃ k, Body.Ends 0 (r.counted fragment k) :=
    ⟨r.remaining.length, by rwa [counted, List.take_length]⟩
  exact ⟨Nat.find hall, closesIn_iff.2 ⟨Nat.find_spec hall, fun j hj => Nat.find_min hall hj⟩⟩

theorem ClosesIn.ends (h : r.ClosesIn fragment k) :
    Body.Ends 0 (fragment ++ r.remaining.flatten) := by
  obtain ⟨more, hmore⟩ := counted_isPrefix r fragment k
  exact hmore ▸ (closesIn_iff.1 h).1.append more

theorem ClosesIn.le_length (h : r.ClosesIn fragment k) : k ≤ r.remaining.length := by
  by_contra hlt
  apply (closesIn_iff.1 h).2 r.remaining.length (by omega)
  rw [counted, List.take_length]
  exact h.ends

theorem skipBody_of_closesIn (h : r.ClosesIn fragment k) :
    r.skipBody fragment = (0, ⟨r.number + k, r.remaining.drop k⟩) := by
  obtain ⟨hk, hj⟩ := closesIn_iff.1 h
  rw [skipBody]
  cases k with
  | zero =>
    have hfragment : Body.Ends 0 fragment := by simpa [counted] using hk
    rw [Body.count_eq_none_iff.2 hfragment]
    rfl
  | succ k =>
    have hfragment : ¬Body.Ends 0 fragment := by simpa [counted] using hj 0 (by omega)
    rw [Body.count_eq_some_of_not_ends hfragment]
    refine skipLines_of_ends ((Body.ends_append_iff hfragment).1 hk) ?_ r.number
    intro j hlt he
    exact hj j hlt ((Body.ends_append_iff hfragment).2 he)

theorem skipBody_of_not_ends (h : ¬Body.Ends 0 (fragment ++ r.remaining.flatten)) :
    r.skipBody fragment = (Body.balance (fragment ++ r.remaining.flatten),
      ⟨r.number + r.remaining.length, []⟩) := by
  have hfragment : ¬Body.Ends 0 fragment := fun he => h (he.append _)
  have hlines := skipLines_of_not_ends (mt (Body.ends_append_iff hfragment).2 h) r.number
  rw [Int.zero_add, ← Body.balance_append] at hlines
  rw [skipBody, Body.count_eq_some_of_not_ends hfragment, Int.zero_add]
  exact hlines

/-- A skip stops behind the first brace that brings the count to zero. Without one it reads all
lines, and fails unless there is no brace at all. -/
theorem perform_skipBody_outcome (r : Reader) (fragment : Text) (label : Option Text) :
    let whole := fragment ++ r.remaining.flatten
    let atEnd : Reader := ⟨r.number + r.remaining.length, []⟩
    (∀ k, r.ClosesIn fragment k → k ≤ r.remaining.length ∧
      r.perform (.skipBody fragment label) =
        (.number (r.number + k), ⟨r.number + k, r.remaining.drop k⟩)) ∧
    (Body.Braceless whole → (¬∃ k, r.ClosesIn fragment k) ∧
      r.perform (.skipBody fragment label) = (.number atEnd.number, atEnd)) ∧
    ((¬∃ k, r.ClosesIn fragment k) → ¬Body.Braceless whole →
      Body.balance whole ≠ 0 ∧ ∃ e,
        r.perform (.skipBody fragment label) = (.failure e, atEnd) ∧
        e.label = label ∧ e.line = some atEnd.number ∧
        e.defect = .openBody r.number (Body.balance whole) ∧
        e.defect.message = "body opened after line ".toList ++ Text.ofNat r.number ++
          " is never closed (depth ".toList ++ Text.ofInt (Body.balance whole) ++
          " at end of input)".toList) := by
  intro whole atEnd
  refine ⟨fun k hk => ⟨hk.le_length, ?_⟩, fun hn => ⟨?_, ?_⟩, fun hk hn => ?_⟩
  · rw [perform, skipBody_of_closesIn hk]
    rfl
  · rintro ⟨k, hk⟩
    exact hn.not_ends hk.ends
  · rw [perform, skipBody_of_not_ends hn.not_ends]
    exact if_pos hn.balance
  · have hends : ¬Body.Ends 0 whole := mt exists_closesIn hk
    have hdepth : Body.balance whole ≠ 0 := fun hz => hn (Body.braceless_iff.2 ⟨hends, hz⟩)
    refine ⟨hdepth, ⟨.openBody r.number (Body.balance whole), label, some atEnd.number⟩, ?_,
      rfl, rfl, rfl, rfl⟩
    rw [perform, skipBody_of_not_ends hends]
    exact if_neg hdepth

/-- The count goes below zero and comes back in the second line. Behind it a closing brace is never
balanced. -/
example :
    let r : Reader := ⟨3, ["\x7d (".toList, "x \x7b\x7b".toList, "\x7d \x7d \x7d".toList]⟩
    (r.perform (.skipBody [] none)).1 = .number 5 ∧
      ((r.perform (.skipBody [] none)).2.perform (.skipBody " a".toList (some []))).1 =
        .failure ⟨.openBody 5 (-3), some [], some 6⟩ := by
  decide +kernel

end Reader

/-! ## Skipping in a scan -/

namespace DeclarationScan

/-- With the lines a scan gets where it gets from what a reader leaves of them when it skips a body
that began after line `start`. If input ends then, the scan misses the braces that the reader
counts. -/
def SkipsLike (s : State) (lines : List Text) (start : Nat) (skipped : Int × Reader) : Prop :=
  ∃ mode, lines.foldl feed s =
      skipped.2.remaining.foldl feed ⟨skipped.2.number, mode, s.found⟩ ∧
    (mode = .ready ∨ skipped.2.remaining = []) ∧
    mode.defect? = if skipped.1 = 0 then none else some (.openBody start skipped.1)

theorem skipsLike_skipLines (start : Nat) (depth : Int) (number : Nat) (lines : List Text)
    (found : List Declaration) :
    SkipsLike ⟨number, .skipping start depth, found⟩ lines start
      (Reader.skipLines depth number lines) := by
  induction lines generalizing depth number with
  | nil => exact ⟨_, rfl, .inr rfl, rfl⟩
  | cons line lines ih =>
    have hfeed : feed ⟨number, .skipping start depth, found⟩ line =
        ⟨number + 1, skip start depth line, found⟩ := rfl
    rw [Reader.skipLines]
    cases hc : Body.count depth line with
    | none =>
      refine ⟨.ready, ?_, .inl rfl, rfl⟩
      rw [List.foldl_cons, hfeed, skip, hc]
    | some after =>
      obtain ⟨mode, hfold, hmode, hdefect⟩ := ih after (number + 1)
      refine ⟨mode, ?_, hmode, hdefect⟩
      rw [List.foldl_cons, hfeed, skip, hc]
      exact hfold

/-- The body behind a declaration is skipped by a scan as by a reader that has read as far. -/
theorem skipsLike_skipBody (fragment : Text) (r : Reader) (found : List Declaration) :
    SkipsLike ⟨r.number, skip r.number 0 fragment, found⟩ r.remaining r.number
      (r.skipBody fragment) := by
  rw [skip, Reader.skipBody]
  cases hc : Body.count 0 fragment with
  | none => exact ⟨.ready, rfl, .inl rfl, rfl⟩
  | some depth => exact skipsLike_skipLines r.number depth r.number r.remaining found

end DeclarationScan

end SourceSurvey
