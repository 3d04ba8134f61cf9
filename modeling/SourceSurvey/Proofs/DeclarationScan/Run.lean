import SourceSurvey.Proofs.DeclarationScan.Blocks
import SourceSurvey.Proofs.Text.Joining

/-!
# What a run of the scan reads

Fed with the lines of a closed block, a scan that is ready is ready again and has found the
declaration of the block. So a run over any lines is known from their split into closed blocks and
a tail, and `declarations_eq_ok_iff` says when and with what it succeeds.
-/

namespace SourceSurvey.DeclarationScan

/-! ## Heads -/

theorem joined_append_singleton {head : List Text} (h : head ≠ []) (raw : Text) :
    joined (head ++ [raw]) = joined head ++ ' ' :: Text.normalize raw := by
  rw [joined, List.map_append, List.map_singleton,
    Text.join_append_singleton _ _ (by simpa using h)]
  simp [joined]

theorem isOpen_joined_iff {head : List Text} (h : head ≠ []) :
    Declaration.isOpen (joined head) = true ↔ ¬Closes head := by
  simp [Declaration.isOpen, Closes, h]

/-- A property that only the whole run has fails for all that stands before its last line. -/
theorem not_of_prefix_append {P : List Text → Prop} {run : List Text} {raw : Text}
    (h : ∀ part, part <+: run ++ [raw] → P part → part = run ++ [raw]) :
    ∀ part, part <+: run → ¬P part := by
  intro part hp hP
  have he := h part (hp.trans (List.prefix_append _ _)) hP
  have hl := hp.length_le
  rw [he, List.length_append, List.length_singleton] at hl
  omega

/-- While no shorter part closes, the lines read so far are one logical line. -/
theorem foldl_feed_head {head : List Text} (hne : head ≠ [])
    (h : ∀ part, part <+: head → Closes part → part = head) (n : Nat)
    (found : List Declaration) :
    head.foldl feed ⟨n, .ready, found⟩ = join (n + head.length) (n + 1) (joined head) found := by
  induction head using List.reverseRecOn with
  | nil => exact absurd rfl hne
  | append_singleton head raw ih =>
    by_cases hh : head = []
    · subst hh
      simp [feed, joined, Text.join]
    · have hopen := not_of_prefix_append h
      have hr := ih hh fun part hp hc => absurd hc (hopen part hp)
      rw [List.foldl_append, hr, join,
        if_pos ((isOpen_joined_iff hh).2 (hopen head (List.prefix_refl _)))]
      simp [feed, joined_append_singleton hh, Nat.add_assoc]

/-- A head that closes leaves the scan ready, or waiting for a body. -/
theorem join_of_closes {b : Block} (h : Closes b.head) (line start : Nat)
    (found : List Declaration) :
    join line start (joined b.head) found =
      ⟨line, (b.awaited?.map (skip line 0)).getD .ready, found ++ b.declaration?.toList⟩ := by
  have hopen : ¬Declaration.isOpen (joined b.head) = true := fun ho =>
    (isOpen_joined_iff h.1).1 ho h
  rw [join, if_neg hopen]
  unfold Block.awaited? Block.declaration?
  cases Declaration.ofLine? (joined b.head) with
  | none => simp
  | some d => cases hd : d.hasBody <;> simp [hd, Option.filter]

theorem join_of_not_closes {lines : List Text} (hne : lines ≠ []) (h : ¬Closes lines)
    (line start : Nat) (found : List Declaration) :
    join line start (joined lines) found = ⟨line, .joining start (joined lines), found⟩ := by
  rw [join, if_pos ((isOpen_joined_iff hne).2 h)]

/-! ## Bodies -/

theorem skip_of_ends {start : Nat} {t : Text} (h : Body.Ends 0 t) : skip start 0 t = .ready := by
  rw [skip, Body.count_eq_none_iff.2 h]

theorem skip_of_not_ends {start : Nat} {t : Text} (h : ¬Body.Ends 0 t) :
    skip start 0 t = .skipping start (Body.balance t) := by
  rw [skip, Body.count_eq_some_of_not_ends h, Int.zero_add]

/-- While no shorter part ends the body, its lines are counted like one text. -/
theorem foldl_feed_body {body : List Text} {t : Text}
    (h : ∀ part, part <+: body → Body.Ends 0 (t ++ part.flatten) → part = body) (n start : Nat)
    (found : List Declaration) :
    body.foldl feed ⟨n, skip start 0 t, found⟩ =
      ⟨n + body.length, skip start 0 (t ++ body.flatten), found⟩ := by
  induction body using List.reverseRecOn with
  | nil => simp
  | append_singleton body raw ih =>
    have hopen := not_of_prefix_append h
    have hn : ¬Body.Ends 0 (t ++ body.flatten) := hopen body (List.prefix_refl _)
    have hr := ih fun part hp he => absurd he (hopen part hp)
    rw [List.foldl_append, hr, skip_of_not_ends hn]
    have hcount := Body.count_append 0 (t ++ body.flatten) raw
    rw [Body.count_eq_some_of_not_ends hn, Int.zero_add, Option.bind_some,
      List.append_assoc] at hcount
    simp [feed, skip, hcount, Nat.add_assoc]

/-! ## Blocks -/

theorem foldl_feed_lines {b : Block} (hb : Shortest Closes b.head) (n : Nat)
    (found : List Declaration) :
    b.lines.foldl feed ⟨n, .ready, found⟩ =
      b.body.foldl feed ⟨n + b.head.length,
        (b.awaited?.map (skip (n + b.head.length) 0)).getD .ready,
        found ++ b.declaration?.toList⟩ := by
  rw [Block.lines, List.foldl_append, foldl_feed_head (head_ne_nil hb) hb.2, join_of_closes hb.1]

theorem foldl_feed_closed {b : Block} (h : b.Closed) (n : Nat) (found : List Declaration) :
    b.lines.foldl feed ⟨n, .ready, found⟩ =
      ⟨n + b.lines.length, .ready, found ++ b.declaration?.toList⟩ := by
  obtain ⟨hh, hb⟩ := h
  rw [foldl_feed_lines hh]
  cases ht : b.awaited? with
  | none =>
    simp only [ht] at hb
    simp [hb, Block.lines]
  | some t =>
    simp only [ht] at hb
    rw [Option.map_some, Option.getD_some, foldl_feed_body hb.2, skip_of_ends hb.1]
    simp [Block.lines, Nat.add_assoc]

theorem foldl_feed_unended {b : Block} {t : Text} (h : b.Unended t) (n : Nat)
    (found : List Declaration) :
    b.lines.foldl feed ⟨n, .ready, found⟩ =
      ⟨n + b.lines.length,
        .skipping (n + b.head.length) (Body.balance (t ++ b.body.flatten)),
        found ++ b.declaration?.toList⟩ := by
  obtain ⟨hh, ht, hb⟩ := h
  rw [foldl_feed_lines hh, ht, Option.map_some, Option.getD_some,
    foldl_feed_body (fun run hr he => absurd he (hb run hr)),
    skip_of_not_ends (hb b.body (List.prefix_refl _))]
  simp [Block.lines, Nat.add_assoc]

theorem foldl_feed_blocks {bs : List Block} (h : ∀ b ∈ bs, b.Closed) (n : Nat)
    (found : List Declaration) :
    (linesOf bs).foldl feed ⟨n, .ready, found⟩ =
      ⟨n + (linesOf bs).length, .ready, found ++ declarationsOf bs⟩ := by
  induction bs generalizing n found with
  | nil => simp [declarationsOf]
  | cons b bs ih =>
    have hb := foldl_feed_closed (h b (by simp)) n found
    rw [linesOf_cons, ← List.append_assoc, List.foldl_append, ← Block.lines, hb,
      ih fun c hc => h c (by simp [hc])]
    simp [declarationsOf_cons, Nat.add_assoc]

/-! ## The end of input -/

variable {bs : List Block}

theorem run_linesOf_append (h : ∀ b ∈ bs, b.Closed) (tail : List Text) :
    run (linesOf bs ++ tail) =
      tail.foldl feed ⟨(linesOf bs).length, .ready, declarationsOf bs⟩ := by
  rw [run, List.foldl_append, initial, foldl_feed_blocks h]
  simp

theorem declarations_closed (h : ∀ b ∈ bs, b.Closed) :
    declarations (linesOf bs) = .ok (declarationsOf bs) := by
  have hr := run_linesOf_append h []
  rw [List.append_nil] at hr
  simp [declarations, hr, State.finish, Mode.defect?]

theorem declarations_head (h : ∀ b ∈ bs, b.Closed) {tail : List Text} (hne : tail ≠ [])
    (ht : ∀ part, part <+: tail → ¬Closes part) :
    declarations (linesOf bs ++ tail) = .error (.openParameters ((linesOf bs).length + 1)) := by
  rw [declarations, run_linesOf_append h,
    foldl_feed_head hne (fun part hp hc => absurd hc (ht part hp)),
    join_of_not_closes hne (ht tail (List.prefix_refl _))]
  rfl

theorem declarations_body (h : ∀ b ∈ bs, b.Closed) {b : Block} {t : Text} (hb : b.Unended t) :
    declarations (linesOf bs ++ b.lines) =
      if Body.balance (t ++ b.body.flatten) = 0 then .ok (declarationsOf (bs ++ [b]))
      else .error (.openBody ((linesOf bs).length + b.head.length)
        (Body.balance (t ++ b.body.flatten))) := by
  rw [declarations, run_linesOf_append h, foldl_feed_unended hb]
  by_cases hz : Body.balance (t ++ b.body.flatten) = 0 <;>
    simp [State.finish, Mode.defect?, hz, declarationsOf_append, declarationsOf_cons,
      show declarationsOf [] = [] from rfl]

theorem Block.Unended.braceless_iff {b : Block} {t : Text} (h : b.Unended t) :
    Body.Braceless (t ++ b.body.flatten) ↔ Body.balance (t ++ b.body.flatten) = 0 := by
  rw [Body.braceless_iff]
  exact and_iff_right (h.2.2 b.body (List.prefix_refl _))

/-- Blocks that are well cut are closed, but for a last one without a brace after its head. -/
theorem wellCut_cases (h : WellCut bs) :
    (∀ b ∈ bs, b.Closed) ∨
      ∃ init b t, bs = init ++ [b] ∧ (∀ c ∈ init, c.Closed) ∧ b.Unended t ∧
        Body.Braceless (t ++ b.body.flatten) := by
  induction bs with
  | nil => exact .inl (by simp)
  | cons b bs ih =>
    obtain ⟨hh, hb, hbs⟩ := h
    have next (hc : b.Closed) :
        (∀ a ∈ b :: bs, a.Closed) ∨
          ∃ init a t, b :: bs = init ++ [a] ∧ (∀ c ∈ init, c.Closed) ∧ a.Unended t ∧
            Body.Braceless (t ++ a.body.flatten) := by
      rcases ih hbs with hall | ⟨init, a, t, rfl, hi, ha, hn⟩
      · exact .inl (by simpa using ⟨hc, hall⟩)
      · exact .inr ⟨b :: init, a, t, rfl, by simpa using ⟨hc, hi⟩, ha, hn⟩
    unfold Block.IsBody at hb
    cases ht : b.awaited? with
    | none =>
      simp only [ht] at hb
      exact next ⟨hh, by simp [ht, hb]⟩
    | some t =>
      simp only [ht] at hb
      rcases hb with hb | ⟨hl, hn⟩
      · exact next ⟨hh, by simpa only [ht] using hb⟩
      · obtain rfl := eq_nil_of_linesOf hbs hl
        refine .inr ⟨[], b, t, rfl, by simp, ⟨hh, ht, ?_⟩, hn⟩
        intro run hr he
        exact hn.not_ends (ends_mono hr he)

/-- A scan succeeds exactly on lines that can be cut into blocks, and finds what their heads
declare. -/
theorem declarations_eq_ok_iff {lines : List Text} {found : List Declaration} :
    declarations lines = .ok found ↔
      ∃ blocks, linesOf blocks = lines ∧ WellCut blocks ∧ found = declarationsOf blocks := by
  constructor
  · intro h
    obtain ⟨blocks, tail, hbs, rfl, ht⟩ := exists_split lines
    cases ht with
    | nothing =>
      rw [List.append_nil, declarations_closed hbs] at h
      cases h
      exact ⟨blocks, by simp, wellCut_of_closed hbs, rfl⟩
    | head hne ht =>
      rw [declarations_head hbs hne ht] at h
      cases h
    | @body b t hb =>
      rw [declarations_body hbs hb] at h
      split at h
      · next hz =>
        cases h
        have hlast : WellCut [b] := by
          refine ⟨hb.1, ?_, trivial⟩
          unfold Block.IsBody
          rw [hb.2.1]
          exact .inr ⟨rfl, hb.braceless_iff.2 hz⟩
        exact ⟨blocks ++ [b], by simp [linesOf_append, Block.lines],
          wellCut_append hbs hlast, rfl⟩
      · cases h
  · rintro ⟨blocks, rfl, hw, rfl⟩
    rcases wellCut_cases hw with hc | ⟨init, b, t, rfl, hi, hb, hn⟩
    · exact declarations_closed hc
    · have hd := declarations_body hi hb
      rw [if_pos (hb.braceless_iff.1 hn)] at hd
      simpa [linesOf_append, Block.lines] using hd

end SourceSurvey.DeclarationScan
