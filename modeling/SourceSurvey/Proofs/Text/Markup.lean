import SourceSurvey.Text.Markup
import Mathlib.Data.List.Basic

/-!
# Escaped texts

Escaping adds backslashes and takes nothing away (`sublist_escape`). An escaped text is shown as it
stands whatever it holds (`shown_escape_append`), only that a single backslash at its end is shown
twice. Escaping leaves a text alone exactly when it holds no tag and does not end in a single
backslash (`escape_eq_self_iff`).
-/

namespace SourceSurvey.Text.Markup

variable {run n : Nat} {c : Char} {t u : Text}

/-- No opening bracket of the text begins a tag. -/
def TagFree (t : Text) : Prop := ∀ u, '[' :: u <:+ t → isTag u = false

def EndsInBackslash (t : Text) : Prop := ['\\'] <:+ t ∧ ¬['\\', '\\'] <:+ t

instance (t : Text) : Decidable (EndsInBackslash t) :=
  inferInstanceAs (Decidable (['\\'] <:+ t ∧ ¬['\\', '\\'] <:+ t))

/-- The text with a single backslash at its end doubled. -/
def ended (t : Text) : Text := if EndsInBackslash t then t ++ ['\\'] else t

theorem tagFree_nil : TagFree [] :=
  fun _ hu => absurd (List.suffix_nil.1 hu) (List.cons_ne_nil _ _)

theorem not_tagFree_tag (h : isTag t = true) : ¬TagFree ('[' :: t) := fun hfree =>
  Bool.noConfusion (h.symm.trans (hfree t (List.suffix_refl _)))

theorem tagFree_cons_of_not (h : ¬(c = '[' ∧ isTag t = true)) : TagFree (c :: t) ↔ TagFree t := by
  constructor
  · exact fun hfree u hu => hfree u (List.suffix_cons_iff.2 (.inr hu))
  · intro hfree u hu
    rcases List.suffix_cons_iff.1 hu with heq | hu
    · obtain ⟨hc, rfl⟩ := List.cons.inj heq
      exact Bool.eq_false_iff.2 fun ht => h ⟨hc.symm, ht⟩
    · exact hfree u hu

theorem tagFree_backslash : TagFree ('\\' :: t) ↔ TagFree t :=
  tagFree_cons_of_not fun h => absurd h.1 (by decide)

/-! ## Backslashes -/

theorem backslashes_succ_append (run : Nat) (t : Text) :
    backslashes (run + 1) ++ t = backslashes run ++ '\\' :: t := by
  rw [backslashes, List.replicate_succ', List.append_assoc]
  rfl

theorem backslashes_suffix_iff (hc : c ≠ '\\') (s : Text) :
    backslashes n <:+ s ++ c :: t ↔ backslashes n <:+ t := by
  have hnot : ¬c :: t <:+ backslashes n := fun h =>
    hc (List.eq_of_mem_replicate (h.subset List.mem_cons_self))
  constructor
  · intro h
    rcases List.suffix_or_suffix_of_suffix h (List.suffix_append s (c :: t)) with hn | hn
    · rcases List.suffix_cons_iff.1 hn with heq | hn
      · exact absurd (heq ▸ List.suffix_refl _) hnot
      · exact hn
    · exact absurd hn hnot
  · intro h
    exact h.trans ((List.suffix_cons c t).trans (List.suffix_append s (c :: t)))

theorem backslashes_suffix_backslashes : backslashes n <:+ backslashes run ↔ n ≤ run := by
  constructor
  · intro h
    simpa [backslashes] using h.length_le
  · intro h
    refine ⟨backslashes (run - n), ?_⟩
    rw [backslashes, backslashes, List.replicate_append_replicate, Nat.sub_add_cancel h,
      backslashes]

theorem endsInBackslash_append_cons (hc : c ≠ '\\') (s : Text) :
    EndsInBackslash (s ++ c :: t) ↔ EndsInBackslash t := by
  have hone : ['\\'] <:+ s ++ c :: t ↔ ['\\'] <:+ t := backslashes_suffix_iff (n := 1) hc s
  have htwo : ['\\', '\\'] <:+ s ++ c :: t ↔ ['\\', '\\'] <:+ t :=
    backslashes_suffix_iff (n := 2) hc s
  rw [EndsInBackslash, EndsInBackslash, hone, htwo]

theorem endsInBackslash_backslashes : EndsInBackslash (backslashes run) ↔ run = 1 := by
  have hone : ['\\'] <:+ backslashes run ↔ 1 ≤ run := backslashes_suffix_backslashes (n := 1)
  have htwo : ['\\', '\\'] <:+ backslashes run ↔ 2 ≤ run := backslashes_suffix_backslashes (n := 2)
  rw [EndsInBackslash, hone, htwo]
  omega

theorem ended_append_cons (hc : c ≠ '\\') (s : Text) :
    ended (s ++ c :: t) = s ++ c :: ended t := by
  rw [ended, ended]
  by_cases h : EndsInBackslash t
  · rw [if_pos h, if_pos ((endsInBackslash_append_cons hc s).2 h), List.append_assoc]
    rfl
  · rw [if_neg h, if_neg (mt (endsInBackslash_append_cons hc s).1 h)]

/-! ## Escaping, one character at a time

Runs of backslashes are held back until it is known whether a tag follows them. -/

theorem escapeAfter_nil : escapeAfter run [] = ended (backslashes run) := by
  rw [escapeAfter, ended]
  by_cases h : run = 1
  · rw [if_pos (endsInBackslash_backslashes.2 h), if_pos h, h]
    rfl
  · rw [if_neg (mt endsInBackslash_backslashes.1 h), if_neg h]

theorem escapeAfter_backslash : escapeAfter run ('\\' :: t) = escapeAfter (run + 1) t := by
  rw [escapeAfter, if_pos rfl]

theorem escapeAfter_tag (h : isTag t = true) :
    escapeAfter run ('[' :: t) = backslashes (2 * run + 1) ++ '[' :: escape t := by
  rw [escapeAfter, if_neg (by decide), if_pos ⟨rfl, h⟩, escape]

theorem escapeAfter_other (hc : c ≠ '\\') (ht : ¬(c = '[' ∧ isTag t = true)) :
    escapeAfter run (c :: t) = backslashes run ++ c :: escape t := by
  rw [escapeAfter, if_neg hc, if_neg ht, escape]

theorem backslashes_prefix_escapeAfter (run : Nat) (t : Text) :
    backslashes run <+: escapeAfter run t := by
  induction run, t using escapeAfter.induct with
  | case1 run =>
    rw [escapeAfter_nil, ended]
    split
    · exact List.prefix_append _ _
    · exact List.prefix_refl _
  | case2 run t ih =>
    have hrun : backslashes run <+: backslashes (run + 1) :=
      ⟨['\\'], by rw [backslashes, backslashes, List.replicate_succ']⟩
    rw [escapeAfter_backslash]
    exact hrun.trans ih
  | case3 run c t hc ht ih =>
    have hrun : backslashes (2 * run + 1) = backslashes run ++ backslashes (run + 1) := by
      rw [backslashes, backslashes, backslashes, List.replicate_append_replicate]
      congr 1
      omega
    rw [ht.1, escapeAfter_tag ht.2, hrun, List.append_assoc]
    exact List.prefix_append _ _
  | case4 run c t hc ht ih =>
    rw [escapeAfter_other hc ht]
    exact List.prefix_append _ _

theorem sublist_escapeAfter (run : Nat) (t : Text) :
    (backslashes run ++ t).Sublist (escapeAfter run t) := by
  induction run, t using escapeAfter.induct with
  | case1 run =>
    rw [List.append_nil]
    exact (backslashes_prefix_escapeAfter run []).sublist
  | case2 run t ih => rwa [escapeAfter_backslash, ← backslashes_succ_append]
  | case3 run c t hc ht ih =>
    have hrun : (backslashes run).Sublist (backslashes (2 * run + 1)) :=
      (List.replicate_sublist_replicate '\\').2 (by omega)
    have hrest : t.Sublist (escape t) := ih
    rw [ht.1, escapeAfter_tag ht.2]
    exact hrun.append (hrest.cons_cons '[')
  | case4 run c t hc ht ih =>
    have hrest : t.Sublist (escape t) := ih
    rw [escapeAfter_other hc ht]
    exact (List.Sublist.refl _).append (hrest.cons_cons c)

theorem sublist_escape (t : Text) : t.Sublist (escape t) := sublist_escapeAfter 0 t

theorem escapeAfter_eq_iff : escapeAfter run t = backslashes run ++ t ↔
    TagFree t ∧ ¬EndsInBackslash (backslashes run ++ t) := by
  induction run, t using escapeAfter.induct with
  | case1 run =>
    rw [escapeAfter_nil, List.append_nil, ended, and_iff_right tagFree_nil]
    split
    · next h => simp [h]
    · next h => exact iff_of_true rfl h
  | case2 run t ih =>
    rw [escapeAfter_backslash, ← backslashes_succ_append, ih, tagFree_backslash]
  | case3 run c t hc ht ih =>
    -- the backslashes added before a tag make the text longer
    refine iff_of_false (fun h => ?_) fun h => not_tagFree_tag ht.2 (ht.1 ▸ h.1)
    rw [ht.1, escapeAfter_tag ht.2] at h
    have hlength := congrArg List.length h
    have hle := (sublist_escape t).length_le
    simp only [backslashes, List.length_append, List.length_replicate, List.length_cons] at hlength
    omega
  | case4 run c t hc ht ih =>
    have hrest : escape t = t ↔ TagFree t ∧ ¬EndsInBackslash t := ih
    rw [escapeAfter_other hc ht, List.append_cancel_left_eq, List.cons.injEq, and_iff_right rfl,
      hrest, tagFree_cons_of_not ht, endsInBackslash_append_cons hc]

/-- What escaping leaves alone. -/
theorem escape_eq_self_iff : escape t = t ↔ TagFree t ∧ ¬EndsInBackslash t :=
  @escapeAfter_eq_iff 0 t

/-! ## Tags in escaped texts -/

theorem closes_backslashes_append (n : Nat) (t : Text) :
    closes (backslashes n ++ t) = closes t := by
  induction n generalizing t with
  | zero => rfl
  | succ n ih =>
    rw [backslashes_succ_append, ih]
    rfl

theorem closes_escapeAfter_append (run : Nat) (t : Text) (hu : closes u = false) :
    closes (escapeAfter run t ++ u) = closes t := by
  induction run, t using escapeAfter.induct with
  | case1 run => rw [escapeAfter, closes_backslashes_append, hu, closes]
  | case2 run t ih => rwa [escapeAfter_backslash]
  | case3 run c t hc ht ih =>
    rw [ht.1, escapeAfter_tag ht.2, List.append_assoc, closes_backslashes_append]
    rfl
  | case4 run c t hc ht ih =>
    rw [escapeAfter_other hc ht, List.append_assoc, closes_backslashes_append, List.cons_append,
      closes, escape, ih, closes]

theorem closes_of_notMem (h : ']' ∉ t) : closes t = false := by
  induction t with
  | nil => rfl
  | cons c t ih =>
    rw [List.mem_cons, not_or] at h
    simp [closes, ih h.2, Ne.symm h.1]

theorem isTag_eq_false_of_closes (hu : closes u = false) : isTag u = false := by
  cases u with
  | nil => rfl
  | cons c u =>
    rw [closes, Bool.or_eq_false_iff, Bool.and_eq_false_iff] at hu
    rw [isTag, Bool.and_eq_false_iff]
    refine hu.2.imp (fun hb => ?_) id
    have hc : c = '[' := by simpa using hb
    rw [hc]
    decide

/-- What follows an opening bracket is a tag once it is escaped if it is one before. -/
theorem isTag_escape_append (hu : closes u = false) : isTag (escape t ++ u) = isTag t := by
  cases t with
  | nil => exact isTag_eq_false_of_closes hu
  | cons c t =>
    by_cases hc : c = '\\'
    · obtain ⟨v, hv⟩ := backslashes_prefix_escapeAfter 1 t
      rw [hc, escape, escapeAfter_backslash, ← hv]
      rfl
    · by_cases ht : c = '[' ∧ isTag t = true
      · rw [ht.1, escape, escapeAfter_tag ht.2]
        rfl
      · rw [escape, escapeAfter_other hc ht, isTag]
        show (startsTag c && closes (escape t ++ u)) = _
        rw [escape, closes_escapeAfter_append 0 t hu]

/-! ## What is shown -/

theorem shownAfter_backslashes_append (n : Nat) :
    shownAfter run false (backslashes n ++ t) = shownAfter (run + n) false t := by
  induction n generalizing run with
  | zero => rfl
  | succ n ih =>
    have hstep : shownAfter run false ('\\' :: (backslashes n ++ t)) =
        shownAfter (run + 1) false (backslashes n ++ t) := rfl
    rw [backslashes, List.replicate_succ, List.cons_append, ← backslashes, hstep, ih,
      Nat.add_right_comm, Nat.add_assoc]

/-- Every second backslash before a tag is shown, and an odd one makes it plain text. -/
theorem shownAfter_tag (h : isTag t = true) :
    shownAfter run false ('[' :: t) = backslashes (run / 2) ++
      if run % 2 = 1 then '[' :: shown t else shownAfter 0 true t := by
  rw [shownAfter, if_neg (by decide), if_neg (by decide), if_pos ⟨rfl, h⟩, shown]

theorem shownAfter_other (hc : c ≠ '\\') (ht : ¬(c = '[' ∧ isTag t = true)) :
    shownAfter run false (c :: t) = backslashes run ++ c :: shown t := by
  rw [shownAfter, if_neg (by decide), if_neg hc, if_neg ht, shown]

theorem shown_backslashes_append (n : Nat) (hu : ∀ c ∈ u.head?, c ≠ '\\' ∧ c ≠ '[') :
    shown (backslashes n ++ u) = backslashes n ++ shown u := by
  rw [shown, shownAfter_backslashes_append, Nat.zero_add]
  cases u with
  | nil => exact (List.append_nil _).symm
  | cons c u =>
    obtain ⟨hc, hb⟩ := hu c rfl
    have ht : ¬(c = '[' ∧ isTag u = true) := fun h => hb h.1
    rw [shown, shownAfter_other hc ht, shownAfter_other hc ht]
    rfl

theorem shown_escapeAfter_append (run : Nat) (t : Text) (hclosed : closes u = false)
    (hu : ∀ c ∈ u.head?, c ≠ '\\' ∧ c ≠ '[') :
    shown (escapeAfter run t ++ u) = ended (backslashes run ++ t) ++ shown u := by
  induction run, t using escapeAfter.induct with
  | case1 run => rw [List.append_nil, ← escapeAfter_nil, escapeAfter, shown_backslashes_append _ hu]
  | case2 run t ih => rw [escapeAfter_backslash, ih, backslashes_succ_append]
  | case3 run c t hc ht ih =>
    have hrest : shown (escape t ++ u) = ended t ++ shown u := ih
    have htag : isTag (escape t ++ u) = true := by rw [isTag_escape_append hclosed, ht.2]
    -- of the backslashes before the tag, half are shown and the last one is used up
    have hhalf : (2 * run + 1) / 2 = run := by omega
    have hodd : (2 * run + 1) % 2 = 1 := by omega
    rw [ended_append_cons hc, ht.1, escapeAfter_tag ht.2, List.append_assoc, shown,
      shownAfter_backslashes_append, Nat.zero_add, List.cons_append, shownAfter_tag htag, hhalf,
      if_pos hodd, hrest, List.append_assoc, List.cons_append]
  | case4 run c t hc ht ih =>
    have hrest : shown (escape t ++ u) = ended t ++ shown u := ih
    have htag : ¬(c = '[' ∧ isTag (escape t ++ u) = true) := by
      rwa [isTag_escape_append hclosed]
    rw [ended_append_cons hc, escapeAfter_other hc ht, List.append_assoc, shown,
      shownAfter_backslashes_append, Nat.zero_add, List.cons_append, shownAfter_other hc htag,
      hrest, List.append_assoc, List.cons_append]

/-- No character of an escaped text is read as markup, if no closing bracket follows that could
complete a tag. -/
theorem shown_escape_append (hclosed : closes u = false)
    (hu : ∀ c ∈ u.head?, c ≠ '\\' ∧ c ≠ '[') :
    shown (escape t ++ u) = ended t ++ shown u :=
  shown_escapeAfter_append 0 t hclosed hu

theorem shown_escape (t : Text) : shown (escape t) = ended t := by
  have h := @shown_escape_append t [] rfl fun c hc => absurd hc (by simp)
  rwa [List.append_nil, show shown [] = [] from rfl, List.append_nil] at h

end SourceSurvey.Text.Markup
