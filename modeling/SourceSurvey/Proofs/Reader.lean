import SourceSurvey.Reader

/-!
# What a reader consumes

However reading, taking, draining and skipping are mixed, each step consumes the next lines and
counts them: what it hands out, or what a skip leaves behind (`passes_perform`). So the lines
consumed in a run are the first lines of the source, as many as the line number says, and at the
end nothing moves any more (`run_consumes`).
-/

namespace SourceSurvey.Reader

/-- From the first reader to the second exactly these lines are consumed, and they are counted. -/
structure Passes (r : Reader) (lines : List Text) (s : Reader) : Prop where
  remaining_eq : r.remaining = lines ++ s.remaining
  number_eq : s.number = r.number + lines.length

/-- The lines at the front that the second reader has no more. -/
def leftBehind (r s : Reader) : List Text :=
  r.remaining.take (r.remaining.length - s.remaining.length)

/-- The lines that a step consumed: those that it handed out, and all that a skip left behind. -/
def consumedBy (r : Reader) : Answer × Reader → List Text
  | (.line l, _) => l.toList
  | (.lines ls, _) => ls
  | (.number _, s) => r.leftBehind s
  | (.failure _, s) => r.leftBehind s

/-- The lines that the steps of a run consumed, in the order of the steps. -/
def consumed (r : Reader) : List (Answer × Reader) → List Text
  | [] => []
  | p :: rest => r.consumedBy p ++ consumed p.2 rest

/-- The reader after the steps. -/
def after (r : Reader) (steps : List Step) : Reader := steps.foldl (fun r s => (r.perform s).2) r

variable {r s t : Reader} {ls ms : List Text}

theorem Passes.refl (r : Reader) : Passes r [] r := ⟨rfl, rfl⟩

theorem Passes.trans (h : Passes r ls s) (h' : Passes s ms t) : Passes r (ls ++ ms) t where
  remaining_eq := by rw [h.remaining_eq, h'.remaining_eq, List.append_assoc]
  number_eq := by rw [h'.number_eq, h.number_eq, List.length_append, Nat.add_assoc]

theorem Passes.leftBehind_eq (h : Passes r ls s) : r.leftBehind s = ls := by
  rw [leftBehind, h.remaining_eq, List.length_append, Nat.add_sub_cancel, List.take_left]

/-! ## One step -/

theorem exists_passes_skipLines (depth : Int) (number : Nat) (lines : List Text) :
    ∃ ls, Passes ⟨number, lines⟩ ls (skipLines depth number lines).2 := by
  induction lines generalizing depth number with
  | nil => exact ⟨[], .refl _⟩
  | cons line lines ih =>
    have hline : Passes ⟨number, line :: lines⟩ [line] ⟨number + 1, lines⟩ := ⟨rfl, rfl⟩
    rw [skipLines]
    cases Body.count depth line with
    | none => exact ⟨[line], hline⟩
    | some depth =>
      obtain ⟨ls, hls⟩ := ih depth (number + 1)
      exact ⟨[line] ++ ls, hline.trans hls⟩

theorem exists_passes_skipBody (r : Reader) (fragment : Text) :
    ∃ ls, Passes r ls (r.skipBody fragment).2 := by
  rw [skipBody]
  cases Body.count 0 fragment with
  | none => exact ⟨[], .refl r⟩
  | some depth => exact exists_passes_skipLines depth r.number r.remaining

/-- Whether a skip answers with a line number or fails, it leaves the same reader. -/
theorem perform_skipBody (r : Reader) (fragment : Text) (label : Option Text) :
    r.perform (.skipBody fragment label) =
        (.number (r.skipBody fragment).2.number, (r.skipBody fragment).2) ∨
      ∃ e, r.perform (.skipBody fragment label) = (.failure e, (r.skipBody fragment).2) := by
  simp only [perform]
  split
  · exact .inl rfl
  · exact .inr ⟨_, rfl⟩

theorem passes_perform (r : Reader) (step : Step) :
    Passes r (r.consumedBy (r.perform step)) (r.perform step).2 := by
  cases step with
  | readLine =>
    rw [perform, readLine]
    cases hr : r.remaining with
    | nil => exact .refl r
    | cons line rest => exact ⟨hr, rfl⟩
  | take k => exact ⟨(List.take_append_drop k r.remaining).symm, rfl⟩
  | rest => exact ⟨(List.append_nil _).symm, rfl⟩
  | skipBody fragment label =>
    obtain ⟨ls, hls⟩ := exists_passes_skipBody r fragment
    rcases perform_skipBody r fragment label with h | ⟨e, h⟩
    · rwa [h, consumedBy, hls.leftBehind_eq]
    · rwa [h, consumedBy, hls.leftBehind_eq]

/-- Where no line remains, none is consumed. -/
theorem Passes.of_remaining_eq_nil (h : Passes r ls s) (hr : r.remaining = []) :
    ls = [] ∧ s = r := by
  have hboth : ls = [] ∧ s.remaining = [] := List.append_eq_nil_iff.1 (h.remaining_eq.symm.trans hr)
  have hnumber := h.number_eq
  rw [hboth.1, List.length_nil, Nat.add_zero] at hnumber
  refine ⟨hboth.1, ?_⟩
  cases r
  cases s
  simp_all

/-- Only at the end is no line handed out. -/
theorem remaining_eq_nil_of_perform {step : Step} (h : (Answer.line none, s) = r.perform step) :
    s.remaining = [] := by
  cases step with
  | readLine =>
    rw [perform, readLine] at h
    cases hr : r.remaining with
    | nil =>
      rw [hr] at h
      rw [(Prod.mk.inj h).2, hr]
    | cons line rest => simp [hr] at h
  | take k => simp [perform] at h
  | rest => simp [perform] at h
  | skipBody fragment label =>
    rcases perform_skipBody r fragment label with he | ⟨e, he⟩ <;> simp [he] at h

/-! ## Runs -/

theorem run_append (r : Reader) (steps more : List Step) :
    r.run (steps ++ more) = r.run steps ++ (r.after steps).run more := by
  induction steps generalizing r with
  | nil => rfl
  | cons step steps ih =>
    rw [List.cons_append, run, run, ih, List.cons_append]
    rfl

theorem after_append (r : Reader) (steps more : List Step) :
    r.after (steps ++ more) = (r.after steps).after more :=
  List.foldl_append

theorem length_run (r : Reader) (steps : List Step) : (r.run steps).length = steps.length := by
  induction steps generalizing r with
  | nil => rfl
  | cons step steps ih => rw [run, List.length_cons, List.length_cons, ih]

theorem passes_run (r : Reader) (steps : List Step) :
    Passes r (r.consumed (r.run steps)) (r.after steps) := by
  induction steps generalizing r with
  | nil => exact .refl r
  | cons step steps ih => exact (passes_perform r step).trans (ih _)

/-- A moment of a run divides its steps. -/
theorem exists_of_run_eq {steps : List Step} {before later : List (Answer × Reader)}
    {p : Answer × Reader} (h : r.run steps = before ++ p :: later) :
    ∃ done step more, steps = done ++ step :: more ∧ before = r.run done ∧
      p = (r.after done).perform step ∧ later = p.2.run more := by
  induction before generalizing r steps with
  | nil =>
    cases steps with
    | nil => cases h
    | cons step more =>
      obtain ⟨rfl, rfl⟩ := List.cons.inj h
      exact ⟨[], step, more, rfl, rfl, rfl, rfl⟩
  | cons q before ih =>
    cases steps with
    | nil => cases h
    | cons first steps =>
      obtain ⟨rfl, hrest⟩ := List.cons.inj h
      obtain ⟨done, step, more, rfl, rfl, hp, hlater⟩ := ih hrest
      exact ⟨first :: done, step, more, rfl, rfl, hp, hlater⟩

theorem number_le_of_mem_run {steps : List Step} {p : Answer × Reader} (h : p ∈ r.run steps) :
    p.2.number ≤ (r.after steps).number := by
  obtain ⟨before, later, hrun⟩ := List.append_of_mem h
  obtain ⟨done, step, more, rfl, -, rfl, -⟩ := exists_of_run_eq hrun
  have hrest := (passes_run ((r.after done).perform step).2 more).number_eq
  rw [after_append]
  exact Nat.le.intro hrest.symm

/-- At the end every step leaves the reader as it is. -/
theorem eq_of_mem_run_of_remaining_eq_nil (hr : r.remaining = []) {steps : List Step}
    {p : Answer × Reader} (h : p ∈ r.run steps) : p.2 = r ∧ r.consumedBy p = [] := by
  induction steps with
  | nil => cases h
  | cons step steps ih =>
    obtain ⟨hlines, hsame⟩ := (passes_perform r step).of_remaining_eq_nil hr
    rw [run, List.mem_cons, hsame] at h
    rcases h with rfl | h
    · exact ⟨hsame, hlines⟩
    · exact ih h

/-- At every moment of a run the consumed lines are the first lines of the source, counted by the
line number; and once no line was handed out, none is any more. -/
theorem run_consumes (source : Text) (steps : List Step) :
    let start := ofSource source
    let total := (Text.lines source).length
    (start.run steps).length = steps.length ∧
    ∀ before answer r later, start.run steps = before ++ (answer, r) :: later →
      r.number = (start.consumed (before ++ [(answer, r)])).length ∧
      start.consumed (before ++ [(answer, r)]) = (Text.lines source).take r.number ∧
      r.number ≤ total ∧ (∀ p ∈ before, p.2.number ≤ r.number) ∧
      (answer = .line none → r.number = total ∧
        ∀ p ∈ later, p.2.number = total ∧ (∀ l, p.1 = .line l → l = none) ∧
          ∀ ls, p.1 = .lines ls → ls = []) := by
  intro start total
  refine ⟨length_run start steps, fun before answer r later h => ?_⟩
  obtain ⟨done, step, more, rfl, rfl, hp, rfl⟩ := exists_of_run_eq h
  have hafter : start.after (done ++ [step]) = r := by
    rw [after_append]
    exact congrArg Prod.snd hp.symm
  have hrun : start.run done ++ [(answer, r)] = start.run (done ++ [step]) := by
    rw [run_append, hp]
    rfl
  -- from the start to this moment exactly the consumed lines are passed
  have hpass := passes_run start (done ++ [step])
  rw [hafter, ← hrun] at hpass
  have hlines : Text.lines source = _ ++ r.remaining := hpass.remaining_eq
  have hnumber : r.number = (start.consumed (start.run done ++ [(answer, r)])).length :=
    hpass.number_eq.trans (Nat.zero_add _)
  have htotal : total = r.number + r.remaining.length := by
    rw [hnumber, ← List.length_append, ← hlines]
  refine ⟨hnumber, ?_, by omega, fun p hm => ?_, ?_⟩
  · rw [hnumber, hlines, List.take_left]
  · have hmono := (passes_perform (start.after done) step).number_eq
    rw [← hp] at hmono
    exact Nat.le_trans (number_le_of_mem_run hm) (Nat.le.intro hmono.symm)
  · rintro rfl
    have hend := remaining_eq_nil_of_perform hp
    rw [hend, List.length_nil, Nat.add_zero] at htotal
    refine ⟨htotal.symm, fun p hm => ?_⟩
    obtain ⟨hsame, hnone⟩ := eq_of_mem_run_of_remaining_eq_nil hend hm
    obtain ⟨given, s⟩ := p
    refine ⟨by rw [hsame, htotal], ?_, ?_⟩
    · rintro l rfl
      exact Option.toList_eq_nil_iff.1 hnone
    · rintro ls rfl
      exact hnone

/-- A body that ends, a body that never does, and reading on at the end. -/
theorem run_consumes_openBody :
    let source : Text := "int f()\n\x7b a\n\x7d b\nint g()\n\x7b c\n".toList
    let steps : List Step :=
      [.readLine, .skipBody [] none, .take 1, .skipBody [] none, .readLine, .rest]
    let start := ofSource source
    let done : List (Answer × Reader) := start.run (steps.take 3)
    let failure : Answer := .failure ⟨.openBody 4 1, none, some 5⟩
    let later : List (Answer × Reader) := [(.line none, ⟨5, []⟩), (.lines [], ⟨5, []⟩)]
    start.run steps = done ++ (failure, ⟨5, []⟩) :: later ∧
      start.consumed (done ++ [(failure, ⟨5, []⟩)]) = Text.lines source := by
  intro source steps start done failure later
  have hrun : start.run steps = done ++ (failure, ⟨5, []⟩) :: later := by decide +kernel
  have hmoment := (run_consumes source steps).2 done failure ⟨5, []⟩ later hrun
  have htake : (Text.lines source).take 5 = Text.lines source := by decide +kernel
  exact ⟨hrun, hmoment.2.1.trans htake⟩

end SourceSurvey.Reader
