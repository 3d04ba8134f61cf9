import SourceSurvey.Proofs.FileSystem.Walking
import SourceSurvey.Proofs.Text.Joining
import SourceSurvey.Proofs.Text.Words

/-!
# Texts of real paths

A real path is made of what stands in the argument, in the working directory and in the targets of
links. So in a file system that can exist, a nul in a real path comes from the argument. Where no
link is met, the real path has the steps of the argument. A link is met at most once inside its own
target, since all that can be met are known by their spellings (`mem_spelledLinks`).
-/

namespace SourceSurvey.FileSystem

def NulFree (texts : List Text) : Prop := ∀ t ∈ texts, nul ∉ t

variable {fs : FileSystem} {here : Location} {steps : List Text} {step target : Text} {p : Path}
  {s there : Spelled}

theorem NulFree.concat (h : NulFree here) (hs : nul ∉ step) : NulFree (here ++ [step]) := by
  intro t ht
  rcases List.mem_append.1 ht with ht | ht
  · exact h t ht
  · rwa [List.mem_singleton.1 ht]

theorem NulFree.dropLast (h : NulFree here) : NulFree here.dropLast :=
  fun t ht => h t (List.mem_of_mem_dropLast ht)

theorem NulFree.lexicalStep (h : NulFree here) (hs : nul ∉ step) :
    NulFree (FileSystem.lexicalStep here step) := by
  rw [FileSystem.lexicalStep]
  split
  · exact h
  · split
    · exact h.dropLast
    · exact h.concat hs

theorem NulFree.foldl_lexicalStep (h : NulFree here) (hs : NulFree steps) :
    NulFree (steps.foldl FileSystem.lexicalStep here) := by
  induction steps generalizing here with
  | nil => exact h
  | cons step steps ih =>
    obtain ⟨hstep, hrest⟩ := List.forall_mem_cons.1 hs
    exact ih (h.lexicalStep hstep) hrest

theorem NulFree.originOf (h : NulFree s.here) : NulFree (s.originOf target).here := by
  rw [Spelled.originOf]
  split
  · exact fun t ht => absurd ht List.not_mem_nil
  · exact h

theorem nulFree_splitOn (h : nul ∉ target) : NulFree (target.splitOn '/') :=
  fun _ ht hn => h ((Text.isInfix_of_mem_splitOn ht).subset hn)

theorem nul_notMem_toText (hr : nul ∉ p.root) (hp : NulFree p.parts) : nul ∉ p.toText := by
  rw [Path.nul_mem_toText_iff]
  rintro (hroot | ⟨part, hpart, hn⟩)
  · exact hr hroot
  · exact hp part hpart hn

theorem nul_notMem_rootOf (t : Text) : nul ∉ Path.rootOf t := by
  rw [Path.rootOf]
  split <;> decide

theorem nul_notMem_followedBy (h : nul ∉ p.toText) (hs : NulFree steps) :
    nul ∉ (followedBy p steps).toText := by
  have hp := mt Path.nul_mem_toText_iff.2 h
  rw [not_or] at hp
  rw [followedBy]
  split
  · exact nul_notMem_toText (nul_notMem_rootOf _)
      (NulFree.foldl_lexicalStep (fun t ht => absurd ht List.not_mem_nil) hs)
  · exact nul_notMem_toText hp.1
      (NulFree.foldl_lexicalStep (fun part hpart hn => hp.2 ⟨part, hpart, hn⟩) hs)

theorem isAbsolute_followedBy (h : p.isAbsolute = true) :
    (followedBy p steps).isAbsolute = true := by
  rw [followedBy]
  split
  · next hhead =>
    obtain ⟨rest, hrest⟩ := List.head?_eq_some_iff.1 hhead
    rw [Path.isAbsolute, Path.rootOf, hrest, Path.slashes, List.takeWhile_cons_of_pos (by simp)]
    split <;> simp_all
  · exact h

theorem linkAt?_of_linkSpelled? (h : fs.linkSpelled? s = some target) :
    fs.linkAt? s.here = some target := by
  rw [linkSpelled?] at h
  split at h
  · cases h
  · exact h

theorem WellNamed.nulFree_target (hw : fs.WellNamed) (h : fs.linkSpelled? s = some target) :
    NulFree (target.splitOn '/') :=
  nulFree_splitOn (hw.target_of_linkAt? (linkAt?_of_linkSpelled? h))

/-! ## Invariants -/

/-- What is known of the place to go on from, or else of the path that stays as it is. -/
def EndsIn (P : Spelled → Prop) (Q : Path → Prop) : Except Path Spelled → Prop
  | .ok s => P s
  | .error p => Q p

/-- What every step of a search for links keeps is known of its end. -/
theorem resolve_induction {P : Spelled → Prop} {Q : Path → Prop} {T : Text → Prop}
    (up : ∀ s, P s → P (s.up fs.working))
    (enter : ∀ s step, P s → T step → P (s.enter step))
    (follow : ∀ s target, fs.linkSpelled? s = some target → ∀ step ∈ target.splitOn '/', T step)
    (origin : ∀ s target, P s → P (s.originOf target))
    (stay : ∀ s step steps, P s → (∀ t ∈ step :: steps, T t) →
      Q (followedBy ⟨['/'], s.here ++ [step]⟩ steps))
    (behind : ∀ p steps, Q p → (∀ t ∈ steps, T t) → Q (followedBy p steps))
    (unentered : List Spelled) (s : Spelled) (steps : List Text) (hs : P s)
    (ht : ∀ t ∈ steps, T t) : EndsIn P Q (fs.resolve unentered s steps) := by
  induction unentered, s, steps using resolve.induct fs with
  | case1 unentered s => rwa [resolve]
  | case2 unentered s step steps hdot ih =>
    rw [resolve, if_pos hdot]
    exact ih hs (List.forall_mem_cons.1 ht).2
  | case3 unentered s steps hdot ih =>
    rw [resolve, if_neg hdot, if_pos rfl]
    exact ih (up s hs) (List.forall_mem_cons.1 ht).2
  | case4 unentered s step steps hdot hdots hl ih =>
    obtain ⟨hstep, hrest⟩ := List.forall_mem_cons.1 ht
    rw [resolve, if_neg hdot, if_neg hdots, hl]
    exact ih (enter s step hs hstep) hrest
  | case5 unentered s step steps hdot hdots target hl hm there hthere ih ihrest =>
    have hend := ih (origin s target hs) (follow _ target hl)
    rw [hthere] at hend
    rw [resolve, if_neg hdot, if_neg hdots, hl]
    simp only [dif_pos hm, hthere]
    exact ihrest hend (List.forall_mem_cons.1 ht).2
  | case6 unentered s step steps hdot hdots target hl hm p hp ih =>
    have hend := ih (origin s target hs) (follow _ target hl)
    rw [hp] at hend
    rw [resolve, if_neg hdot, if_neg hdots, hl]
    simp only [dif_pos hm, hp]
    exact behind p steps hend (List.forall_mem_cons.1 ht).2
  | case7 unentered s step steps hdot hdots target hl hm =>
    rw [resolve, if_neg hdot, if_neg hdots, hl]
    simp only [dif_neg hm]
    exact stay s step steps hs ht

theorem WellNamed.resolve_nulFree (hw : fs.WellNamed) (unentered : List Spelled)
    (h : NulFree s.here) (hs : NulFree steps) :
    EndsIn (fun there => NulFree there.here) (fun p => nul ∉ p.toText)
      (fs.resolve unentered s steps) := by
  have hroot : nul ∉ (['/'] : Text) := by decide
  refine resolve_induction (fun s h => h.dropLast) (fun s step h hs => h.concat hs)
    (fun s target hl => hw.nulFree_target hl) (fun s target h => h.originOf) ?_
    (fun p steps hp hs => nul_notMem_followedBy hp hs) unentered s steps h hs
  intro s step steps h hs
  obtain ⟨hstep, hrest⟩ := List.forall_mem_cons.1 hs
  exact nul_notMem_followedBy (nul_notMem_toText hroot (h.concat hstep)) hrest

theorem WellNamed.nul_notMem_realPath (hw : fs.WellNamed) {arg : Text} (h : nul ∉ arg) :
    nul ∉ (fs.realPath arg).toText := by
  let start : Spelled := ⟨some 0, fs.working⟩
  have hworking : NulFree start.here := fun name hn => (hw.working name hn).2
  have horigin : NulFree (start.originOf arg).here := hworking.originOf
  have hresult := hw.resolve_nulFree fs.spelledLinks horigin (nulFree_splitOn h)
  rw [realPath]
  split
  · next hs =>
    rw [hs] at hresult
    exact nul_notMem_toText (show nul ∉ (['/'] : Text) by decide) hresult
  · next hp =>
    rw [hp] at hresult
    exact hresult

/-! ## Spellings -/

theorem length_le_byteLength (t : Text) : t.length ≤ byteLength t := by
  rw [byteLength, Text.Utf8.encode]
  induction t with
  | nil => exact Nat.le_refl 0
  | cons c t ih =>
    have hc : 1 ≤ (Text.Utf8.encodeChar c).length := by
      rw [Text.Utf8.encodeChar]
      repeat' split
      all_goals simp
    rw [List.flatMap_cons, List.length_append, List.length_cons]
    omega

theorem le_length_join_ups (ups : Nat) (names : List Text) :
    2 * ups ≤ (Text.join ['/'] (List.replicate ups ['.', '.'] ++ names)).length := by
  induction ups with
  | zero => exact Nat.zero_le _
  | succ ups ih =>
    rw [List.replicate_succ, List.cons_append]
    cases hrest : List.replicate ups ['.', '.'] ++ names with
    | nil =>
      have hups : ups = 0 := by simpa using (List.append_eq_nil_iff.1 hrest).1
      rw [Text.join_singleton, hups]
      exact Nat.le_refl 2
    | cons name rest =>
      rw [hrest] at ih
      rw [Text.join_cons_cons, List.length_append]
      simp only [List.length_append, List.length_cons, List.length_nil]
      omega

theorem toText_toPath_ups {working : Location} {ups : Nat} (h : ups ≠ 0) :
    ((⟨some ups, here⟩ : Spelled).toPath working).toText =
      Text.join ['/'] (List.replicate ups ['.', '.'] ++ here.drop (working.length - ups)) := by
  have hpath : (⟨some ups, here⟩ : Spelled).toPath working =
      ⟨[], List.replicate ups ['.', '.'] ++ here.drop (working.length - ups)⟩ := rfl
  rw [hpath, Path.toText, if_neg (by simp [h]), List.nil_append]

/-- A path that is not too long has no more steps up than it has bytes. -/
theorem ups_lt_maxPathBytes {working : Location} {ups : Nat} (hu : s.ups = some ups)
    (h : byteLength (s.toPath working).toText ≤ maxPathBytes) : ups < maxPathBytes := by
  obtain ⟨_, here⟩ := s
  subst hu
  by_cases hzero : ups = 0
  · rw [hzero]
    decide
  · rw [toText_toPath_ups hzero] at h
    have hlen := length_le_byteLength
      (Text.join ['/'] (List.replicate ups ['.', '.'] ++ here.drop (working.length - ups)))
    have hups := le_length_join_ups ups (here.drop (working.length - ups))
    omega

/-- A search for links starts out with all that it can meet. So one that it does not enter is one
whose target it is following. -/
theorem mem_spelledLinks (h : fs.linkSpelled? s = some target) : s ∈ fs.spelledLinks := by
  have hlink := linkAt?_of_linkSpelled? h
  have hne : s.here ≠ [] := by
    intro hnil
    rw [hnil] at hlink
    cases hlink
  have hmem := (entry?_eq_some_iff hne).1 (linkAt?_eq_some_iff.1 hlink)
  have hlen : byteLength (s.toPath fs.working).toText ≤ maxPathBytes := by
    refine Nat.not_lt.1 fun hlong => ?_
    rw [linkSpelled?, if_pos hlong] at h
    cases h
  have hspelled : s ∈ Spelled.allOf s.here := by
    cases hu : s.ups with
    | none => exact List.mem_cons.2 (.inl (by rw [← hu]))
    | some ups =>
      refine List.mem_cons_of_mem _ (List.mem_map.2 ⟨ups, ?_, by rw [← hu]⟩)
      exact List.mem_range.2 (ups_lt_maxPathBytes hu hlen)
  rw [spelledLinks, List.mem_flatMap]
  refine ⟨s.here, List.mem_filter.2 ⟨List.mem_map_of_mem hmem, by rw [hlink]; rfl⟩, hspelled⟩

/-! ## Roots -/

theorem resolve_isAbsolute (fs : FileSystem) (unentered : List Spelled) (s : Spelled)
    (steps : List Text) :
    EndsIn (fun _ => True) (fun p => p.isAbsolute = true) (fs.resolve unentered s steps) :=
  resolve_induction (fun _ _ => trivial) (fun _ _ _ _ => trivial) (fun _ _ _ _ _ => trivial)
    (fun _ _ _ => trivial) (fun _ _ _ _ _ => isAbsolute_followedBy rfl)
    (fun _ _ hp _ => isAbsolute_followedBy hp) unentered s steps trivial fun _ _ => trivial

theorem isAbsolute_realPath (fs : FileSystem) (t : Text) : (fs.realPath t).isAbsolute = true := by
  rw [realPath]
  split
  · rfl
  · next p hp =>
    have hend := resolve_isAbsolute fs fs.spelledLinks
      ((⟨some 0, fs.working⟩ : Spelled).originOf t) (t.splitOn '/')
    rw [hp] at hend
    exact hend

/-! ## Paths without links -/

theorem resolve_of_leads (unentered : List Spelled)
    (h : fs.Leads s.here (steps.filter fun step => !step.isEmpty)) :
    ∃ there, fs.resolve unentered s steps = .ok there ∧
      there.here = s.here ++ steps.filter fun step => !step.isEmpty := by
  induction steps generalizing s with
  | nil => exact ⟨s, by rw [resolve], by simp⟩
  | cons step steps ih =>
    by_cases hempty : step = []
    · subst hempty
      rw [resolve, if_pos (.inl rfl)]
      exact ih h
    · rw [List.filter_cons_of_pos (by simpa using hempty)] at h ⊢
      obtain ⟨-, ⟨hdot, hdots, -⟩, -, hl, hr⟩ := h
      have hno : fs.linkSpelled? (s.enter step) = none := by
        rw [linkSpelled?]
        split
        · rfl
        · exact hl
      rw [resolve, if_neg (not_or.2 ⟨hempty, hdot⟩), if_neg hdots, hno]
      obtain ⟨there, hthere, hhere⟩ := ih (s := s.enter step) hr
      exact ⟨there, hthere, by rw [hhere, Spelled.enter, List.append_assoc]; rfl⟩

theorem Leads.isPlain (h : fs.Leads here steps) : ∀ step ∈ steps, IsPlain step := by
  induction steps generalizing here with
  | nil => exact fun step hs => absurd hs List.not_mem_nil
  | cons step steps ih => exact List.forall_mem_cons.2 ⟨h.2.1, ih h.2.2.2.2⟩

theorem stepsOf_of_leads (h : fs.Leads here (stepsOf target)) :
    stepsOf target = (target.splitOn '/').filter fun step => !step.isEmpty := by
  rw [stepsOf] at h ⊢
  split
  · next hslash =>
    rw [if_pos hslash] at h
    exact absurd rfl (h.isPlain ['.'] (List.mem_append_right _ List.mem_cons_self)).1
  · rfl

theorem here_originOf : (s.originOf target).here = originOf s.here target := by
  rw [Spelled.originOf, originOf]
  split <;> rfl

theorem realPath_of_leads {arg : Text} (ho : originOf fs.working arg = [])
    (h : fs.Leads [] (stepsOf arg)) : fs.realPath arg = ⟨['/'], stepsOf arg⟩ := by
  let start : Spelled := ⟨some 0, fs.working⟩
  have hstart : (start.originOf arg).here = [] := here_originOf.trans ho
  have hsteps := stepsOf_of_leads h
  rw [hsteps, ← hstart] at h
  obtain ⟨there, hthere, hhere⟩ := resolve_of_leads fs.spelledLinks h
  rw [realPath, hthere]
  simp only [hhere, hstart, hsteps, List.nil_append]

end SourceSurvey.FileSystem
