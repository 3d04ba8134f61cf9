import Mathlib.Data.List.Nodup
import SourceSurvey.Proofs.FileSystem.Reading
import SourceSurvey.Proofs.Outcome
import SourceSurvey.Proofs.Text.Joining

/-!
# Where walks end

A step of a walk is refused, whatever comes after it, or it moves on and leaves some steps to do
(`walk_induction`). So a walk along a longer path goes on where the walk along its beginning ended
(`exists_walk_append`), and only some refusals can come from a walk. What a walk finds depends on
the entries of the file system, not on the order they are listed in (`status_of_perm`).
-/

namespace SourceSurvey

namespace FileSystem

/-- A name that an entry can have. -/
def IsName (name : Text) : Prop := IsPlain name ∧ nul ∉ name

instance : DecidablePred IsName := fun name =>
  inferInstanceAs (Decidable (IsPlain name ∧ nul ∉ name))

/-- An entry that can have a name: the target of a link is a text for the system. -/
def IsEntry : Entry → Prop
  | .link target => nul ∉ target
  | _ => True

instance : DecidablePred IsEntry
  | .link target => inferInstanceAs (Decidable (nul ∉ target))
  | .file _ => isTrue trivial
  | .directory => isTrue trivial

/-- All names and targets in the file system are such as a system can hold. -/
structure WellNamed (fs : FileSystem) : Prop where
  names : ∀ e ∈ fs.entries, ∀ name ∈ e.1, IsName name
  targets : ∀ e ∈ fs.entries, IsEntry e.2
  working : ∀ name ∈ fs.working, IsName name

instance (fs : FileSystem) : Decidable fs.WellNamed :=
  decidable_of_iff ((∀ e ∈ fs.entries, ∀ name ∈ e.1, IsName name) ∧
      (∀ e ∈ fs.entries, IsEntry e.2) ∧ ∀ name ∈ fs.working, IsName name)
    ⟨fun h => ⟨h.1, h.2.1, h.2.2⟩, fun h => ⟨h.names, h.targets, h.working⟩⟩

variable {fs gs : FileSystem} {l here there : Location} {e : Entry} {links : Nat}
  {steps : List Text}

/-! ## Entries -/

theorem entry?_eq_some_iff (hl : l ≠ []) : fs.entry? l = some e ↔ (l, e) ∈ fs.entries := by
  unfold entry?
  rw [if_neg hl, Option.map_eq_some_iff]
  constructor
  · rintro ⟨f, hf, rfl⟩
    have hkey : f.1 = l := by simpa using List.find?_some hf
    have hmem := List.mem_of_find?_eq_some hf
    rwa [← hkey]
  · intro hmem
    have hsome : (fs.entries.find? fun f => f.1 = l).isSome = true :=
      List.find?_isSome.2 ⟨(l, e), hmem, by simp⟩
    obtain ⟨f, hf⟩ := Option.isSome_iff_exists.1 hsome
    have hkey : f.1 = l := by simpa using List.find?_some hf
    have hfe : f = (l, e) :=
      List.inj_on_of_nodup_map fs.nodup (List.mem_of_find?_eq_some hf) hmem hkey
    exact ⟨f, hf, by rw [hfe]⟩

theorem WellNamed.isName_of_eq_some (h : fs.WellNamed) (he : fs.entry? l = some e) :
    ∀ name ∈ l, IsName name := by
  intro name hname
  have hl : l ≠ [] := List.ne_nil_of_mem hname
  exact h.names (l, e) ((entry?_eq_some_iff hl).1 he) name hname

theorem linkAt?_eq_some_iff {target : Text} :
    fs.linkAt? l = some target ↔ fs.entry? l = some (.link target) := by
  rw [linkAt?]
  split
  · next other ho => rw [ho, Option.some.injEq, Option.some.injEq, Entry.link.injEq]
  · next hno => exact iff_of_false (by simp) fun he => hno target he

theorem WellNamed.target_of_linkAt? {target : Text} (h : fs.WellNamed)
    (hl : fs.linkAt? l = some target) : nul ∉ target := by
  have he := linkAt?_eq_some_iff.1 hl
  have hne : l ≠ [] := by
    rintro rfl
    cases he
  exact h.targets (l, .link target) ((entry?_eq_some_iff hne).1 he)

theorem entry?_of_perm (h : gs.entries.Perm fs.entries) : gs.entry? l = fs.entry? l := by
  by_cases hl : l = []
  · rw [hl]
    rfl
  · refine Option.ext fun e => ?_
    rw [entry?_eq_some_iff hl, entry?_eq_some_iff hl, h.mem_iff]

/-! ## Steps -/

/-- The two things that can happen at a step, told without the steps behind it. -/
theorem walk_induction (fs : FileSystem) {motive : Nat → Location → List Text → Prop}
    (nil : ∀ links here, motive links here [])
    (refused : ∀ links here step steps r, r ≠ .isADirectory →
      (∀ more, fs.walk links here (step :: more) = .error r) → motive links here (step :: steps))
    (moved : ∀ links here step steps left there added,
      (∀ more, fs.walk links here (step :: more) = fs.walk left there (added ++ more)) →
      motive left there (added ++ steps) → motive links here (step :: steps))
    (links : Nat) (here : Location) (steps : List Text) : motive links here steps := by
  induction links, here, steps using walk.induct fs with
  | case1 links here => exact nil links here
  | case2 links here step steps hd =>
    exact refused _ _ _ _ .notADirectory (by simp) fun more => by rw [walk, if_pos hd]
  | case3 links here steps hd ih =>
    exact moved _ _ _ _ links here [] (fun more => by rw [walk, if_neg hd, if_pos rfl]; rfl) ih
  | case4 links here steps hd hdot ih =>
    exact moved _ _ _ _ links here.dropLast []
      (fun more => by rw [walk, if_neg hd, if_neg hdot, if_pos rfl]; rfl) ih
  | case5 links here step steps hd hdot hdots hlen =>
    exact refused _ _ _ _ .nameTooLong (by simp)
      fun more => by rw [walk, if_neg hd, if_neg hdot, if_neg hdots, if_pos hlen]
  | case6 links here step steps hd hdot hdots hlen he =>
    exact refused _ _ _ _ .notFound (by simp)
      fun more => by rw [walk, if_neg hd, if_neg hdot, if_neg hdots, if_neg hlen, he]
  | case7 here step steps hd hdot hdots hlen target he =>
    exact refused _ _ _ _ .tooManyLinks (by simp)
      fun more => by rw [walk, if_neg hd, if_neg hdot, if_neg hdots, if_neg hlen, he]
  | case8 here step steps hd hdot hdots hlen target he links ih =>
    exact moved _ _ _ _ links (originOf here target) (stepsOf target)
      (fun more => by rw [walk, if_neg hd, if_neg hdot, if_neg hdots, if_neg hlen, he]) ih
  | case9 links here step steps hd hdot hdots hlen e hl he ih =>
    -- a file is walked onto as well; only the next step is refused there
    refine moved _ _ _ _ links (here ++ [step]) [] (fun more => ?_) ih
    rw [walk, if_neg hd, if_neg hdot, if_neg hdots, if_neg hlen, he]
    cases e with
    | file bytes => rfl
    | directory => rfl
    | link target => exact absurd rfl (hl target)

theorem walk_cons_link {step target : Text} (hd : fs.isDirectory here = true) (hs : IsPlain step)
    (hl : fs.linkAt? (here ++ [step]) = some target) :
    fs.walk (links + 1) here (step :: steps) =
      fs.walk links (originOf here target) (stepsOf target ++ steps) := by
  obtain ⟨hdot, hdots, hlen⟩ := hs
  rw [walk, hd, if_neg (by simp), if_neg hdot, if_neg hdots, if_neg (Nat.not_lt.2 hlen),
    linkAt?_eq_some_iff.1 hl]

theorem walk_cons_nameTooLong {step : Text} (hd : fs.isDirectory here = true)
    (hlen : maxNameBytes < byteLength step) :
    fs.walk links here (step :: steps) = .error .nameTooLong := by
  have hdot : step ≠ ['.'] := by
    rintro rfl
    revert hlen
    decide
  have hdots : step ≠ ['.', '.'] := by
    rintro rfl
    revert hlen
    decide
  rw [walk, hd, if_neg (by simp), if_neg hdot, if_neg hdots, if_pos hlen]

/-- Where a walk ends the rest of a longer walk starts, with the links that are left. -/
theorem exists_walk_append (h : fs.walk links here steps = .ok there) :
    ∃ left, ∀ more, fs.walk links here (steps ++ more) = fs.walk left there more := by
  induction links, here, steps using walk_induction fs with
  | nil links here =>
    rw [walk, Except.ok.injEq] at h
    exact ⟨links, fun more => by rw [h, List.nil_append]⟩
  | refused links here step steps r _ hr => cases (hr steps).symm.trans h
  | moved links here step steps left after added hm ih =>
    obtain ⟨rest, hrest⟩ := ih ((hm steps).symm.trans h)
    refine ⟨rest, fun more => ?_⟩
    rw [List.cons_append, hm, ← List.append_assoc, hrest]

theorem walk_ne_isADirectory : fs.walk links here steps ≠ .error .isADirectory := by
  induction links, here, steps using walk_induction fs with
  | nil links here => simp [walk]
  | refused links here step steps r hne hr => simpa [hr steps] using hne
  | moved links here step steps left after added hm ih => rwa [hm steps]

theorem walk_of_perm (h : gs.entries.Perm fs.entries) :
    gs.walk links here steps = fs.walk links here steps := by
  have hdir (l : Location) : gs.isDirectory l = fs.isDirectory l := by
    rw [isDirectory, isDirectory, entry?_of_perm h]
  induction links, here, steps using walk.induct fs with
  | case1 links here => rw [walk, walk]
  | case9 links here step steps hd hdot hdots hlen e hl he ih =>
    rw [walk, walk, hdir, entry?_of_perm h, he]
    cases e with
    | file bytes => simp only [ih, hdot, hdots, if_false]
    | directory => simp only [ih, hdot, hdots, if_false]
    | link target => exact absurd rfl (hl target)
  | _ =>
    rw [walk, walk, hdir, entry?_of_perm h]
    simp_all

/-! ## Ends -/

/-- Where a walk can stand: at an entry that is not a link, with directories above it. -/
structure IsReached (fs : FileSystem) (l : Location) : Prop where
  entry : ∃ e, fs.entry? l = some e ∧ ∀ target, e ≠ .link target
  above : ∀ up, up <+: l → up ≠ l → fs.isDirectory up = true

theorem isReached_root (fs : FileSystem) : fs.IsReached [] where
  entry := ⟨.directory, rfl, nofun⟩
  above _ hup hne := absurd (List.prefix_nil.1 hup) hne

theorem IsReached.dropLast (h : fs.IsReached here) : fs.IsReached here.dropLast := by
  by_cases hnil : here = []
  · rwa [hnil, List.dropLast_nil, ← hnil]
  · have hshort : here.dropLast ≠ here := fun heq => by
      have hlt := List.length_pos_iff.2 hnil
      have hlen := congrArg List.length heq
      rw [List.length_dropLast] at hlen
      omega
    have hd := h.above _ (List.dropLast_prefix here) hshort
    refine ⟨⟨.directory, of_decide_eq_true hd, nofun⟩, fun up hup hne => ?_⟩
    refine h.above up (hup.trans (List.dropLast_prefix here)) fun heq => ?_
    exact hne (hup.eq_of_length_le (by simp [heq]))

theorem IsReached.concat {step : Text} (h : fs.IsReached here) (hd : fs.isDirectory here = true)
    (he : fs.entry? (here ++ [step]) = some e) (hl : ∀ target, e ≠ .link target) :
    fs.IsReached (here ++ [step]) := by
  refine ⟨⟨e, he, hl⟩, fun up hup hne => ?_⟩
  rcases List.prefix_concat_iff.1 hup with heq | hup
  · exact absurd heq hne
  · by_cases hhere : up = here
    · rwa [hhere]
    · exact h.above up hup hhere

theorem IsReached.originOf {target : Text} (h : fs.IsReached here) :
    fs.IsReached (originOf here target) := by
  rw [FileSystem.originOf]
  split
  · exact fs.isReached_root
  · exact h

theorem IsReached.walk (h : fs.IsReached here) (hw : fs.walk links here steps = .ok there) :
    fs.IsReached there := by
  induction links, here, steps using walk.induct fs with
  | case1 links here =>
    rw [FileSystem.walk, Except.ok.injEq] at hw
    rwa [← hw]
  | case2 links here step steps hd =>
    rw [FileSystem.walk, if_pos hd] at hw
    cases hw
  | case3 links here steps hd ih =>
    rw [FileSystem.walk, if_neg hd, if_pos rfl] at hw
    exact ih h hw
  | case4 links here steps hd hdot ih =>
    rw [FileSystem.walk, if_neg hd, if_neg hdot, if_pos rfl] at hw
    exact ih h.dropLast hw
  | case5 links here step steps hd hdot hdots hlen =>
    rw [FileSystem.walk, if_neg hd, if_neg hdot, if_neg hdots, if_pos hlen] at hw
    cases hw
  | case6 links here step steps hd hdot hdots hlen he =>
    rw [FileSystem.walk, if_neg hd, if_neg hdot, if_neg hdots, if_neg hlen, he] at hw
    cases hw
  | case7 here step steps hd hdot hdots hlen target he =>
    rw [FileSystem.walk, if_neg hd, if_neg hdot, if_neg hdots, if_neg hlen, he] at hw
    cases hw
  | case8 here step steps hd hdot hdots hlen target he links ih =>
    rw [FileSystem.walk, if_neg hd, if_neg hdot, if_neg hdots, if_neg hlen, he] at hw
    exact ih h.originOf hw
  | case9 links here step steps hd hdot hdots hlen e hl he ih =>
    have hdir : fs.isDirectory here = true := by simpa using hd
    refine ih (h.concat hdir he fun target ht => hl target ht) ?_
    rw [FileSystem.walk, if_neg hd, if_neg hdot, if_neg hdots, if_neg hlen, he] at hw
    cases e with
    | file bytes => exact hw
    | directory => exact hw
    | link target => exact absurd rfl (hl target)

/-! ## Paths -/

variable {p directory : Path} {r : Refusal}

theorem status_ne_isADirectory : fs.status p ≠ .error .isADirectory := by
  rw [status, Ne, map_eq_error_iff, locate]
  split
  · simp
  · exact walk_ne_isADirectory

/-- An absolute path leads to a file or a directory, if anywhere. -/
theorem exists_entry_of_status {found : Option Entry} (hp : p.isAbsolute = true)
    (h : fs.status p = .ok found) : ∃ e, found = some e ∧ ∀ target, e ≠ .link target := by
  rw [status, map_eq_ok_iff] at h
  obtain ⟨there, hl, rfl⟩ := h
  rw [locate] at hl
  split at hl
  · cases hl
  · rw [origin, if_pos hp] at hl
    exact (fs.isReached_root.walk hl).entry

theorem locate_of_perm (hw : gs.working = fs.working) (h : gs.entries.Perm fs.entries) :
    gs.locate p = fs.locate p := by
  have horigin : gs.origin p = fs.origin p := by rw [origin, origin, hw]
  rw [locate, locate, horigin, walk_of_perm h]

theorem status_of_perm (hw : gs.working = fs.working) (h : gs.entries.Perm fs.entries) :
    gs.status p = fs.status p := by
  have hentry : gs.entry? = fs.entry? := funext fun l => entry?_of_perm h
  rw [status, status, locate_of_perm hw h, hentry]

/-- Below a directory, names that lead on without a link lead to what stands there. -/
theorem status_below {parts : List Text} (hl : fs.locate directory = .ok l)
    (hlen : byteLength (directory.below parts).toText ≤ maxPathBytes) (hp : fs.Leads l parts) :
    fs.status (directory.below parts) = .ok (fs.entry? (l ++ parts)) := by
  have hwalk : fs.walk maxLinks (fs.origin directory) directory.parts = .ok l := by
    rw [locate] at hl
    split at hl
    · cases hl
    · exact hl
  obtain ⟨left, hleft⟩ := exists_walk_append hwalk
  have hlocate : fs.locate (directory.below parts) = .ok (l ++ parts) := by
    rw [locate, if_neg (Nat.not_lt.2 hlen)]
    exact (hleft parts).trans (walk_of_leads left hp)
  rw [status, hlocate]
  rfl

/-- The path of a link in a directory leads where the target of the link leads from there. -/
theorem locate_link {p : Path} (names : List Text) {step target : Text}
    (hp : p.parts = names ++ [step]) (hlen : byteLength p.toText ≤ maxPathBytes)
    (hn : fs.Leads (fs.origin p) names)
    (hd : fs.isDirectory (fs.origin p ++ names) = true) (hs : IsPlain step)
    (hl : fs.linkAt? (fs.origin p ++ names ++ [step]) = some target) :
    fs.locate p =
      fs.walk (maxLinks - 1) (originOf (fs.origin p ++ names) target) (stepsOf target) := by
  rw [locate, if_neg (Nat.not_lt.2 hlen), hp, walk_append_of_leads maxLinks hn]
  change fs.walk (maxLinks - 1 + 1) _ _ = _
  rw [walk_cons_link hd hs hl, List.append_nil]

/-- Where no further link is met, that is what stands there. -/
theorem status_link {p : Path} (names : List Text) {step target : Text}
    (hp : p.parts = names ++ [step]) (hlen : byteLength p.toText ≤ maxPathBytes)
    (hn : fs.Leads (fs.origin p) names) (hd : fs.isDirectory (fs.origin p ++ names) = true)
    (hs : IsPlain step) (hl : fs.linkAt? (fs.origin p ++ names ++ [step]) = some target)
    (ht : fs.Leads (originOf (fs.origin p ++ names) target) (stepsOf target)) :
    fs.status p =
      .ok (fs.entry? (originOf (fs.origin p ++ names) target ++ stepsOf target)) := by
  rw [status, locate_link names hp hlen hn hd hs hl, walk_of_leads _ ht]
  rfl

end FileSystem

/-! ## Texts of paths -/

theorem Path.nul_mem_toText_iff {p : Path} :
    nul ∈ p.toText ↔ nul ∈ p.root ∨ ∃ part ∈ p.parts, nul ∈ part := by
  rw [toText]
  split
  · next h =>
    rw [h.1, h.2]
    simp [nul]
  · rw [List.mem_append, Text.mem_join (by decide)]

end SourceSurvey
