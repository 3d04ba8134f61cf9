import SourceSurvey.CommandLine.Command
import SourceSurvey.Proofs.FileSystem.RealPath

/-!
# What commands take as paths

The path arguments of a command stand among the arguments of the program (`pathArguments_subset`).
Each is replaced by its real path, which has no nul and leads to an entry; if one cannot be, the
arguments are misused and nothing else happens.
-/

namespace SourceSurvey.CommandLine

open FileSystem (NulFree)

variable {fs : FileSystem} {args arguments excluded : List Text} {arg : Text} {p : Path}
  {paths : List Path} {wanted : Wanted} {o : Outcome}

/-! ## Arguments -/

theorem others_subset {g : Grammar} {q : Parsed} (h : parse g args = some q) :
    q.others ⊆ args := by
  induction args using parse.induct g generalizing q with
  | case1 =>
    rw [parse, Option.some.injEq] at h
    rw [← h]
    exact List.Subset.refl []
  | case2 args =>
    rw [parse, if_pos rfl, Option.some.injEq] at h
    rw [← h]
    exact List.subset_cons_self _ args
  | case3 arg args hd ho hr => simp [parse, hd, ho, hr] at h
  | case4 arg args hd ho flags hr ih =>
    rw [parse, if_neg hd, if_pos ho, hr] at h
    obtain ⟨rest, hrest, rfl⟩ := Option.map_eq_some_iff.1 h
    have hothers : rest.others ⊆ args := ih hrest
    exact List.subset_cons_of_subset arg hothers
  | case5 arg args hd ho flags v hr ih =>
    rw [parse, if_neg hd, if_pos ho, hr] at h
    obtain ⟨rest, hrest, rfl⟩ := Option.map_eq_some_iff.1 h
    have hothers : rest.others ⊆ args := ih hrest
    exact List.subset_cons_of_subset arg hothers
  | case6 arg hd ho flags hr => simp [parse, hd, ho, hr] at h
  | case7 arg hd ho flags hr v args ih =>
    rw [parse, if_neg hd, if_pos ho, hr] at h
    obtain ⟨rest, hrest, rfl⟩ := Option.map_eq_some_iff.1 h
    have hothers : rest.others ⊆ args := ih hrest
    exact List.subset_cons_of_subset arg (List.subset_cons_of_subset v hothers)
  | case8 arg args hd ho hm ih =>
    rw [parse, if_neg hd, if_neg ho, if_pos hm] at h
    obtain ⟨rest, hrest, rfl⟩ := Option.map_eq_some_iff.1 h
    exact List.cons_subset_cons arg (ih hrest)
  | case9 arg args hd ho hm =>
    rw [parse, if_neg hd, if_neg ho, if_neg hm, Option.some.injEq] at h
    rw [← h]
    exact List.Subset.refl _

theorem ofUnknown_ne_run {verb : Verb} : ofUnknown args ≠ .run verb arguments excluded := by
  rw [ofUnknown]
  split
  · exact Invocation.noConfusion
  · split <;> exact Invocation.noConfusion

theorem subset_of_ofVerb {verb named : Verb}
    (h : ofVerb named args = .run verb arguments excluded) : arguments ⊆ args := by
  rw [ofVerb] at h
  split at h
  · cases h
  · next q hq =>
    split at h
    · cases h
    · injection h with _ harguments _
      rw [← harguments]
      exact others_subset hq

theorem subset_of_ofArguments {verb : Verb}
    (h : Invocation.ofArguments args = .run verb arguments excluded) : arguments ⊆ args := by
  rw [Invocation.ofArguments] at h
  cases hp : parse programGrammar args with
  | none => simp [hp] at h
  | some q =>
    simp only [hp] at h
    split at h
    · cases h
    · cases ho : q.others with
      | nil =>
        simp only [ho] at h
        split at h <;> cases h
      | cons name others =>
        simp only [ho] at h
        have hothers : others ⊆ args := by
          have hsub := others_subset hp
          rw [ho] at hsub
          exact (List.cons_subset.1 hsub).2
        split at h
        · exact absurd h ofUnknown_ne_run
        · split at h
          · cases h
          · exact List.Subset.trans (subset_of_ofVerb h) hothers

/-- The texts that a command takes as paths. -/
def Invocation.pathArguments : Invocation → List Text
  | .run _ arguments _ => arguments
  | _ => []

theorem pathArguments_subset (args : List Text) :
    (Invocation.ofArguments args).pathArguments ⊆ args := by
  cases h : Invocation.ofArguments args with
  | run verb arguments excluded => exact subset_of_ofArguments h
  | help => exact List.nil_subset args
  | version => exact List.nil_subset args
  | misuse => exact List.nil_subset args

/-- The patterns that a command leaves files out by. -/
def Invocation.patterns : Invocation → List Text
  | .run _ _ excluded => excluded
  | _ => []

/-! ## Path arguments -/

theorem nul_notMem_of_existing (h : existing fs wanted arg = .ok p) : nul ∉ arg := by
  intro hn
  rw [existing, if_pos hn] at h
  cases h

theorem existing_eq_ok (hw : fs.WellNamed) (h : existing fs wanted arg = .ok p) :
    nul ∉ p.toText ∧ ∃ e, fs.status p = .ok (some e) ∧ wanted.admits e = true := by
  have hn := nul_notMem_of_existing h
  rw [existing, if_neg hn] at h
  split at h
  · next e he =>
    split at h
    · next ha =>
      rw [Except.ok.injEq] at h
      rw [← h]
      exact ⟨hw.nul_notMem_realPath hn, e, he, ha⟩
    · cases h
  · cases h

/-- The path that a command reads rows from leads to a file. -/
theorem exists_file_of_existing (h : existing fs .other arg = .ok p) :
    ∃ bytes, fs.status p = .ok (some (.file bytes)) := by
  rw [existing, if_neg (nul_notMem_of_existing h)] at h
  split at h
  · next e he =>
    obtain ⟨_, hsome, hlink⟩ :=
      FileSystem.exists_entry_of_status (FileSystem.isAbsolute_realPath fs arg) he
    obtain rfl := Option.some.inj hsome
    split at h
    · next ha =>
      rw [Except.ok.injEq] at h
      rw [← h, he]
      cases e with
      | file bytes => exact ⟨bytes, rfl⟩
      | directory => cases ha
      | link target => exact absurd rfl (hlink target)
    · cases h
  · cases h

/-- An argument that leads through directories to an entry is its own real path. -/
theorem existing_of_leads {names : List Text} (wanted : Wanted) (e : Entry)
    (hs : FileSystem.stepsOf arg = names) (hn : nul ∉ arg)
    (ho : FileSystem.originOf fs.working arg = []) (hl : fs.Leads [] names)
    (hlen : FileSystem.byteLength (⟨['/'], names⟩ : Path).toText ≤ FileSystem.maxPathBytes)
    (he : fs.entry? names = some e) (ha : wanted.admits e = true) :
    existing fs wanted arg = .ok ⟨['/'], names⟩ := by
  subst hs
  have hstatus : fs.status ⟨['/'], FileSystem.stepsOf arg⟩ = .ok (some e) := by
    rw [FileSystem.status, FileSystem.locate, if_neg (Nat.not_lt.2 hlen), ← he]
    exact congrArg (Except.map fs.entry?) (FileSystem.walk_of_leads _ hl)
  rw [existing, if_neg hn, FileSystem.realPath_of_leads ho hl, hstatus]
  exact if_pos ha

theorem existing_eq_error (hn : nul ∉ arg)
    (h : existing fs wanted arg = .error o) : o = .misuse := by
  rw [existing, if_neg hn] at h
  split at h
  · split at h
    · cases h
    · exact (Except.error.inj h).symm
  · exact (Except.error.inj h).symm

theorem allExisting_eq_ok (hw : fs.WellNamed) (h : allExisting fs wanted args = .ok paths) :
    ∀ p ∈ paths, nul ∉ p.toText := by
  induction args generalizing paths with
  | nil =>
    rw [allExisting, Except.ok.injEq] at h
    rw [← h]
    exact fun p hp => absurd hp List.not_mem_nil
  | cons arg args ih =>
    rw [allExisting] at h
    cases he : existing fs wanted arg with
    | error o => simp [he] at h
    | ok p =>
      rw [he] at h
      obtain ⟨rest, hr, rfl⟩ := map_eq_ok_iff.1 h
      exact List.forall_mem_cons.2 ⟨(existing_eq_ok hw he).1, ih hr⟩

theorem exists_of_allExisting_eq_error (h : allExisting fs wanted args = .error o) :
    ∃ arg ∈ args, existing fs wanted arg = .error o := by
  induction args with
  | nil => cases h
  | cons arg args ih =>
    rw [allExisting] at h
    cases he : existing fs wanted arg with
    | error other =>
      rw [he, Except.error.injEq] at h
      exact ⟨arg, List.mem_cons_self, h ▸ he⟩
    | ok p =>
      rw [he] at h
      obtain ⟨other, hother, ho⟩ := ih (map_eq_error_iff.1 h)
      exact ⟨other, List.mem_cons_of_mem arg hother, ho⟩

end SourceSurvey.CommandLine
