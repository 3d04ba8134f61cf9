import SourceSurvey.Proofs.CommandLine.Arguments
import SourceSurvey.Proofs.CommandLine.Console
import SourceSurvey.Proofs.Discovery.Files
import SourceSurvey.Proofs.Survey.Faults

/-!
# How runs end

A run that takes up a command can fail while it expands its paths, while it surveys the sources or
while it reads rows (`Fails`), or it finds what it looks for (`Finds`); all other runs end before
that (`Idle`, `perform_cases`). Failures are reported as a text, with two gaps (`Escapes`): a scan
reports no failure of the expansion of its paths, and no command reports an empty exclude pattern.
Besides, no command reports that the console refuses what it is given (`run_outcome`).
-/

namespace SourceSurvey.CommandLine

open FileSystem (NulFree)

variable {fs : FileSystem} {args arguments excluded : List Text} {arg : Text} {p : Path}
  {paths files : List Path} {f : Fault} {elapsed : Text}

/-! ## Expansion -/

theorem isDirectoryPath_iff : isDirectoryPath fs p = true ↔
    fs.status p = .ok (some .directory) := by
  rw [isDirectoryPath]
  split
  · next h => exact iff_of_true rfl h
  · next h => exact iff_of_false (by simp) h

/-- An entry below the directory has a path that is too long for the system. -/
def HasTooLong (fs : FileSystem) (p : Path) : Prop :=
  ∃ location parts, Discovery.IsBase fs p location ∧ Discovery.IsTooLong fs p location parts

theorem discover_of_isDirectoryPath (hw : fs.WellNamed) (hn : nul ∉ p.toText)
    (hd : isDirectoryPath fs p = true) (excluded : List Text) (x : Survey.Extensions) :
    (∀ f, Discovery.discover fs x excluded p = .error f →
      (f = .emptyPattern ∧ ¬Discovery.NoneEmpty excluded) ∨
        (HasTooLong fs p ∧ ∃ path, f = .refused .nameTooLong path)) ∧
    (∀ found, Discovery.discover fs x excluded p = .ok found → ∀ q ∈ found, nul ∉ q.toText) := by
  obtain ⟨location, hb⟩ := Discovery.exists_isBase hn (isDirectoryPath_iff.1 hd)
  constructor
  · intro f h
    rcases Discovery.discover_fault hw hb h with ⟨parts, hl, hf⟩ | hempty
    · exact .inr ⟨⟨location, parts, hb, hl⟩, _, hf⟩
    · exact .inl hempty
  · intro found h q hq
    obtain ⟨parts, hr, rfl⟩ := Discovery.reached_of_mem_discover hb h hq
    exact Discovery.nul_notMem_below hw hb hr

theorem expand_fault (hw : fs.WellNamed) (hn : ∀ p ∈ paths, nul ∉ p.toText)
    (h : expand fs excluded paths = .error f) :
    (f = .emptyPattern ∧ ¬Discovery.NoneEmpty excluded) ∨
      ((∃ p ∈ paths, HasTooLong fs p) ∧ ∃ path, f = .refused .nameTooLong path) := by
  induction paths with
  | nil => cases h
  | cons p paths ih =>
    obtain ⟨hp, hrest⟩ := List.forall_mem_cons.1 hn
    rw [expand] at h
    split at h
    · next g hg =>
      rw [Except.error.injEq] at h
      split at hg
      · next hd =>
        exact ((discover_of_isDirectoryPath hw hp hd _ _).1 f (h ▸ hg)).imp_right
          (And.imp_left fun hl => ⟨p, List.mem_cons_self, hl⟩)
      · cases hg
    · refine (ih hrest (map_eq_error_iff.1 h)).imp_right (And.imp_left ?_)
      rintro ⟨q, hq, hl⟩
      exact ⟨q, List.mem_cons_of_mem p hq, hl⟩

theorem nul_notMem_of_expand (hw : fs.WellNamed) (hn : ∀ p ∈ paths, nul ∉ p.toText)
    (h : expand fs excluded paths = .ok files) : ∀ p ∈ files, nul ∉ p.toText := by
  induction paths generalizing files with
  | nil =>
    rw [expand, Except.ok.injEq] at h
    rw [← h]
    exact fun p hp => absurd hp List.not_mem_nil
  | cons p paths ih =>
    obtain ⟨hp, hrest⟩ := List.forall_mem_cons.1 hn
    rw [expand] at h
    split at h
    · cases h
    · next found hfound =>
      have hfree : ∀ q ∈ found, nul ∉ q.toText := by
        split at hfound
        · next hd => exact (discover_of_isDirectoryPath hw hp hd _ _).2 found hfound
        · rw [← Except.ok.inj hfound]
          exact fun q hq => by rwa [List.mem_singleton.1 hq]
      obtain ⟨files, he, rfl⟩ := map_eq_ok_iff.1 h
      exact List.forall_mem_append.2 ⟨hfree, ih hrest he⟩

/-! ## Failures -/

inductive Stage where
  | expanding
  | surveying
  | reading
  deriving DecidableEq, Repr

/-- What goes wrong at a stage of the command that the invocation asks for. -/
inductive Fails (fs : FileSystem) : Invocation → Stage → Fault → Prop where
  | expanding {arguments excluded : List Text} {paths : List Path} {f : Fault}
      (hp : allExisting fs .anything arguments = .ok paths)
      (h : expand fs excluded paths = .error f) :
      Fails fs (.run .scan arguments excluded) .expanding f
  | scanning {arguments excluded : List Text} {paths files : List Path} {f : Fault}
      (hp : allExisting fs .anything arguments = .ok paths)
      (he : expand fs excluded paths = .ok files)
      (h : Survey.ofFiles fs .standard files = .error f) :
      Fails fs (.run .scan arguments excluded) .surveying f
  | graphing {arg : Text} {excluded : List Text} {p : Path} {f : Fault}
      (hp : existing fs .directory arg = .ok p)
      (h : Survey.ofDirectory fs excluded p = .error f) :
      Fails fs (.run .graph [arg] excluded) .surveying f
  | reading {arg : Text} {excluded : List Text} {p : Path} {f : Fault}
      (hp : existing fs .other arg = .ok p) (h : Csv.ofFile fs p = .error f) :
      Fails fs (.run .data [arg] excluded) .reading f

variable {stage : Stage} {inv : Invocation}

/-! ## Commands -/

theorem perform_scan (harguments : arguments ≠ [])
    (hp : allExisting fs .anything arguments = .ok paths) :
    perform fs elapsed (.run .scan arguments excluded) = scan fs elapsed paths excluded := by
  rw [perform, runScan, if_neg (by simpa using harguments), hp]

theorem perform_graph (hp : existing fs .directory arg = .ok p) :
    perform fs elapsed (.run .graph [arg] excluded) = graph fs p excluded := by
  rw [perform, runOnPath, hp]
  rfl

theorem perform_data (hp : existing fs .other arg = .ok p) :
    perform fs elapsed (.run .data [arg] excluded) = data fs p := by
  rw [perform, runOnPath, hp]
  rfl

/-- Without arguments there is nothing that a scan could fail with. -/
theorem ne_nil_of_fails (h : Fails fs (.run .scan arguments excluded) stage f) :
    arguments ≠ [] := by
  rintro rfl
  cases h with
  | expanding hp h =>
    rw [allExisting, Except.ok.injEq] at hp
    rw [← hp] at h
    cases h
  | scanning hp he h =>
    rw [allExisting, Except.ok.injEq] at hp
    rw [← hp, expand, Except.ok.injEq] at he
    rw [← he] at h
    cases h

/-! ## Failing commands -/

theorem perform_expanding (hp : allExisting fs .anything arguments = .ok paths)
    (h : expand fs excluded paths = .error f) :
    perform fs elapsed (.run .scan arguments excluded) = .unreportedFault f := by
  rw [perform_scan (ne_nil_of_fails (.expanding hp h)) hp, scan, h]

theorem perform_scanning (hp : allExisting fs .anything arguments = .ok paths)
    (he : expand fs excluded paths = .ok files)
    (h : Survey.ofFiles fs .standard files = .error f) :
    perform fs elapsed (.run .scan arguments excluded) = ofFault f := by
  rw [perform_scan (ne_nil_of_fails (.scanning hp he h)) hp, scan, he]
  simp only [h]

theorem perform_graphing (hp : existing fs .directory arg = .ok p)
    (h : Survey.ofDirectory fs excluded p = .error f) :
    perform fs elapsed (.run .graph [arg] excluded) = ofFault f := by
  rw [perform_graph hp, graph, h]

theorem perform_reading (hp : existing fs .other arg = .ok p) (h : Csv.ofFile fs p = .error f)
    (hf : ∀ g, f ≠ .undecodable g) :
    perform fs elapsed (.run .data [arg] excluded) = ofFault f := by
  rw [perform_data hp, data, h]
  cases f with
  | undecodable g => exact absurd rfl (hf g)
  | _ => rfl

/-- Of bytes that cannot be decoded it is also said where they are. -/
theorem perform_undecodable {g : Text.Utf8.Fault} (hp : existing fs .other arg = .ok p)
    (h : Csv.ofFile fs p = .error (.undecodable g)) :
    perform fs elapsed (.run .data [arg] excluded) = .failure [errorText
      (Text.Markup.escape p.toText ++ ": ".toList ++ Text.Markup.escape g.message)] := by
  rw [perform_data hp, data, h]

/-! ## Findings -/

/-- What a command prints, if nothing fails. -/
inductive Finding where
  | survey (s : Survey)
  | graph (g : IncludeGraph)
  | data (name : Text) (rows : List Csv.Row)

def Finding.outcome (elapsed : Text) : Finding → Outcome
  | .survey s => .success (surveyPrinted elapsed s)
  | .graph g =>
    match g.buildOrder with
    | .error _ => .failure (cyclesPrinted g)
    | .ok order => .success [.table (graphTable g order), .text (graphSummary g)]
  | .data name rows => .success [.table (dataTable name rows)]

/-- What the command that the invocation asks for finds. -/
inductive Finds (fs : FileSystem) : Invocation → Finding → Prop where
  | scanning {arguments excluded : List Text} {paths files : List Path} {s : Survey}
      (harguments : arguments ≠ []) (hp : allExisting fs .anything arguments = .ok paths)
      (he : expand fs excluded paths = .ok files)
      (h : Survey.ofFiles fs .standard files = .ok s) :
      Finds fs (.run .scan arguments excluded) (.survey s)
  | graphing {arg : Text} {excluded : List Text} {p : Path} {s : Survey}
      (hp : existing fs .directory arg = .ok p) (h : Survey.ofDirectory fs excluded p = .ok s) :
      Finds fs (.run .graph [arg] excluded) (.graph (.ofRecords s.records))
  | reading {arg : Text} {excluded : List Text} {p : Path} {rows : List Csv.Row}
      (hp : existing fs .other arg = .ok p) (h : Csv.ofFile fs p = .ok rows) :
      Finds fs (.run .data [arg] excluded) (.data p.name rows)

/-- How a run ends that takes up no command or does not get beyond the path arguments. -/
inductive Idle (fs : FileSystem) (inv : Invocation) : Outcome → Prop where
  | misuse : Idle fs inv .misuse
  | help : Idle fs inv (.success [])
  | version : Idle fs inv (.success [versionText])
  | argument {wanted : Wanted} {arg : Text} {o : Outcome} (harg : arg ∈ inv.pathArguments)
      (h : existing fs wanted arg = .error o) : Idle fs inv o

theorem perform_of_finds {r : Finding} (h : Finds fs inv r) :
    perform fs elapsed inv = r.outcome elapsed := by
  cases h with
  | @scanning arguments excluded paths files s harguments hp he h =>
    rw [perform_scan harguments hp, scan, he]
    simp only [h]
    rfl
  | graphing hp h =>
    rw [perform_graph hp, graph, h]
    rfl
  | reading hp h =>
    rw [perform_data hp, data, h]
    rfl

/-- A command that takes one path is performed on it, or the run ends before. -/
theorem runOnPath_cases (fs : FileSystem) (wanted : Wanted) (command : Path → Outcome)
    (verb : Verb) (arguments excluded : List Text) :
    (∃ arg p, arguments = [arg] ∧ existing fs wanted arg = .ok p) ∨
      Idle fs (.run verb arguments excluded) (runOnPath fs wanted command arguments) := by
  cases arguments with
  | nil => exact .inr .misuse
  | cons arg others =>
    rw [runOnPath]
    cases he : existing fs wanted arg with
    | error o => exact .inr (.argument List.mem_cons_self he)
    | ok p =>
      cases others with
      | nil => exact .inl ⟨arg, p, rfl, he⟩
      | cons other others => exact .inr .misuse

theorem runScan_cases (fs : FileSystem) (elapsed : Text) (arguments excluded : List Text) :
    (∃ paths, arguments ≠ [] ∧ allExisting fs .anything arguments = .ok paths) ∨
      Idle fs (.run .scan arguments excluded) (runScan fs elapsed arguments excluded) := by
  by_cases harguments : arguments = []
  · rw [harguments]
    exact .inr .misuse
  · rw [runScan, if_neg (by simpa using harguments)]
    cases hp : allExisting fs .anything arguments with
    | error o =>
      obtain ⟨arg, harg, ho⟩ := exists_of_allExisting_eq_error hp
      exact .inr (.argument harg ho)
    | ok paths => exact .inl ⟨paths, harguments, rfl⟩

/-- A run fails, finds something or ends before that. -/
theorem perform_cases (fs : FileSystem) (elapsed : Text) (inv : Invocation) :
    (∃ stage f, Fails fs inv stage f) ∨ (∃ r, Finds fs inv r) ∨
      Idle fs inv (perform fs elapsed inv) := by
  cases inv with
  | help => exact .inr (.inr .help)
  | version => exact .inr (.inr .version)
  | misuse => exact .inr (.inr .misuse)
  | run verb arguments excluded =>
    cases verb with
    | scan =>
      rcases runScan_cases fs elapsed arguments excluded with ⟨paths, harguments, hp⟩ | hidle
      · cases he : expand fs excluded paths with
        | error f => exact .inl ⟨_, f, .expanding hp he⟩
        | ok files =>
          cases hs : Survey.ofFiles fs .standard files with
          | error f => exact .inl ⟨_, f, .scanning hp he hs⟩
          | ok s => exact .inr (.inl ⟨_, .scanning harguments hp he hs⟩)
      · exact .inr (.inr hidle)
    | graph =>
      rcases runOnPath_cases fs .directory (fun p => graph fs p excluded) .graph arguments
        excluded with ⟨arg, p, rfl, hp⟩ | hidle
      · cases hs : Survey.ofDirectory fs excluded p with
        | error f => exact .inl ⟨_, f, .graphing hp hs⟩
        | ok s => exact .inr (.inl ⟨_, .graphing hp hs⟩)
      · exact .inr (.inr hidle)
    | data =>
      rcases runOnPath_cases fs .other (data fs) .data arguments excluded with
        ⟨arg, p, rfl, hp⟩ | hidle
      · cases hs : Csv.ofFile fs p with
        | error f => exact .inl ⟨_, f, .reading hp hs⟩
        | ok rows => exact .inr (.inl ⟨_, .reading hp hs⟩)
      · exact .inr (.inr hidle)

/-! ## Reports -/

/-- The failures that no command reports. -/
def Escapes (stage : Stage) (f : Fault) : Prop := stage = .expanding ∨ f = .emptyPattern

instance (stage : Stage) (f : Fault) : Decidable (Escapes stage f) :=
  inferInstanceAs (Decidable (stage = .expanding ∨ f = .emptyPattern))

/-- The program prints the message of the fault as an error and ends with exit code 1. -/
def Reports (o : Outcome) (f : Fault) : Prop :=
  ∃ detail, Text.Markup.escape f.message <:+ detail ∧ o = .failure [errorText detail]

theorem Reports.exit {o : Outcome} (h : Reports o f) : o.unreported = none ∧ o.exitCode = 1 := by
  obtain ⟨detail, -, rfl⟩ := h
  exact ⟨rfl, rfl⟩

theorem ofFault_of_isExternal (h : f.IsExternal) :
    ofFault f = .failure [errorText (Text.Markup.escape f.message)] := by
  obtain ⟨e, rfl⟩ | ⟨r, path, rfl⟩ := h <;> rfl

theorem reports_of_isExternal (h : f.IsExternal) : Reports (ofFault f) f :=
  ⟨_, List.suffix_refl _, ofFault_of_isExternal h⟩

theorem not_escapes_of_isExternal (hs : stage ≠ .expanding) (hf : f.IsExternal) :
    ¬Escapes stage f := by
  rintro (h | rfl)
  · exact hs h
  · obtain ⟨e, h⟩ | ⟨r, path, h⟩ := hf <;> cases h

/-! ## The faults of each stage -/

theorem scanning_fault (hw : fs.WellNamed)
    (hp : allExisting fs .anything arguments = .ok paths)
    (he : expand fs excluded paths = .ok files)
    (h : Survey.ofFiles fs .standard files = .error f) : f.IsExternal :=
  Survey.ofFiles_fault (nul_notMem_of_expand hw (allExisting_eq_ok hw hp) he) h

theorem graphing_fault (hw : fs.WellNamed) (hp : existing fs .directory arg = .ok p)
    (h : Survey.ofDirectory fs excluded p = .error f) :
    f.IsExternal ∨ (f = .emptyPattern ∧ ¬Discovery.NoneEmpty excluded) := by
  obtain ⟨hfree, e, hs, ha⟩ := existing_eq_ok hw hp
  have hd : isDirectoryPath fs p = true := by
    rw [isDirectoryPath_iff, hs, of_decide_eq_true ha]
  obtain ⟨hfault, hfound⟩ := discover_of_isDirectoryPath hw hfree hd excluded .standard
  rw [Survey.ofDirectory] at h
  split at h
  · next g hg =>
    rw [Except.error.injEq] at h
    rcases hfault f (h ▸ hg) with hempty | ⟨-, path, hf⟩
    · exact .inr hempty
    · exact .inl (.inr ⟨_, path, hf⟩)
  · next found hg => exact .inl (Survey.ofFiles_fault (hfound found hg) h)

theorem reading_fault (hw : fs.WellNamed) (hp : existing fs .other arg = .ok p)
    (h : Csv.ofFile fs p = .error f) :
    (∃ g, f = .undecodable g) ∨ f.IsExternal :=
  (Csv.ofFile_fault (existing_eq_ok hw hp).1 h).imp_right fun hr => by
    obtain ⟨r, rfl⟩ := hr
    exact .inr ⟨r, _, rfl⟩

/-- A failure ends the run: it escapes or it is reported. -/
theorem perform_of_fails (hw : fs.WellNamed) (h : Fails fs inv stage f) :
    (Escapes stage f ∧ perform fs elapsed inv = .unreportedFault f) ∨
      (¬Escapes stage f ∧ Reports (perform fs elapsed inv) f) := by
  cases h with
  | @expanding arguments excluded paths f hp h =>
    exact .inl ⟨.inl rfl, perform_expanding hp h⟩
  | @scanning arguments excluded paths files f hp he h =>
    have hf := scanning_fault hw hp he h
    rw [perform_scanning hp he h]
    exact .inr ⟨not_escapes_of_isExternal (by simp) hf, reports_of_isExternal hf⟩
  | @graphing arg excluded p f hp h =>
    rw [perform_graphing hp h]
    rcases graphing_fault hw hp h with hf | ⟨rfl, -⟩
    · exact .inr ⟨not_escapes_of_isExternal (by simp) hf, reports_of_isExternal hf⟩
    · exact .inl ⟨.inr rfl, rfl⟩
  | @reading arg excluded p f hp h =>
    rcases reading_fault hw hp h with ⟨g, rfl⟩ | hf
    · rw [perform_undecodable hp h]
      refine .inr ⟨?_, _, List.suffix_append _ _, rfl⟩
      rintro (hs | hs) <;> cases hs
    · have hdecodable : ∀ g, f ≠ .undecodable g := by
        obtain ⟨e, rfl⟩ | ⟨r, path, rfl⟩ := hf <;> simp
      rw [perform_reading hp h hdecodable]
      exact .inr ⟨not_escapes_of_isExternal (by simp) hf, reports_of_isExternal hf⟩

/-- How a run ends in which nothing fails; cycles are listed where there is no build order. -/
inductive Settled : Outcome → Prop where
  | misuse : Settled .misuse
  | success (printed : List Printed) : Settled (.success printed)
  | cycles {g : IncludeGraph} {e : Defect} (h : g.buildOrder = .error e) :
      Settled (.failure (cyclesPrinted g))

theorem Settled.exit {o : Outcome} (h : Settled o) :
    o.unreported = none ∧ (o.exitCode = 0 ∨ o.exitCode = 1 ∨ o.exitCode = 2) := by
  cases h with
  | misuse => exact ⟨rfl, .inr (.inr rfl)⟩
  | success printed => exact ⟨rfl, .inl rfl⟩
  | cycles h => exact ⟨rfl, .inr (.inl rfl)⟩

theorem settled_outcome (elapsed : Text) (r : Finding) : Settled (r.outcome elapsed) := by
  cases r with
  | survey s => exact .success _
  | data name rows => exact .success _
  | graph g =>
    rw [Finding.outcome]
    split
    · next e h => exact .cycles h
    · exact .success _

theorem Idle.settled {o : Outcome} (hn : NulFree inv.pathArguments) (h : Idle fs inv o) :
    Settled o := by
  cases h with
  | misuse => exact .misuse
  | help => exact .success []
  | version => exact .success [versionText]
  | argument harg h =>
    rw [existing_eq_error (hn _ harg) h]
    exact .misuse

theorem settled_perform (hn : NulFree inv.pathArguments) (h : ∀ stage f, ¬Fails fs inv stage f) :
    Settled (perform fs elapsed inv) := by
  rcases perform_cases fs elapsed inv with ⟨stage, f, hf⟩ | ⟨r, hr⟩ | hidle
  · exact absurd hf (h stage f)
  · rw [perform_of_finds hr]
    exact settled_outcome elapsed r
  · exact hidle.settled hn

/-! ## Runs -/

theorem escapes_fault (hw : fs.WellNamed) (h : Fails fs inv stage f) (he : Escapes stage f) :
    (f = .emptyPattern ∧ ¬Discovery.NoneEmpty inv.patterns) ∨
      (stage = .expanding ∧ ∃ r path, f = .refused r path) := by
  cases h with
  | expanding hp h =>
    refine (expand_fault hw (allExisting_eq_ok hw hp) h).imp_right fun hf => ⟨rfl, ?_⟩
    obtain ⟨-, path, hpath⟩ := hf
    exact ⟨_, path, hpath⟩
  | scanning hp hx h =>
    exact absurd he (not_escapes_of_isExternal (by simp) (scanning_fault hw hp hx h))
  | graphing hp h =>
    rcases graphing_fault hw hp h with hf | hempty
    · exact absurd he (not_escapes_of_isExternal (by simp) hf)
    · exact .inl hempty
  | reading hp h =>
    rcases reading_fault hw hp h with ⟨g, rfl⟩ | hf
    · rcases he with hs | hs <;> cases hs
    · exact absurd he (not_escapes_of_isExternal (by simp) hf)

/-- Before anything is printed, an unreported fault is a failure that escapes. -/
theorem perform_ends (hw : fs.WellNamed) (hn : NulFree inv.pathArguments) :
    (∃ stage f, Fails fs inv stage f ∧ Escapes stage f ∧
      perform fs elapsed inv = .unreportedFault f) ∨
    ((perform fs elapsed inv).unreported = none ∧
      ((perform fs elapsed inv).exitCode = 0 ∨ (perform fs elapsed inv).exitCode = 1 ∨
        (perform fs elapsed inv).exitCode = 2)) := by
  by_cases h : ∃ stage f, Fails fs inv stage f
  · obtain ⟨stage, f, h⟩ := h
    rcases perform_of_fails hw h with ⟨he, ho⟩ | ⟨-, hr⟩
    · exact .inl ⟨stage, f, h, he, ho⟩
    · exact .inr ⟨hr.exit.1, .inr (.inl hr.exit.2)⟩
  · have hnone : ∀ stage f, ¬Fails fs inv stage f := fun stage f hf => h ⟨stage, f, hf⟩
    exact .inr (settled_perform hn hnone).exit

/-- What a failure that escapes leaves of a run is the same on every console. -/
theorem runOn_of_escapes (console : Console) (hw : fs.WellNamed)
    (h : Fails fs (.ofArguments args) stage f) (he : Escapes stage f) :
    runOn console fs elapsed args = .unreportedFault f := by
  rcases perform_of_fails hw h with ⟨-, ho⟩ | ⟨hno, -⟩
  · exact runOn_of_accepts ho console.accepts_nil
  · exact absurd he hno

/-- A run ends with a failure that escapes, at an item that the console refuses, or with nothing
unreported. -/
theorem runOn_ends (console : Console) (elapsed : Text) (hw : fs.WellNamed)
    (hn : NulFree (Invocation.ofArguments args).pathArguments) :
    let o := runOn console fs elapsed args
    (∃ stage f, Fails fs (.ofArguments args) stage f ∧ Escapes stage f ∧ o = .unreportedFault f) ∨
    (∃ before message, console.Refuses (run fs elapsed args).printed before message ∧
      o = ⟨1, before, some (.unprintable message)⟩) ∨
    (o.unreported = none ∧ (o.exitCode = 0 ∨ o.exitCode = 1 ∨ o.exitCode = 2)) := by
  intro o
  rcases console.accepts_or_refuses (run fs elapsed args).printed with h | ⟨before, message, h⟩
  · have hsame : o = run fs elapsed args := Outcome.on_of_accepts h
    rw [hsame]
    exact (perform_ends hw hn).imp_right .inr
  · exact .inr (.inl ⟨before, message, h, Outcome.on_of_refuses h⟩)

/-- What a run of the program on a console ends with; `sent` is what it gives to the console. -/
theorem run_outcome (console : Console) (elapsed : Text) (hw : fs.WellNamed)
    (ha : ∀ arg ∈ args, nul ∉ arg) :
    let sent := run fs elapsed args
    let o := runOn console fs elapsed args
    let inv := Invocation.ofArguments args
    (o.exitCode = 0 ∨ o.exitCode = 1 ∨ o.exitCode = 2) ∧
    (∀ f, o.unreported = some f ↔ (∃ stage, Fails fs inv stage f ∧ Escapes stage f) ∨
      ∃ before message, console.Refuses sent.printed before message ∧
        f = .unprintable message) ∧
    (console.Accepts sent.printed → o = sent) ∧
    (∀ before message, console.Refuses sent.printed before message →
      o = ⟨1, before, some (.unprintable message)⟩) ∧
    (∀ stage f, Fails fs inv stage f → ¬Escapes stage f → Reports sent f) ∧
    (∀ stage f, Fails fs inv stage f → Escapes stage f → o = .unreportedFault f ∧
      ((f = .emptyPattern ∧ ¬Discovery.NoneEmpty inv.patterns) ∨
        (stage = .expanding ∧ ∃ r path, f = .refused r path))) ∧
    ((∀ stage f, ¬Fails fs inv stage f) → Settled sent) := by
  intro sent o inv
  have hn : NulFree inv.pathArguments := fun arg harg => ha arg (pathArguments_subset args harg)
  have hrefuses (before : List Printed) (message : Text)
      (h : console.Refuses sent.printed before message) :
      o = ⟨1, before, some (.unprintable message)⟩ := Outcome.on_of_refuses h
  have hescapes (stage : Stage) (f : Fault) (h : Fails fs inv stage f) (he : Escapes stage f) :
      o = .unreportedFault f := runOn_of_escapes console hw h he
  have hends := runOn_ends console elapsed hw hn
  refine ⟨?_, fun f => ⟨fun ho => ?_, ?_⟩, fun h => Outcome.on_of_accepts h, hrefuses,
    fun stage f h he => ?_,
    fun stage f h he => ⟨hescapes stage f h he, escapes_fault hw h he⟩, settled_perform hn⟩
  · rcases hends with ⟨stage, f, -, -, ho⟩ | ⟨before, message, -, ho⟩ | hexit
    · exact .inr (.inl (congrArg Outcome.exitCode ho))
    · exact .inr (.inl (congrArg Outcome.exitCode ho))
    · exact hexit.2
  · rcases hends with ⟨stage, g, hf, he, hg⟩ | ⟨before, message, h, hg⟩ | hexit
    · have hsame : some g = some f := (congrArg Outcome.unreported hg).symm.trans ho
      cases hsame
      exact .inl ⟨stage, hf, he⟩
    · have hsame : some (Fault.unprintable message) = some f :=
        (congrArg Outcome.unreported hg).symm.trans ho
      cases hsame
      exact .inr ⟨before, message, h, rfl⟩
    · cases hexit.1.symm.trans ho
  · rintro (⟨stage, h, he⟩ | ⟨before, message, h, rfl⟩)
    · exact congrArg Outcome.unreported (hescapes stage f h he)
    · exact congrArg Outcome.unreported (hrefuses before message h)
  · rcases perform_of_fails hw h with ⟨hesc, -⟩ | ⟨-, hr⟩
    · exact absurd hesc he
    · exact hr

/-- Rows that cannot be decoded are reported. -/
theorem run_outcome_undecodable :
    let fs : FileSystem := ⟨[(["rows.csv".toList], .file [0xff])], [], by decide +kernel⟩
    ∃ g, Reports (runOn .plain fs [] ["data".toList, "rows.csv".toList]) (.undecodable g) := by
  intro fs
  have hw : fs.WellNamed := by decide +kernel
  have hinv : Invocation.ofArguments ["data".toList, "rows.csv".toList] =
      .run .data ["rows.csv".toList] [] := by decide +kernel
  have hp : existing fs .other "rows.csv".toList = .ok ⟨['/'], ["rows.csv".toList]⟩ :=
    existing_of_leads .other (.file [0xff]) (by decide +kernel) (by decide +kernel)
      (by decide +kernel) (by decide +kernel) (by decide +kernel) (by decide +kernel) rfl
  have hfile : fs.Holds ⟨['/'], ["rows.csv".toList]⟩ [0xff] := by decide +kernel
  obtain ⟨g, hg⟩ : ∃ g, Csv.ofFile fs ⟨['/'], ["rows.csv".toList]⟩ = .error (.undecodable g) := by
    rw [Csv.ofFile, FileSystem.readStrictly, FileSystem.readBytes_of_holds hfile]
    exact ⟨_, rfl⟩
  have hfails : Fails fs (.ofArguments ["data".toList, "rows.csv".toList]) .reading
      (.undecodable g) := by
    rw [hinv]
    exact .reading hp hg
  have hargs : ∀ arg ∈ ["data".toList, "rows.csv".toList], nul ∉ arg := by decide +kernel
  obtain ⟨-, -, haccepts, -, hreports, -⟩ := run_outcome .plain [] hw hargs
  have hnot : ¬Escapes .reading (.undecodable g) := by
    rintro (h | h) <;> cases h
  exact ⟨g, haccepts (Console.plain_accepts _) ▸ hreports .reading _ hfails hnot⟩

/-- An empty exclude pattern ends a run with a fault that is not reported. -/
theorem graph_leaves_emptyPattern_unreported :
    let fs : FileSystem := ⟨[(["src".toList], .directory),
      (["src".toList, "Foo.cpp".toList], .file [])], [], by decide +kernel⟩
    let args := ["graph".toList, "src".toList, "-e".toList, []]
    fs.WellNamed ∧ (∀ arg ∈ args, nul ∉ arg) ∧
      ∀ console, runOn console fs [] args = .unreportedFault .emptyPattern := by
  intro fs args
  have hw : fs.WellNamed := by decide +kernel
  have hinv : Invocation.ofArguments args = .run .graph ["src".toList] [[]] := by decide +kernel
  have hp : existing fs .directory "src".toList = .ok ⟨['/'], ["src".toList]⟩ :=
    existing_of_leads .directory .directory (by decide +kernel) (by decide +kernel)
      (by decide +kernel) (by decide +kernel) (by decide +kernel) (by decide +kernel) rfl
  have hlead : fs.Leads [] ["src".toList] := by decide +kernel
  have hb : Discovery.IsBase fs ⟨['/'], ["src".toList]⟩ ["src".toList] :=
    ⟨by decide +kernel, FileSystem.walk_of_leads FileSystem.maxLinks hlead, by decide +kernel⟩
  have hways : Discovery.waysBelow fs ["src".toList] = [["Foo.cpp".toList]] := by decide +kernel
  have hnone : ∀ parts, ¬Discovery.IsTooLong fs ⟨['/'], ["src".toList]⟩ ["src".toList] parts := by
    intro parts hl
    have hmem := Discovery.mem_waysBelow_iff.2 hl.1
    rw [hways, List.mem_singleton] at hmem
    subst hmem
    exact Discovery.not_isTooLong hw hb (by decide +kernel) (by decide +kernel) hl
  have hd : Discovery.discover fs .standard [[]] ⟨['/'], ["src".toList]⟩ =
      .error .emptyPattern := by
    refine Discovery.discover_eq_emptyPattern hw hb hnone (by decide +kernel)
      (Discovery.mem_waysBelow_iff.1 (by rw [hways]; exact List.mem_cons_self))
      (.inl ⟨[], by decide +kernel⟩) (by decide +kernel) ?_
    rintro ⟨name, hname, -⟩
    exact absurd hname List.not_mem_nil
  refine ⟨hw, by decide +kernel, fun console => ?_⟩
  have hrun : run fs [] args = .unreportedFault .emptyPattern := by
    rw [run, hinv, perform_graph hp, graph, Survey.ofDirectory, hd]
    rfl
  rw [runOn, hrun]
  exact Outcome.on_of_accepts console.accepts_nil

end SourceSurvey.CommandLine
