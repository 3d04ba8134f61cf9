import SourceSurvey.Proofs.CommandLine.Layout
import SourceSurvey.Proofs.CommandLine.Outcome
import SourceSurvey.Proofs.IncludeGraph.Records
import SourceSurvey.Proofs.Survey.Directory

/-!
# What a graph prints

The rows of the table of an include graph tell what the records of the survey say: each class once,
after all that it leads to (`Tabulates`). For a graph with cycles these are printed instead, each
once, from one of its classes back to it (`ListsCycles`). So a run on a directory prints the table,
the cycles, or the report of the fault that ended the survey (`run_graph`).
-/

namespace SourceSurvey

open Relation

namespace CommandLine

open IncludeGraph (Lists mentions ListsCycles)

/-! ## Rows -/

/-- What is told of a class: whether it has a record, the classes it leads to and the libraries it
needs for them. -/
structure GraphRow where
  number : Nat
  name : Text
  recorded : Bool
  project : NameSet
  libraries : NameSet
  deriving DecidableEq, Repr

def namesCell (s : NameSet) : Text :=
  match s.names with
  | [] => dash
  | names => Text.commaSeparated names

/-- The row as it is printed, dimmed where there is no record. -/
def GraphRow.cells (r : GraphRow) : List Text :=
  [Text.ofNat r.number, if r.recorded then r.name else Text.Markup.dim r.name,
    namesCell r.project, namesCell r.libraries]

/-- The rows tell of the classes that the records mention, each once and after all that it leads
to. -/
structure Tabulates (ds : List Dependence) (rows : List GraphRow) : Prop where
  numbers : rows.map GraphRow.number = List.range' 1 rows.length
  nodup : (rows.map GraphRow.name).Nodup
  mem_iff : ∀ n, n ∈ rows.map GraphRow.name ↔ n ∈ mentions ds
  recorded : ∀ r ∈ rows, r.recorded = true ↔ ∃ d ∈ ds, d.className = r.name
  mem_project : ∀ r ∈ rows, ∀ m, m ∈ r.project ↔
    m ≠ r.name ∧ TransGen (Lists ds) r.name m
  before : ∀ earlier r later, rows = earlier ++ r :: later →
    ∀ m ∈ r.project, m ∈ earlier.map GraphRow.name
  mem_libraries : ∀ r ∈ rows, ∀ l, l ∈ r.libraries ↔
    ∃ d ∈ ds, (d.className = r.name ∨ d.className ∈ r.project) ∧ l ∈ d.libraries

variable {g : IncludeGraph} {ds : List Dependence} {order : List Text}

def graphRowOf (g : IncludeGraph) (number : Nat) (name : Text) : GraphRow :=
  ⟨number, name, (g.record? name).isSome, g.transitiveProject name, g.transitiveLibraries name⟩

def graphRows (g : IncludeGraph) (number : Nat) : List Text → List GraphRow
  | [] => []
  | name :: rest => graphRowOf g number name :: graphRows g (number + 1) rest

theorem map_name_graphRows (g : IncludeGraph) (number : Nat) (order : List Text) :
    (graphRows g number order).map GraphRow.name = order := by
  induction order generalizing number with
  | nil => rfl
  | cons name rest ih => rw [graphRows, List.map_cons, ih, graphRowOf]

theorem length_graphRows (g : IncludeGraph) (number : Nat) (order : List Text) :
    (graphRows g number order).length = order.length := by
  simpa using congrArg List.length (map_name_graphRows g number order)

theorem map_number_graphRows (g : IncludeGraph) (number : Nat) (order : List Text) :
    (graphRows g number order).map GraphRow.number = List.range' number order.length := by
  induction order generalizing number with
  | nil => rfl
  | cons name rest ih =>
    rw [graphRows, List.map_cons, ih, graphRowOf, List.length_cons, List.range'_succ]

theorem eq_of_mem_graphRows {number : Nat} {r : GraphRow} (h : r ∈ graphRows g number order) :
    r = graphRowOf g r.number r.name := by
  induction order generalizing number with
  | nil => cases h
  | cons name rest ih =>
    rw [graphRows, List.mem_cons] at h
    rcases h with rfl | h
    · rfl
    · exact ih h

/-! ## Cells -/

theorem orElse_listed {s : NameSet} (h : ∀ n ∈ s, n ≠ []) : orElse dash s.listed = namesCell s := by
  rw [NameSet.listed, orElse_commaSeparated dash h, namesCell]
  cases s.names <;> rfl

theorem graphRow_eq_cells {name : Text} (hp : ∀ m ∈ g.transitiveProject name, m ≠ [])
    (hl : ∀ l ∈ g.transitiveLibraries name, l ≠ []) (number : Nat) :
    graphRow g number name = (graphRowOf g number name).cells := by
  rw [graphRow, orElse_listed hp, orElse_listed hl]
  rfl

theorem numberedRows_graphRow (hp : ∀ n, ∀ m ∈ g.transitiveProject n, m ≠ [])
    (hl : ∀ n, ∀ l ∈ g.transitiveLibraries n, l ≠ []) (number : Nat) (order : List Text) :
    numberedRows (graphRow g) number order = (graphRows g number order).map GraphRow.cells := by
  induction order generalizing number with
  | nil => rfl
  | cons name rest ih =>
    rw [numberedRows, graphRows, List.map_cons, ih, graphRow_eq_cells (hp name) (hl name)]

/-! ## What is printed -/

theorem tabulates_graphRows (hn : (ds.map Dependence.className).Nodup)
    (ho : (IncludeGraph.ofRecords ds).IsBuildOrder order) :
    Tabulates ds (graphRows (.ofRecords ds) 1 order) := by
  have hshows := IncludeGraph.shows_ofRecords ds
  have hnames := map_name_graphRows (.ofRecords ds) 1 order
  have hreach {n m : Text} : m ∈ (IncludeGraph.ofRecords ds).transitiveProject n ↔
      m ≠ n ∧ TransGen (Lists ds) n m := by
    rw [IncludeGraph.mem_transitiveProject_iff hshows.wellFormed, IncludeGraph.includes_ofRecords]
  refine ⟨?_, ?_, fun n => ?_, fun r hr => ?_, fun r hr m => ?_, ?_, fun r hr l => ?_⟩
  · rw [map_number_graphRows, length_graphRows]
  · rw [hnames]
    exact ho.nodup
  · rw [hnames, ho.mem_iff, hshows.names_eq, List.mem_eraseDups]
  · rw [eq_of_mem_graphRows hr]
    exact IncludeGraph.isSome_record?_ofRecords hn
  · rw [eq_of_mem_graphRows hr]
    exact hreach
  · intro earlier r later hsplit m hm
    have hr : r ∈ graphRows (.ofRecords ds) 1 order := by simp [hsplit]
    rw [eq_of_mem_graphRows hr] at hm
    have horder : order = earlier.map GraphRow.name ++ r.name :: later.map GraphRow.name := by
      rw [← hnames, hsplit, List.map_append, List.map_cons]
    refine ho.mem_of_split horder ?_
    rw [IncludeGraph.includes_ofRecords]
    exact (hreach.1 hm).2
  · rw [eq_of_mem_graphRows hr]
    exact IncludeGraph.mem_transitiveLibraries_ofRecords hn

theorem Tabulates.length_eq {rows : List GraphRow} (h : Tabulates ds rows) :
    rows.length = {n | n ∈ mentions ds}.ncard := by
  have hcard : {n | n ∈ mentions ds}.ncard = (rows.map GraphRow.name).length :=
    IncludeGraph.ncard_setOf_mem h.nodup fun n => (h.mem_iff n).symm
  rw [hcard, List.length_map]

variable {fs : FileSystem} {args excluded : List Text} {arg : Text} {p : Path} {f : Fault}
  {s : Survey}

theorem graph_of_isCycle (h : Survey.ofDirectory fs excluded p = .ok s)
    (hc : ∃ c, (IncludeGraph.ofRecords s.records).IsCycle c) :
    graph fs p excluded = .failure (cyclesPrinted (.ofRecords s.records)) := by
  rw [graph, h]
  rcases IncludeGraph.buildOrder_eq (IncludeGraph.shows_ofRecords s.records).wellFormed with
    ⟨ha, -⟩ | ⟨-, herr⟩
  · exact absurd ha (IncludeGraph.not_acyclic_iff.2 hc)
  · simp only [herr]

theorem graph_of_acyclic (h : Survey.ofDirectory fs excluded p = .ok s)
    (hc : ¬∃ c, (IncludeGraph.ofRecords s.records).IsCycle c) :
    ∃ order, (IncludeGraph.ofRecords s.records).IsBuildOrder order ∧
      (IncludeGraph.ofRecords s.records).buildOrder = .ok order ∧
      graph fs p excluded = .success [.table (graphTable (.ofRecords s.records) order),
        .text (graphSummary (.ofRecords s.records))] := by
  rcases IncludeGraph.buildOrder_eq (IncludeGraph.shows_ofRecords s.records).wellFormed with
    ⟨-, ho, hok⟩ | ⟨ha, -⟩
  · refine ⟨_, ho, hok, ?_⟩
    rw [graph, h]
    simp only [hok]
  · exact absurd (IncludeGraph.not_acyclic_iff.1 ha) hc

/-- All names that a survey records to be included can be read in the table. -/
theorem graphTable_eq {paths : List Path} {x : Survey.Extensions}
    (hc : Survey.Covers fs x paths s) (order : List Text) :
    graphTable (.ofRecords s.records) order = ⟨some "Include Graph".toList,
      ["#", "Class", "Project dependencies", "Libraries"].map String.toList,
      (graphRows (.ofRecords s.records) 1 order).map GraphRow.cells⟩ := by
  rw [graphTable, numberedRows_graphRow]
  · intro n m hm
    obtain ⟨d, hd, hmd⟩ := IncludeGraph.exists_of_mem_transitiveProject hm
    exact hc.name_ne_nil hd (.inl hmd)
  · intro n l hl
    obtain ⟨d, hd, -, hl⟩ :=
      (IncludeGraph.mem_transitiveLibraries_ofRecords hc.keeps.nodup_records).1 hl
    exact hc.name_ne_nil hd (.inr hl)

/-! ## Runs -/

/-- A run on a directory reports the fault of the scan, or lists the cycles of the graph, each once,
or tells of every class what it leads to and what it needs, after all that it leads to. It ends so
if the console accepts what is printed. -/
theorem run_graph (console : Console) (elapsed : Text) (hw : fs.WellNamed)
    (hinv : Invocation.ofArguments args = .run .graph [arg] excluded)
    (hp : existing fs .directory arg = .ok p) (he : Discovery.NoneEmpty excluded) :
    (∀ f, Survey.ofDirectory fs excluded p = .error f →
      console.Accepts [errorText (Text.Markup.escape f.message)] →
      runOn console fs elapsed args = .failure [errorText (Text.Markup.escape f.message)]) ∧
    ∀ s, Survey.ofDirectory fs excluded p = .ok s →
      let g := IncludeGraph.ofRecords s.records
      (∀ a b, g.Includes a b ↔ Lists s.records a b) ∧
      ((∃ c, g.IsCycle c) → ∃ cycles printed, ListsCycles g cycles ∧
        printed = .text (bold " yellow".toList "⚠️  Include cycles found:".toList) ::
          cycles.map (fun c => .text ("   • ".toList ++ arrows (c ++ c.take 1))) ∧
        (console.Accepts printed → runOn console fs elapsed args = .failure printed)) ∧
      ((¬∃ c, g.IsCycle c) → ∃ rows printed, Tabulates s.records rows ∧
        g.buildOrder = .ok (rows.map GraphRow.name) ∧
        rows.length = {n | n ∈ mentions s.records}.ncard ∧
        printed = [.table ⟨some "Include Graph".toList,
            ["#", "Class", "Project dependencies", "Libraries"].map String.toList,
            rows.map GraphRow.cells⟩,
          .text ('\n' :: Text.Markup.dim (Text.ofNat rows.length ++ " classes, ".toList ++
            Text.ofNat {e : Edge | Lists s.records e.1 e.2}.ncard ++
            " project includes".toList))] ∧
        (console.Accepts printed → runOn console fs elapsed args = .success printed)) := by
  have hrun : run fs elapsed args = graph fs p excluded := by rw [run, hinv, perform_graph hp]
  refine ⟨fun f hf ha => runOn_of_accepts (hrun.trans ?_) ha,
    fun s hs => ⟨fun a b => ?_, fun hc => ?_, fun hc => ?_⟩⟩
  · rcases graphing_fault hw hp hf with hx | ⟨-, hempty⟩
    · rw [graph, hf]
      exact ofFault_of_isExternal hx
    · exact absurd he hempty
  · rw [IncludeGraph.includes_ofRecords]
  · have hwell := (IncludeGraph.shows_ofRecords s.records).wellFormed
    exact ⟨_, _, IncludeGraph.listsCycles_cycles hwell, rfl,
      fun ha => runOn_of_accepts (hrun.trans (graph_of_isCycle hs hc)) ha⟩
  · obtain ⟨paths, hcovers⟩ := Survey.exists_covers_of_ofDirectory hs
    obtain ⟨order, ho, hok, hgraph⟩ := graph_of_acyclic hs hc
    have htable := tabulates_graphRows hcovers.keeps.nodup_records ho
    have hnames := map_name_graphRows (.ofRecords s.records) 1 order
    refine ⟨_, _, htable, hnames.symm ▸ hok, htable.length_eq, rfl,
      fun ha => runOn_of_accepts (hrun.trans ?_) ha⟩
    rw [hgraph, graphTable_eq hcovers, graphSummary, IncludeGraph.edgeCount_ofRecords,
      ho.nodeCount_eq (IncludeGraph.shows_ofRecords s.records).wellFormed, length_graphRows]

/-- A class that has no file is dimmed and stands before the class that includes it. That a class
includes its own header does not show. -/
theorem run_graph_unrecorded :
    let fs : FileSystem := ⟨[(["src".toList], .directory),
      (["src".toList, "Main.cpp".toList], .file (Text.Utf8.encode
        "#include \"Main.h\"\n#include \"Timer.h\"\n#include <ctime>\n".toList))], [],
      by decide +kernel⟩
    ∃ earlier r later closing, runOn .plain fs [] ["graph".toList, "src".toList] = .success
        [.table ⟨some "Include Graph".toList,
          ["#", "Class", "Project dependencies", "Libraries"].map String.toList,
          (earlier ++ r :: later).map GraphRow.cells⟩, .text closing] ∧
      r.name = "Main".toList ∧ "Main".toList ∉ r.project ∧ "ctime".toList ∈ r.libraries ∧
      ∃ t ∈ earlier, t.name = "Timer".toList ∧ t.recorded = false := by
  intro fs
  let directory : Path := ⟨['/'], ["src".toList]⟩
  let main : Dependence := ⟨"Main".toList, NameSet.ofList ["Main".toList, "Timer".toList],
    NameSet.ofList ["ctime".toList]⟩
  have hw : fs.WellNamed := by decide +kernel
  have hinv : Invocation.ofArguments ["graph".toList, "src".toList] =
      .run .graph ["src".toList] [] := by decide +kernel
  have hlead : fs.Leads [] ["src".toList] := by decide +kernel
  have hp : existing fs .directory "src".toList = .ok directory :=
    existing_of_leads .directory .directory (by decide +kernel) (by decide +kernel)
      (by decide +kernel) hlead (by decide +kernel) (by decide +kernel) rfl
  have hb : Discovery.IsBase fs directory ["src".toList] :=
    ⟨by decide +kernel, FileSystem.walk_of_leads FileSystem.maxLinks hlead, by decide +kernel⟩
  have hempty : Discovery.NoneEmpty [] := by decide
  have hways : Discovery.waysBelow fs ["src".toList] = [["Main.cpp".toList]] := by decide +kernel
  have hdiscover : Discovery.discover fs .standard [] directory =
      .ok [directory.below ["Main.cpp".toList]] :=
    Discovery.discover_sole hw hb hways (by rfl) (by decide +kernel) (by decide +kernel)
  have hmain : Dependence.ofFile fs (directory.below ["Main.cpp".toList]) = .ok (some main) := by
    have hholds : fs.Holds (directory.below ["Main.cpp".toList]) (Text.Utf8.encode
        "#include \"Main.h\"\n#include \"Timer.h\"\n#include <ctime>\n".toList) := by
      decide +kernel
    rw [Dependence.ofFile, FileSystem.readSource, FileSystem.readBytes_of_holds hholds]
    decide +kernel
  have hs : Survey.ofDirectory fs [] directory = .ok ⟨[], [("Main".toList, main)], 1, []⟩ := by
    have hscan : Survey.scanFile fs .standard .empty (directory.below ["Main.cpp".toList]) =
        .ok ⟨[], [("Main".toList, main)], 1, []⟩ := by
      rw [Survey.scanFile, if_pos (by decide +kernel), hmain]
      rfl
    have haccepted : Survey.unsupported? .standard [directory.below ["Main.cpp".toList]] =
        none := by
      decide +kernel
    have hfiles : Survey.ofFiles fs .standard [directory.below ["Main.cpp".toList]] =
        .ok ⟨[], [("Main".toList, main)], 1, []⟩ := by
      rw [Survey.ofFiles, haccepted, Survey.scanFiles, hscan]
      rfl
    rw [Survey.ofDirectory, hdiscover]
    exact hfiles
  have hlists {a b : Text} (h : Lists [main] a b) : a = "Main".toList ∧ b ≠ a := by
    obtain ⟨hne, d, hd, rfl, -⟩ := h
    rw [List.mem_singleton.1 hd]
    exact ⟨rfl, List.mem_singleton.1 hd ▸ hne.symm⟩
  have hacyclic : ¬∃ c, (IncludeGraph.ofRecords [main]).IsCycle c := by
    rw [← IncludeGraph.not_acyclic_iff, not_not]
    intro n hn
    rw [IncludeGraph.includes_ofRecords] at hn
    obtain ⟨a, ha, -⟩ := TransGen.head'_iff.1 hn
    obtain ⟨b, -, hb⟩ := TransGen.tail'_iff.1 hn
    exact (hlists hb).2 ((hlists ha).1.trans (hlists hb).1.symm)
  obtain ⟨-, hfound⟩ := run_graph .plain [] hw hinv hp hempty
  obtain ⟨rows, printed, htable, -, -, hitems, hrun⟩ := (hfound _ hs).2.2 hacyclic
  have hprinted := hrun (Console.plain_accepts _)
  rw [hitems] at hprinted
  obtain ⟨r, hr, hname⟩ := List.mem_map.1 ((htable.mem_iff "Main".toList).2 (by decide +kernel))
  obtain ⟨earlier, later, rfl⟩ := List.append_of_mem hr
  have htimer : "Timer".toList ∈ r.project := by
    rw [htable.mem_project r hr, hname]
    exact ⟨by decide, .single ⟨by decide, main, List.mem_singleton.2 rfl, rfl,
      NameSet.mem_ofList.2 (by simp)⟩⟩
  obtain ⟨t, ht, htname⟩ := List.mem_map.1 (htable.before earlier r later rfl _ htimer)
  refine ⟨earlier, r, later, _, hprinted, hname, fun h => ?_, ?_, t, ht, htname, ?_⟩
  · exact ((htable.mem_project r hr _).1 h).1 hname.symm
  · exact (htable.mem_libraries r hr _).2
      ⟨main, List.mem_singleton.2 rfl, .inl hname.symm, NameSet.mem_ofList.2 (by simp)⟩
  · rw [Bool.eq_false_iff]
    intro h
    obtain ⟨d, hd, hdname⟩ := (htable.recorded t (by simp [ht])).1 h
    rw [List.mem_singleton.1 hd, htname] at hdname
    exact absurd hdname (by decide +kernel)

end CommandLine

end SourceSurvey
