import SourceSurvey.Proofs.Declaration.Prototype
import SourceSurvey.Proofs.DeclarationScan.Extraction
import SourceSurvey.Proofs.DeclarationScan.LogicalLines

/-!
# Prototypes are scanned as they were written

The methods that a scan finds have well-formed parts, whatever the source: each is read from a
logical line without comments that does not begin with white space. So their prototypes, one on
each line, are again a source, and the scan of it finds these methods and no other
(`ofSource_prototypes`).
-/

namespace SourceSurvey

namespace DeclarationScan

theorem wellFormed_of_declaration? {b : Block} {d : Declaration} (hb : Shortest Closes b.head)
    (h : b.declaration? = some d) : d.WellFormed :=
  Declaration.wellFormed_of_ofLine? h (commentFree_joined b.head) (head?_joined hb)

theorem shortest_singleton {P : List Text → Prop} {line : Text} (h : P [line]) (hn : ¬P []) :
    Shortest P [line] := by
  refine ⟨h, ?_⟩
  intro part hp hP
  cases part with
  | nil => exact absurd hP hn
  | cons first rest =>
    obtain ⟨rfl, hr⟩ := List.cons_prefix_cons.1 hp
    rw [List.prefix_nil.1 hr]

end DeclarationScan

namespace Method

open DeclarationScan

variable {className label source : Text} {ms : List Method}

/-- A prototype is a block of one line. -/
def block (m : Method) : Block := ⟨[m.prototype], []⟩

theorem linesOf_blocks (ms : List Method) : linesOf (ms.map block) = ms.map prototype := by
  induction ms with
  | nil => rfl
  | cons m ms ih => simp [ih, block]

theorem normalize_prototype {d : Declaration} (h : d.WellFormed) :
    Text.normalize (ofDeclaration className d).prototype = (ofDeclaration className d).prototype :=
  Text.normalize_eq_self (commentFree_prototype h) (trimmed_prototype h)

theorem declaration?_block {d : Declaration} (h : d.WellFormed) :
    (ofDeclaration className d).block.declaration? =
      some ⟨d.returnType, d.methodName, d.paramTypes, [';']⟩ := by
  rw [Block.declaration?, block, joined_singleton, normalize_prototype h, ofLine?_prototype h]

theorem closed_block {d : Declaration} (h : d.WellFormed) :
    (ofDeclaration className d).block.Closed := by
  constructor
  · refine shortest_singleton ⟨by simp, .inr ?_⟩ fun hc => hc.1 rfl
    rw [joined_singleton, normalize_prototype h, prototype_eq]
    simp
  · have ha : (ofDeclaration className d).block.awaited? = none := by
      rw [Block.awaited?, declaration?_block h]
      rfl
    rw [ha]
    rfl

theorem exists_blocks_of_ofSource (h : ofSource className label source = .ok (some ms)) :
    ∃ blocks, WellCut blocks ∧ ms = (declarationsOf blocks).map (ofDeclaration className) := by
  by_cases hs : source = [] ∨ Text.firstLine? source = some Settings.fixtureMarker
  · rw [ofSource_eq_none className label hs] at h
    cases h
  · rw [not_or] at hs
    rw [ofSource_eq_ofLines className label hs.1 hs.2, map_some_eq_ok_iff] at h
    obtain ⟨found, hf, rfl⟩ := ofLines_eq_ok_iff.1 h
    obtain ⟨blocks, -, hw, rfl⟩ := declarations_eq_ok_iff.1 hf
    exact ⟨blocks, hw, rfl⟩

/-- All that the scan of a source finds has well-formed parts. -/
theorem wellFormed_of_ofSource (h : ofSource className label source = .ok (some ms)) :
    ∀ m ∈ ms, ∃ d : Declaration, d.WellFormed ∧ m = ofDeclaration className d := by
  obtain ⟨blocks, hw, rfl⟩ := exists_blocks_of_ofSource h
  intro m hm
  obtain ⟨d, hd, rfl⟩ := List.mem_map.1 hm
  obtain ⟨b, hb, hd⟩ := List.mem_filterMap.1 hd
  exact ⟨d, wellFormed_of_declaration? (hw.shortest_head b hb) hd, rfl⟩

theorem declarationsOf_blocks
    (h : ∀ m ∈ ms, ∃ d : Declaration, d.WellFormed ∧ m = ofDeclaration className d) :
    (declarationsOf (ms.map block)).map (ofDeclaration className) = ms := by
  induction ms with
  | nil => rfl
  | cons m ms ih =>
    obtain ⟨d, hd, rfl⟩ := h m (by simp)
    rw [List.map_cons, declarationsOf_cons, declaration?_block hd, List.map_append,
      ih fun m hm => h m (by simp [hm])]
    rfl

theorem ofLines_prototypes (label : Text)
    (h : ∀ m ∈ ms, ∃ d : Declaration, d.WellFormed ∧ m = ofDeclaration className d) :
    ofLines className label (ms.map prototype) = .ok ms := by
  have hc : ∀ b ∈ ms.map block, b.Closed := by
    intro b hb
    obtain ⟨m, hm, rfl⟩ := List.mem_map.1 hb
    obtain ⟨d, hd, rfl⟩ := h m hm
    exact closed_block hd
  rw [← linesOf_blocks]
  exact ofLines_eq_ok_iff.2 ⟨_, declarations_closed hc, (declarationsOf_blocks h).symm⟩

theorem ofSource_prototypes (h : ofSource className label source = .ok (some ms)) (hne : ms ≠ [])
    (label' : Text) :
    ofSource className label' (Text.ofLines (ms.map prototype)) = .ok (some ms) := by
  have hwf := wellFormed_of_ofSource h
  have hlines : Text.lines (Text.ofLines (ms.map prototype)) = ms.map prototype := by
    apply Text.lines_ofLines
    intro line hl
    obtain ⟨m, hm, rfl⟩ := List.mem_map.1 hl
    obtain ⟨d, hd, rfl⟩ := hwf m hm
    exact ⟨newline_not_mem_prototype hd, by simp [getLast?_prototype]⟩
  obtain ⟨m, rest, rfl⟩ := List.exists_cons_of_ne_nil hne
  obtain ⟨d, hd, rfl⟩ := hwf m (by simp)
  have hmarker : (ofDeclaration className d).prototype ≠ Settings.fixtureMarker := by
    intro he
    -- a marker is a comment
    have hc : Text.CommentFree Settings.fixtureMarker := he ▸ commentFree_prototype hd
    exact hc ⟨[], Settings.fixtureMarker.drop 2, by decide⟩
  have hscan := ofLines_prototypes label' hwf
  rw [List.map_cons] at hlines hscan ⊢
  rw [ofSource_of_lines className label' hlines, if_neg hmarker, hscan]
  rfl

/-- A declaration over two lines with a body, and one with a parenthesis in its return type. -/
theorem ofSource_prototypes_body :
    let source := ("map<a,b> merge(map<a,b> left, // first\n\tconst map<a,b>& right) \x7b\n" ++
      "  int inner(int x);\n\x7d\nodd) #run( , a/b\tc,);\n").toList
    let ms : List Method := [
      ⟨"Maps".toList, "map<a,b>".toList, "merge".toList,
        ["map<a".toList, "b>".toList, "const".toList, "b>&".toList], true, none⟩,
      ⟨"Maps".toList, "odd)".toList, "#run".toList, ["a/b".toList], true, none⟩]
    ofSource "Maps".toList "Maps.h".toList source = .ok (some ms) ∧ ms ≠ [] ∧
      ofSource "Maps".toList "Maps".toList
        "map<a,b> merge(map<a, b>, const, b>&);\nodd) #run(a/b);\n".toList = .ok (some ms) := by
  intro source ms
  have h : ofSource "Maps".toList "Maps.h".toList source = .ok (some ms) := by decide +kernel
  have hne : ms ≠ [] := by decide
  exact ⟨h, hne, ofSource_prototypes h hne "Maps".toList⟩

end Method

end SourceSurvey
