import SourceSurvey.Proofs.Comments
import SourceSurvey.Proofs.Declaration.Prototype
import SourceSurvey.Proofs.DeclarationScan.Bodies

/-!
# Wrapped parameter lists

In a parameter list white space can be made a line break, with a comment before it and indentation
after it. The scan joins the lines of the list again, so the logical line is what it was but for the
white space in the list, and of the list only words are read. So a source with the list wrapped has
the same outcome (`ofSource_wrapped`).
-/

namespace SourceSurvey

/-! ## Line breaks -/

namespace Text

variable {s t u : Text}

/-- A newline, a comment that may stand before it, and the white space after it. -/
structure LineBreak where
  comment? : Option Text
  indentation : Text
  newline_not_mem_comment : ∀ comment ∈ comment?, '\n' ∉ comment
  newline_not_mem_indentation : '\n' ∉ indentation
  blank : ∀ c ∈ indentation, isBlank c = true

/-- What is added to the line that ends. -/
def LineBreak.lineEnd (b : LineBreak) : Text :=
  match b.comment? with
  | none => []
  | some comment => ' ' :: (commentMark ++ comment)

def LineBreak.text (b : LineBreak) : Text := b.lineEnd ++ '\n' :: b.indentation

/-- The second text is the first with line breaks in place of some of its white space. -/
inductive Wrapped : Text → Text → Prop where
  | unbroken (s : Text) : Wrapped s s
  | broken (s : Text) {c : Char} {t u : Text} (hc : isBlank c = true) (b : LineBreak)
      (h : Wrapped t u) : Wrapped (s ++ c :: t) (s ++ b.text ++ u)

/-- The line ends in front of `after`, and nothing but whole lines stands before it. -/
structure StandsBetween (before line after : Text) : Prop where
  starts : ∀ c ∈ before.getLast?, c = '\n'
  newline_not_mem : '\n' ∉ line
  ends : ∀ c ∈ after.head?, c = '\n'

theorem LineBreak.newline_not_mem_lineEnd (b : LineBreak) : '\n' ∉ b.lineEnd := by
  unfold lineEnd
  cases hc : b.comment? with
  | none => simp
  | some comment => simp [commentMark, b.newline_not_mem_comment comment hc]

theorem normalize_append_lineEnd (hs : CommentFree s) (b : LineBreak) :
    normalize (s ++ b.lineEnd) = trim s := by
  unfold LineBreak.lineEnd
  cases b.comment? with
  | none => rw [List.append_nil, normalize, hs.beforeComment_eq]
  | some comment =>
    rw [normalize, beforeComment_append_cons hs (by decide), commentMark, List.cons_append,
      List.cons_append, beforeComment]
    exact trim_append_of_blank (List.forall_mem_singleton.2 rfl)

end Text

/-! ## Declarations -/

namespace Declaration

variable {head s t trailing : Text}

/-- Of the parameters only words are read, and whether they hold a parenthesis. -/
theorem ofParts_of_respaced (h : Text.Respaced s t) :
    ofParts head s trailing = ofParts head t trailing := by
  unfold ofParts
  rw [paramTypesOf_eq s, paramTypesOf_eq t, h.wordLists_eq]
  simp only [h.mem_iff '(' rfl]

theorem ofLine?_eq_ofParts (hhead : '(' ∉ head) (hs : ')' ∉ s) :
    ofLine? (head ++ '(' :: (s ++ ')' :: trailing)) =
      if head.head? = some '#' then none else ofParts head s trailing := by
  have hfirst : (head ++ '(' :: (s ++ ')' :: trailing)).head? = some '#' ↔
      head.head? = some '#' := by
    cases head <;> simp
  rw [ofLine?, Text.cut?_eq_some_iff.2 ⟨rfl, hhead⟩]
  simp only [Text.cut?_eq_some_iff.2 ⟨rfl, hs⟩, hfirst]

theorem ofLine?_of_respaced (hhead : '(' ∉ head) (hs : ')' ∉ s) (h : Text.Respaced s t)
    (trailing : Text) :
    ofLine? (head ++ '(' :: (t ++ ')' :: trailing)) =
      ofLine? (head ++ '(' :: (s ++ ')' :: trailing)) := by
  have ht : ')' ∉ t := fun hm => hs ((h.mem_iff ')' rfl).2 hm)
  rw [ofLine?_eq_ofParts hhead hs, ofLine?_eq_ofParts hhead ht, ofParts_of_respaced h]

end Declaration

/-! ## The logical line -/

namespace DeclarationScan

open Declaration

variable {s t u head rest text : Text} {start : Nat} {found : List Declaration}

theorem join_of_open (ho : '(' ∈ text) (hc : ')' ∉ text) (line start : Nat)
    (found : List Declaration) :
    join line start text found = ⟨line, .joining start text, found⟩ :=
  if_pos (by simp [isOpen, ho, hc])

/-- Logical lines that declare the same leave states that differ in the line numbers. -/
theorem join_of_closed {text' : Text} (hc : ')' ∈ text) (hc' : ')' ∈ text')
    (h : ofLine? text' = ofLine? text) (n line : Nat) :
    join (n + line) start text' found = (join line start text found).after n [] := by
  unfold join
  rw [if_neg (by simp [isOpen, hc']), if_neg (by simp [isOpen, hc]), h]
  cases ofLine? text with
  | none => rfl
  | some d => cases hd : d.hasBody <;> simp [State.after, Mode.after, hd, skip_after]

/-- A part of a line in which a list can be left open. -/
structure Unclosed (s : Text) : Prop where
  commentFree : Text.CommentFree s
  newline_not_mem : '\n' ∉ s
  closing_not_mem : ')' ∉ s

theorem Unclosed.of_append_cons {c : Char} (h : Unclosed (s ++ c :: t)) (hc : c ≠ '/') :
    Unclosed s ∧ Unclosed t := by
  obtain ⟨hfree, hn, hs⟩ := h
  simp only [List.mem_append, List.mem_cons, not_or] at hn hs
  obtain ⟨hfs, hft⟩ := (Text.commentFree_append_cons hc).1 hfree
  exact ⟨⟨hfs, hn.1, hs.1⟩, ⟨hft, hn.2.2, hs.2.2⟩⟩

theorem Unclosed.closing_not_mem_trim (h : Unclosed s) : ')' ∉ Text.trim s :=
  fun hm => h.closing_not_mem ((Text.trim_isInfix s).subset hm)

theorem normalize_closing (hs : Text.CommentFree s) (rest : Text) :
    Text.normalize (s ++ ')' :: rest) =
      Text.trimStart s ++ ')' :: Text.trimEnd (Text.beforeComment rest) := by
  rw [Text.normalize, Text.beforeComment_append_cons hs (by decide), Text.trim,
    Text.trimStart_append_cons (by decide), Text.trimEnd_append_cons (by decide)]

theorem trim_opening (head s : Text) :
    Text.trim (head ++ '(' :: s) = Text.trimStart head ++ '(' :: Text.trimEnd s := by
  rw [Text.trim, Text.trimStart_append_cons (by decide), Text.trimEnd_append_cons (by decide)]

/-- Up to a line break, a line adds its text to an open list. -/
theorem feed_of_open {indentation : Text} (hi : ∀ c ∈ indentation, Text.isBlank c = true)
    (hs : Unclosed s) (ho : '(' ∈ text) (hc : ')' ∉ text) (b : Text.LineBreak) (line start : Nat)
    (found : List Declaration) :
    feed ⟨line, .joining start text, found⟩ (indentation ++ s ++ b.lineEnd) =
      ⟨line + 1, .joining start (text ++ ' ' :: Text.trim s), found⟩ := by
  have hjoined : Text.normalize (indentation ++ s ++ b.lineEnd) = Text.trim s := by
    rw [Text.normalize_append_lineEnd (hs.commentFree.blank_append hi), Text.trim,
      Text.trimStart_append_of_blank hi, Text.trim]
  rw [feed]
  simp only [hjoined]
  exact join_of_open (by simp [ho]) (by simp [hc, hs.closing_not_mem_trim]) _ _ _

/-- An open list is joined from the lines it is wrapped into. -/
theorem foldl_feed_wrapped (h : Text.Wrapped s t) {indentation : Text}
    (hi : ∀ c ∈ indentation, Text.isBlank c = true) (hn : '\n' ∉ indentation)
    (hs : Unclosed s) (hrest : '\n' ∉ rest) (ho : '(' ∈ text) (hc : ')' ∉ text)
    (line start : Nat) (found : List Declaration) :
    ∃ n q, Text.Respaced s q ∧
      ((indentation ++ (t ++ ')' :: rest)).splitOn '\n').foldl feed
          ⟨line, .joining start text, found⟩ =
        join (n + line) start
          (text ++ ' ' :: (q ++ ')' :: Text.trimEnd (Text.beforeComment rest))) found := by
  -- along the breaks; what has been joined stays open until the last line
  induction h generalizing indentation text line with
  | unbroken s =>
    refine ⟨1, Text.trimStart s, Text.respaced_trimStart s, ?_⟩
    have hsingle : '\n' ∉ indentation ++ s ++ ')' :: rest := by
      simp [hn, hs.newline_not_mem, hrest]
    rw [← List.append_assoc, List.splitOn_eq_singleton hsingle, List.foldl_cons, List.foldl_nil,
      feed]
    simp only [normalize_closing (hs.commentFree.blank_append hi),
      Text.trimStart_append_of_blank hi, Nat.add_comm]
  | @broken s c t u hblank b h ih =>
    obtain ⟨hs, ht⟩ := hs.of_append_cons (Text.ne_of_isBlank hblank rfl).symm
    have hfirst : '\n' ∉ indentation ++ s ++ b.lineEnd := by
      simp [hn, hs.newline_not_mem, b.newline_not_mem_lineEnd]
    have hlines : indentation ++ (s ++ b.text ++ u ++ ')' :: rest) =
        indentation ++ s ++ b.lineEnd ++ '\n' :: (b.indentation ++ (u ++ ')' :: rest)) := by
      simp [Text.LineBreak.text]
    have hopening : '(' ∈ text ++ ' ' :: Text.trim s := by simp [ho]
    have hclosing : ')' ∉ text ++ ' ' :: Text.trim s := by simp [hc, hs.closing_not_mem_trim]
    obtain ⟨n, q, hq, hrun⟩ :=
      ih b.blank b.newline_not_mem_indentation ht hopening hclosing (line + 1)
    refine ⟨n + 1, Text.trim s ++ ' ' :: q, (Text.respaced_trim s).append hblank rfl hq, ?_⟩
    rw [hlines, List.splitOn_append_cons_self_of_not_mem hfirst, List.foldl_cons,
      feed_of_open hi hs ho hc, hrun]
    simp [Nat.add_assoc, Nat.add_comm 1 line]

theorem foldl_feed_unbroken (hs : Unclosed (head ++ '(' :: s)) (hrest : '\n' ∉ rest) (line : Nat)
    (found : List Declaration) :
    ((head ++ '(' :: s ++ ')' :: rest).splitOn '\n').foldl feed ⟨line, .ready, found⟩ =
      join (line + 1) (line + 1) (Text.trimStart head ++ '(' ::
        (s ++ ')' :: Text.trimEnd (Text.beforeComment rest))) found := by
  have hsingle : '\n' ∉ head ++ '(' :: s ++ ')' :: rest := by
    simpa [hrest] using hs.newline_not_mem
  rw [List.splitOn_eq_singleton hsingle, List.foldl_cons, List.foldl_nil, feed]
  simp only [normalize_closing hs.commentFree]
  rw [Text.trimStart_append_cons (by decide), List.append_assoc, List.cons_append]

/-- A line that opens a list is joined with the lines the list is wrapped into. -/
theorem foldl_feed_opening (h : Text.Wrapped s t) (hs : Unclosed (head ++ '(' :: s))
    (hrest : '\n' ∉ rest) (line : Nat) (found : List Declaration) :
    ∃ n q, Text.Respaced s q ∧
      ((head ++ '(' :: t ++ ')' :: rest).splitOn '\n').foldl feed ⟨line, .ready, found⟩ =
        join (n + (line + 1)) (line + 1) (Text.trimStart head ++ '(' ::
          (q ++ ')' :: Text.trimEnd (Text.beforeComment rest))) found := by
  cases h with
  | unbroken =>
    refine ⟨0, s, .refl s, ?_⟩
    rw [foldl_feed_unbroken hs hrest, Nat.zero_add]
  | @broken s c t u hblank b h =>
    have hsplit : head ++ '(' :: (s ++ c :: t) = (head ++ '(' :: s) ++ c :: t := by simp
    rw [hsplit] at hs
    obtain ⟨hs, ht⟩ := hs.of_append_cons (Text.ne_of_isBlank hblank rfl).symm
    have hfirst : '\n' ∉ head ++ '(' :: s ++ b.lineEnd := by
      simpa [b.newline_not_mem_lineEnd] using hs.newline_not_mem
    have hlines : head ++ '(' :: (s ++ b.text ++ u) ++ ')' :: rest =
        head ++ '(' :: s ++ b.lineEnd ++ '\n' :: (b.indentation ++ (u ++ ')' :: rest)) := by
      simp [Text.LineBreak.text]
    have hopening : '(' ∈ Text.trim (head ++ '(' :: s) := by simp [trim_opening]
    have hopened : feed ⟨line, .ready, found⟩ (head ++ '(' :: s ++ b.lineEnd) =
        ⟨line + 1, .joining (line + 1) (Text.trim (head ++ '(' :: s)), found⟩ := by
      rw [feed]
      simp only [Text.normalize_append_lineEnd hs.commentFree]
      exact join_of_open hopening hs.closing_not_mem_trim _ _ _
    obtain ⟨n, q, hq, hrun⟩ := foldl_feed_wrapped h b.blank b.newline_not_mem_indentation ht hrest
      hopening hs.closing_not_mem_trim (line + 1) (line + 1) found
    refine ⟨n, Text.trimEnd s ++ ' ' :: q, (Text.respaced_trimEnd s).append hblank rfl hq, ?_⟩
    rw [hlines, List.splitOn_append_cons_self_of_not_mem hfirst, List.foldl_cons, hopened, hrun,
      trim_opening]
    simp

/-! ## The lines of a source -/

theorem count_dropReturn (depth : Int) (raw : Text) :
    Body.count depth (Text.dropReturn raw) = Body.count depth raw := by
  rcases Text.eq_dropReturn_or raw with h | h
  · rw [h]
  · have hreturn (d : Int) : Body.count d ['\r'] = some d :=
      Body.count_of_braceless (by decide) d
    conv_rhs => rw [h, Body.count_append]
    simp only [hreturn, Option.bind_fun_some]

theorem feed_dropReturn (s : State) (raw : Text) : feed s (Text.dropReturn raw) = feed s raw := by
  obtain ⟨line, mode, found⟩ := s
  cases mode with
  | ready => simp only [feed, Text.normalize_dropReturn]
  | joining start text => simp only [feed, Text.normalize_dropReturn]
  | skipping start depth => simp only [feed, skip, count_dropReturn]

/-- A text that begins a line and ends in the middle of one is scanned between the lines around
it. -/
theorem run_lines {before after : Text} (hb : ∀ c ∈ before.getLast?, c = '\n') (hne : t ≠ [])
    (ht : '\n' ∉ t) (ha : ∀ c ∈ after.head?, c = '\n') :
    run (Text.lines (before ++ (s ++ t) ++ after)) =
      (Text.lines after.tail).foldl feed
        (((s ++ t).splitOn '\n').foldl feed (run (Text.lines before))) := by
  rw [List.append_assoc, Text.lines_append_of_ended hb, Text.lines_append_of_unended hne ht ha, run,
    List.foldl_append, List.foldl_append, List.foldl_map]
  simp only [feed_dropReturn]
  rfl

/-- A wrapped list adds line numbers and nothing else. -/
theorem run_wrapped {before after : Text} (hb : ∀ c ∈ before.getLast?, c = '\n')
    (hready : (run (Text.lines before)).mode = .ready) (hhead : '(' ∉ head)
    (hs : Unclosed (head ++ '(' :: s)) (h : Text.Wrapped s t) (hrest : '\n' ∉ rest)
    (ha : ∀ c ∈ after.head?, c = '\n') :
    ∃ n, run (Text.lines (before ++ (head ++ '(' :: t ++ ')' :: rest) ++ after)) =
      (run (Text.lines (before ++ (head ++ '(' :: s ++ ')' :: rest) ++ after))).after n [] := by
  have hend : '\n' ∉ ')' :: rest := by simp [hrest]
  have hstart : '(' ∉ Text.trimStart head :=
    fun hm => hhead ((Text.trimStart_isSuffix head).subset hm)
  rw [run_lines hb (by simp) hend ha, run_lines hb (by simp) hend ha]
  generalize run (Text.lines before) = state at hready
  obtain ⟨line, mode, found⟩ := state
  obtain rfl : mode = .ready := hready
  obtain ⟨n, q, hq, hrun⟩ := foldl_feed_opening h hs hrest line found
  have hdeclared := ofLine?_of_respaced hstart (hs.of_append_cons (by decide)).2.closing_not_mem hq
    (Text.trimEnd (Text.beforeComment rest))
  refine ⟨n, ?_⟩
  rw [hrun, foldl_feed_unbroken hs hrest, join_of_closed (by simp) (by simp) hdeclared,
    foldl_feed_after]

end DeclarationScan

namespace Method

open DeclarationScan

variable {className label : Text}

/-! ## Outcomes -/

theorem sameOutcome_ofLines {lines other : List Text} {n : Nat}
    (h : run other = (run lines).after n []) :
    SameOutcome ((ofLines className label lines).map some)
      ((ofLines className label other).map some) := by
  unfold ofLines declarations
  rw [h, finish_after]
  cases (run lines).finish with
  | ok found => rfl
  | error d => exact (d.kind_after n).symm

/-- The scans differ in line numbers only, and a marker stands before both or neither. -/
theorem sameOutcome_ofSource {source other : Text} {n : Nat} (hs : source ≠ []) (ho : other ≠ [])
    (hm : Text.firstLine? other = some Settings.fixtureMarker ↔
      Text.firstLine? source = some Settings.fixtureMarker)
    (h : run (Text.lines other) = (run (Text.lines source)).after n []) :
    SameOutcome (ofSource className label source) (ofSource className label other) := by
  by_cases hmarker : Text.firstLine? source = some Settings.fixtureMarker
  · rw [ofSource_eq_none className label (.inr hmarker),
      ofSource_eq_none className label (.inr (hm.2 hmarker))]
    rfl
  · rw [ofSource_eq_ofLines className label hs hmarker,
      ofSource_eq_ofLines className label ho (mt hm.1 hmarker)]
    exact sameOutcome_ofLines h

/-- A line that opens a parameter list is no marker. -/
theorem firstLine?_ne_fixtureMarker {head : Text} (hfree : Text.CommentFree head)
    (hn : '\n' ∉ head) (rest : Text) :
    Text.firstLine? (head ++ '(' :: rest) ≠ some Settings.fixtureMarker := by
  have hstart : '\n' ∉ head ++ ['('] := by simpa using hn
  obtain ⟨u, hu⟩ := Text.exists_firstLine?_append (by simp) hstart rest
  have hopening : '(' ∈ Text.normalize (Text.dropReturn (head ++ ['('] ++ u)) := by
    rw [Text.normalize_dropReturn, Text.normalize, List.append_assoc, List.singleton_append,
      Text.beforeComment_append_cons hfree (by decide), trim_opening]
    simp
  rw [List.append_assoc, List.singleton_append] at hu
  intro hm
  rw [hu, Option.some.injEq] at hm
  rw [hm] at hopening
  exact absurd hopening (by decide +kernel)

/-- So the lines before it tell whether a source is generated. -/
theorem firstLine?_eq_fixtureMarker_iff {before head : Text} (hb : ∀ c ∈ before.getLast?, c = '\n')
    (hfree : Text.CommentFree head) (hn : '\n' ∉ head) (list rest after : Text) :
    Text.firstLine? (before ++ (head ++ '(' :: list ++ ')' :: rest) ++ after) =
        some Settings.fixtureMarker ↔
      Text.firstLine? before = some Settings.fixtureMarker := by
  have hbehind : before ++ (head ++ '(' :: list ++ ')' :: rest) ++ after =
      before ++ (head ++ '(' :: (list ++ ')' :: (rest ++ after))) := by simp
  rw [hbehind]
  by_cases hbefore : before = []
  · have hnone : Text.firstLine? [] = none := by
      rw [Text.firstLine?, Text.lines_eq_nil_iff.2 rfl, List.head?_nil]
    simp [hbefore, firstLine?_ne_fixtureMarker hfree hn, hnone]
  · rw [Text.firstLine?_append_of_ended hb hbefore]

theorem sameOutcome_wrapped (className label : Text) {before head list wrapped rest after : Text}
    (hb : ∀ c ∈ before.getLast?, c = '\n') (hready : (run (Text.lines before)).mode = .ready)
    (hhead : '(' ∉ head) (hs : Unclosed (head ++ '(' :: list)) (h : Text.Wrapped list wrapped)
    (hrest : '\n' ∉ rest) (ha : ∀ c ∈ after.head?, c = '\n') :
    SameOutcome (ofSource className label (before ++ (head ++ '(' :: list ++ ')' :: rest) ++ after))
      (ofSource className label
        (before ++ (head ++ '(' :: wrapped ++ ')' :: rest) ++ after)) := by
  obtain ⟨n, hrun⟩ := run_wrapped hb hready hhead hs h hrest ha
  have hstart := (hs.of_append_cons (by decide)).1
  have hmarker (list : Text) := firstLine?_eq_fixtureMarker_iff hb hstart.commentFree
    hstart.newline_not_mem list rest after
  exact sameOutcome_ofSource (by simp) (by simp) ((hmarker wrapped).trans (hmarker list).symm) hrun

/-- With its parameter list wrapped, a source has the same outcome. -/
theorem ofSource_wrapped (className label : Text)
    {before line after head list wrapped trailing : Text}
    (hline : Text.StandsBetween before line after)
    (hready : (run (Text.lines before)).mode = .ready)
    (hlist : Text.beforeComment line = head ++ '(' :: list ++ ')' :: trailing)
    (hhead : '(' ∉ head ∧ ')' ∉ head) (hclosing : ')' ∉ list) (h : Text.Wrapped list wrapped) :
    SameOutcome (ofSource className label (before ++ line ++ after))
      (ofSource className label (before ++
        (head ++ '(' :: wrapped ++ ')' :: trailing ++ Text.comment line) ++ after)) := by
  have happend (list : Text) : head ++ '(' :: list ++ ')' :: trailing ++ Text.comment line =
      head ++ '(' :: list ++ ')' :: (trailing ++ Text.comment line) := by simp
  have hparts : line = head ++ '(' :: list ++ ')' :: (trailing ++ Text.comment line) := by
    rw [← happend, ← hlist, Text.beforeComment_append_comment]
  have hfree : Text.CommentFree (head ++ '(' :: list) := by
    refine (Text.commentFree_beforeComment line).of_isInfix ?_
    rw [hlist]
    exact (List.prefix_append _ _).isInfix
  have hn := hline.newline_not_mem
  rw [hparts, List.mem_append, not_or, List.mem_cons, not_or] at hn
  have hs : Unclosed (head ++ '(' :: list) := ⟨hfree, hn.1, by simp [hhead.2, hclosing]⟩
  rw [happend]
  conv_lhs => rw [hparts]
  exact sameOutcome_wrapped className label hline.starts hready hhead.1 hs h hn.2.2 hline.ends

/-- Comments can hold parentheses, commas and braces, and a line of the list nothing. -/
theorem ofSource_wrapped_comments :
    let before : List Text := ["void reset();".toList]
    let after : List Text := ["  return a;".toList, "\x7d".toList, "int last();".toList]
    let source : Text :=
      Text.ofLines (before ++ "int sum( int a,  int b) \x7b // \x7d".toList :: after)
    let wrapped : Text := Text.ofLines (before ++ "int sum( // ( , \x7b".toList ::
      "\tint a, // )".toList :: [] :: "  int b) \x7b // \x7d".toList :: after)
    ofSource "Counter".toList "Counter.h".toList source = .ok (some [
        ⟨"Counter".toList, "void".toList, "reset".toList, [], true, none⟩,
        ⟨"Counter".toList, "int".toList, "sum".toList, ["int".toList, "int".toList], true, none⟩,
        ⟨"Counter".toList, "int".toList, "last".toList, [], true, none⟩]) ∧
      SameOutcome (ofSource "Counter".toList "Counter.h".toList source)
        (ofSource "Counter".toList "Counter.h".toList wrapped) := by
  intro before after source wrapped
  let line : Text := "int sum( int a,  int b) \x7b // \x7d".toList
  let opened : Text.LineBreak :=
    ⟨some " ( , \x7b".toList, ['\t'], by decide +kernel, by decide, by simp [Text.isBlank]⟩
  let comma : Text.LineBreak :=
    ⟨some " )".toList, [], by decide +kernel, by decide, by simp⟩
  let empty : Text.LineBreak :=
    ⟨none, [' ', ' '], by simp, by decide, by simp [Text.isBlank]⟩
  let first : Text := "int a,".toList
  let second : Text := "int b".toList
  have hlist : Text.Wrapped ([] ++ ' ' :: (first ++ ' ' :: ([] ++ ' ' :: second)))
      ([] ++ opened.text ++ (first ++ comma.text ++ ([] ++ empty.text ++ second))) :=
    .broken [] rfl opened (.broken first rfl comma (.broken [] rfl empty (.unbroken second)))
  have hlast : (Text.ofLines before).getLast? = some '\n' := by decide +kernel
  have hline : Text.StandsBetween (Text.ofLines before) line ('\n' :: Text.ofLines after) :=
    ⟨by simp [hlast], by decide +kernel, by simp⟩
  have hready : (run (Text.lines (Text.ofLines before))).mode = .ready := by decide +kernel
  have hparts : Text.beforeComment line = "int sum".toList ++
      '(' :: ([] ++ ' ' :: (first ++ ' ' :: ([] ++ ' ' :: second))) ++
      ')' :: " \x7b ".toList := by decide +kernel
  have houtcome := ofSource_wrapped "Counter".toList "Counter.h".toList hline hready hparts
    (by decide +kernel) (by decide +kernel) hlist
  refine ⟨by decide +kernel, ?_⟩
  have hsource : source = Text.ofLines before ++ line ++ '\n' :: Text.ofLines after := by
    decide +kernel
  have hwrapped : wrapped = Text.ofLines before ++ ("int sum".toList ++
      '(' :: ([] ++ opened.text ++ (first ++ comma.text ++ ([] ++ empty.text ++ second))) ++
      ')' :: " \x7b ".toList ++ Text.comment line) ++ '\n' :: Text.ofLines after := by
    decide +kernel
  rw [hsource, hwrapped]
  exact houtcome

end Method

end SourceSurvey
