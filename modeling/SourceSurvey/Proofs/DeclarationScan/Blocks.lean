import Mathlib.Data.List.Induction
import Mathlib.Data.List.Infix
import SourceSurvey.DeclarationScan
import SourceSurvey.Proofs.BraceCount

/-!
# Blocks of lines

Source lines are read as blocks. A block has a head, the lines of one logical line, and a body, the
lines in which the braces of a definition are balanced; most blocks have no body. `WellCut` says
where one block ends and the next begins, without running the scan.

* `eq_of_wellCut`: lines are cut into blocks in at most one way;
* `exists_split`: all lines are closed blocks, up to a part in front of the end of input.
-/

namespace SourceSurvey.DeclarationScan

/-- A run of lines with the property, no shorter part of which has it. -/
def Shortest (P : List Text → Prop) (run : List Text) : Prop :=
  P run ∧ ∀ part, part <+: run → P part → part = run

instance {P : List Text → Prop} [DecidablePred P] : DecidablePred (Shortest P) := fun run =>
  decidable_of_iff (P run ∧ ∀ part ∈ run.inits, P part → part = run) (by simp [Shortest])

theorem Shortest.eq {P : List Text → Prop} {lines r s : List Text} (hr : Shortest P r)
    (hs : Shortest P s) (hrl : r <+: lines) (hsl : s <+: lines) : r = s := by
  rcases List.prefix_or_prefix_of_prefix hrl hsl with h | h
  · exact hs.2 r h hr.1
  · exact (hr.2 s h hs.1).symm

/-- Of the parts in front that have the property, one is the shortest. -/
theorem exists_shortest {P : List Text → Prop} {lines part : List Text} (h : part <+: lines)
    (hP : P part) : ∃ run, run <+: lines ∧ Shortest P run := by
  induction hn : part.length using Nat.strongRecOn generalizing part with
  | ind n ih =>
    by_cases hs : Shortest P part
    · exact ⟨part, h, hs⟩
    · simp only [Shortest, not_and, not_forall] at hs
      obtain ⟨q, hq, hqP, hne⟩ := hs hP
      have hlt : q.length < part.length :=
        Nat.lt_of_le_of_ne hq.length_le fun he => hne (hq.eq_of_length he)
      exact ih q.length (hn ▸ hlt) (hq.trans h) hqP rfl

/-- The logical line of a head: its lines without comments, joined by single spaces. -/
def joined (head : List Text) : Text := Text.join [' '] (head.map Text.normalize)

/-- A logical line is complete when no parenthesis is opened in it or one is closed. -/
def Closes (head : List Text) : Prop := head ≠ [] ∧ ('(' ∉ joined head ∨ ')' ∈ joined head)

instance : DecidablePred Closes := fun head =>
  inferInstanceAs (Decidable (head ≠ [] ∧ ('(' ∉ joined head ∨ ')' ∈ joined head)))

structure Block where
  head : List Text
  body : List Text
  deriving DecidableEq, Repr

namespace Block

def lines (b : Block) : List Text := b.head ++ b.body

def declaration? (b : Block) : Option Declaration := Declaration.ofLine? (joined b.head)

/-- The text in which a body may begin, if one follows. -/
def awaited? (b : Block) : Option Text :=
  (b.declaration?.filter Declaration.hasBody).map Declaration.trailing

/-- The body is the shortest run of lines that ends it. Where there is no brace at all, it is all
that is left. -/
def IsBody (b : Block) (rest : List Text) : Prop :=
  match b.awaited? with
  | none => b.body = []
  | some t => Shortest (fun run => Body.Ends 0 (t ++ run.flatten)) b.body ∨
      (rest = [] ∧ Body.Braceless (t ++ b.body.flatten))

instance (b : Block) (rest : List Text) : Decidable (b.IsBody rest) :=
  match h : b.awaited? with
  | none => decidable_of_iff (b.body = []) (by simp [IsBody, h])
  | some t =>
    decidable_of_iff (Shortest (fun run => Body.Ends 0 (t ++ run.flatten)) b.body ∨
      (rest = [] ∧ Body.Braceless (t ++ b.body.flatten))) (by simp [IsBody, h])

/-- The block is complete, whatever follows. -/
def Closed (b : Block) : Prop :=
  Shortest Closes b.head ∧
    match b.awaited? with
    | none => b.body = []
    | some t => Shortest (fun run => Body.Ends 0 (t ++ run.flatten)) b.body

/-- The body has not ended in the lines of the block. -/
def Unended (b : Block) (t : Text) : Prop :=
  Shortest Closes b.head ∧ b.awaited? = some t ∧
    ∀ run, run <+: b.body → ¬Body.Ends 0 (t ++ run.flatten)

end Block

def linesOf (blocks : List Block) : List Text := blocks.flatMap Block.lines

def declarationsOf (blocks : List Block) : List Declaration := blocks.filterMap Block.declaration?

/-- Each block has the head and the body that the lines from it on make. -/
def WellCut : List Block → Prop
  | [] => True
  | b :: bs => Shortest Closes b.head ∧ b.IsBody (linesOf bs) ∧ WellCut bs

instance decidableWellCut : DecidablePred WellCut
  | [] => isTrue trivial
  | b :: bs =>
    have := decidableWellCut bs
    inferInstanceAs (Decidable (Shortest Closes b.head ∧ b.IsBody (linesOf bs) ∧ WellCut bs))

@[simp] theorem linesOf_nil : linesOf [] = [] := rfl

@[simp] theorem linesOf_cons (b : Block) (bs : List Block) :
    linesOf (b :: bs) = b.head ++ (b.body ++ linesOf bs) := by
  simp [linesOf, Block.lines]

theorem linesOf_append (bs cs : List Block) : linesOf (bs ++ cs) = linesOf bs ++ linesOf cs := by
  simp [linesOf]

theorem declarationsOf_append (bs cs : List Block) :
    declarationsOf (bs ++ cs) = declarationsOf bs ++ declarationsOf cs :=
  List.filterMap_append

theorem declarationsOf_cons (b : Block) (bs : List Block) :
    declarationsOf (b :: bs) = b.declaration?.toList ++ declarationsOf bs := by
  cases h : b.declaration? <;> simp [declarationsOf, h]

theorem head_ne_nil {b : Block} (h : Shortest Closes b.head) : b.head ≠ [] := h.1.1

theorem WellCut.shortest_head {bs : List Block} (h : WellCut bs) :
    ∀ b ∈ bs, Shortest Closes b.head := by
  induction bs with
  | nil => simp
  | cons b bs ih => simpa using ⟨h.1, ih h.2.2⟩

theorem eq_nil_of_linesOf {bs : List Block} (h : WellCut bs) (hl : linesOf bs = []) : bs = [] := by
  cases bs with
  | nil => rfl
  | cons b bs =>
    rw [linesOf_cons, List.append_eq_nil_iff] at hl
    exact absurd hl.1 (head_ne_nil h.1)

theorem ends_mono {depth : Int} {t : Text} {run body : List Text} (hp : run <+: body)
    (h : Body.Ends depth (t ++ run.flatten)) : Body.Ends depth (t ++ body.flatten) := by
  obtain ⟨more, rfl⟩ := hp
  rw [List.flatten_append, ← List.append_assoc]
  exact h.append _

/-! ## One way to cut -/

/-- A body in the lines that follow its head is determined by them. -/
theorem body_unique {b c : Block} {r s : List Text} (ha : b.awaited? = c.awaited?)
    (hb : b.IsBody r) (hc : c.IsBody s) (h : b.body ++ r = c.body ++ s) : b.body = c.body := by
  -- a body that ends cannot be told from one without a brace: the ended one holds a brace
  have ended (d e : Block) (q : List Text) (t : Text)
      (hd : Shortest (fun run => Body.Ends 0 (t ++ run.flatten)) d.body)
      (he : Body.Braceless (t ++ e.body.flatten)) (hq : d.body ++ q = e.body) : False :=
    he.not_ends (ends_mono ⟨q, hq⟩ hd.1)
  unfold Block.IsBody at hb hc
  rw [← ha] at hc
  cases ht : b.awaited? with
  | none =>
    simp only [ht] at hb hc
    rw [hb, hc]
  | some t =>
    simp only [ht] at hb hc
    rcases hb with hb | ⟨rfl, hb⟩
    · rcases hc with hc | ⟨rfl, hc⟩
      · exact hb.eq hc (List.prefix_append _ r) (h ▸ List.prefix_append _ s)
      · exact (ended b c r t hb hc (by simpa using h)).elim
    · rcases hc with hc | ⟨rfl, -⟩
      · exact (ended c b s t hc hb (by simpa using h.symm)).elim
      · simpa using h

theorem eq_of_wellCut {bs cs : List Block} (hb : WellCut bs) (hc : WellCut cs)
    (h : linesOf bs = linesOf cs) : bs = cs := by
  induction bs generalizing cs with
  | nil => exact (eq_nil_of_linesOf hc h.symm).symm
  | cons b bs ih =>
    cases cs with
    | nil => exact eq_nil_of_linesOf hb h
    | cons c cs =>
      obtain ⟨hbh, hbb, hbs⟩ := hb
      obtain ⟨hch, hcb, hcs⟩ := hc
      rw [linesOf_cons, linesOf_cons] at h
      have hhead : b.head = c.head :=
        hbh.eq hch (List.prefix_append _ _) (by rw [h]; exact List.prefix_append _ _)
      rw [hhead] at h
      have hrest := List.append_cancel_left h
      have hbody : b.body = c.body :=
        body_unique (by simp [Block.awaited?, Block.declaration?, hhead]) hbb hcb hrest
      rw [hbody] at hrest
      have hbc : b = c := by
        cases b
        cases c
        simp_all
      rw [hbc, ih hbs hcs (List.append_cancel_left hrest)]

/-! ## Closed blocks and what is left -/

theorem Block.Closed.isBody {b : Block} (h : b.Closed) (rest : List Text) : b.IsBody rest := by
  unfold Block.IsBody
  cases ht : b.awaited? with
  | none => simpa only [Block.Closed, ht] using h.2
  | some t =>
    have hs := h.2
    simp only [ht] at hs
    exact .inl hs

theorem wellCut_append {bs cs : List Block} (hb : ∀ b ∈ bs, b.Closed) (hc : WellCut cs) :
    WellCut (bs ++ cs) := by
  induction bs with
  | nil => exact hc
  | cons b bs ih =>
    have h := hb b (by simp)
    exact ⟨h.1, h.isBody _, ih fun a ha => hb a (by simp [ha])⟩

theorem wellCut_of_closed {bs : List Block} (h : ∀ b ∈ bs, b.Closed) : WellCut bs := by
  have hw : WellCut (bs ++ []) := wellCut_append h trivial
  rwa [List.append_nil] at hw

/-- What can stand behind the closed blocks at the end of input: nothing, a head that does not
close, or a block whose body does not end. -/
inductive Tail : List Text → Prop where
  | nothing : Tail []
  | head {lines : List Text} (hne : lines ≠ []) (h : ∀ part, part <+: lines → ¬Closes part) :
      Tail lines
  | body {b : Block} {t : Text} (h : b.Unended t) : Tail b.lines

/-- Lines begin with a closed block, or nothing after them closes what they begin. -/
theorem exists_closed_or_tail (lines : List Text) :
    (∃ b : Block, ∃ rest, b.Closed ∧ lines = b.lines ++ rest) ∨ Tail lines := by
  by_cases hh : ∃ part, part <+: lines ∧ Closes part
  · obtain ⟨part, hp, hc⟩ := hh
    obtain ⟨head, ⟨rest, rfl⟩, hs⟩ := exists_shortest hp hc
    cases ht : (⟨head, []⟩ : Block).awaited? with
    | none =>
      left
      exact ⟨⟨head, []⟩, rest, ⟨hs, by simp [ht]⟩, by simp [Block.lines]⟩
    | some t =>
      by_cases hb : ∃ run, run <+: rest ∧ Body.Ends 0 (t ++ run.flatten)
      · left
        obtain ⟨run, hr, he⟩ := hb
        obtain ⟨body, ⟨more, rfl⟩, hbs⟩ :=
          exists_shortest (P := fun run => Body.Ends 0 (t ++ run.flatten)) hr he
        have ha : (⟨head, body⟩ : Block).awaited? = some t := ht
        refine ⟨⟨head, body⟩, more, ⟨hs, ?_⟩, by simp [Block.lines]⟩
        rw [ha]
        exact hbs
      · right
        have hu : (⟨head, rest⟩ : Block).Unended t := by
          refine ⟨hs, ht, ?_⟩
          intro run hr he
          exact hb ⟨run, hr, he⟩
        exact .body hu
  · right
    cases lines with
    | nil => exact .nothing
    | cons line lines =>
      refine .head (by simp) ?_
      intro part hp hc
      exact hh ⟨part, hp, hc⟩

theorem exists_split (lines : List Text) :
    ∃ blocks tail, (∀ b ∈ blocks, b.Closed) ∧ lines = linesOf blocks ++ tail ∧ Tail tail := by
  induction hn : lines.length using Nat.strongRecOn generalizing lines with
  | ind n ih =>
    rcases exists_closed_or_tail lines with ⟨b, rest, hb, rfl⟩ | ht
    · -- a closed block holds a line, so fewer lines are left
      have hpos := List.length_pos_iff.2 (head_ne_nil hb.1)
      have hlt : rest.length < n := by
        rw [← hn, Block.lines]
        simp only [List.length_append]
        omega
      obtain ⟨bs, tail, hbs, rfl, ht⟩ := ih rest.length hlt rest rfl
      refine ⟨b :: bs, tail, ?_, ?_, ht⟩
      · simpa using ⟨hb, hbs⟩
      · simp [Block.lines]
    · exact ⟨[], lines, by simp, by simp, ht⟩

end SourceSurvey.DeclarationScan
