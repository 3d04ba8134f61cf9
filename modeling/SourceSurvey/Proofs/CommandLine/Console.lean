import SourceSurvey.CommandLine.Console

/-!
# What a console leaves of an outcome

A console accepts all items of an outcome, which then stays as it is, or it refuses a first one,
which ends the run with the items before it.
-/

namespace SourceSurvey.CommandLine

variable {c : Console} {o : Outcome} {items before : List Printed} {message : Text}

/-- The console refuses none of the items. -/
def Console.Accepts (c : Console) (items : List Printed) : Prop :=
  ∀ item ∈ items, c.refusal? item = none

/-- The console accepts the items `before` and refuses the one behind them. -/
def Console.Refuses (c : Console) (items before : List Printed) (message : Text) : Prop :=
  c.Accepts before ∧ ∃ item after, items = before ++ item :: after ∧
    c.refusal? item = some message

theorem Console.accepts_nil (c : Console) : c.Accepts [] :=
  fun _ h => absurd h List.not_mem_nil

theorem Console.plain_accepts (items : List Printed) : Console.plain.Accepts items :=
  fun _ _ => rfl

theorem Console.accepts_or_refuses (c : Console) (items : List Printed) :
    c.Accepts items ∨ ∃ before message, c.Refuses items before message := by
  induction items with
  | nil => exact .inl c.accepts_nil
  | cons item items ih =>
    cases hr : c.refusal? item with
    | some message => exact .inr ⟨[], message, c.accepts_nil, item, items, rfl, hr⟩
    | none =>
      rcases ih with ha | ⟨before, message, hb, other, after, rfl, ho⟩
      · exact .inl (List.forall_mem_cons.2 ⟨hr, ha⟩)
      · exact .inr ⟨item :: before, message, List.forall_mem_cons.2 ⟨hr, hb⟩, other, after, rfl, ho⟩

theorem Outcome.on_of_accepts (h : c.Accepts o.printed) : o.on c = o := by
  rw [Outcome.on, List.findSome?_eq_none_iff.2 h]

theorem Outcome.on_of_refuses (h : c.Refuses o.printed before message) :
    o.on c = ⟨1, before, some (.unprintable message)⟩ := by
  obtain ⟨hb, item, after, hitems, hr⟩ := h
  have hfirst : o.printed.findSome? c.refusal? = some message := by
    rw [hitems, List.findSome?_append, List.findSome?_eq_none_iff.2 hb, Option.none_or,
      List.findSome?_cons, hr]
  have haccepted : c.accepted o.printed = before := by
    have hall : ∀ item ∈ before, (c.refusal? item).isNone = true := fun item hm => by
      rw [hb item hm]
      rfl
    rw [Console.accepted, hitems, List.takeWhile_append_of_pos hall,
      List.takeWhile_cons_of_neg (by simp [hr]), List.append_nil]
  rw [Outcome.on, hfirst, haccepted]

theorem runOn_of_accepts {fs : FileSystem} {elapsed : Text} {args : List Text}
    (h : run fs elapsed args = o) (hc : c.Accepts o.printed) : runOn c fs elapsed args = o := by
  rw [runOn, h, Outcome.on_of_accepts hc]

end SourceSurvey.CommandLine
