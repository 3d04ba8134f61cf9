import SourceSurvey.Defect

/-!
# Outcomes

What is done to the result of a scan or to its error leaves the other as it is. Two scans have the
same outcome when they give the same result or fail with defects of the same kind.
-/

namespace SourceSurvey

variable {ε δ α : Type}

theorem map_some_eq_ok_iff {r : Except ε α} {a : α} : r.map some = .ok (some a) ↔ r = .ok a := by
  cases r <;> simp [Except.map]

theorem map_eq_ok_iff {β : Type} {r : Except ε α} {g : α → β} {b : β} :
    r.map g = .ok b ↔ ∃ a, r = .ok a ∧ g a = b := by
  cases r <;> simp [Except.map]

theorem map_eq_error_iff {β : Type} {r : Except ε α} {g : α → β} {e : ε} :
    r.map g = .error e ↔ r = .error e := by
  cases r <;> simp [Except.map]

theorem mapError_eq_ok_iff {r : Except ε α} {f : ε → δ} {a : α} :
    r.mapError f = .ok a ↔ r = .ok a := by
  cases r with
  | error e =>
    show Except.error (f e) = .ok a ↔ Except.error e = .ok a
    simp
  | ok b =>
    show (.ok b : Except δ α) = .ok a ↔ (.ok b : Except ε α) = .ok a
    rw [Except.ok.injEq, Except.ok.injEq]

theorem mapError_eq_error_iff {r : Except ε α} {f : ε → δ} {d : δ} :
    r.mapError f = .error d ↔ ∃ e, r = .error e ∧ f e = d := by
  cases r with
  | error e =>
    show Except.error (f e) = .error d ↔ ∃ e', Except.error e = .error e' ∧ f e' = d
    simp
  | ok a =>
    show Except.ok a = .error d ↔ ∃ e', Except.ok a = .error e' ∧ f e' = d
    simp

/-! ## Kinds of defects -/

inductive Defect.Kind where
  | malformedInclude
  | openParameters
  | openBody
  | unsupportedExtension
  | includeCycle
  deriving DecidableEq, Repr

def Defect.kind : Defect → Defect.Kind
  | .noTarget _ | .unterminatedTarget _ | .emptyTarget _ => .malformedInclude
  | .openParameters _ => .openParameters
  | .openBody _ _ => .openBody
  | .unsupportedExtension _ _ => .unsupportedExtension
  | .includeCycle _ => .includeCycle

/-- The same result, or errors of the same kind wherever they were met. -/
def SameOutcome : Except ScanError α → Except ScanError α → Prop
  | .ok a, .ok b => a = b
  | .error e, .error f => e.defect.kind = f.defect.kind
  | _, _ => False

end SourceSurvey
