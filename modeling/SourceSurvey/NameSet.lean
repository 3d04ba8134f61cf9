import SourceSurvey.Ascending
import SourceSurvey.Text.Basic

/-!
# Sets of names

A set of names is kept as its ascending list, so equal sets are equal values (`NameSet.ext`) and
the order in which a set is walked or printed is fixed.
-/

namespace SourceSurvey

structure NameSet where
  names : List Text
  ascending : names.Pairwise (· < ·)
  deriving DecidableEq, Repr

namespace NameSet

def ofList (names : List Text) : NameSet :=
  ⟨Ascending.ofList names, Ascending.pairwise_ofList names⟩

def empty : NameSet := ofList []

instance : Membership Text NameSet := ⟨fun s n => n ∈ s.names⟩

theorem mem_ofList {n : Text} {names : List Text} : n ∈ ofList names ↔ n ∈ names :=
  Ascending.mem_ofList

theorem ext {s t : NameSet} (h : ∀ n, n ∈ s ↔ n ∈ t) : s = t := by
  obtain ⟨a, ha⟩ := s
  obtain ⟨b, hb⟩ := t
  obtain rfl : a = b := Ascending.eq_of_mem_iff ha hb h
  rfl

theorem not_mem_empty (n : Text) : n ∉ empty := by
  intro h
  cases mem_ofList.1 h

theorem eq_empty_iff {s : NameSet} : s = empty ↔ ∀ n, n ∉ s := by
  constructor
  · rintro rfl
    exact not_mem_empty
  · intro h
    exact ext fun n => ⟨fun hn => (h n hn).elim, fun hn => (not_mem_empty n hn).elim⟩

def union (s t : NameSet) : NameSet := ofList (s.names ++ t.names)

theorem mem_union {n : Text} {s t : NameSet} : n ∈ s.union t ↔ n ∈ s ∨ n ∈ t := by
  rw [union, mem_ofList, List.mem_append]
  rfl

/-- The union of all the sets. -/
def unions (sets : List NameSet) : NameSet := ofList (sets.flatMap NameSet.names)

/-- The names in ascending order, separated by a comma and a space. -/
def listed (s : NameSet) : Text := Text.commaSeparated s.names

end NameSet

end SourceSurvey
