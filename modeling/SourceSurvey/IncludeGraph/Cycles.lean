import SourceSurvey.IncludeGraph.Reach

/-!
# Include cycles

A cycle is listed from its least name on, and the list of all cycles ascends. The cycles from a
start are the ways back to it through greater names that lie on some way back.
-/

namespace SourceSurvey.IncludeGraph

/-- The ways on from `current` to `start`, each through distinct members of `free`. -/
def waysBack (g : IncludeGraph) (start current : Text) (free : List Text) : List (List Text) :=
  (if (current, start) ∈ g.edges then [[]] else []) ++
    free.attach.flatMap fun ⟨n, _⟩ =>
      if (current, n) ∈ g.edges then (waysBack g start n (free.erase n)).map (n :: ·) else []
termination_by free.length
decreasing_by
  have := List.length_erase_of_mem ‹n ∈ free›
  have := List.length_pos_of_mem ‹n ∈ free›
  omega

/-- The greater names that `start` reaches and that reach it, through greater names only. -/
def companions (g : IncludeGraph) (start : Text) : List Text :=
  let reached := explore g.successors (g.names.filter (start < ·)) (g.successors start)
  Ascending.ofList (explore g.dependents reached (g.dependents start))

def cyclesFrom (g : IncludeGraph) (start : Text) : List (List Text) :=
  (g.waysBack start start (g.companions start)).map (start :: ·)

def cycles (g : IncludeGraph) : List (List Text) :=
  Ascending.ofList ((Ascending.ofList g.names).flatMap g.cyclesFrom)

end SourceSurvey.IncludeGraph
