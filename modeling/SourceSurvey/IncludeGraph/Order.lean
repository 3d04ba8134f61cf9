import SourceSurvey.IncludeGraph.Cycles

/-!
# Build order

Names are taken from a queue that starts with those nobody includes. Taking a name appends those of
its includes whose including classes have all been taken. If every name is taken the sequence,
reversed, puts each class after all that it includes; otherwise there is a cycle.
-/

namespace SourceSurvey.IncludeGraph

/-- Whether no class that includes the name is left. -/
def isFree (g : IncludeGraph) (left : List Text) (name : Text) : Bool :=
  (g.dependents name).all (· ∉ left)

def takeFrom (g : IncludeGraph) (left : List Text) : List Text → List Text
  | [] => []
  | n :: queue =>
    if n ∈ left then
      n :: takeFrom g (left.erase n)
        (queue ++ (g.successors n).filter (g.isFree (left.erase n)))
    else takeFrom g left queue
termination_by queue => (left.length, queue.length)
decreasing_by
  · have := List.length_erase_of_mem ‹n ∈ left›
    have := List.length_pos_of_mem ‹n ∈ left›
    exact Prod.Lex.left _ _ (by omega)
  · exact Prod.Lex.right _ (by simp)

/-- The names that can be taken, including classes before what they include. -/
def dependentsFirst (g : IncludeGraph) : List Text :=
  g.takeFrom g.names (g.names.filter (g.isFree g.names))

/-- The cycle that a failing order reports. -/
def firstCycle (g : IncludeGraph) : List Text := g.cycles.head?.getD [['?']]

def buildOrder (g : IncludeGraph) : Except Defect (List Text) :=
  if g.dependentsFirst.length = g.nodeCount then .ok g.dependentsFirst.reverse
  else .error (.includeCycle g.firstCycle)

end SourceSurvey.IncludeGraph
