import SourceSurvey.IncludeGraph.Basic

/-!
# Transitive includes

`explore` walks along `next` from a frontier through names that were not met before. The transitive
project names of a class are all that it reaches except itself, and its transitive libraries are
those that it and they record.
-/

namespace SourceSurvey.IncludeGraph

/-- The members of `unmet` that can be reached from the frontier through members of `unmet`. -/
def explore (next : Text → List Text) (unmet : List Text) : List Text → List Text
  | [] => []
  | n :: frontier =>
    if n ∈ unmet then n :: explore next (unmet.erase n) (next n ++ frontier)
    else explore next unmet frontier
termination_by frontier => (unmet.length, frontier.length)
decreasing_by
  · have := List.length_erase_of_mem ‹n ∈ unmet›
    have := List.length_pos_of_mem ‹n ∈ unmet›
    exact Prod.Lex.left _ _ (by omega)
  · exact Prod.Lex.right _ (by simp)

def descendants (g : IncludeGraph) (name : Text) : List Text :=
  explore g.successors (g.names.erase name) (g.successors name)

def project (g : IncludeGraph) (name : Text) : NameSet := NameSet.ofList (g.successors name)

def transitiveProject (g : IncludeGraph) (name : Text) : NameSet :=
  NameSet.ofList (g.descendants name)

/-- The recorded libraries; a name without a record has none. -/
def libraries (g : IncludeGraph) (name : Text) : NameSet :=
  ((g.record? name).map Dependence.libraries).getD NameSet.empty

def transitiveLibraries (g : IncludeGraph) (name : Text) : NameSet :=
  NameSet.unions ((name :: g.descendants name).map g.libraries)

end SourceSurvey.IncludeGraph
