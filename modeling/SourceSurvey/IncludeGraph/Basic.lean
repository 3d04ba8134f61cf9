import SourceSurvey.Dependence

/-!
# Include graphs

The nodes are class names, each with its record if it has one; an edge leads from a class to a
project name that it includes. Nodes and edges keep the order in which they came, a class never
includes itself, and adding a record anew replaces the record and keeps the edges.
-/

namespace SourceSurvey

structure Node where
  name : Text
  record : Option Dependence
  deriving DecidableEq, Repr

/-- The including class and the included name. -/
abbrev Edge := Text × Text

instance : LawfulBEq Edge := inferInstanceAs (LawfulBEq (Text × Text))

structure IncludeGraph where
  nodes : List Node
  edges : List Edge
  deriving DecidableEq, Repr

namespace IncludeGraph

def empty : IncludeGraph := ⟨[], []⟩

def names (g : IncludeGraph) : List Text := g.nodes.map Node.name

/-! ## Building -/

def attach (g : IncludeGraph) (d : Dependence) : IncludeGraph :=
  if d.className ∈ g.names then
    ⟨g.nodes.map fun n => if n.name = d.className then ⟨n.name, some d⟩ else n, g.edges⟩
  else ⟨g.nodes ++ [⟨d.className, some d⟩], g.edges⟩

/-- An edge to a name that is not in the graph yet brings a node without a record. -/
def connect (source : Text) (g : IncludeGraph) (target : Text) : IncludeGraph :=
  if target = source then g
  else
    ⟨if target ∈ g.names then g.nodes else g.nodes ++ [⟨target, none⟩],
      if (source, target) ∈ g.edges then g.edges else g.edges ++ [(source, target)]⟩

def add (g : IncludeGraph) (d : Dependence) : IncludeGraph :=
  d.project.names.foldl (connect d.className) (g.attach d)

def ofRecords (ds : List Dependence) : IncludeGraph := ds.foldl add empty

inductive Edit where
  | add (d : Dependence)
  | clear
  deriving DecidableEq, Repr

def edit (g : IncludeGraph) : Edit → IncludeGraph
  | .add d => g.add d
  | .clear => empty

def ofEdits (edits : List Edit) : IncludeGraph := edits.foldl edit empty

/-! ## Queries -/

def record? (g : IncludeGraph) (name : Text) : Option Dependence :=
  (g.nodes.find? fun n => n.name = name).bind Node.record

def successors (g : IncludeGraph) (name : Text) : List Text :=
  (g.edges.filter fun e => e.1 = name).map Prod.snd

/-- The classes that include the name, in the order of their edges. -/
def dependents (g : IncludeGraph) (name : Text) : List Text :=
  (g.edges.filter fun e => e.2 = name).map Prod.fst

/-- The edges in the order of the nodes they leave. -/
def edgesByNode (g : IncludeGraph) : List Edge :=
  g.names.flatMap fun n => (g.successors n).map fun m => (n, m)

def nodeCount (g : IncludeGraph) : Nat := g.nodes.length

def edgeCount (g : IncludeGraph) : Nat := g.edges.length

end IncludeGraph

end SourceSurvey
