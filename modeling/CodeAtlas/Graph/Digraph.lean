import CodeAtlas.Graph.Basic

/-!
# Graphs by position

To follow edges a graph is taken by the positions of its nodes, so that an arc is a pair of
positions. Several nodes may have one name: an edge leads to the last of them, and a query starts
from the first. Edges that dangle are left out.
-/

namespace CodeAtlas

structure Digraph where
  names : Array String
  arcs : List (Fin names.size × Fin names.size)

namespace Digraph

/-- The name at a position. -/
def nameAt (names : Array String) (i : Fin names.size) : String := names[i]

/-- The first position of a name. -/
def first? (names : Array String) (name : String) : Option (Fin names.size) :=
  (List.finRange names.size).find? (nameAt names · == name)

/-- The last position of a name. -/
def last? (names : Array String) (name : String) : Option (Fin names.size) :=
  (List.finRange names.size).reverse.find? (nameAt names · == name)

/-- The arcs the other way round. -/
def converse (d : Digraph) : Digraph := { d with arcs := d.arcs.map Prod.swap }

/-- The names one arc away from a name. -/
def neighbors (d : Digraph) (name : String) : List String :=
  match first? d.names name with
  | some start => (d.arcs.filter (·.1 == start)).map (nameAt d.names ·.2)
  | none => []

end Digraph

/-- The nodes and the edges that do not dangle, by position. -/
def Graph.toDigraph (g : Graph) : Digraph :=
  let names := (g.nodes.map (·.id)).toArray
  { names
    arcs := g.edges.filterMap fun e => do
      let source ← Digraph.last? names e.source
      let target ← Digraph.last? names e.target
      return (source, target) }

end CodeAtlas
