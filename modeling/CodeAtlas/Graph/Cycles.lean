import CodeAtlas.Graph.Basic

/-!
# Cycles

Two nodes lie on a common cycle when each reaches the other along at least one edge. That relation
cuts the nodes on cycles into groups; a node with an edge to itself is a group even if it is alone.
Dangling edges do not count.
-/

namespace CodeAtlas.Graph

/-- The order of texts by Unicode scalar value, as a test. -/
def textLe (a b : String) : Bool := !decide (b < a)

/-- The names of the nodes, sorted, each once. -/
def sortedIds (g : Graph) : List String := ((g.nodes.map (·.id)).mergeSort textLe).eraseDups

/-- The nodes one edge away. -/
def successors (edges : List Edge) (id : String) : List String :=
  edges.filterMap fun e => if e.source = id then some e.target else none

/-- Adds to `seen` what lies within `steps` further edges of its last part, the frontier. -/
def spread (edges : List Edge) : (steps : Nat) → (frontier seen : List String) → List String
  | 0, _, seen => seen
  | steps + 1, frontier, seen =>
    let fresh := ((frontier.flatMap (successors edges)).filter (!seen.contains ·)).eraseDups
    if fresh.isEmpty then seen else spread edges steps fresh (seen ++ fresh)

/-- The nodes at the end of a path of one or more edges, of which no more than `limit` lead to new
nodes. -/
def reachedFrom (edges : List Edge) (limit : Nat) (id : String) : List String :=
  let start := (successors edges id).eraseDups
  spread edges limit start start

/-- Collects the groups of nodes on cycles: `reach` lists for every name, in order, the names it
reaches. -/
def cycleGroups (reach : List (String × List String)) : List (List String) :=
  let reaches (a b : String) : Bool := reach.any fun (id, ends) => id == a && ends.contains b
  let onCycle := (reach.map (·.1)).filter fun a => reaches a a
  (onCycle.map fun a => onCycle.filter fun b => reaches a b && reaches b a).eraseDups

/-- The groups of nodes that lie on common cycles, each sorted, in the order of their first
members. -/
def cycles (g : Graph) : List (List String) :=
  let edges := g.anchoredEdges
  cycleGroups (g.sortedIds.map fun id => (id, reachedFrom edges g.nodes.length id))

end CodeAtlas.Graph
