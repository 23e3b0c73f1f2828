import CodeAtlas.Numeric.Floating

/-!
# Graphs

A graph is what a renderer draws: nodes and edges in the order in which they were added. Nodes are
named by text, and an edge names its ends, so an edge may dangle and a name may be used twice. The
queries below say what happens then: looking a node up finds the first of that name, while the
labels and ends that edges refer to belong to the last.
-/

namespace CodeAtlas

open Numeric (Floating Format)

/-- How a node is drawn. -/
inductive Role where
  | input
  | default
  | output
deriving DecidableEq, Repr

/-- Roots are inputs, every other node is plain. -/
def Role.forDepth (depth : Nat) : Role := if depth = 0 then .input else .default

/-- The row and the column that a walk gave to a node. -/
structure LayoutHint where
  depth : Nat := 0
  siblingIndex : Nat := 0
deriving DecidableEq, Repr

/-- A coordinate on the drawing surface. -/
inductive Coordinate where
  | finite (x : Floating .single)
  | infinite (negative : Bool)
deriving DecidableEq

namespace Coordinate

/-- The coordinate for a rounded number, which is nothing beyond the largest one. -/
def ofRounded (negative : Bool) : Option (Floating .single) → Coordinate
  | some x => .finite x
  | none => .infinite negative

/-- The coordinate nearest to `± num / den`. -/
def nearest (negative : Bool) (num den : Nat) : Coordinate :=
  ofRounded negative (Floating.round .single negative num den)

/-- The `index`-th line of a grid: the index is rounded first and the product again. -/
def onGrid (index step : Nat) : Coordinate :=
  match nearest false index 1 with
  | .finite x => nearest false (x.magnitude.1 * step) x.magnitude.2
  | .infinite negative => .infinite negative

end Coordinate

structure Position where
  x : Coordinate
  y : Coordinate
deriving DecidableEq

/-- The distance between neighbouring columns and between neighbouring rows. -/
structure Spacing where
  horizontal : Nat
  vertical : Nat
deriving DecidableEq, Repr

def Spacing.position (s : Spacing) (hint : LayoutHint) : Position :=
  ⟨.onGrid hint.siblingIndex s.horizontal, .onGrid hint.depth s.vertical⟩

structure Node where
  id : String
  label : String
  kind : Role
  layoutHint : LayoutHint
  position : Position
  /-- The node stands for something outside the project. -/
  external : Bool := false
deriving DecidableEq

structure Edge where
  id : String
  source : String
  target : String
  label : Option String := none
  /-- The edge is drawn highlighted. -/
  emphasized : Bool := false
deriving DecidableEq

/-- The name of the edge between two nodes. -/
def Edge.nameOf (source target : String) : String := "e-" ++ source ++ "-to-" ++ target

/-- The plain edge between two nodes. -/
def Edge.between (source target : String) : Edge :=
  { id := Edge.nameOf source target, source, target }

structure Graph where
  nodes : List Node := []
  edges : List Edge := []
deriving DecidableEq

namespace Graph

def empty : Graph := {}

instance : Inhabited Graph := ⟨empty⟩

def isEmpty (g : Graph) : Bool := g.nodes.isEmpty

/-- The first node of that name. -/
def node? (g : Graph) (id : String) : Option Node := g.nodes.find? (·.id == id)

/-- The last node of that name. -/
def lastNode? (g : Graph) (id : String) : Option Node := g.nodes.reverse.find? (·.id == id)

def hasNode (g : Graph) (id : String) : Bool := g.nodes.any (·.id == id)

def hasEdge (g : Graph) (id : String) : Bool := g.edges.any (·.id == id)

def labels (g : Graph) : List String := g.nodes.map (·.label)

/-- Both ends of an edge are nodes. -/
def anchors (g : Graph) (e : Edge) : Bool := g.hasNode e.source && g.hasNode e.target

/-- The edges of which an end is not a node. -/
def danglingEdges (g : Graph) : List Edge := g.edges.filter fun e => !g.anchors e

/-- The edges of which both ends are nodes. -/
def anchoredEdges (g : Graph) : List Edge := g.edges.filter g.anchors

/-- No edge dangles. -/
def isClosed (g : Graph) : Bool := g.danglingEdges.isEmpty

/-- The labels at the two ends of every edge that does not dangle, in edge order. -/
def labelTopology (g : Graph) : List (String × String) :=
  g.edges.filterMap fun e => do
    let source ← g.lastNode? e.source
    let target ← g.lastNode? e.target
    return (source.label, target.label)

/-- A graph of one node that carries a message. -/
def placeholder (id label : String) : Graph :=
  { nodes := [{ id, label, kind := .output, layoutHint := {}
                position := ⟨.nearest false 100 1, .nearest false 100 1⟩ }] }

/-- What is shown for a text that cannot be parsed. -/
def syntaxError (message : String) : Graph := placeholder "error" ("Syntax Error: " ++ message)

/-- What is shown while a parser is starting. -/
def loading (what : String) : Graph := placeholder "loading" ("Loading " ++ what ++ "...")

end Graph

end CodeAtlas
