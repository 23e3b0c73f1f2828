import CodeAtlas.Graph.Basic

/-!
# Outlines

Every language is drawn in the same way. Its syntax tree is first reduced to a forest of items to be
shown, and the forest is then numbered in pre-order: an item comes before what stands below it, and
siblings come in document order. The numbered list is a *draft*. It does not name nodes yet, so it
says the same wherever it is added to a graph; adding it to a graph gives every item a name made of
the family's stem and the number of nodes before it.
-/

namespace CodeAtlas

/-- A tree with any number of children at every node. -/
inductive Rose (α : Type) where
  | node (value : α) (children : List (Rose α))

namespace Rose

variable {α β : Type}

def value : Rose α → α
  | .node v _ => v

def children : Rose α → List (Rose α)
  | .node _ ts => ts

mutual

def map (f : α → β) : Rose α → Rose β
  | .node v ts => .node (f v) (mapAll f ts)

def mapAll (f : α → β) : List (Rose α) → List (Rose β)
  | [] => []
  | t :: ts => map f t :: mapAll f ts

end

mutual

/-- The values of a tree, a node before what stands below it. -/
def preorder : Rose α → List α
  | .node v ts => v :: preorderAll ts

def preorderAll : List (Rose α) → List α
  | [] => []
  | t :: ts => preorder t ++ preorderAll ts

end

end Rose

/-- Something to be shown. -/
structure Item where
  label : String
  /-- The item is highlighted whatever its depth. -/
  highlighted : Bool := false
  /-- The column. -/
  place : Nat
deriving DecidableEq, Repr

/-- What an entry of a draft hangs below: nothing, whatever the draft is added below, or an earlier
entry of the same draft. -/
inductive Anchor where
  | loose
  | outer
  | entry (index : Nat)
deriving DecidableEq, Repr

/-- A node to be, with its links still relative to the draft it belongs to. -/
structure Entry where
  label : String
  kind : Role
  hint : LayoutHint
  anchor : Anchor
deriving DecidableEq, Repr

abbrev Draft := List Entry

def Item.role (item : Item) (depth : Nat) : Role :=
  if item.highlighted then .output else .forDepth depth

mutual

/-- The draft of a tree of items. Its root stands at `depth` below `anchor` and is entry number
`next`. -/
def Rose.draft (depth : Nat) (anchor : Anchor) (next : Nat) : Rose Item → Draft
  | .node item ts =>
    ⟨item.label, item.role depth, ⟨depth, item.place⟩, anchor⟩
      :: Rose.draftAll (depth + 1) (.entry next) (next + 1) ts

/-- The drafts of several trees, one after the other. -/
def Rose.draftAll (depth : Nat) (anchor : Anchor) (next : Nat) : List (Rose Item) → Draft
  | [] => []
  | t :: ts =>
    let first := Rose.draft depth anchor next t
    first ++ Rose.draftAll depth anchor (next + first.length) ts

end

/-- The kinds of drawing. Each has a stem for the names of its nodes and a spacing of its own. -/
inductive Family where
  | markup
  | script
  | scriptConcepts
  | stylesheet
  | java
  | javaConcepts
  | python
  | pythonConcepts
deriving DecidableEq, Repr

namespace Family

def all : List Family :=
  [.markup, .script, .scriptConcepts, .stylesheet, .java, .javaConcepts, .python, .pythonConcepts]

def stem : Family → String
  | .markup => "dom"
  | .script => "js"
  | .scriptConcepts => "simple-js"
  | .stylesheet => "css"
  | .java => "java"
  | .javaConcepts => "simple-java"
  | .python => "py"
  | .pythonConcepts => "simple-py"

def spacing : Family → Spacing
  | .markup => ⟨170, 100⟩
  | .script | .java | .python => ⟨220, 100⟩
  | .stylesheet => ⟨200, 100⟩
  | .scriptConcepts | .pythonConcepts => ⟨250, 100⟩
  | .javaConcepts => ⟨300, 120⟩

/-- The name of the node that has `count` nodes before it. -/
def nodeName (f : Family) (count : Nat) : String := f.stem ++ "-" ++ toString count

end Family

/-- The name that an anchor stands for when the draft is added after `base` nodes below `parent`. -/
def Anchor.resolve (family : Family) (base : Nat) (parent : Option String) : Anchor → Option String
  | .loose => none
  | .outer => parent
  | .entry k => some (family.nodeName (base + k))

def Entry.toNode (family : Family) (count : Nat) (e : Entry) : Node :=
  { id := family.nodeName count, label := e.label, kind := e.kind, layoutHint := e.hint
    position := family.spacing.position e.hint }

/-- The edge into an entry, unless it hangs below nothing. -/
def Entry.edge? (family : Family) (base : Nat) (parent : Option String) (index : Nat) (e : Entry) :
    Option Edge :=
  (e.anchor.resolve family base parent).map (Edge.between · (family.nodeName (base + index)))

/-- Adds a draft to a graph, below the node named `parent` if one is given. -/
def Graph.add (g : Graph) (family : Family) (parent : Option String) (draft : Draft) : Graph :=
  let base := g.nodes.length
  { nodes := g.nodes ++ draft.mapIdx fun k e => e.toNode family (base + k)
    edges := g.edges ++ (draft.mapIdx fun k e => e.edge? family base parent k).filterMap id }

/-- Where a walk starts: the node it hangs below, and the row and column of its root. -/
structure Slot where
  parent : Option String := none
  depth : Nat := 0
  place : Nat := 0
deriving DecidableEq, Repr

/-- A way of drawing trees of type `α`. What is drawn depends on the row and column of the slot and
on whether something stands above it, not on what that is called. -/
structure Drawing (α : Type) where
  family : Family
  draft : (tree : α) → (depth place : Nat) → (attached : Bool) → Draft

namespace Drawing

variable {α : Type}

/-- Draws a tree into a graph from a slot. -/
def drawAt (d : Drawing α) (g : Graph) (slot : Slot) (tree : α) : Graph :=
  g.add d.family slot.parent (d.draft tree slot.depth slot.place slot.parent.isSome)

/-- Draws a tree on its own. -/
def draw (d : Drawing α) (tree : α) : Graph := d.drawAt .empty {} tree

end Drawing

end CodeAtlas
