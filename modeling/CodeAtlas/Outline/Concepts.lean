import CodeAtlas.Outline.Basic

/-!
# From syntax trees to items

There are two ways of reducing a tree to items. The *structural* one shows every node; a child's
column is its position among its siblings. The *conceptual* one shows some nodes, the concepts, and
looks through all others: what stands below a node that is not shown hangs below the nearest concept
above it.
-/

namespace CodeAtlas.Rose

variable {α : Type}

mutual

/-- Every node as an item, its root in column `place`. -/
def itemize (label : α → String) (place : Nat) : Rose α → Rose Item
  | .node v ts => .node { label := label v, place } (itemizeAll label 0 ts)

/-- Trees side by side, the first in column `place`. -/
def itemizeAll (label : α → String) (place : Nat) : List (Rose α) → List (Rose Item)
  | [] => []
  | t :: ts => itemize label place t :: itemizeAll label (place + 1) ts

end

/-- What a conceptual drawing shows. -/
structure ConceptRules (α : Type) where
  /-- The label of a concept, and whether it is highlighted; nothing for a node that is looked
  through. -/
  concept : α → Option (String × Bool)
  /-- Whether a child of a node is visited. -/
  visits : (parent child : α) → Bool
  /-- The node is a mere wrapper: its children stand in the columns from its own on. -/
  inPlace : α → Bool

mutual

/-- The concepts of a tree whose root has column `place`. -/
def concepts (r : ConceptRules α) (place : Nat) : Rose α → List (Rose Item)
  | .node v ts =>
    let below := conceptsAll r (r.visits v) (if r.inPlace v then place else 0) ts
    match r.concept v with
    | some (label, highlighted) => [.node { label, highlighted, place } below]
    | none => below

/-- The concepts of those trees side by side that are visited. The first visited has column
`place`. -/
def conceptsAll (r : ConceptRules α) (visited : α → Bool) (place : Nat) :
    List (Rose α) → List (Rose Item)
  | [] => []
  | t :: ts =>
    if visited t.value then concepts r place t ++ conceptsAll r visited (place + 1) ts
    else conceptsAll r visited place ts

end

end CodeAtlas.Rose

namespace CodeAtlas

/-- The drawing that shows every node of the tree that `view` makes out. -/
def Drawing.structural {α β : Type} (family : Family) (view : α → Option (Rose β))
    (label : β → String) : Drawing α where
  family := family
  draft tree depth place _ :=
    match view tree with
    | some t => (t.itemize label place).draft depth .outer 0
    | none => []

/-- The drawing that shows the concepts of the tree that `view` makes out. -/
def Drawing.conceptual {α β : Type} (family : Family) (view : α → Option (Rose β))
    (rules : Rose.ConceptRules β) : Drawing α where
  family := family
  draft tree depth place _ :=
    match view tree with
    | some t => Rose.draftAll depth .outer 0 (t.concepts rules place)
    | none => []

end CodeAtlas
