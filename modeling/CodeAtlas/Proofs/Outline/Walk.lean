import CodeAtlas.Proofs.Outline.Forest
import CodeAtlas.Proofs.Outline.SurveyDraft

/-!
# Walks into a shared graph

A drawing can be made in one walk that adds node after node to a graph, each named by the number of
nodes that the graph has by then. Such a walk names what it hangs nodes below, so every step depends
on all that was added before. Here the walks of all drawings are written down in that way and shown
to make the same drawings.

What comes of it is that walks compose. Whatever the graph holds when a walk begins stays as it is,
and what the walk adds is the same every time but for the names: these begin at the number of nodes
that were there, and only the name of what the walk hangs below is taken over as it is.
-/

namespace CodeAtlas

/-- Adds a node, and an edge into it if it hangs below something. -/
def Graph.attach (g : Graph) (f : Family) (parent : Option String) (label : String) (kind : Role)
    (hint : LayoutHint) : Graph :=
  let name := f.nodeName g.nodes.length
  { nodes := g.nodes ++
      [{ id := name, label, kind, layoutHint := hint, position := f.spacing.position hint }]
    edges := g.edges ++ (parent.map (Edge.between · name)).toList }

/-! ### Walks -/

namespace Rose

variable {α : Type}

mutual

/-- Shows every node of a tree. -/
def walk (f : Family) (label : α → String) (g : Graph) (slot : Slot) : Rose α → Graph
  | .node v ts =>
    walkAll f label (g.attach f slot.parent (label v) (.forDepth slot.depth)
      ⟨slot.depth, slot.place⟩)
      ⟨some (f.nodeName g.nodes.length), slot.depth + 1, 0⟩ ts

/-- Shows trees side by side, the first of them in the slot. -/
def walkAll (f : Family) (label : α → String) (g : Graph) (slot : Slot) : List (Rose α) → Graph
  | [] => g
  | t :: ts => walkAll f label (walk f label g slot t) { slot with place := slot.place + 1 } ts

end

mutual

/-- Shows the concepts of a tree. -/
def walkConcepts (f : Family) (r : ConceptRules α) (g : Graph) (slot : Slot) : Rose α → Graph
  | .node v ts =>
    let place := if r.inPlace v then slot.place else 0
    match r.concept v with
    | some (label, highlighted) =>
      let kind := if highlighted then .output else .forDepth slot.depth
      walkConceptsAll f r (r.visits v) (g.attach f slot.parent label kind ⟨slot.depth, slot.place⟩)
        ⟨some (f.nodeName g.nodes.length), slot.depth + 1, place⟩ ts
    | none => walkConceptsAll f r (r.visits v) g { slot with place } ts

/-- Shows the concepts of those trees side by side that are visited. -/
def walkConceptsAll (f : Family) (r : ConceptRules α) (visited : α → Bool) (g : Graph)
    (slot : Slot) :
    List (Rose α) → Graph
  | [] => g
  | t :: ts =>
    if visited t.value then
      walkConceptsAll f r visited (walkConcepts f r g slot t)
        { slot with place := slot.place + 1 } ts
    else walkConceptsAll f r visited g slot ts

end

end Rose

namespace Java

/-- What surrounds a node, by name. -/
structure NamedScope where
  enclosingClass : Option String
  enclosing : Option String
  depth : Nat

mutual

/-- Shows the classes of a tree with their members. Returns the number of classes shown after it as
well. -/
def walk (g : Graph) (scope : NamedScope) (place classes : Nat) : Rose Json → Graph × Nat
  | .node v ts =>
    let name := Family.javaConcepts.nodeName g.nodes.length
    let below (parent label : String) : Graph :=
      g.attach .javaConcepts (some parent) label .default ⟨scope.depth, place⟩
    match concept? v, scope.enclosingClass, scope.enclosing with
    | some (.classDeclaration label), _, _ =>
      walkAll (g.attach .javaConcepts none label .input ⟨0, classes⟩) ⟨some name, some name, 1⟩ 0
        (classes + 1) ts
    | some (.field label), some parent, _ => (below parent label, classes)
    | some (.method label), some parent, _ =>
      walkAll (below parent label) ⟨some parent, some name, scope.depth + 1⟩ 0 classes ts
    | some (.variable label), _, some parent | some (.call label), _, some parent =>
      (below parent label, classes)
    | _, _, _ => walkAll g scope 0 classes ts

def walkAll (g : Graph) (scope : NamedScope) (place classes : Nat) : List (Rose Json) → Graph × Nat
  | [] => (g, classes)
  | t :: ts =>
    let (g, classes) := walk g scope place classes t
    walkAll g scope (place + 1) classes ts

end

end Java

namespace SourceTree

/-- Draws a source tree into a graph from a slot. -/
def drawAt (mode : Fidelity) (g : Graph) (slot : Slot) : SourceTree → Graph
  | .script program keys =>
    match mode with
    | .simple => (Script.conceptual keys).drawAt g slot program
    | .advanced => (Script.full keys).drawAt g slot program
  | .html root => Dom.drawing.drawAt g slot root
  | .css root => Stylesheet.drawing.drawAt g slot root
  | .java root =>
    match mode with
    | .simple => Java.conceptual.drawAt g slot root
    | .advanced => Java.full.drawAt g slot root
  | .python root =>
    match mode with
    | .simple => Python.conceptual.drawAt g slot root
    | .advanced => Python.full.drawAt g slot root

/-- Draws a source tree into a graph node by node. -/
def walk (mode : Fidelity) (g : Graph) (slot : Slot) : SourceTree → Graph
  | .script program keys =>
    (Script.tree? keys program).elim g fun t =>
      match mode with
      | .simple => t.walkConcepts .scriptConcepts Script.conceptRules g slot
      | .advanced => t.walk .script Script.label g slot
  | .html root =>
    (Dom.elementTree? root).elim g
      fun t => t.walk .markup (fun tag => "<" ++ Text.lower tag ++ ">") g slot
  | .css root =>
    if 0 < slot.depth && (TypedNode.typeOf? root).isNone then g
    else (Stylesheet.rootTree root).walk .stylesheet
      (fun n => Stylesheet.label n.type n.body) g slot
  | .java root =>
    (Java.tree? root).elim g fun t =>
      match mode with
      | .simple => (Java.walk g ⟨none, slot.parent, slot.depth⟩ slot.place 0 t).1
      | .advanced => t.walk .java (fun v => (Java.production? v).getD "node") g slot
  | .python root =>
    (Python.tree? root).elim g fun t =>
      match mode with
      | .simple => t.walkConcepts .pythonConcepts Python.conceptRules g slot
      | .advanced => t.walk .python Python.PythonNode.type g slot

end SourceTree

/-! ### Walks make the drawings -/

namespace Graph

variable (g : Graph) (f : Family) (parent : Option String)

@[simp] theorem add_nil : g.add f parent [] = g := by simp [add]

@[simp] theorem length_nodes_add (d : Draft) :
    (g.add f parent d).nodes.length = g.nodes.length + d.length := by
  simp [add]

/-- One more node of a drawing. -/
theorem attach_add (d : Draft) (label : String) (kind : Role) (hint : LayoutHint)
    (anchor : Anchor) :
    (g.add f parent d).attach f (anchor.resolve f g.nodes.length parent) label kind hint =
      g.add f parent (d ++ [⟨label, kind, hint, anchor⟩]) := by
  have edge : ∀ o : Option Edge, o.toList = [o].filterMap id := by
    rintro (_ | e) <;> rfl
  rw [attach, length_nodes_add, edge]
  simp [add, List.mapIdx_append, Entry.toNode, Entry.edge?]

end Graph

namespace Rose

variable {α : Type} (g : Graph) (f : Family) (parent : Option String)

mutual

/-- A walk that goes on with a drawing adds the draft of its tree. -/
theorem walk_add (label : α → String) (d : Draft) (anchor : Anchor)
    (depth place : Nat) : (t : Rose α) →
    t.walk f label (g.add f parent d) ⟨anchor.resolve f g.nodes.length parent, depth, place⟩ =
      g.add f parent (d ++ (t.itemize label place).draft depth anchor d.length)
  | .node v ts => by
    have below := walkAll_add label (d ++ [⟨label v, .forDepth depth, ⟨depth, place⟩, anchor⟩])
      (.entry d.length) (depth + 1) 0 ts
    rw [walk, Graph.attach_add, Graph.length_nodes_add, itemize, draft]
    simpa [Anchor.resolve, Item.role] using below

theorem walkAll_add (label : α → String) (d : Draft) (anchor : Anchor) (depth place : Nat) :
    (ts : List (Rose α)) →
    walkAll f label (g.add f parent d) ⟨anchor.resolve f g.nodes.length parent, depth, place⟩ ts =
      g.add f parent (d ++ draftAll depth anchor d.length (itemizeAll label place ts))
  | [] => by simp [walkAll, itemizeAll, draftAll]
  | t :: ts => by
    rw [walkAll, walk_add label d anchor depth place t,
      walkAll_add label _ anchor depth (place + 1) ts, itemizeAll, draftAll, List.append_assoc,
      List.length_append]

end

mutual

theorem walkConcepts_add (r : ConceptRules α) (d : Draft) (anchor : Anchor) (depth place : Nat) :
    (t : Rose α) →
    t.walkConcepts f r (g.add f parent d) ⟨anchor.resolve f g.nodes.length parent, depth, place⟩ =
      g.add f parent (d ++ draftAll depth anchor d.length (t.concepts r place))
  | .node v ts => by
    rw [walkConcepts, concepts]
    cases concept : r.concept v with
    | none =>
      exact walkConceptsAll_add r (r.visits v) d anchor depth _ ts
    | some c =>
      obtain ⟨label, highlighted⟩ := c
      have below := walkConceptsAll_add r (r.visits v)
        (d ++ [⟨label, if highlighted then .output else .forDepth depth, ⟨depth, place⟩, anchor⟩])
        (.entry d.length) (depth + 1) (if r.inPlace v then place else 0) ts
      simp only [Graph.attach_add, Graph.length_nodes_add]
      simpa [Anchor.resolve, Item.role, draft, draftAll] using below

theorem walkConceptsAll_add (r : ConceptRules α) (visited : α → Bool) (d : Draft) (anchor : Anchor)
    (depth place : Nat) : (ts : List (Rose α)) →
    walkConceptsAll f r visited (g.add f parent d) ⟨anchor.resolve f g.nodes.length parent,
      depth, place⟩ ts =
      g.add f parent (d ++ draftAll depth anchor d.length (conceptsAll r visited place ts))
  | [] => by simp [walkConceptsAll, conceptsAll, draftAll]
  | t :: ts => by
    rw [walkConceptsAll, conceptsAll]
    split
    · rw [walkConcepts_add r d anchor depth place t,
        walkConceptsAll_add r visited _ anchor depth (place + 1) ts, draftAll_append,
        List.append_assoc, List.length_append]
    · exact walkConceptsAll_add r visited d anchor depth place ts

end

/-- A walk begins with nothing drawn yet, below what its slot names. -/
theorem walk_eq_add (label : α → String) (slot : Slot) (t : Rose α) :
    t.walk f label g slot =
      g.add f slot.parent ((t.itemize label slot.place).draft slot.depth .outer 0) := by
  simpa [Anchor.resolve] using t.walk_add g f slot.parent label [] .outer slot.depth slot.place

theorem walkConcepts_eq_add (r : ConceptRules α) (slot : Slot) (t : Rose α) :
    t.walkConcepts f r g slot =
      g.add f slot.parent (draftAll slot.depth .outer 0 (t.concepts r slot.place)) := by
  simpa [Anchor.resolve] using t.walkConcepts_add g f slot.parent r [] .outer slot.depth slot.place

end Rose

namespace Java

/-- The names in the surroundings of a node. -/
def Scope.resolve (base : Nat) (parent : Option String) (s : Scope) : NamedScope :=
  ⟨s.enclosingClass.map (Family.javaConcepts.nodeName <| base + ·),
    s.enclosing.resolve .javaConcepts base parent, s.depth⟩

theorem Scope.resolve_mk (base : Nat) (parent : Option String) (enclosingClass : Option Nat)
    (enclosing : Anchor) (depth : Nat) :
    Scope.resolve base parent ⟨enclosingClass, enclosing, depth⟩ =
      ⟨enclosingClass.map (Family.javaConcepts.nodeName <| base + ·),
        enclosing.resolve .javaConcepts base parent, depth⟩ := rfl

variable (g : Graph) (parent : Option String)

/-- One node of the walk. It is known by name whether something surrounds the node, as long as the
walk hangs below something wherever its surroundings say so. -/
theorem walk_node (d : Draft) {s : Scope} (attached : s.enclosing = .outer → parent.isSome = true)
    (place classes : Nat) (v : Json) (ts : List (Rose Json)) :
    let seen := visit s place classes d.length v
    let next := g.add .javaConcepts parent (d ++ seen.entry.toList)
    walk (g.add .javaConcepts parent d) (s.resolve g.nodes.length parent) place classes
      (.node v ts) =
      match seen.inner with
      | none => (next, if seen.isClass then classes + 1 else classes)
      | some inner =>
        walkAll next (inner.resolve g.nodes.length parent) 0
          (if seen.isClass then classes + 1 else classes) ts := by
  obtain ⟨enclosingClass, enclosing, depth⟩ := s
  have own (label : String) (kind : Role) (hint : LayoutHint) (anchor : Anchor) :=
    g.attach_add .javaConcepts parent d label kind hint anchor
  rw [walk, Scope.resolve_mk]
  cases means : concept? v with
  | none => simp [visit, means, Scope.resolve_mk]
  | some c =>
    cases c with
    | classDeclaration label =>
      have own := own label .input ⟨0, classes⟩ .loose
      rw [Anchor.resolve] at own
      simp [visit, means, own, Scope.resolve_mk, Anchor.resolve]
    | field label | method label =>
      cases enclosingClass with
      | none => simp [visit, means, Scope.resolve_mk]
      | some k =>
        have own := own label .default ⟨depth, place⟩ (.entry k)
        rw [Anchor.resolve] at own
        simp [visit, means, own, Scope.resolve_mk, Anchor.resolve]
    | «variable» label | call label =>
      cases enclosing with
      | loose => simp [visit, means, Scope.resolve_mk, Anchor.resolve]
      | outer =>
        obtain ⟨name, rfl⟩ := Option.isSome_iff_exists.1 (attached rfl)
        have own := own label .default ⟨depth, place⟩ .outer
        rw [Anchor.resolve] at own
        simp [visit, means, own, Anchor.resolve]
      | entry k =>
        have own := own label .default ⟨depth, place⟩ (.entry k)
        rw [Anchor.resolve] at own
        simp [visit, means, own, Anchor.resolve]

/-- Only what is looked through passes on what the walk hangs below. -/
theorem Visited.outer_of_inner {s : Scope} {place classes next : Nat} {v : Json} {seen : Visit}
    (h : Visited s place classes next v seen) {inner : Scope} (below : seen.inner = some inner)
    (outer : inner.enclosing = .outer) : s.enclosing = .outer := by
  cases h with
  | classDeclaration label | method label =>
    cases below
    cases outer
  | field label | leaf label => cases below
  | through =>
    cases below
    exact outer

mutual

/-- A walk that goes on with a drawing adds the entries of its tree. -/
theorem walk_add (d : Draft) {s : Scope} (attached : s.enclosing = .outer → parent.isSome = true)
    (place classes : Nat) : (t : Rose Json) →
    walk (g.add .javaConcepts parent d) (s.resolve g.nodes.length parent) place classes t =
      (g.add .javaConcepts parent (d ++ (entries s place classes d.length t).1),
        (entries s place classes d.length t).2)
  | .node v ts => by
    rw [walk_node g parent d attached, entries]
    cases seen : (visit s place classes d.length v).inner with
    | none => rfl
    | some inner =>
      have attached' := attached ∘ (visited s place classes d.length v).outer_of_inner seen
      simp only [walkAll_add _ attached' _ _ ts, List.append_assoc, List.length_append]

theorem walkAll_add (d : Draft) {s : Scope} (attached : s.enclosing = .outer → parent.isSome = true)
    (place classes : Nat) : (ts : List (Rose Json)) →
    walkAll (g.add .javaConcepts parent d) (s.resolve g.nodes.length parent) place classes ts =
      (g.add .javaConcepts parent (d ++ (entriesOfAll s place classes d.length ts).1),
        (entriesOfAll s place classes d.length ts).2)
  | [] => by simp [walkAll, entriesOfAll]
  | t :: ts => by
    simp only [walkAll, entriesOfAll, walk_add d attached place classes t,
      walkAll_add _ attached _ _ ts, List.append_assoc, List.length_append]

end

theorem walk_eq_add (slot : Slot) (t : Rose Json) :
    (walk g ⟨none, slot.parent, slot.depth⟩ slot.place 0 t).1 =
      g.add .javaConcepts slot.parent
        (entries ⟨none, if slot.parent.isSome then .outer else .loose,
          slot.depth⟩ slot.place 0 0 t).1 := by
  have outset := walk_add g slot.parent []
    (s := ⟨none, if slot.parent.isSome then .outer else .loose, slot.depth⟩)
    (by cases slot.parent <;> simp) slot.place 0 t
  have name :
      (if slot.parent.isSome then Anchor.outer else .loose).resolve .javaConcepts g.nodes.length
        slot.parent = slot.parent := by
    cases slot.parent <;> rfl
  rw [Scope.resolve_mk, name, Graph.add_nil, List.nil_append] at outset
  exact congrArg Prod.fst outset

end Java

namespace SourceTree

theorem drawAt_empty (mode : Fidelity) (tree : SourceTree) :
    tree.drawAt mode .empty {} = tree.toGraph mode := by
  cases tree <;> cases mode <;> rfl

/-- Walks make the drawings. -/
theorem drawAt_eq_walk (mode : Fidelity) (g : Graph) (slot : Slot) (tree : SourceTree) :
    tree.drawAt mode g slot = tree.walk mode g slot := by
  have full {α β : Type} (f : Family) (view : α → Option (Rose β)) (label : β → String) (root : α) :
      (Drawing.structural f view label).drawAt g slot root =
        (view root).elim g fun t => t.walk f label g slot := by
    simp only [Drawing.drawAt, Drawing.structural, Rose.walk_eq_add]
    cases view root with
    | none => exact g.add_nil f slot.parent
    | some t => rfl
  have concepts {α β : Type} (f : Family) (view : α → Option (Rose β)) (r : Rose.ConceptRules β)
      (root : α) :
      (Drawing.conceptual f view r).drawAt g slot root =
        (view root).elim g fun t => t.walkConcepts f r g slot := by
    simp only [Drawing.drawAt, Drawing.conceptual, Rose.walkConcepts_eq_add]
    cases view root with
    | none => exact g.add_nil f slot.parent
    | some t => rfl
  cases tree with
  | script program keys =>
    cases mode with
    | simple => exact concepts _ _ _ program
    | advanced => exact full _ _ _ program
  | html root => exact full _ _ _ root
  | css root =>
    simp only [drawAt, walk, Drawing.drawAt, Stylesheet.drawing, Rose.walk_eq_add]
    split
    · exact g.add_nil .stylesheet slot.parent
    · rfl
  | java root =>
    cases mode with
    | simple =>
      simp only [drawAt, walk, Drawing.drawAt, Java.conceptual, Java.walk_eq_add]
      cases Java.tree? root with
      | none => exact g.add_nil .javaConcepts slot.parent
      | some t => rfl
    | advanced => exact full _ _ _ root
  | python root =>
    cases mode with
    | simple => exact concepts _ _ _ root
    | advanced => exact full _ _ _ root

end SourceTree

/-! ### What a walk adds -/

/-- Whatever the graph and whatever the name of what the walk hangs below, the walk `run` adds these
nodes and links. The nodes bear the names that they have if the graph was empty. -/
structure Emits (f : Family) (attached : Bool) (run : Graph → Option String → Graph)
    (nodes : List Node) (links : List Link) : Prop where
  alone : ∀ parent, parent.isSome = attached → (run .empty parent).nodes = nodes
  nodes_eq : ∀ g parent, parent.isSome = attached → (run g parent).nodes =
    g.nodes ++ nodes.mapIdx fun k node => { node with id := f.nodeName (g.nodes.length + k) }
  edges_eq : ∀ g parent, parent.isSome = attached → (run g parent).edges =
    g.edges ++ links.map (Link.toEdge f g.nodes.length parent)
  target_lt : ∀ l ∈ links, l.target < nodes.length
  source_lt : ∀ l ∈ links, ∀ k, l.source = some k → k < l.target
  /-- A walk that hangs below nothing adds no edge from there. -/
  outer : ∀ l ∈ links, l.source = none → attached = true

theorem Emits.congr {f : Family} {attached : Bool} {run run' : Graph → Option String → Graph}
    {nodes : List Node} {links : List Link} (h : Emits f attached run nodes links)
    (same : ∀ g parent, parent.isSome = attached → run' g parent = run g parent) :
    Emits f attached run' nodes links where
  alone parent below := by rw [same _ _ below, h.alone parent below]
  nodes_eq g parent below := by rw [same _ _ below, h.nodes_eq g parent below]
  edges_eq g parent below := by rw [same _ _ below, h.edges_eq g parent below]
  target_lt := h.target_lt
  source_lt := h.source_lt
  outer := h.outer

namespace Draft

/-- A draft in which every entry hangs below an earlier one is added in the same way everywhere. -/
theorem emits (f : Family) (attached : Bool) {d : Draft} (h : Anchored 0 d) :
    Emits f attached (fun g parent => g.add f parent d) (Graph.ofDraft f d).nodes
      (d.links attached) where
  alone parent _ := rfl
  nodes_eq g parent _ := by
    simp only [Graph.ofDraft, Graph.add, Graph.empty, List.nil_append, List.mapIdx_mapIdx]
    rfl
  edges_eq g parent below := by rw [Graph.add, edges_eq_links, below]
  target_lt l hl := by
    rw [Graph.length_nodes_ofDraft]
    exact target_lt_of_mem_links hl
  source_lt l hl k source := by
    obtain ⟨e, here, ⟨none, -⟩ | ⟨p, some, anchor⟩⟩ := mem_links_iff.1 hl
    · cases source.symm.trans none
    · obtain rfl := Option.some.inj (source.symm.trans some)
      exact lt_of_anchor h here anchor
  outer l hl source := by
    obtain ⟨e, -, ⟨-, -, below⟩ | ⟨p, some, -⟩⟩ := mem_links_iff.1 hl
    · exact below
    · cases source.symm.trans some

end Draft

namespace SourceTree

/-- A source tree is drawn by one draft, which depends on the slot's row and column and on whether
something stands above it. -/
theorem exists_draft (mode : Fidelity) (tree : SourceTree) :
    ∃ draft : Nat → Nat → Bool → Draft,
      (∀ depth place attached, Draft.Anchored 0 (draft depth place attached)) ∧
      ∀ g slot, tree.drawAt mode g slot =
        g.add (tree.family mode) slot.parent (draft slot.depth slot.place slot.parent.isSome) := by
  cases tree with
  | script program keys =>
    cases mode with
    | simple => exact ⟨_, Drawing.anchored_conceptual _ _ _ program, fun _ _ => rfl⟩
    | advanced => exact ⟨_, Drawing.anchored_structural _ _ _ program, fun _ _ => rfl⟩
  | html root => exact ⟨_, Drawing.anchored_structural _ _ _ root, fun _ _ => rfl⟩
  | css root => exact ⟨_, Stylesheet.anchored_drawing root, fun _ _ => rfl⟩
  | java root =>
    cases mode with
    | simple => exact ⟨_, Java.anchored_conceptual root, fun _ _ => rfl⟩
    | advanced => exact ⟨_, Drawing.anchored_structural _ _ _ root, fun _ _ => rfl⟩
  | python root =>
    cases mode with
    | simple => exact ⟨_, Drawing.anchored_conceptual _ _ _ root, fun _ _ => rfl⟩
    | advanced => exact ⟨_, Drawing.anchored_structural _ _ _ root, fun _ _ => rfl⟩

/-- Walks compose: what a walk adds to a graph depends on the tree, on the row and column of its
slot, and on whether it hangs below something. What the graph holds already is kept, and only shifts
the names. -/
theorem walks_compose (mode : Fidelity) (tree : SourceTree) :
    tree.toGraph mode = tree.walk mode .empty {} ∧
    (∀ g slot, tree.drawAt mode g slot = tree.walk mode g slot) ∧
    ∀ depth place attached, ∃ nodes links, Emits (tree.family mode) attached
      (fun g parent => tree.walk mode g ⟨parent, depth, place⟩) nodes links := by
  refine ⟨by rw [← drawAt_empty, drawAt_eq_walk], fun g slot => drawAt_eq_walk mode g slot tree, ?_⟩
  intro depth place attached
  obtain ⟨draft, anchored, drawn⟩ := tree.exists_draft mode
  refine ⟨_, _, ((Draft.emits _ attached (anchored depth place attached)).congr ?_)⟩
  intro g parent below
  rw [← drawAt_eq_walk, drawn, below]

end SourceTree

end CodeAtlas
