import CodeAtlas.Graph.Basic
import Mathlib.Data.List.Forall2

/-!
# Names do not matter

Edges find their ends by name, and a name may be given to several nodes or to none. All that is
asked of names is whether two of them are the same, so other names do as well, as long as different
ones stay different.

Main statement: under new names a graph has the same pairs of labels, and its dangling edges stand
at the same places. Every edge that does not dangle has one pair, in the order of the edges, with
the labels of the last nodes of the two names.
-/

namespace CodeAtlas

open Function (Injective)

/-- The node under its new name. -/
def Node.renamed (name : String → String) (n : Node) : Node := { n with id := name n.id }

/-- The edge between the new names of its ends. What the edge itself is called has nothing to do
with them, so it may change at will. -/
def Edge.renamed (name : String → String) (title : Edge → String) (e : Edge) : Edge :=
  { e with id := title e, source := name e.source, target := name e.target }

namespace Graph

/-- The graph with new names for its nodes. -/
def renamed (name : String → String) (title : Edge → String) (g : Graph) : Graph :=
  ⟨g.nodes.map (·.renamed name), g.edges.map (·.renamed name title)⟩

/-- An end of the edge is not a node. -/
def Dangles (g : Graph) (e : Edge) : Prop :=
  (∀ n ∈ g.nodes, n.id ≠ e.source) ∨ ∀ n ∈ g.nodes, n.id ≠ e.target

instance (g : Graph) (e : Edge) : Decidable (g.Dangles e) :=
  inferInstanceAs (Decidable ((∀ n ∈ g.nodes, n.id ≠ e.source) ∨ ∀ n ∈ g.nodes, n.id ≠ e.target))

/-- The places of the dangling edges in the list of edges. -/
def danglingPlaces (g : Graph) : List Nat := g.edges.findIdxs fun e => g.Dangles e

/-- The node is the last one of that name. -/
def IsLast (g : Graph) (id : String) (n : Node) : Prop :=
  n.id = id ∧ ∃ before after, g.nodes = before ++ n :: after ∧ ∀ later ∈ after, later.id ≠ id

/-- The labels of the last nodes that the edge can mean. -/
def Pairs (g : Graph) (e : Edge) (labels : String × String) : Prop :=
  ∃ source target, g.IsLast e.source source ∧ g.IsLast e.target target ∧
    labels = (source.label, target.label)

variable {g : Graph} {e : Edge} {id : String} {n : Node}

/-! ### The ends of an edge -/

theorem lastNode?_eq_some_iff : g.lastNode? id = some n ↔ g.IsLast id n := by
  rw [lastNode?, List.find?_eq_some_iff_append, IsLast, beq_iff_eq]
  refine and_congr_right fun _ => ⟨?_, ?_⟩
  · rintro ⟨later, earlier, nodes, others⟩
    refine ⟨earlier.reverse, later.reverse, ?_, by simpa using others⟩
    rw [← List.reverse_reverse g.nodes, nodes]
    simp
  · rintro ⟨before, after, nodes, others⟩
    exact ⟨after.reverse, before.reverse, by simp [nodes], by simpa using others⟩

theorem lastNode?_eq_none_iff : g.lastNode? id = none ↔ ∀ n ∈ g.nodes, n.id ≠ id := by
  simp [lastNode?]

/-- The labels at the two ends of an edge. -/
def endLabels? (g : Graph) (e : Edge) : Option (String × String) := do
  let source ← g.lastNode? e.source
  let target ← g.lastNode? e.target
  return (source.label, target.label)

theorem labelTopology_eq (g : Graph) : g.labelTopology = g.edges.filterMap g.endLabels? := rfl

theorem endLabels?_eq_none_iff : g.endLabels? e = none ↔ g.Dangles e := by
  rw [Dangles, ← lastNode?_eq_none_iff, ← lastNode?_eq_none_iff, endLabels?]
  cases g.lastNode? e.source <;> cases g.lastNode? e.target <;> simp

theorem endLabels?_eq_some_iff {labels : String × String} :
    g.endLabels? e = some labels ↔ g.Pairs e labels := by
  simp only [endLabels?, Option.bind_eq_bind, Option.bind_eq_some_iff, Option.pure_def,
    Option.some.injEq, lastNode?_eq_some_iff, Pairs]
  constructor
  · rintro ⟨source, isSource, target, isTarget, rfl⟩
    exact ⟨source, target, isSource, isTarget, rfl⟩
  · rintro ⟨source, target, isSource, isTarget, rfl⟩
    exact ⟨source, isSource, target, isTarget, rfl⟩

theorem danglingEdges_eq (g : Graph) : g.danglingEdges = g.edges.filter fun e => g.Dangles e := by
  refine List.filter_congr fun e _ => ?_
  rw [Bool.eq_iff_iff, decide_eq_true_iff]
  simp only [anchors, hasNode, Dangles, Bool.not_eq_true', Bool.and_eq_false_iff,
    List.any_eq_false, beq_iff_eq, ne_eq]

/-- The edges that do not dangle have their pairs, one each and in their order. -/
theorem forall₂_pairs (g : Graph) :
    List.Forall₂ g.Pairs (g.edges.filter fun e => ¬ g.Dangles e) g.labelTopology := by
  rw [labelTopology_eq]
  generalize g.edges = edges
  induction edges with
  | nil => exact .nil
  | cons e rest ih =>
    by_cases dangles : g.Dangles e
    · rw [List.filter_cons_of_neg (by simpa using dangles),
        List.filterMap_cons_none (endLabels?_eq_none_iff.2 dangles)]
      exact ih
    · obtain ⟨labels, found⟩ := Option.ne_none_iff_exists'.1 (mt endLabels?_eq_none_iff.1 dangles)
      rw [List.filter_cons_of_pos (by simpa using dangles), List.filterMap_cons_some found]
      exact .cons (endLabels?_eq_some_iff.1 found) ih

/-! ### New names -/

section Renaming

variable {name : String → String} {title : Edge → String}

theorem lastNode?_renamed (injective : Injective name) (g : Graph) (id : String) :
    (g.renamed name title).lastNode? (name id) = (g.lastNode? id).map (·.renamed name) := by
  have same (n : Node) : ((n.renamed name).id == name id) = (n.id == id) := by
    rw [Bool.eq_iff_iff, beq_iff_eq, beq_iff_eq]
    exact injective.eq_iff
  simp only [lastNode?, renamed, ← List.map_reverse, List.find?_map, Function.comp_def, same]

theorem endLabels?_renamed (injective : Injective name) (g : Graph) (e : Edge) :
    (g.renamed name title).endLabels? (e.renamed name title) = g.endLabels? e := by
  simp only [endLabels?, Edge.renamed, lastNode?_renamed injective, Option.bind_eq_bind,
    Option.bind_map, Function.comp_def, Node.renamed]

theorem dangles_renamed_iff (injective : Injective name) (g : Graph) (e : Edge) :
    (g.renamed name title).Dangles (e.renamed name title) ↔ g.Dangles e := by
  rw [← endLabels?_eq_none_iff, ← endLabels?_eq_none_iff, endLabels?_renamed injective]

theorem labelTopology_renamed (injective : Injective name) (g : Graph) :
    (g.renamed name title).labelTopology = g.labelTopology := by
  rw [labelTopology_eq, labelTopology_eq]
  show (g.edges.map (·.renamed name title)).filterMap (g.renamed name title).endLabels? = _
  rw [List.filterMap_map]
  exact List.filterMap_congr fun e _ => endLabels?_renamed injective g e

theorem danglingPlaces_renamed (injective : Injective name) (g : Graph) :
    (g.renamed name title).danglingPlaces = g.danglingPlaces := by
  show (g.edges.map (·.renamed name title)).findIdxs (fun e => (g.renamed name title).Dangles e) = _
  rw [List.findIdxs_map]
  simp only [Function.comp_def, dangles_renamed_iff injective]
  rfl

end Renaming

/-- The pairs of labels and the places of the dangling edges do not depend on how the nodes are
named, and the edges that do not dangle have one pair each, in their order. -/
theorem topology_ignores_names (g : Graph) (name : String → String) (title : Edge → String)
    (injective : Injective name) :
    (g.renamed name title).labelTopology = g.labelTopology ∧
    (g.renamed name title).danglingPlaces = g.danglingPlaces ∧
    g.danglingEdges = (g.edges.filter fun e => g.Dangles e) ∧
    List.Forall₂ g.Pairs (g.edges.filter fun e => ¬ g.Dangles e) g.labelTopology :=
  ⟨labelTopology_renamed injective g, danglingPlaces_renamed injective g, danglingEdges_eq g,
    forall₂_pairs g⟩

/-- A graph with a name given twice and an edge into nowhere. -/
theorem topology_ignores_names_given_twice :
    let node (id label : String) : Node :=
      { id, label, kind := .default, layoutHint := {}, position := ⟨.onGrid 0 100, .onGrid 0 100⟩ }
    let g : Graph :=
      ⟨[node "a" "A", node "b" "B", node "a" "C"],
        [.between "a" "b", .between "b" "x", .between "b" "a"]⟩
    let name := fun id => "new-" ++ id
    Injective name ∧ (g.renamed name Edge.id).labelTopology = [("C", "B"), ("B", "C")] ∧
      (g.renamed name Edge.id).danglingPlaces = [1] := by
  intro node g name
  have injective : Injective name := fun _ _ same => (String.append_right_inj _).1 same
  obtain ⟨labels, places, -⟩ := topology_ignores_names g name Edge.id injective
  exact ⟨injective, labels.trans (by decide), places.trans (by decide)⟩

end Graph

end CodeAtlas
