import CodeAtlas.Proofs.Graph.Cycles

/-!
# Queries on a dependency graph

A query follows the edges by position: it starts from the first node of a name, while edges lead to
the last one. Where every name stands for one node the two are the same, so that a query finds what
the edges say. In a dependency graph names are unique and no edge dangles: the two queries of a
report are converse to each other and say nothing but the edges.
-/

namespace CodeAtlas

/-! ### Names and positions -/

namespace Digraph

variable {names : Array String} {name : String} {i j : Fin names.size}

theorem eq_of_name_eq (distinct : names.toList.Nodup) (same : nameAt names i = nameAt names j) :
    i = j := by
  have index : names.toList[i.1] = names.toList[j.1] := same
  exact Fin.ext ((List.Nodup.getElem_inj_iff distinct).1 index)

/-- In whatever order the positions are searched, there is one to be found. -/
theorem find?_eq_some_iff (distinct : names.toList.Nodup) {order : List (Fin names.size)}
    (complete : ∀ i, i ∈ order) :
    order.find? (nameAt names · == name) = some i ↔ nameAt names i = name := by
  constructor
  · intro found
    simpa using List.find?_some found
  · intro named
    have isSome : (order.find? (nameAt names · == name)).isSome := by
      rw [List.find?_isSome]
      exact ⟨i, complete i, by simpa using named⟩
    obtain ⟨j, found⟩ := Option.isSome_iff_exists.1 isSome
    have other : nameAt names j = name := by simpa using List.find?_some found
    rw [found, eq_of_name_eq distinct (other.trans named.symm)]

theorem first?_eq_some_iff (distinct : names.toList.Nodup) :
    first? names name = some i ↔ nameAt names i = name :=
  find?_eq_some_iff distinct List.mem_finRange

theorem last?_eq_some_iff (distinct : names.toList.Nodup) :
    last? names name = some i ↔ nameAt names i = name :=
  find?_eq_some_iff distinct fun i => List.mem_reverse.2 (List.mem_finRange i)

theorem mem_neighbors_iff {d : Digraph} (distinct : d.names.toList.Nodup) {a b : String} :
    b ∈ d.neighbors a ↔ ∃ arc ∈ d.arcs, nameAt d.names arc.1 = a ∧ nameAt d.names arc.2 = b := by
  rw [neighbors]
  cases start : first? d.names a with
  | none =>
    simp only [List.not_mem_nil, false_iff]
    rintro ⟨arc, -, named, -⟩
    rw [(first?_eq_some_iff distinct).2 named] at start
    cases start
  | some i =>
    obtain rfl := (first?_eq_some_iff distinct).1 start
    simp only [List.mem_map, List.mem_filter, beq_iff_eq, and_assoc]
    constructor
    · rintro ⟨arc, mem, rfl, end_eq⟩
      exact ⟨arc, mem, rfl, end_eq⟩
    · rintro ⟨arc, mem, same, end_eq⟩
      exact ⟨arc, mem, eq_of_name_eq distinct same, end_eq⟩

theorem mem_converse_neighbors_iff {d : Digraph} (distinct : d.names.toList.Nodup) {a b : String} :
    a ∈ d.converse.neighbors b ↔
      ∃ arc ∈ d.arcs, nameAt d.names arc.1 = a ∧ nameAt d.names arc.2 = b := by
  rw [mem_neighbors_iff (d := d.converse) distinct]
  constructor
  · rintro ⟨arc, mem, target, source⟩
    obtain ⟨arc, found, rfl⟩ := List.mem_map.1 mem
    exact ⟨arc, found, source, target⟩
  · rintro ⟨arc, mem, source, target⟩
    exact ⟨arc.swap, List.mem_map_of_mem mem, target, source⟩

end Digraph

namespace Graph

open CodeAtlas.Digraph (nameAt)

variable {g : Graph} {a b : String}

theorem exists_position_iff {id : String} :
    (∃ i : Fin g.toDigraph.names.size, nameAt g.toDigraph.names i = id) ↔
      ∃ n ∈ g.nodes, n.id = id := by
  have named : id ∈ g.toDigraph.names ↔ ∃ n ∈ g.nodes, n.id = id := by simp [toDigraph]
  rw [← named, Array.mem_iff_getElem]
  constructor
  · rintro ⟨i, named⟩
    exact ⟨i.1, i.2, named⟩
  · rintro ⟨i, inside, named⟩
    exact ⟨⟨i, inside⟩, named⟩

theorem mem_arcs_iff (distinct : (g.nodes.map (·.id)).Nodup)
    {arc : Fin g.toDigraph.names.size × Fin g.toDigraph.names.size} :
    arc ∈ g.toDigraph.arcs ↔
      ∃ e ∈ g.edges, nameAt g.toDigraph.names arc.1 = e.source ∧
        nameAt g.toDigraph.names arc.2 = e.target := by
  have ids : g.toDigraph.names.toList.Nodup := by simpa [toDigraph] using distinct
  obtain ⟨i, j⟩ := arc
  change (i, j) ∈ g.edges.filterMap (fun e => do
    return (← Digraph.last? g.toDigraph.names e.source,
      ← Digraph.last? g.toDigraph.names e.target)) ↔ _
  simp only [← Digraph.last?_eq_some_iff ids]
  simp [Option.bind_eq_some_iff]

/-- Where every name stands for one node, the arcs are what nodes lead to. -/
theorem exists_arc_iff (distinct : (g.nodes.map (·.id)).Nodup) :
    (∃ arc ∈ g.toDigraph.arcs, nameAt g.toDigraph.names arc.1 = a ∧
      nameAt g.toDigraph.names arc.2 = b) ↔
      g.Leads a b := by
  constructor
  · rintro ⟨arc, mem, rfl, rfl⟩
    obtain ⟨e, found, source, target⟩ := (mem_arcs_iff distinct).1 mem
    exact ⟨exists_position_iff.1 ⟨_, rfl⟩, exists_position_iff.1 ⟨_, rfl⟩, e, found, source.symm,
      target.symm⟩
  · rintro ⟨source, target, e, mem, rfl, rfl⟩
    obtain ⟨i, hi⟩ := exists_position_iff.2 source
    obtain ⟨j, hj⟩ := exists_position_iff.2 target
    exact ⟨(i, j), (mem_arcs_iff distinct).2 ⟨e, mem, hi, hj⟩, hi, hj⟩

theorem mem_neighbors_iff (distinct : (g.nodes.map (·.id)).Nodup) :
    b ∈ g.toDigraph.neighbors a ↔ g.Leads a b := by
  rw [Digraph.mem_neighbors_iff (by simpa [toDigraph] using distinct), exists_arc_iff distinct]

theorem mem_converse_neighbors_iff (distinct : (g.nodes.map (·.id)).Nodup) :
    a ∈ g.toDigraph.converse.neighbors b ↔ g.Leads a b := by
  rw [Digraph.mem_converse_neighbors_iff (by simpa [toDigraph] using distinct),
    exists_arc_iff distinct]

end Graph

/-! ### The queries of a report -/

namespace DependencyReport

theorem mem_listed_iff {names : List String} {name : String} :
    name ∈ listed names ↔ name ∈ names := by
  rw [listed, List.mem_eraseDups, List.mem_mergeSort]

theorem pairwise_listed (names : List String) : (listed names).Pairwise (· < ·) :=
  Graph.pairwise_eraseDups_mergeSort names

variable {r : DependencyReport} {p q : String}

theorem mem_importersOf_iff (distinct : (r.graph.nodes.map (·.id)).Nodup) :
    q ∈ r.importersOf p ↔ r.graph.Leads p q := by
  rw [importersOf, mem_listed_iff, Graph.mem_neighbors_iff distinct]

theorem mem_dependenciesOf_iff (distinct : (r.graph.nodes.map (·.id)).Nodup) :
    p ∈ r.dependenciesOf q ↔ r.graph.Leads p q := by
  rw [dependenciesOf, mem_listed_iff, Graph.mem_converse_neighbors_iff distinct]

end DependencyReport

namespace Dependency

variable {scan : ImportScanner} {files : List ProjectFile}

/-- No edge of a build dangles, so that each leads from its source to its target. -/
theorem leads_build_iff {p q : String} :
    (build scan files).graph.Leads p q ↔
      ∃ e ∈ (build scan files).graph.edges, e.source = p ∧ e.target = q := by
  constructor
  · exact fun h => h.2.2
  · rintro ⟨e, mem, rfl, rfl⟩
    have closed := isClosed_build scan files
    rw [Graph.isClosed, List.isEmpty_iff, Graph.danglingEdges, List.filter_eq_nil_iff] at closed
    obtain ⟨source, target⟩ : (build scan files).graph.hasNode e.source = true ∧
        (build scan files).graph.hasNode e.target = true := by
      simpa [Graph.anchors] using closed e mem
    exact ⟨Graph.hasNode_iff.1 source, Graph.hasNode_iff.1 target, e, mem, rfl, rfl⟩

/-- The two queries of a report are converse to each other and say what the edges say. Both are
strictly sorted; only files import anything; and nothing is known of a name that is no node. -/
theorem queries_are_converse (scan : ImportScanner) (files : List ProjectFile)
    (distinct : (files.map (·.path)).Nodup) :
    let r := build scan files
    (∀ p q, (q ∈ r.importersOf p ↔ ∃ e ∈ r.graph.edges, e.source = p ∧ e.target = q) ∧
      (p ∈ r.dependenciesOf q ↔ ∃ e ∈ r.graph.edges, e.source = p ∧ e.target = q)) ∧
    (∀ id, (r.importersOf id).Pairwise (· < ·) ∧ (r.dependenciesOf id).Pairwise (· < ·)) ∧
    (∀ id, ∀ q ∈ r.importersOf id, q ∈ files.map (·.path)) ∧
    ∀ id, (∀ n ∈ r.graph.nodes, n.id ≠ id) → r.importersOf id = [] ∧ r.dependenciesOf id = [] := by
  intro r
  have ids : (r.graph.nodes.map (·.id)).Nodup := nodup_ids_build scan distinct
  refine ⟨?_, ?_, ?_, ?_⟩
  · intro p q
    rw [DependencyReport.mem_importersOf_iff ids, DependencyReport.mem_dependenciesOf_iff ids,
      leads_build_iff]
    exact ⟨Iff.rfl, Iff.rfl⟩
  · intro id
    exact ⟨DependencyReport.pairwise_listed _, DependencyReport.pairwise_listed _⟩
  · intro id q mem
    obtain ⟨-, -, e, found, -, rfl⟩ := (DependencyReport.mem_importersOf_iff ids).1 mem
    exact (imports_of_mem_edges found).path_mem
  · intro id unnamed
    constructor
    · rw [List.eq_nil_iff_forall_not_mem]
      intro q mem
      obtain ⟨⟨n, here, named⟩, -⟩ := (DependencyReport.mem_importersOf_iff ids).1 mem
      exact unnamed n here named
    · rw [List.eq_nil_iff_forall_not_mem]
      intro p mem
      obtain ⟨-, ⟨n, here, named⟩, -⟩ := (DependencyReport.mem_dependenciesOf_iff ids).1 mem
      exact unnamed n here named

/-- Two scripts import a third one, which imports a package that no file has. -/
theorem queries_are_converse_shared_script :
    let files : List ProjectFile := [⟨"a.js", ""⟩, ⟨"b.js", ""⟩, ⟨"c.js", ""⟩]
    let scan : ImportScanner := fun path _ => if path = "a.js" then .ok ["lodash"] else .ok ["./a"]
    let r := build scan files
    (files.map (·.path)).Nodup ∧ "b.js" ∈ r.importersOf "a.js" ∧ "c.js" ∈ r.importersOf "a.js" ∧
      "a.js" ∈ r.dependenciesOf "c.js" ∧ "lodash" ∈ r.dependenciesOf "a.js" ∧
        r.importersOf "d.js" = [] := by
  intro files scan r
  have distinct : (files.map (·.path)).Nodup := by decide
  obtain ⟨edges, -, -, absent⟩ := queries_are_converse scan files distinct
  refine ⟨distinct, ?_, ?_, ?_, ?_, ?_⟩
  · exact (edges "a.js" "b.js").1.2 (by decide)
  · exact (edges "a.js" "c.js").1.2 (by decide)
  · exact (edges "a.js" "c.js").2.2 (by decide)
  · exact (edges "lodash" "a.js").2.2 (by decide)
  · exact (absent "d.js" (by decide)).1

end Dependency

end CodeAtlas
