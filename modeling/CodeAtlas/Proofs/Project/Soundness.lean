import CodeAtlas.Proofs.Project.Links

/-!
# The dependency graph says only what is so

For files with different paths and whatever the scans give, the report of a build is sound: its
nodes are the files and the names outside the project, each once; every edge stands for an import of
a scanned script and its style tells whether the import stays in the project; nothing outside the
project is there without a reason; and the records and the skipped files are those that the scans
make.

Whether every import has its edge is another matter, since edges are told apart by their names only.
-/

namespace CodeAtlas

namespace Dependency

/-- What a report may say about some files and their scans. -/
structure IsSound (scan : ImportScanner) (files : List ProjectFile)
    (r : DependencyReport) : Prop where
  /-- First the files, in their order, then what is outside the project. -/
  nodes : ∃ inside outside, r.graph.nodes = inside ++ outside ∧
    inside.map (·.id) = files.map (·.path) ∧
    (∀ n ∈ inside, n.external = false) ∧ ∀ n ∈ outside, n.external = true
  nodup_ids : (r.graph.nodes.map (·.id)).Nodup
  external_id : ∀ n ∈ r.graph.nodes, n.external = true → n.id ∉ files.map (·.path)
  closed : r.graph.isClosed = true
  nodup_edgeIds : (r.graph.edges.map (·.id)).Nodup
  /-- An edge leads from what is imported to the script that imports it. -/
  edge_imports : ∀ e ∈ r.graph.edges, Imports scan files e.target e.source
  emphasized_iff : ∀ e ∈ r.graph.edges, e.emphasized = true ↔ e.source ∈ files.map (·.path)
  label_eq_none_iff : ∀ e ∈ r.graph.edges, e.label = none ↔ e.source ∈ files.map (·.path)
  external_edge : ∀ e ∈ r.graph.edges, e.source ∉ files.map (·.path) →
    e.label = some "external" ∧ ∃ n ∈ r.graph.nodes, n.id = e.source ∧ n.external = true
  exists_edge_of_external : ∀ n ∈ r.graph.nodes, n.external = true →
    ∃ e ∈ r.graph.edges, e.source = n.id
  target_ne_of_external : ∀ n ∈ r.graph.nodes, n.external = true →
    ∀ e ∈ r.graph.edges, e.target ≠ n.id
  /-- Every import of every scanned script has its record, in order. -/
  imports_eq : r.imports = (files.filter fun f => isScriptPath f.path).flatMap fun f =>
    match scan f.path f.content with
    | .ok specifiers => specifiers.map (ResolvedImport.resolve (files.map (·.path)) f.path)
    | .error _ => []
  /-- The scripts without a scan are skipped, and no others. -/
  skipped_eq : r.skipped =
    (files.filter fun f => isScriptPath f.path && !(scan f.path f.content).isOk).map (·.path)

variable {scan : ImportScanner} {files : List ProjectFile}

/-! ### The parts of a build -/

theorem edges_build (scan : ImportScanner) (files : List ProjectFile) :
    (build scan files).graph.edges = (drawnLinks (links scan files)).map ImportLink.edge := rfl

/-- The nodes for what is outside the project. -/
def outsideNodes (scan : ImportScanner) (files : List ProjectFile) : List Node :=
  (externals (drawnLinks (links scan files))).mapIdx (externalNode files.length)

theorem nodes_build (scan : ImportScanner) (files : List ProjectFile) :
    (build scan files).graph.nodes = files.mapIdx fileNode ++ outsideNodes scan files := rfl

/-- What an indexed map does to the elements, apart from where they stand. -/
theorem map_mapIdx_of_forall {α β γ : Type} {f : Nat → α → β} {g : β → γ} {h : α → γ}
    (same : ∀ i a, g (f i a) = h a) (l : List α) : (l.mapIdx f).map g = l.map h := by
  apply List.ext_getElem?
  intro i
  rw [List.getElem?_map, List.getElem?_mapIdx, List.getElem?_map, Option.map_map]
  exact congrArg (fun k => Option.map k l[i]?) (funext (same i))

theorem ids_fileNodes (files : List ProjectFile) :
    (files.mapIdx fileNode).map (·.id) = files.map (·.path) :=
  map_mapIdx_of_forall (f := fileNode) (h := (·.path)) (fun _ _ => rfl) files

theorem ids_outsideNodes (scan : ImportScanner) (files : List ProjectFile) :
    (outsideNodes scan files).map (·.id) = externals (drawnLinks (links scan files)) := by
  have :=
    map_mapIdx_of_forall (f := externalNode files.length) (g := (·.id)) (h := id) (fun _ _ => rfl)
      (externals (drawnLinks (links scan files)))
  rwa [List.map_id] at this

theorem ids_build (scan : ImportScanner) (files : List ProjectFile) :
    (build scan files).graph.nodes.map (·.id) =
      files.map (·.path) ++ externals (drawnLinks (links scan files)) := by
  rw [nodes_build, List.map_append, ids_fileNodes, ids_outsideNodes]

theorem external_fileNodes {n : Node} (h : n ∈ files.mapIdx fileNode) : n.external = false := by
  obtain ⟨i, inside, rfl⟩ := List.mem_mapIdx.1 h
  rfl

theorem external_outsideNodes {n : Node} (h : n ∈ outsideNodes scan files) : n.external = true := by
  obtain ⟨i, inside, rfl⟩ := List.mem_mapIdx.1 h
  rfl

theorem mem_outsideNodes_of_external {n : Node} (h : n ∈ (build scan files).graph.nodes)
    (external : n.external = true) : n ∈ outsideNodes scan files := by
  rw [nodes_build] at h
  rcases List.mem_append.1 h with h | h
  · simp [external_fileNodes h] at external
  · exact h

/-- What is outside the project is the target of a link that is drawn and leaves it. -/
theorem exists_link_of_external {n : Node} (h : n ∈ (build scan files).graph.nodes)
    (external : n.external = true) :
    ∃ link ∈ drawnLinks (links scan files), link.inProject = false ∧ link.target = n.id := by
  apply mem_externals_iff.1
  rw [← ids_outsideNodes]
  exact List.mem_map_of_mem (mem_outsideNodes_of_external h external)

theorem hasNode_build {id : String} :
    (build scan files).graph.hasNode id = true ↔
      id ∈ files.map (·.path) ∨ id ∈ externals (drawnLinks (links scan files)) := by
  rw [← List.mem_append, ← ids_build, Graph.hasNode, List.any_eq_true, List.mem_map]
  simp only [beq_iff_eq]

/-- An edge is that of a link, and the link that of an import. -/
theorem exists_link_of_mem_edges {e : Edge} (h : e ∈ (build scan files).graph.edges) :
    ∃ link ∈ drawnLinks (links scan files), link ∈ links scan files ∧ link.edge = e := by
  rw [edges_build] at h
  obtain ⟨link, drawn, rfl⟩ := List.mem_map.1 h
  exact ⟨link, drawn, mem_of_mem_drawnLinks drawn, rfl⟩

theorem imports_of_mem_edges {e : Edge} (h : e ∈ (build scan files).graph.edges) :
    Imports scan files e.target e.source := by
  obtain ⟨link, -, found, rfl⟩ := exists_link_of_mem_edges h
  exact imports_of_mem_links found

theorem nodup_edgeIds_build (scan : ImportScanner) (files : List ProjectFile) :
    ((build scan files).graph.edges.map (·.id)).Nodup := by
  rw [edges_build, List.map_map]
  exact nodup_edgeNames_drawnLinks _

theorem target_mem_externals {link : ImportLink} (drawn : link ∈ drawnLinks (links scan files))
    (outside : link.target ∉ files.map (·.path)) :
    link.target ∈ externals (drawnLinks (links scan files)) := by
  have := inProject_iff_of_mem_links (mem_of_mem_drawnLinks drawn)
  exact mem_externals_iff.2 ⟨link, drawn, by simpa [outside] using this, rfl⟩

theorem externals_disjoint {name : String} (h : name ∈ externals (drawnLinks (links scan files))) :
    name ∉ files.map (·.path) := by
  obtain ⟨link, drawn, outside, rfl⟩ := mem_externals_iff.1 h
  rw [← inProject_iff_of_mem_links (mem_of_mem_drawnLinks drawn), outside]
  simp

theorem nodup_ids_build (scan : ImportScanner) (distinct : (files.map (·.path)).Nodup) :
    ((build scan files).graph.nodes.map (·.id)).Nodup := by
  rw [ids_build]
  refine distinct.append (nodup_externals _) ?_
  intro name inside outside
  exact externals_disjoint outside inside

/-- An edge from outside the project is labelled so and leads from a node outside. -/
theorem external_of_mem_edges {e : Edge} (h : e ∈ (build scan files).graph.edges)
    (outside : e.source ∉ files.map (·.path)) :
    e.label = some "external" ∧ e.emphasized = false ∧
      ∃ n ∈ (build scan files).graph.nodes, n.id = e.source ∧ n.external = true := by
  obtain ⟨link, drawn, found, rfl⟩ := exists_link_of_mem_edges h
  have leaves : link.inProject = false := by
    rw [Bool.eq_false_iff, ne_eq, inProject_iff_of_mem_links found]
    exact outside
  refine ⟨by simp [ImportLink.edge, leaves], by simp [ImportLink.edge, leaves], ?_⟩
  have named : link.target ∈ (outsideNodes scan files).map (·.id) := by
    rw [ids_outsideNodes]
    exact target_mem_externals drawn outside
  obtain ⟨n, hn, id⟩ := List.mem_map.1 named
  refine ⟨n, ?_, id, external_outsideNodes hn⟩
  rw [nodes_build]
  exact List.mem_append_right _ hn

/-- An edge from a file is emphasized and bears no label. -/
theorem internal_of_mem_edges {e : Edge} (h : e ∈ (build scan files).graph.edges)
    (inside : e.source ∈ files.map (·.path)) : e.emphasized = true ∧ e.label = none := by
  obtain ⟨link, -, found, rfl⟩ := exists_link_of_mem_edges h
  have stays : link.inProject = true := (inProject_iff_of_mem_links found).2 inside
  constructor <;> simp [ImportLink.edge, stays]

/-! ### Soundness -/

theorem isClosed_build (scan : ImportScanner) (files : List ProjectFile) :
    (build scan files).graph.isClosed = true := by
  rw [Graph.isClosed, List.isEmpty_iff, Graph.danglingEdges, List.filter_eq_nil_iff]
  intro e he
  obtain ⟨link, drawn, found, rfl⟩ := exists_link_of_mem_edges he
  have source : (build scan files).graph.hasNode link.target = true := by
    rw [hasNode_build]
    by_cases inside : link.target ∈ files.map (·.path)
    · exact .inl inside
    · exact .inr (target_mem_externals drawn inside)
  have target : (build scan files).graph.hasNode link.file = true :=
    hasNode_build.2 (.inl (imports_of_mem_links found).path_mem)
  simp [Graph.anchors, ImportLink.edge, source, target]

theorem imports_build (scan : ImportScanner) (files : List ProjectFile) :
    (build scan files).imports = (files.filter fun f => isScriptPath f.path).flatMap fun f =>
      match scan f.path f.content with
      | .ok specifiers => specifiers.map (ResolvedImport.resolve (files.map (·.path)) f.path)
      | .error _ => [] := by
  change ((scripts files).flatMap _).map _ = _
  rw [List.map_flatMap, scripts]
  refine congrArg (fun k => List.flatMap k _) (funext fun file => ?_)
  rw [linksOf]
  cases scan file.path file.content with
  | ok specifiers => simp [Function.comp_def]
  | error cause => rfl

theorem skipped_build (scan : ImportScanner) (files : List ProjectFile) :
    (build scan files).skipped =
      (files.filter fun f => isScriptPath f.path && !(scan f.path f.content).isOk).map
        (·.path) := by
  change ((scripts files).filter _).map _ = _
  rw [scripts, List.filter_filter]
  refine congrArg (fun k => (List.filter k files).map _) (funext fun file => ?_)
  rw [isSkipped, Bool.and_comm]
  cases scan file.path file.content <;> rfl

/-- Whatever the scans of files with different paths give, the report is sound. -/
theorem isSound_build (scan : ImportScanner) (files : List ProjectFile)
    (distinct : (files.map (·.path)).Nodup) : IsSound scan files (build scan files) where
  nodes := by
    refine ⟨files.mapIdx fileNode, outsideNodes scan files, nodes_build scan files,
      ids_fileNodes files, ?_, ?_⟩
    · intro n hn
      exact external_fileNodes hn
    · intro n hn
      exact external_outsideNodes hn
  nodup_ids := nodup_ids_build scan distinct
  external_id := by
    intro n hn external
    obtain ⟨link, drawn, outside, eq⟩ := exists_link_of_external hn external
    exact externals_disjoint (mem_externals_iff.2 ⟨link, drawn, outside, eq⟩)
  closed := isClosed_build scan files
  nodup_edgeIds := nodup_edgeIds_build scan files
  edge_imports := by
    intro e he
    exact imports_of_mem_edges he
  emphasized_iff := by
    intro e he
    by_cases inside : e.source ∈ files.map (·.path)
    · simp only [inside, iff_true]
      exact (internal_of_mem_edges he inside).1
    · simp [inside, (external_of_mem_edges he inside).2.1]
  label_eq_none_iff := by
    intro e he
    by_cases inside : e.source ∈ files.map (·.path)
    · simp only [inside, iff_true]
      exact (internal_of_mem_edges he inside).2
    · simp [inside, (external_of_mem_edges he inside).1]
  external_edge := by
    intro e he outside
    obtain ⟨label, -, node⟩ := external_of_mem_edges he outside
    exact ⟨label, node⟩
  exists_edge_of_external := by
    intro n hn external
    obtain ⟨link, drawn, -, eq⟩ := exists_link_of_external hn external
    exact ⟨link.edge, edges_build scan files ▸ List.mem_map_of_mem drawn, eq⟩
  target_ne_of_external := by
    intro n hn external e he same
    obtain ⟨link, drawn, outside, eq⟩ := exists_link_of_external hn external
    have file : e.target ∈ files.map (·.path) := (imports_of_mem_edges he).path_mem
    exact externals_disjoint (mem_externals_iff.2 ⟨link, drawn, outside, eq⟩) (same ▸ file)
  imports_eq := imports_build scan files
  skipped_eq := skipped_build scan files

/-- Two scripts share a package, one of them imports the other and one a file that is not there; a
third script cannot be scanned. -/
theorem isSound_build_shared_package :
    let files : List ProjectFile :=
      [⟨"src/a.js", ""⟩, ⟨"src/b.jsx", ""⟩, ⟨"src/c.ts", ""⟩, ⟨"app.css", ""⟩]
    let scan : ImportScanner := fun path _ =>
      if path = "src/a.js" then .ok ["./b", "react"]
      else if path = "src/b.jsx" then .ok ["react", "./gone"]
      else .error (.notScript path)
    (files.map (·.path)).Nodup ∧ IsSound scan files (build scan files) := by
  intro files scan
  exact ⟨by decide, isSound_build scan files (by decide)⟩

end Dependency

end CodeAtlas
