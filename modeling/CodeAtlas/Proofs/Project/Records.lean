import CodeAtlas.Proofs.Project.EdgeNames

/-!
# Records of imports and their edges

An import leaves two traces in a report: a record, which goes by how the specifier is written, and
an edge, which goes by whether its target is among the files. The two differ on a specifier that is
written like the name of a package and is the path of a file: its record calls it external, and its
edge stays in the project.

This is the only way in which the two can differ. So an import has an edge that agrees with its
record exactly when it is drawn at all and its specifier is no such path.
-/

namespace CodeAtlas

/-- The record takes the import out of the project: it is external, or it was not resolved. -/
def ResolvedImport.Leaves (r : ResolvedImport) : Prop := r.isExternal = true ∨ r.toPath = none

/-- An edge that is drawn as one inside the project. -/
structure Edge.IsInternal (e : Edge) : Prop where
  emphasized : e.emphasized = true
  label : e.label = none

/-- An edge that is drawn as one from outside the project. -/
structure Graph.IsExternal (g : Graph) (e : Edge) : Prop where
  label : e.label = some "external"
  emphasized : e.emphasized = false
  source : ∃ n ∈ g.nodes, n.id = e.source ∧ n.external = true

/-- The edge is drawn as the record says. -/
structure Graph.DrawsAs (g : Graph) (r : ResolvedImport) (e : Edge) : Prop where
  external : r.Leaves → g.IsExternal e
  internal : ¬ r.Leaves → e.IsInternal

/-! ### Specifiers that name files -/

/-- A specifier that is not relative and yet is the path of a file. -/
def Specifier.NamesFile (known : List String) (specifier : String) : Prop :=
  isRelative specifier = false ∧ specifier ∈ known

namespace Specifier

variable {known : List String} {file specifier path : String}

/-- A relative specifier resolves to files only. -/
theorem mem_known_of_resolve? (relative : isRelative specifier = true)
    (h : resolve? known file specifier = some path) : path ∈ known := by
  rw [resolve?, if_pos relative] at h
  simpa using List.find?_some h

end Specifier

namespace Dependency

open Specifier (NamesFile)

/-- The record takes an import out of the project exactly if its target is no file of it, but for
specifiers that name files. -/
theorem leaves_resolve_iff (known : List String) (file specifier : String) :
    (ResolvedImport.resolve known file specifier).Leaves ↔
      targetOf known file specifier ∉ known ∨ NamesFile known specifier := by
  cases relative : Specifier.isRelative specifier with
  | false =>
    have target : targetOf known file specifier = specifier := by
      simp [targetOf, Specifier.resolve?, relative]
    have leaves : (ResolvedImport.resolve known file specifier).Leaves :=
      .inl (by simp [ResolvedImport.resolve, relative])
    rw [target, NamesFile, relative]
    simp only [leaves, true_and, true_iff]
    exact (em (specifier ∈ known)).symm
  | true =>
    have named : ¬ NamesFile known specifier := by simp [NamesFile, relative]
    cases resolved : Specifier.resolve? known file specifier with
    | none =>
      have outside := ImportLink.normalize_notMem_of_resolve?_eq_none known file specifier resolved
      simp [ResolvedImport.Leaves, ResolvedImport.resolve, targetOf, relative, resolved, outside]
    | some path =>
      have inside := Specifier.mem_known_of_resolve? relative resolved
      simp [ResolvedImport.Leaves, ResolvedImport.resolve, targetOf, relative, resolved,
        inside, named]

variable {scan : ImportScanner} {files : List ProjectFile} {path specifier : String}

/-! ### The style of an edge -/

/-- An edge stays in the project or comes from outside, as its source does. -/
theorem isInternal_of_mem_edges {e : Edge} (h : e ∈ (build scan files).graph.edges)
    (inside : e.source ∈ files.map (·.path)) : e.IsInternal := by
  obtain ⟨emphasized, label⟩ := internal_of_mem_edges h inside
  exact ⟨emphasized, label⟩

theorem isExternal_of_mem_edges {e : Edge} (h : e ∈ (build scan files).graph.edges)
    (outside : e.source ∉ files.map (·.path)) : (build scan files).graph.IsExternal e := by
  obtain ⟨label, emphasized, source⟩ := external_of_mem_edges h outside
  exact ⟨label, emphasized, source⟩

/-- An edge from the target of an import is drawn as the record says, unless the specifier names a
file. -/
theorem drawsAs_iff {e : Edge} (h : e ∈ (build scan files).graph.edges)
    (source : e.source = targetOf (files.map (·.path)) path specifier) :
    (build scan files).graph.DrawsAs
      (ResolvedImport.resolve (files.map (·.path)) path specifier) e ↔
      ¬ NamesFile (files.map (·.path)) specifier := by
  have leaves := leaves_resolve_iff (files.map (·.path)) path specifier
  rw [← source] at leaves
  constructor
  · intro draws named
    -- The target is the file that is named, so the edge stays in the project.
    have target : e.source = specifier := by simp [source, targetOf, Specifier.resolve?, named.1]
    have stays := (isInternal_of_mem_edges h (target ▸ named.2)).emphasized
    have comes := (draws.external (leaves.2 (.inr named))).emphasized
    simp [stays] at comes
  · intro unnamed
    simp only [unnamed, or_false] at leaves
    constructor
    · intro out
      exact isExternal_of_mem_edges h (leaves.1 out)
    · intro stays
      exact isInternal_of_mem_edges h (not_not.1 (mt leaves.2 stays))

/-! ### Agreement -/

/-- The specifier was found in a script among the files. -/
def Specifies (scan : ImportScanner) (files : List ProjectFile) (path specifier : String) : Prop :=
  ∃ file specifiers, IsScanned scan files file specifiers ∧ file.path = path ∧
    specifier ∈ specifiers

/-- The import of a specifier has a record and an edge, and the edge is drawn as the record says. -/
structure Agrees (scan : ImportScanner) (files : List ProjectFile)
    (path specifier : String) : Prop where
  recorded : ResolvedImport.resolve (files.map (·.path)) path specifier ∈ (build scan files).imports
  drawn : ∃ e ∈ (build scan files).graph.edges,
    e.source = targetOf (files.map (·.path)) path specifier ∧ e.target = path ∧
      (build scan files).graph.DrawsAs
        (ResolvedImport.resolve (files.map (·.path)) path specifier) e

theorem Specifies.imports (h : Specifies scan files path specifier) :
    Imports scan files path (targetOf (files.map (·.path)) path specifier) := by
  obtain ⟨file, specifiers, scanned, rfl, mem⟩ := h
  exact ⟨file, specifiers, scanned, rfl, specifier, mem, rfl⟩

theorem exists_specifies_of_imports {target : String} (h : Imports scan files path target) :
    ∃ specifier, Specifies scan files path specifier ∧
      targetOf (files.map (·.path)) path specifier = target := by
  obtain ⟨file, specifiers, scanned, rfl, specifier, mem, rfl⟩ := h
  exact ⟨specifier, ⟨file, specifiers, scanned, rfl, mem⟩, rfl⟩

theorem Specifies.recorded (h : Specifies scan files path specifier) :
    ResolvedImport.resolve (files.map (·.path)) path specifier ∈ (build scan files).imports := by
  obtain ⟨file, specifiers, scanned, rfl, mem⟩ := h
  have found := mem_links_iff.2 ⟨file, specifiers, scanned, specifier, mem, rfl⟩
  have := List.mem_map_of_mem (f := (·.record)) found
  rwa [ImportLink.record_ofSpecifier] at this

theorem Specifies.agrees_iff (h : Specifies scan files path specifier) :
    Agrees scan files path specifier ↔
      edgeCount (build scan files).graph path (targetOf (files.map (·.path)) path specifier) = 1 ∧
        ¬ NamesFile (files.map (·.path)) specifier := by
  rw [edgeCount_eq_one_iff]
  constructor
  · rintro ⟨-, e, he, source, target, draws⟩
    exact ⟨⟨e, he, source, target⟩, (drawsAs_iff he source).1 draws⟩
  · rintro ⟨⟨e, he, source, target⟩, unnamed⟩
    exact ⟨h.recorded, e, he, source, target, (drawsAs_iff he source).2 unnamed⟩

/-- An import has an edge that agrees with its record exactly when it is drawn and its specifier
does not name a file. All imports do exactly when no two of them clash and no specifier names a
file. -/
theorem edges_agree_with_records_iff (scan : ImportScanner) (files : List ProjectFile) :
    (∀ path specifier, Specifies scan files path specifier →
      (Agrees scan files path specifier ↔
        edgeCount (build scan files).graph path (targetOf (files.map (·.path)) path specifier) = 1 ∧
          ¬ NamesFile (files.map (·.path)) specifier)) ∧
    ((∀ path specifier, Specifies scan files path specifier → Agrees scan files path specifier) ↔
      Unambiguous scan files ∧
        ∀ path specifier, Specifies scan files path specifier →
          ¬ NamesFile (files.map (·.path)) specifier) := by
  refine ⟨fun _ _ h => h.agrees_iff, ?_, ?_⟩
  · intro agree
    constructor
    · intro path target path' target' imports imports' clash
      obtain ⟨specifier, found, rfl⟩ := exists_specifies_of_imports imports
      obtain ⟨specifier', found', rfl⟩ := exists_specifies_of_imports imports'
      exact not_drawn_of_clash clash (found.agrees_iff.1 (agree _ _ found)).1
        (found'.agrees_iff.1 (agree _ _ found')).1
    · intro path specifier found
      exact (found.agrees_iff.1 (agree _ _ found)).2
  · rintro ⟨unambiguous, unnamed⟩ path specifier found
    exact found.agrees_iff.2
      ⟨edgeCount_eq_one_of_unambiguous unambiguous found.imports, unnamed path specifier found⟩

/-- A script imports a package that is called like another file: the record says that this is
external, and the edge is emphasized, has no label and leaves the file. -/
theorem external_import_drawn_inside :
    let files : List ProjectFile := [⟨"a.js", "import 'b.js';"⟩, ⟨"b.js", ""⟩]
    let report := build textScanner files
    (files.map (·.path)).Nodup ∧ Specifies textScanner files "a.js" "b.js" ∧
      report.imports = [⟨"a.js", some "b.js", true⟩] ∧
      report.graph.edges =
        [{ id := "e-a.js-to-b.js", source := "b.js", target := "a.js", emphasized := true }] ∧
      (∀ n ∈ report.graph.nodes, n.external = false) ∧
      ¬ Agrees textScanner files "a.js" "b.js" := by
  intro files report
  have found : Specifies textScanner files "a.js" "b.js" := by
    refine ⟨⟨"a.js", "import 'b.js';"⟩, ["b.js"], ⟨by simp [files], ?_, ?_⟩, rfl, by simp⟩
    · decide +kernel
    · decide +kernel
  refine ⟨by decide, found, by decide +kernel, by decide +kernel, by decide +kernel, ?_⟩
  intro agrees
  exact (found.agrees_iff.1 agrees).2 ⟨by decide +kernel, by simp [files]⟩

end Dependency

end CodeAtlas
