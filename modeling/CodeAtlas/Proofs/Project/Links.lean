import CodeAtlas.Project.Dependency
import CodeAtlas.Proofs.Graph.Names

/-!
# Imports and their links

A script that was scanned imports the target of each of its specifiers: the file that the specifier
resolves to, or else the path that it denotes. Every such import gives a link, and of the links with
one edge name the first is drawn.

`Imports` says what is imported in terms of the files and the scanner alone. The lemmas below tie
the links of a build to it, so that what is proved about the drawing need not look at how links are
collected.
-/

namespace CodeAtlas

namespace Dependency

/-! ### What is imported -/

/-- What a specifier in a file leads to: the file it resolves to, or else the path it denotes. -/
def targetOf (known : List String) (file specifier : String) : String :=
  (Specifier.resolve? known file specifier).getD (Specifier.normalize file specifier)

/-- A script among the files whose scan found these specifiers. -/
structure IsScanned (scan : ImportScanner) (files : List ProjectFile) (file : ProjectFile)
    (specifiers : List String) : Prop where
  mem : file ∈ files
  isScript : isScriptPath file.path = true
  scan_eq : scan file.path file.content = .ok specifiers

/-- A scanned script has a specifier that leads to this target. -/
def Imports (scan : ImportScanner) (files : List ProjectFile) (path target : String) : Prop :=
  ∃ file specifiers, IsScanned scan files file specifiers ∧ file.path = path ∧
    ∃ specifier ∈ specifiers, targetOf (files.map (·.path)) path specifier = target

variable {scan : ImportScanner} {files : List ProjectFile} {path target : String}

theorem Imports.path_mem (h : Imports scan files path target) : path ∈ files.map (·.path) := by
  obtain ⟨file, specifiers, scanned, rfl, -⟩ := h
  exact List.mem_map_of_mem scanned.mem

theorem Imports.isScript (h : Imports scan files path target) : isScriptPath path = true := by
  obtain ⟨file, specifiers, scanned, rfl, -⟩ := h
  exact scanned.isScript

end Dependency

/-! ### The link of a specifier -/

namespace ImportLink

open Dependency (targetOf)

variable (known : List String) (file specifier : String)

@[simp] theorem file_ofSpecifier : (ofSpecifier known file specifier).file = file := by
  simp only [ofSpecifier]
  split <;> rfl

@[simp] theorem record_ofSpecifier :
    (ofSpecifier known file specifier).record = ResolvedImport.resolve known file specifier := by
  simp only [ofSpecifier]
  split <;> rfl

@[simp] theorem target_ofSpecifier :
    (ofSpecifier known file specifier).target = targetOf known file specifier := by
  simp only [ofSpecifier, ResolvedImport.resolve, targetOf]
  split <;> simp [*]

/-- A path that is known resolves, since it is the first candidate. -/
theorem normalize_notMem_of_resolve?_eq_none (h : Specifier.resolve? known file specifier = none) :
    Specifier.normalize file specifier ∉ known := by
  intro isKnown
  rw [Specifier.resolve?] at h
  split at h
  · rw [List.find?_eq_none] at h
    have first : Specifier.normalize file specifier ∈ Specifier.candidates file specifier := by
      simp [Specifier.candidates, Specifier.suffixes]
    exact h _ first (by simpa using isKnown)
  · cases h

theorem inProject_ofSpecifier :
    (ofSpecifier known file specifier).inProject = true ↔
      targetOf known file specifier ∈ known := by
  simp only [ofSpecifier, ResolvedImport.resolve, targetOf]
  split
  · next resolved => simp [resolved]
  · next unresolved =>
    have := normalize_notMem_of_resolve?_eq_none known file specifier unresolved
    simp [unresolved, this]

end ImportLink

namespace Dependency

variable {scan : ImportScanner} {files : List ProjectFile}

/-! ### The links of a build -/

/-- The links of all scripts, in the order in which they are found. -/
def links (scan : ImportScanner) (files : List ProjectFile) : List ImportLink :=
  (scripts files).flatMap (linksOf scan (files.map (·.path)))

theorem mem_links_iff {link : ImportLink} :
    link ∈ links scan files ↔ ∃ file specifiers, IsScanned scan files file specifiers ∧
      ∃ specifier ∈ specifiers,
        ImportLink.ofSpecifier (files.map (·.path)) file.path specifier = link := by
  simp only [links, scripts, List.mem_flatMap, List.mem_filter]
  constructor
  · rintro ⟨file, ⟨mem, isScript⟩, found⟩
    rw [linksOf] at found
    split at found
    · next specifiers scan_eq =>
      exact ⟨file, specifiers, ⟨mem, isScript, scan_eq⟩, List.mem_map.1 found⟩
    · simp at found
  · rintro ⟨file, specifiers, scanned, found⟩
    refine ⟨file, ⟨scanned.mem, scanned.isScript⟩, ?_⟩
    rw [linksOf, scanned.scan_eq]
    exact List.mem_map.2 found

theorem imports_of_mem_links {link : ImportLink} (h : link ∈ links scan files) :
    Imports scan files link.file link.target := by
  obtain ⟨file, specifiers, scanned, specifier, mem, rfl⟩ := mem_links_iff.1 h
  exact ⟨file, specifiers, scanned, by simp, specifier, mem, by simp⟩

theorem exists_link_of_imports {path target : String} (h : Imports scan files path target) :
    ∃ link ∈ links scan files, link.file = path ∧ link.target = target := by
  obtain ⟨file, specifiers, scanned, rfl, specifier, mem, rfl⟩ := h
  exact ⟨_, mem_links_iff.2 ⟨file, specifiers, scanned, specifier, mem, rfl⟩, by simp, by simp⟩

theorem inProject_iff_of_mem_links {link : ImportLink} (h : link ∈ links scan files) :
    link.inProject = true ↔ link.target ∈ files.map (·.path) := by
  obtain ⟨file, specifiers, scanned, specifier, mem, rfl⟩ := mem_links_iff.1 h
  rw [ImportLink.inProject_ofSpecifier, ImportLink.target_ofSpecifier]

/-! ### The links that are drawn -/

variable {all : List ImportLink}

theorem mem_of_mem_drawnLinks {link : ImportLink} (h : link ∈ drawnLinks all) : link ∈ all :=
  (eraseDupsBy_sublist ImportLink.edgeName all).mem h

theorem exists_mem_drawnLinks {link : ImportLink} (h : link ∈ all) :
    ∃ drawn ∈ drawnLinks all, drawn.edgeName = link.edgeName :=
  exists_mem_eraseDupsBy ImportLink.edgeName h

theorem nodup_edgeNames_drawnLinks (all : List ImportLink) :
    ((drawnLinks all).map (·.edgeName)).Nodup :=
  nodup_map_eraseDupsBy ImportLink.edgeName all

/-- The names outside the project are the targets of the links that leave it. -/
theorem mem_externals_iff {name : String} :
    name ∈ externals all ↔ ∃ link ∈ all, link.inProject = false ∧ link.target = name := by
  simp [externals, List.mem_eraseDups, and_assoc]

theorem nodup_externals (all : List ImportLink) : (externals all).Nodup := nodup_eraseDups _

end Dependency

end CodeAtlas
