import CodeAtlas.Graph.Cycles
import CodeAtlas.Graph.Digraph
import CodeAtlas.Project.Imports
import CodeAtlas.Project.Specifier

/-!
# Dependency graphs

The files of a project stand in a grid of five columns, in the order they are given. For
every import an edge leads from what is imported to the importing file. What is imported from
outside the project stands below the grid, with one empty row between.

Imports with the same edge name are drawn once.
-/

namespace CodeAtlas

/-- An import as it is drawn. -/
structure ImportLink where
  file : String
  /-- The path or name that is imported. -/
  target : String
  inProject : Bool
  record : ResolvedImport
deriving DecidableEq, Repr

structure DependencyReport where
  graph : Graph := {}
  /-- Every import, file by file. -/
  imports : List ResolvedImport := []
  /-- The scripts whose imports could not be found. -/
  skipped : List String := []
  cycles : List (List String) := []

namespace ImportLink

/-- Follows an import from a file. A relative specifier that resolves to nothing is drawn under its
normalized path. -/
def ofSpecifier (known : List String) (file specifier : String) : ImportLink :=
  let record := ResolvedImport.resolve known file specifier
  match record.toPath with
  | some path => ⟨file, path, known.contains path, record⟩
  | none => ⟨file, Specifier.normalize file specifier, false, record⟩

def edgeName (link : ImportLink) : String := Edge.nameOf link.file link.target

def edge (link : ImportLink) : Edge :=
  { id := link.edgeName, source := link.target, target := link.file
    label := if link.inProject then none else some "external"
    emphasized := link.inProject }

end ImportLink

namespace Dependency

/-- The columns of the grid. -/
def columns : Nat := 5

def spacing : Spacing := ⟨200, 100⟩

/-- The cell of the `index`-th node in a grid whose first row is `top`. -/
def cell (top index : Nat) : LayoutHint := ⟨top + index / columns, index % columns⟩

def gridNode (id label : String) (hint : LayoutHint) (external : Bool) : Node :=
  { id, label, kind := .default, layoutHint := hint, position := spacing.position hint, external }

def fileNode (index : Nat) (file : ProjectFile) : Node :=
  gridNode file.path (Path.basename file.path) (cell 0 index) false

/-- The first row below the grid of `count` files, after an empty one. -/
def externalTop (count : Nat) : Nat := (count + columns - 1) / columns + 1

def externalNode (count index : Nat) (name : String) : Node :=
  gridNode name name (cell (externalTop count) index) true

/-- The scripts among the files. -/
def scripts (files : List ProjectFile) : List ProjectFile :=
  files.filter fun f => isScriptPath f.path

/-- The imports that a scan of one file found. -/
def linksOf (scan : ImportScanner) (known : List String) (file : ProjectFile) : List ImportLink :=
  match scan file.path file.content with
  | .ok specifiers => specifiers.map (ImportLink.ofSpecifier known file.path)
  | .error _ => []

def isSkipped (scan : ImportScanner) (file : ProjectFile) : Bool :=
  match scan file.path file.content with
  | .ok _ => false
  | .error _ => true

/-- The links that are drawn: the first of every edge name. -/
def drawnLinks (links : List ImportLink) : List ImportLink :=
  links.eraseDupsBy fun a b => a.edgeName == b.edgeName

/-- The names outside the project, each once. -/
def externals (links : List ImportLink) : List String :=
  ((links.filter fun link => !link.inProject).map (·.target)).eraseDups

/-- Builds the dependency graph of some files. -/
def build (scan : ImportScanner) (files : List ProjectFile) : DependencyReport :=
  let known := files.map (·.path)
  let links := (scripts files).flatMap (linksOf scan known)
  let drawn := drawnLinks links
  let graph : Graph :=
    { nodes := files.mapIdx fileNode ++ (externals drawn).mapIdx (externalNode files.length)
      edges := drawn.map ImportLink.edge }
  { graph
    imports := links.map (·.record)
    skipped := ((scripts files).filter (isSkipped scan)).map (·.path)
    cycles := graph.cycles }

end Dependency

namespace DependencyReport

/-- Sorted and each once. -/
def listed (names : List String) : List String := (names.mergeSort Graph.textLe).eraseDups

/-- The files that import this one. -/
def importersOf (r : DependencyReport) (id : String) : List String :=
  listed (r.graph.toDigraph.neighbors id)

/-- What this file imports. -/
def dependenciesOf (r : DependencyReport) (id : String) : List String :=
  listed (r.graph.toDigraph.converse.neighbors id)

end DependencyReport

end CodeAtlas
