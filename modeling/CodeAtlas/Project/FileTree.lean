import CodeAtlas.Graph.Cycles
import CodeAtlas.Outline.Basic
import CodeAtlas.Path
import CodeAtlas.Text.Occurs

/-!
# File trees

The paths of a project are drawn as a tree. They are sorted first, and the names in a directory
stand in the order in which they first occur.
-/

namespace CodeAtlas.FileTree

/-- The entries of a directory. -/
abbrev Directory := List (Rose String)

/-- Changes the contents of the entry with a name, which is added at the end if there is none. -/
def change (name : String) (f : Directory → Directory) : Directory → Directory
  | [] => [.node name (f [])]
  | .node other inside :: rest =>
    if other = name then .node name (f inside) :: rest else .node other inside :: change name f rest

/-- Adds the entries along a path. -/
def insert : List String → Directory → Directory
  | [], dir => dir
  | name :: names, dir => change name (insert names) dir

def ofPaths (paths : List String) : Directory :=
  paths.foldl (fun dir path => insert (Path.segments path) dir) []

/-- The mark before a name. -/
def branch (isLast : Bool) : String := if isLast then "└── " else "├── "

/-- What stands below the mark, before the names inside. -/
def margin (isLast : Bool) : String := if isLast then "    " else "│   "

mutual

/-- The lines of an entry. -/
def entryLines (indent : String) (isLast : Bool) : Rose String → List String
  | .node name inside => (indent ++ branch isLast ++ name) :: lines (indent ++ margin isLast) inside

/-- The lines of a directory. -/
def lines (indent : String) : Directory → List String
  | [] => []
  | entry :: rest => entryLines indent rest.isEmpty entry ++ lines indent rest

end

/-- The paths that are drawn: those that contain no pattern of the ignore list, sorted. -/
def shownPaths (ignore : List String) (files : List ProjectFile) : List String :=
  ((files.map (·.path)).filter fun path => !ignore.any (Text.contains path)).mergeSort Graph.textLe

/-- Draws the files of a project. -/
def draw (ignore : List String) (files : List ProjectFile) : String :=
  String.join (("." :: lines "" (ofPaths (shownPaths ignore files))).map (· ++ "\n"))

end CodeAtlas.FileTree
