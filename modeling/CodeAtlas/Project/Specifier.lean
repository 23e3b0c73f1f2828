import CodeAtlas.Path

/-!
# Import specifiers

A specifier that starts with a dot is meant relative to the importing file; every other one names
something outside the project. A relative specifier is first normalized to a path of the project and
then tried as it is, with the extensions of scripts, and as a directory with an index file.
-/

namespace CodeAtlas.Specifier

def isRelative (specifier : String) : Bool := Text.hasStart specifier "."

/-- The names of the directories that lead to a file. -/
def directory (path : String) : List String := (Path.segments path).dropLast.filter (· != "")

/-- Follows one segment from a directory. The way up ends at the project's root. -/
def follow (directory : List String) : String → List String
  | "" | "." => directory
  | ".." => directory.dropLast
  | name => directory ++ [name]

/-- The segments of the path that a specifier denotes in a file. -/
def normalSegments (file specifier : String) : List String :=
  (Path.segments specifier).foldl follow (directory file)

/-- The path that a specifier denotes in a file. -/
def normalize (file specifier : String) : String := Text.join "/" (normalSegments file specifier)

/-- What is put after a path in turn until a file is found. -/
def suffixes : List String := ["", ".js", ".jsx", ".ts", ".tsx", "/index.js", "/index.jsx"]

def candidates (file specifier : String) : List String :=
  suffixes.map (normalize file specifier ++ ·)

/-- The path that a specifier stands for: itself if it is not relative, else the first candidate
among the known files. -/
def resolve? (known : List String) (file specifier : String) : Option String :=
  if isRelative specifier then (candidates file specifier).find? known.contains else some specifier

end CodeAtlas.Specifier

namespace CodeAtlas

/-- What became of an import. -/
structure ResolvedImport where
  fromPath : String
  toPath : Option String
  isExternal : Bool
deriving DecidableEq, Repr

def ResolvedImport.resolve (known : List String) (file specifier : String) : ResolvedImport :=
  ⟨file, Specifier.resolve? known file specifier, !Specifier.isRelative specifier⟩

end CodeAtlas
