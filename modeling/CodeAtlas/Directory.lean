import CodeAtlas.Path

/-!
# Directories

A directory is kept as the finite list of what is in it, at any depth, under the names that lead
there. A directory in it need not be listed if it has something inside. Links are followed when a
path is looked up, and a path that leads out of the directory leads nowhere.
-/

namespace CodeAtlas

/-- What a path may lead to. -/
inductive Directory.Entry where
  | file (content : List UInt8)
  | directory
  | link (target : String)
deriving DecidableEq, Repr

structure Directory where
  /-- The path of the directory itself. -/
  home : String := ""
  entries : List (List String × Directory.Entry) := []
deriving DecidableEq, Repr

namespace Directory

/-- Puts an entry at the end of some names, in place of what was there. -/
def put (d : Directory) (names : List String) (e : Entry) : Directory :=
  { d with entries := d.entries.filter (fun other => other.1 != names) ++ [(names, e)] }

/-- Takes out what is at the end of some names. -/
def erase (d : Directory) (names : List String) : Directory :=
  { d with entries := d.entries.filter fun other => other.1 != names }

/-- What some names lead to if no link is followed. -/
def entry? (d : Directory) (names : List String) : Option Entry :=
  match d.entries.find? (·.1 == names) with
  | some found => some found.2
  | none =>
    if names.isEmpty || d.entries.any (fun e => names.isPrefixOf e.1) then some .directory else none

/-- How many links a path may lead through. -/
def maxLinks : Nat := 40

/-- Walks on from the end of some names. What is left of the path behind a link is given to
`follow`, after the link's target. The way up never leaves the directory. -/
def walkBy (d : Directory) (follow : (here rest : List String) → Option (List String))
    (here : List String) :
    (rest : List String) → Option (List String)
  | [] => some here
  | name :: rest =>
    if d.entry? here ≠ some .directory then none
    else
      match Path.componentOf? name with
      | none => walkBy d follow here rest
      | some .parent => if here.isEmpty then none else walkBy d follow here.dropLast rest
      | some _ =>
        match d.entry? (here ++ [name]) with
        | none => none
        | some (.link target) =>
          if Text.hasStart target "/" then none else follow here (Path.segments target ++ rest)
        | some _ => walkBy d follow (here ++ [name]) rest

/-- Walks on from the end of some names through a number of links at most. -/
def walk (d : Directory) : (links : Nat) → (here rest : List String) → Option (List String)
  | 0 => d.walkBy fun _ _ => none
  | links + 1 => d.walkBy (d.walk links)

/-- The part of a path below the directory's own path. A relative path is meant from there. -/
def below? (d : Directory) (path : String) : Option String :=
  let own := Path.join d.home ""
  if path = d.home then some ""
  else if Text.hasStart path own then some (String.ofList (path.toList.drop own.toList.length))
  else if Text.hasStart path "/" then none
  else some path

/-- The names at which a path ends. -/
def locate? (d : Directory) (path : String) : Option (List String) := do
  d.walk maxLinks [] (Path.segments (← d.below? path))

/-- What a path leads to. -/
def find? (d : Directory) (path : String) : Option Entry := (d.locate? path).bind d.entry?

/-- The content of the file that a path leads to. -/
def read? (d : Directory) (path : String) : Option (List UInt8) :=
  match d.find? path with
  | some (.file content) => some content
  | _ => none

def isDirectory (d : Directory) (path : String) : Bool := d.find? path = some .directory

end Directory

end CodeAtlas
