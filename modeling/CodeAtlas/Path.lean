import CodeAtlas.Language
import CodeAtlas.Text.Occurs
import CodeAtlas.Text.Split

/-!
# Paths

A path is a text; what it means is the list of its components. Empty segments and segments `.` are
passed over, except that a relative path may start with `.`.
-/

namespace CodeAtlas.Path

inductive Component where
  | root
  | current
  | parent
  | normal (name : String)
deriving DecidableEq, Repr

namespace Component

def text : Component → String
  | .root => "/"
  | .current => "."
  | .parent => ".."
  | .normal name => name

def name? : Component → Option String
  | .normal name => some name
  | _ => none

end Component

/-- The parts of a text between slashes. -/
def segments (path : String) : List String := Text.split '/' path

def componentOf? : String → Option Component
  | "" | "." => none
  | ".." => some .parent
  | name => some (.normal name)

def components (path : String) : List Component :=
  let parts := segments path
  let start : List Component :=
    if Text.hasStart path "/" then [.root]
    else if parts.head? = some "." then [.current]
    else []
  start ++ parts.filterMap componentOf?

/-- The last component, if it is a name. -/
def fileName? (path : String) : Option String := (components path).getLast?.bind Component.name?

/-- The text before the last dot and after it. -/
def splitAtLastDot (name : String) : Option (String × String) :=
  let reversed := name.toList.reverse
  match reversed.dropWhile (· != '.') with
  | [] => none
  | _ :: before =>
    some (String.ofList before.reverse, String.ofList (reversed.takeWhile (· != '.')).reverse)

/-- What follows the last dot of the file name, unless that dot comes first. -/
def extension? (path : String) : Option String := do
  let name ← fileName? path
  let (stem, ext) ← splitAtLastDot name
  if stem.isEmpty then none else some ext

/-- What follows the last slash. -/
def basename (path : String) : String := (segments path).getLastD ""

/-- The components of `path` below `root`. -/
def below? (root path : String) : Option (List Component) :=
  let above := components root
  let parts := components path
  if above.isPrefixOf parts then some (parts.drop above.length) else none

/-- The slash-separated path below a root. Only names may be left below it, and at least one. -/
def relative? (root path : String) : Option String := do
  let names ← (← below? root path).mapM Component.name?
  if names.isEmpty then none else some (Text.join "/" names)

/-- Joins a path to a base. An absolute path replaces the base. -/
def join (base path : String) : String :=
  if Text.hasStart path "/" then path
  else if base.isEmpty then path
  else if Text.hasEnd base "/" then base ++ path
  else base ++ "/" ++ path

end CodeAtlas.Path

namespace CodeAtlas

/-- The language of a file, by its extension. What is neither stylesheet, markup, Java nor Python is
taken for a script. -/
def Language.ofPath (path : String) : Language :=
  match Path.extension? path with
  | some "css" => .css
  | some "html" | some "htm" => .html
  | some "java" => .java
  | some "py" | some "pyi" => .python
  | _ => .javaScript

/-- A file of a project. Its path is relative to the project and separated by slashes. -/
structure ProjectFile where
  path : String
  content : String
deriving DecidableEq, Repr

end CodeAtlas
