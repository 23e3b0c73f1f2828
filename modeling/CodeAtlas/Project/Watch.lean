import CodeAtlas.Project.Load
import CodeAtlas.Session

/-!
# Following changes on disk

A change to a file of a watched directory becomes an edit of the session, unless the path is
excluded.
-/

namespace CodeAtlas

/-- What has happened to a path. -/
inductive Change where
  | created (path : String)
  | modified (path : String)
  | removed (path : String)
deriving DecidableEq, Repr

/-- What is not reported: paths with a name on the ignore list anywhere, and those that the ignore
file of the root leaves out. -/
structure PathFilter where
  root : String
  names : List String
  rules : IgnoreRules

namespace PathFilter

def ofRoot (d : Directory) (s : Settings) (root : String) : PathFilter where
  root := root
  names := s.ignore
  rules := match d.read? (Path.join root ignoreFileName) with
    | some content => .ofBytes content
    | none => []

/-- A segment that is passed over in a path. -/
def isVoid (segment : String) : Bool := (Path.componentOf? segment).isNone

/-- Drops segments until some that count are gone. -/
def dropCounting : Nat → List String → List String
  | 0, segments => segments
  | _, [] => []
  | n + 1, segment :: rest =>
    if isVoid segment then dropCounting (n + 1) rest else dropCounting n rest

/-- The segments of a path below the root, without void ones at either end. -/
def segmentsBelow? (root path : String) : Option (List String) :=
  match Path.below? root path with
  | none => none
  | some _ =>
    let above := ((Path.segments root).filter (!isVoid ·)).length
    let below := (dropCounting above (Path.segments path)).dropWhile isVoid
    some (below.reverse.dropWhile isVoid).reverse

/-- The segments with the last one dropped again and again, down to none. `reversed` is the path
backwards. -/
def parents : (reversed : List String) → List (List String)
  | [] => []
  | _ :: rest =>
    if rest.all isVoid then [[]]
    else if isVoid (rest.headD "") then parents rest
    else rest.reverse :: parents rest

/-- The rule that decides on a path: one that matches it, or else the nearest directory above it. -/
def ruleFor? (f : PathFilter) (isDirectory : Bool) (below : List String) : Option IgnoreRule :=
  (f.rules.lastMatch? (Text.join "/" below) isDirectory).or
    ((parents below.reverse).findSome? fun dir => f.rules.lastMatch? (Text.join "/" dir) true)

def excludes (d : Directory) (f : PathFilter) (path : String) : Bool :=
  shouldIgnore f.names path ||
    match segmentsBelow? f.root path with
    | none => false
    | some below =>
      match f.ruleFor? (d.isDirectory path) below with
      | some rule => !rule.keeps
      | none => false

end PathFilter

namespace Change

/-- The edit for a file that has been written. -/
def writeEdit? (d : Directory) (s : Settings) (f : PathFilter) (path : String) : Option Edit := do
  if f.excludes d path then none
  else
    let relative ← Path.relative? f.root path
    let content ← d.read? path
    if s.accepts path content.length then some (.write ⟨relative, Utf8.decodeLossy content⟩)
    else none

/-- The edit for a change. -/
def edit? (d : Directory) (s : Settings) (f : PathFilter) : Change → Option Edit
  | .created path | .modified path => writeEdit? d s f path
  | .removed path => (Path.relative? f.root path).map .remove

end Change

end CodeAtlas
