import CodeAtlas.Json.Basic
import CodeAtlas.Outline.Basic

/-!
# Typed syntax trees

In the syntax trees of scripts and stylesheets a node is an object with a text under `type`. Its
children are found under a list of keys that depends on the type: a field holds one child, if its
value is a node, or several, if its value is an array. Anything that is not a node is passed over.
-/

namespace CodeAtlas

/-- A node with the key it was found under. -/
structure TypedNode where
  type : String
  body : Json
  key : String := ""
  /-- The key had been visited before in the same parent. -/
  repeated : Bool := false

namespace TypedNode

/-- The type of a node. -/
def typeOf? (v : Json) : Option String := v.stringAt? "type"

/-- A tree hung below a key. -/
def under (key : String) (repeated : Bool) : Rose TypedNode → Rose TypedNode
  | .node n ts => .node { n with key, repeated } ts

/-- The trees found under the keys, key by key. -/
def select (keys : List String) (found : List (String × List (Rose TypedNode))) :
    List (Rose TypedNode) :=
  (keys.mapIdx fun i key =>
    match found.find? (·.1 == key) with
    | some (_, ts) => ts.map (under key ((keys.take i).contains key))
    | none => []).flatten

mutual

/-- The tree of a value, if it is a node: a list of one tree, or none. -/
def trees (keysOf : String → List String) : Json → List (Rose TypedNode)
  | .obj fields =>
    match (Json.lookup fields "type").bind Json.string? with
    | some type =>
      [.node { type, body := .obj fields } (select (keysOf type) (treesOfFields keysOf fields))]
    | none => []
  | _ => []

def treesOfItems (keysOf : String → List String) : List Json → List (Rose TypedNode)
  | [] => []
  | v :: rest => trees keysOf v ++ treesOfItems keysOf rest

/-- The trees below every field. -/
def treesOfFields (keysOf : String → List String) :
    List (String × Json) → List (String × List (Rose TypedNode))
  | [] => []
  | (key, .arr items) :: rest => (key, treesOfItems keysOf items) :: treesOfFields keysOf rest
  | (key, v) :: rest => (key, trees keysOf v) :: treesOfFields keysOf rest

end

/-- The tree of a value, if it is a node. -/
def tree? (keysOf : String → List String) (v : Json) : Option (Rose TypedNode) :=
  (trees keysOf v).head?

end TypedNode

end CodeAtlas
