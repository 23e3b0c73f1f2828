import CodeAtlas.Json.Basic
import CodeAtlas.Outline.Concepts

/-!
# Drawing Python

A node of a Python syntax tree is an object with the name of its class under `_type`. Every property
is searched for children, in document order.
-/

namespace CodeAtlas.Python

structure PythonNode where
  type : String
  body : Json

mutual

/-- The tree of a value, if it is a node: a list of one tree, or none. -/
def trees : Json → List (Rose PythonNode)
  | .obj fields =>
    match (Json.lookup fields "_type").bind Json.string? with
    | some type => [.node ⟨type, .obj fields⟩ (treesOfFields fields)]
    | none => []
  | _ => []

def treesOfItems : List Json → List (Rose PythonNode)
  | [] => []
  | v :: rest => trees v ++ treesOfItems rest

def treesOfFields : List (String × Json) → List (Rose PythonNode)
  | [] => []
  | (_, .arr items) :: rest => treesOfItems items ++ treesOfFields rest
  | (_, v) :: rest => trees v ++ treesOfFields rest

end

def tree? (v : Json) : Option (Rose PythonNode) := (trees v).head?

/-- The name that an assignment gives: that of its first target. -/
def assignedName? (v : Json) : Option String := do
  let targets ← v.get? "targets"
  let first ← (← targets.items?).head?
  first.stringAt? "id"

/-- The name that is called. Where the called expression has an `id`, whatever its kind, no other
field is looked at. -/
def calledName? (v : Json) : Option String := do
  let callee ← v.get? "func"
  ((callee.get? "id").or (callee.get? "attr")).bind Json.string?

def concept (n : PythonNode) : Option (String × Bool) :=
  match n.type with
  | "FunctionDef" | "AsyncFunctionDef" =>
    some ("[Function: " ++ (n.body.stringAt? "name").getD "anonymous" ++ "]", true)
  | "Assign" => some ("[Variable: " ++ (assignedName? n.body).getD "..." ++ "]", false)
  | "Call" => some ("[Call: " ++ (calledName? n.body).getD "..." ++ "]", false)
  | _ => none

def conceptRules : Rose.ConceptRules PythonNode where
  concept := concept
  visits _ _ := true
  inPlace _ := false

/-- Shows every node. -/
def full : Drawing Json := .structural .python tree? PythonNode.type

/-- Shows function definitions, assignments and calls. -/
def conceptual : Drawing Json := .conceptual .pythonConcepts tree? conceptRules

end CodeAtlas.Python
