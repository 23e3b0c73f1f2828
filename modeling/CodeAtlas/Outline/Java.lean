import CodeAtlas.Json.Basic
import CodeAtlas.Outline.Concepts

/-!
# Drawing Java

A node of a Java syntax tree is an object with the name of its production under `name` and its
children under `children`: an object of arrays, read in document order. A token has its text under
`image`.

The conceptual drawing shows classes, fields, methods, local variables and calls. Classes stand
side by side in the first row, wherever they were declared, and nothing links them to what is
around them. A field or a method hangs below the innermost class, a variable or a call below the
innermost class or method.
-/

namespace CodeAtlas.Java

mutual

/-- The tree of a value, if it is an object: a list of one tree, or none. -/
def trees : Json → List (Rose Json)
  | .obj fields => [.node (.obj fields) (treesBelow fields)]
  | _ => []

def treesOfItems : List Json → List (Rose Json)
  | [] => []
  | v :: rest => trees v ++ treesOfItems rest

/-- The trees in the arrays of a record of children. -/
def treesOfGroups : List (String × Json) → List (Rose Json)
  | [] => []
  | (_, .arr items) :: rest => treesOfItems items ++ treesOfGroups rest
  | _ :: rest => treesOfGroups rest

/-- The trees below a node with these fields. -/
def treesBelow : List (String × Json) → List (Rose Json)
  | [] => []
  | (key, .obj groups) :: rest => if key = "children" then treesOfGroups groups else treesBelow rest
  | (key, _) :: rest => if key = "children" then [] else treesBelow rest

end

def tree? (v : Json) : Option (Rose Json) := (trees v).head?

/-- The name of a node's production. -/
def production? (v : Json) : Option String := v.stringAt? "name"

/-- The text of the token at the end of a path: each step goes to the first child of that name. -/
def imageAt? (v : Json) : List String → Option String
  | [] => v.stringAt? "image"
  | step :: path => do
    let group ← (← v.get? "children").get? step
    imageAt? (← (← group.items?).head?) path

def className? (v : Json) : Option String := imageAt? v ["typeIdentifier", "Identifier"]

def superclassName? (v : Json) : Option String :=
  imageAt? v ["superclass", "classOrInterfaceType", "Identifier"]

def variablePath : List String :=
  ["variableDeclaratorList", "variableDeclarator", "variableDeclaratorId", "Identifier"]

def fieldName? (v : Json) : Option String := imageAt? v variablePath

def methodName? (v : Json) : Option String :=
  imageAt? v ["methodHeader", "methodDeclarator", "Identifier"]

def localName? (v : Json) : Option String := imageAt? v ("localVariableDeclaration" :: variablePath)

def invokedName? (v : Json) : Option String :=
  (imageAt? v ["methodName", "Identifier"]).or (imageAt? v ["Identifier"])

/-- What a node means to the conceptual drawing. -/
inductive Concept where
  | classDeclaration (label : String)
  | field (label : String)
  | method (label : String)
  | variable (label : String)
  | call (label : String)

def concept? (v : Json) : Option Concept :=
  match production? v with
  | some "normalClassDeclaration" =>
    (className? v).map fun name =>
      .classDeclaration ("[Class: " ++ name ++ "]" ++
        (match superclassName? v with
         | some parent => " extends " ++ parent
         | none => ""))
  | some "fieldDeclaration" => (fieldName? v).map fun name => .field ("[Field: " ++ name ++ "]")
  | some "methodDeclaration" => (methodName? v).map fun name => .method ("[Method: " ++ name ++ "]")
  | some "localVariableDeclarationStatement" =>
    (localName? v).map fun name => .variable ("[Variable: " ++ name ++ "]")
  | some "methodInvocation" => (invokedName? v).map fun name => .call ("[Call: " ++ name ++ "]")
  | _ => none

/-- What surrounds a node: the innermost class, the innermost class or method, and the row of what
comes next. Above the outermost class the surroundings are whatever the drawing hangs below. -/
structure Scope where
  enclosingClass : Option Nat
  enclosing : Anchor
  depth : Nat

/-- The outcome of one node: the entry it adds, and the scope of its children, none if they are not
visited. -/
structure Visit where
  entry : Option Entry := none
  inner : Option Scope
  isClass : Bool := false

/-- Looks at one node. `classes` is the number of classes shown so far and `next` the number of
entries. -/
def visit (scope : Scope) (place classes next : Nat) (v : Json) : Visit :=
  let shown (label : String) (anchor : Anchor) : Option Entry :=
    some ⟨label, .default, ⟨scope.depth, place⟩, anchor⟩
  match concept? v, scope.enclosingClass, scope.enclosing with
  | some (.classDeclaration label), _, _ =>
    { entry := some ⟨label, .input, ⟨0, classes⟩, .loose⟩
      inner := some ⟨some next, .entry next, 1⟩
      isClass := true }
  | some (.field label), some k, _ => { entry := shown label (.entry k), inner := none }
  | some (.method label), some k, _ =>
    { entry := shown label (.entry k), inner := some ⟨some k, .entry next, scope.depth + 1⟩ }
  | some (.variable _), _, .loose | some (.call _), _, .loose => { inner := some scope }
  | some (.variable label), _, anchor | some (.call label), _, anchor =>
    { entry := shown label anchor, inner := none }
  | _, _, _ => { inner := some scope }

mutual

/-- The entries of a tree, and the number of classes shown after it. -/
def entries (scope : Scope) (place classes next : Nat) : Rose Json → Draft × Nat
  | .node v ts =>
    let seen := visit scope place classes next v
    let own := seen.entry.toList
    let classes := if seen.isClass then classes + 1 else classes
    match seen.inner with
    | none => (own, classes)
    | some inner =>
      let (below, classes) := entriesOfAll inner 0 classes (next + own.length) ts
      (own ++ below, classes)

def entriesOfAll (scope : Scope) (place classes next : Nat) : List (Rose Json) → Draft × Nat
  | [] => ([], classes)
  | t :: ts =>
    let (first, classes) := entries scope place classes next t
    let (rest, classes) := entriesOfAll scope (place + 1) classes (next + first.length) ts
    (first ++ rest, classes)

end

/-- Shows every node. -/
def full : Drawing Json := .structural .java tree? fun v => (production? v).getD "node"

/-- Shows classes, fields, methods, local variables and calls. -/
def conceptual : Drawing Json where
  family := .javaConcepts
  draft tree depth place attached :=
    match tree? tree with
    | some t => (entries ⟨none, if attached then .outer else .loose, depth⟩ place 0 0 t).1
    | none => []

end CodeAtlas.Java
