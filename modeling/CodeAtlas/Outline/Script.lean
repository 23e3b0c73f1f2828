import CodeAtlas.Json.Writer
import CodeAtlas.Outline.ChildKeys
import CodeAtlas.Outline.Concepts
import CodeAtlas.Outline.Typed

/-!
# Drawing scripts

The full drawing of a script shows every node that the table of child keys reaches, with the name of
an identifier and the value of a literal. The conceptual one shows functions, classes, variables and
calls.
-/

namespace CodeAtlas.Script

/-- A value as it reads in source: a text without quotes, anything else as compact JSON. -/
def scalarText : Json → String
  | .str s => s
  | v => v.compact

/-- The text of a field, empty if it is missing. -/
def fieldText (v : Json) (key : String) : String := ((v.get? key).map scalarText).getD ""

/-- The name of the node that a field holds. -/
def nameUnder? (v : Json) (key : String) : Option String := (v.get? key).bind (·.stringAt? "name")

def tree? (keys : ChildKeys) (v : Json) : Option (Rose TypedNode) :=
  TypedNode.tree? (fun type => (keys.find? type).getD []) v

def label (n : TypedNode) : String :=
  match n.type with
  | "Identifier" => "Identifier: " ++ fieldText n.body "name"
  | "NumericLiteral" | "StringLiteral" => n.type ++ ": " ++ fieldText n.body "value"
  | type => type

def concept (n : TypedNode) : Option (String × Bool) :=
  match n.type with
  | "FunctionDeclaration" =>
    some ("[Function: " ++ (nameUnder? n.body "id").getD "anonymous" ++ "]", true)
  | "ClassDeclaration" =>
    some ("[Class: " ++ (nameUnder? n.body "id").getD "anonymous" ++ "]", true)
  | "VariableDeclarator" =>
    some ("[Variable: " ++ (nameUnder? n.body "id").getD "..." ++ "]", false)
  | "CallExpression" => some ("[Call: " ++ (nameUnder? n.body "callee").getD "..." ++ "]", false)
  | _ => none

def isDeclaration (n : TypedNode) : Bool := n.type == "VariableDeclaration"

/-- A declaration is a wrapper around its declarators. Elsewhere the keys whose names already stand
in a concept's label are not visited. -/
def conceptRules : Rose.ConceptRules TypedNode where
  concept := concept
  visits parent child :=
    if isDeclaration parent then child.key == "declarations" && !child.repeated
    else child.key != "id" && child.key != "callee"
  inPlace := isDeclaration

/-- Shows every node. -/
def full (keys : ChildKeys) : Drawing Json := .structural .script (tree? keys) label

/-- Shows functions, classes, variables and calls. -/
def conceptual (keys : ChildKeys) : Drawing Json :=
  .conceptual .scriptConcepts (tree? keys) conceptRules

end CodeAtlas.Script
