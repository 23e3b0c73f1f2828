import CodeAtlas.Outline.Concepts
import CodeAtlas.Outline.Selector

/-!
# Drawing stylesheets

Every node of a stylesheet is shown. A selector shows its text and a declaration its property; where
that cannot be made out they show their type alone. The root is shown even if it has lost its type.
-/

namespace CodeAtlas.Stylesheet

/-- The keys below which children are found, in the order of a rule's text. -/
def childKeys : List String := ["prelude", "block", "value", "children"]

/-- The label of a node that is taken to have that type. -/
def label (type : String) (body : Json) : String :=
  match type with
  | "Selector" =>
    match Selector.text body with
    | .ok text => "Selector: " ++ text
    | .error _ => type
  | "Declaration" =>
    match body.stringAt? "property" with
    | some property => "Declaration: " ++ property ++ ": ..."
    | none => type
  | _ => type

/-- The tree below a root, which need not be a node. -/
def rootTree (v : Json) : Rose TypedNode :=
  .node { type := (TypedNode.typeOf? v).getD "StyleSheet", body := v }
    (match v with
     | .obj fields =>
       TypedNode.select childKeys (TypedNode.treesOfFields (fun _ => childKeys) fields)
     | _ => [])

/-- Below the first row a root without a type is not shown. -/
def drawing : Drawing Json where
  family := .stylesheet
  draft v depth place _ :=
    if 0 < depth && (TypedNode.typeOf? v).isNone then []
    else ((rootTree v).itemize (fun n => label n.type n.body) place).draft depth .outer 0

end CodeAtlas.Stylesheet
