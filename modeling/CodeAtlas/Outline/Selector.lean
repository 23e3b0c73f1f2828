import CodeAtlas.Json.Writer
import CodeAtlas.Outline.Typed
import CodeAtlas.Text.Occurs
import CodeAtlas.Text.Split

/-!
# Selector text

The text of a selector is put together from its syntax tree. A tree that is still being edited may
lack parts; the first node from the left that cannot be written decides the error.
-/

namespace CodeAtlas.Selector

/-- Why a node cannot be written. -/
inductive TextError where
  | untyped
  | missingField (type field : String)
  | unsupported (type : String)
deriving DecidableEq, Repr

def TextError.message : TextError → String
  | .untyped => "node has no type"
  | .missingField type field => type ++ " is missing `" ++ field ++ "`"
  | .unsupported type => "cannot generate " ++ type

abbrev Text := Except TextError String

/-- The coefficient under a key: a text, or the digits of a number. -/
def coefficient? (fields : List (String × Json)) (key : String) : Option String :=
  match Json.lookup fields key with
  | some (.str s) => some s
  | some (.num n) => some n.text
  | _ => none

/-- The notation `An+B` for two coefficients. A coefficient of one is not written, and `B` always
gets a sign. -/
def anPlusB (a b : Option String) : String :=
  match a with
  | none => b.getD ""
  | some a =>
    let step := match a with
      | "1" | "+1" => "n"
      | "-1" => "-n"
      | _ => a ++ "n"
    match b with
    | none => step
    | some b => if Text.hasStart b "+" || Text.hasStart b "-" then step ++ b else step ++ "+" ++ b

/-- The text of a value: as a node, and of each of its items if it is an array. -/
structure Written where
  node : Text
  items : Option (List Text)

/-- The text under a required field. -/
def textField (type : String) (fields : List (String × Json)) (key : String) : Text :=
  match Json.lookup fields key with
  | some (.str s) => .ok s
  | _ => .error (.missingField type key)

/-- The written form of a field. -/
def written? (parts : List (String × Written)) (key : String) : Option Written :=
  (parts.find? (·.1 == key)).map (·.2)

/-- The texts of a list one after the other; the first error wins. -/
def joined (separator : String) (texts : List Text) : Text :=
  (texts.mapM id).map (Text.join separator)

/-- The texts of the required list of children. -/
def childTexts (type separator : String) (parts : List (String × Written)) : Text :=
  match (written? parts "children").bind (·.items) with
  | some texts => joined separator texts
  | none => .error (.missingField type "children")

/-- The text of a required node. -/
def nodeField (type : String) (parts : List (String × Written)) (key : String) : Text :=
  match written? parts key with
  | some w => w.node
  | none => .error (.missingField type key)

/-- The text of a node that may be missing or `null`, put after `lead`. -/
def optionalNode (fields : List (String × Json)) (parts : List (String × Written))
    (key lead : String) : Text :=
  match Json.lookup fields key, written? parts key with
  | none, _ | some .null, _ | _, none => .ok ""
  | some _, some w => w.node.map (lead ++ ·)

/-- The text of a node of a given type from its fields and their written forms. -/
def compose (type : String) (fields : List (String × Json))
    (parts : List (String × Written)) : Text :=
  match type with
  | "SelectorList" => childTexts type "," parts
  | "Selector" => childTexts type "" parts
  | "TypeSelector" | "Identifier" | "Combinator" => textField type fields "name"
  | "ClassSelector" => (textField type fields "name").map ("." ++ ·)
  | "IdSelector" => (textField type fields "name").map ("#" ++ ·)
  | "NestingSelector" => .ok "&"
  | "PseudoElementSelector" => (textField type fields "name").map ("::" ++ ·)
  | "PseudoClassSelector" => do
    let name ← textField type fields "name"
    match (written? parts "children").bind (·.items) with
    | some texts => return ":" ++ name ++ "(" ++ (← joined "" texts) ++ ")"
    | none => return ":" ++ name
  | "AttributeSelector" => do
    let name ← nodeField type parts "name"
    let test ← match Json.lookup fields "matcher" with
      | some (.str matcher) => (optionalNode fields parts "value" "").map (matcher ++ ·)
      | _ => .ok ""
    let flags := match Json.lookup fields "flags" with
      | some (.str flags) => " " ++ flags
      | _ => ""
    return "[" ++ name ++ test ++ flags ++ "]"
  | "Nth" => do
    let nth ← nodeField type parts "nth"
    return nth ++ (← optionalNode fields parts "selector" " of ")
  | "AnPlusB" => .ok (anPlusB (coefficient? fields "a") (coefficient? fields "b"))
  | "String" => (textField type fields "value").map fun s => "\"" ++ s ++ "\""
  | "Raw" => textField type fields "value"
  | _ => .error (.unsupported type)

mutual

/-- The text of a selector node. -/
def text : Json → Text
  | .obj fields =>
    match (Json.lookup fields "type").bind Json.string? with
    | some type => compose type fields (writtenFields fields)
    | none => .error .untyped
  | _ => .error .untyped

def texts : List Json → List Text
  | [] => []
  | v :: rest => text v :: texts rest

def writtenFields : List (String × Json) → List (String × Written)
  | [] => []
  | (key, .arr items) :: rest => (key, ⟨.error .untyped, some (texts items)⟩) :: writtenFields rest
  | (key, v) :: rest => (key, ⟨text v, none⟩) :: writtenFields rest

end

end CodeAtlas.Selector
