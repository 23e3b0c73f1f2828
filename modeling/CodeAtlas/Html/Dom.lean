import CodeAtlas.Json.Basic
import CodeAtlas.Graph.Codec
import CodeAtlas.Outline.Concepts
import CodeAtlas.Text.Lower

/-!
# Documents

A node of a markup document is an element, a text or a comment. As JSON it is an object whose
`nodeType` says which, or the array of its `nodeType` and its fields in order. Below the root the
`nodeType` may also be the index of the kind.

Only elements are drawn, each with its tag in lower case.
-/

namespace CodeAtlas

inductive Dom where
  | element (tag : String) (children : List Dom)
  | text (content : String)
  | comment (content : String)

namespace Dom

instance : Inhabited Dom := ⟨.text ""⟩

def isElement : Dom → Bool
  | .element _ _ => true
  | _ => false

/-- Why a value is not a document. -/
inductive ReadError where
  | missingField (name : String)
  | unknownKind (name : String)
  | malformed
deriving DecidableEq, Repr

def ReadError.message : ReadError → String
  | .missingField name => "missing field `" ++ name ++ "`"
  | .unknownKind name =>
    "unknown variant `" ++ name ++ "`, expected one of `element`, `text`, `comment`"
  | .malformed => "invalid type"

inductive Kind where
  | element
  | text
  | comment

/-- The kind that a `nodeType` names. -/
def Kind.ofJson (nested : Bool) : Json → Except ReadError Kind
  | .str "element" => .ok .element
  | .str "text" => .ok .text
  | .str "comment" => .ok .comment
  | .str name => .error (.unknownKind name)
  | .num (.int n) =>
    match nested, n with
    | true, 0 => .ok .element
    | true, 1 => .ok .text
    | true, 2 => .ok .comment
    | _, _ => .error .malformed
  | _ => .error .malformed

/-- A text that is empty when it is not given. -/
def contentOf : Option Json → Except ReadError String
  | none => .ok ""
  | some (.str s) => .ok s
  | some _ => .error .malformed

def tagOf : Option Json → Except ReadError String
  | none => .error (.missingField "tagName")
  | some (.str s) => .ok s
  | some _ => .error .malformed

/-- The node of a kind from its fields. The children have been read already. -/
def build (kind : Kind) (tag text : Option Json) (children : Except ReadError (List Dom)) :
    Except ReadError Dom :=
  match kind with
  | .element => do return .element (← tagOf tag) (← children)
  | .text => (contentOf text).map .text
  | .comment => (contentOf text).map .comment

mutual

/-- Reads a document from a value. -/
def read (nested : Bool) : Json → Except ReadError Dom
  | .obj fields =>
    match Json.lookup fields "nodeType" with
    | none => .error (.missingField "nodeType")
    | some kind => do
      build (← Kind.ofJson nested kind) (Json.lookup fields "tagName") (Json.lookup fields "text")
        (readChildren fields)
  | .arr [] => .error (.missingField "nodeType")
  | .arr (kind :: items) => do
    match ← Kind.ofJson nested kind, items with
    | .element, [tag] => build .element (some tag) none (.ok [])
    | .element, [tag, children] => build .element (some tag) none (readList children)
    | .element, _ => .error .malformed
    | kind, [] => build kind none none (.ok [])
    | kind, [content] => build kind none (some content) (.ok [])
    | _, _ => .error .malformed
  | _ => .error .malformed

/-- Reads an array of nodes. -/
def readList : Json → Except ReadError (List Dom)
  | .arr items => readAll items
  | _ => .error .malformed

def readAll : List Json → Except ReadError (List Dom)
  | [] => .ok []
  | v :: rest => do return (← read true v) :: (← readAll rest)

/-- Reads the field `children`, which may be missing. -/
def readChildren : List (String × Json) → Except ReadError (List Dom)
  | [] => .ok []
  | (key, v) :: rest => if key = "children" then readList v else readChildren rest

end

def ofJson (v : Json) : Except ReadError Dom := read false v

mutual

def toJson : Dom → Json
  | .element tag children =>
    .obj [("nodeType", .str "element"), ("tagName", .str tag),
      ("children", .arr (toJsonAll children))]
  | .text content => .obj [("nodeType", .str "text"), ("text", .str content)]
  | .comment content => .obj [("nodeType", .str "comment"), ("text", .str content)]

def toJsonAll : List Dom → List Json
  | [] => []
  | d :: rest => toJson d :: toJsonAll rest

end

mutual

/-- The tags of a document's elements as a tree: a list of one tree for an element, or none. -/
def elementTrees : Dom → List (Rose String)
  | .element tag children => [.node tag (elementTreesOfAll children)]
  | _ => []

def elementTreesOfAll : List Dom → List (Rose String)
  | [] => []
  | d :: rest => elementTrees d ++ elementTreesOfAll rest

end

def elementTree? (d : Dom) : Option (Rose String) := (elementTrees d).head?

/-- Shows every element. -/
def drawing : Drawing Dom :=
  .structural .markup elementTree? fun tag => "<" ++ Text.lower tag ++ ">"

end Dom

end CodeAtlas
