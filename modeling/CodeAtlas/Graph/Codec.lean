import CodeAtlas.Graph.Basic
import CodeAtlas.Json.Basic

/-!
# Graphs as JSON

Fields that say nothing are left out: `external` when it is false, an edge's `label` when there is
none. Reading ignores fields it does not know. A record may also be given as the array of its fields
in order, and a role as an object with the role's name as its one key and `null` below it.
-/

namespace CodeAtlas

open Numeric (Floating)

/-- The values given for the named fields of a record, which is an object or an array in field
order. -/
def Json.record? (names : List String) : Json → Option (List (Option Json))
  | .obj fields => some (names.map (Json.lookup fields))
  | .arr items =>
    if items.length ≤ names.length then
      some (items.map some ++ List.replicate (names.length - items.length) none)
    else none
  | _ => none

namespace Role

def name : Role → String
  | .input => "input"
  | .default => "default"
  | .output => "output"

def ofName? : String → Option Role
  | "input" => some .input
  | "default" => some .default
  | "output" => some .output
  | _ => none

def toJson (r : Role) : Json := .str r.name

def ofJson? : Json → Option Role
  | .str s => ofName? s
  | .obj [(s, .null)] => ofName? s
  | _ => none

end Role

namespace LayoutHint

def toJson (h : LayoutHint) : Json :=
  .obj [("depth", .ofNat h.depth), ("siblingIndex", .ofNat h.siblingIndex)]

def ofJson? (v : Json) : Option LayoutHint := do
  let [some depth, some siblingIndex] ← v.record? ["depth", "siblingIndex"] | none
  return ⟨← depth.nat?, ← siblingIndex.nat?⟩

end LayoutHint

namespace Coordinate

/-- An infinite coordinate has no number and is written as `null`. -/
def toJson : Coordinate → Json
  | .finite x =>
    .ofOption (fun y => .num (.real y))
      (Floating.round .double x.negative x.magnitude.1 x.magnitude.2)
  | .infinite _ => .null

def ofJson? : Json → Option Coordinate
  | .num (.int n) => some (.nearest (n < 0) n.natAbs 1)
  | .num (.real x) => some (.nearest x.negative x.magnitude.1 x.magnitude.2)
  | _ => none

end Coordinate

namespace Position

def toJson (p : Position) : Json := .obj [("x", p.x.toJson), ("y", p.y.toJson)]

def ofJson? (v : Json) : Option Position := do
  let [some x, some y] ← v.record? ["x", "y"] | none
  return ⟨← Coordinate.ofJson? x, ← Coordinate.ofJson? y⟩

end Position

/-- A flag that is false when it is not given. -/
def Json.flag? : Option Json → Option Bool
  | none => some false
  | some v => v.bool?

/-- A text that may be missing or `null`. -/
def Json.optionalText? : Option Json → Option (Option String)
  | none => some none
  | some .null => some none
  | some v => v.string?.map some

namespace Node

def toJson (n : Node) : Json :=
  .obj ([("id", .str n.id), ("label", .str n.label), ("kind", n.kind.toJson),
      ("layoutHint", n.layoutHint.toJson), ("position", n.position.toJson)]
    ++ (if n.external then [("external", .bool true)] else []))

def ofJson? (v : Json) : Option Node := do
  let [some id, some label, some kind, some hint, some position, external] ←
    v.record? ["id", "label", "kind", "layoutHint", "position", "external"] | none
  return { id := ← id.string?, label := ← label.string?, kind := ← Role.ofJson? kind
           layoutHint := ← LayoutHint.ofJson? hint, position := ← Position.ofJson? position
           external := ← Json.flag? external }

end Node

namespace Edge

def toJson (e : Edge) : Json :=
  .obj ([("id", .str e.id), ("source", .str e.source), ("target", .str e.target)]
    ++ (match e.label with
        | some label => [("label", .str label)]
        | none => [])
    ++ [("emphasized", .bool e.emphasized)])

def ofJson? (v : Json) : Option Edge := do
  let [some id, some source, some target, label, emphasized] ←
    v.record? ["id", "source", "target", "label", "emphasized"] | none
  return { id := ← id.string?, source := ← source.string?, target := ← target.string?
           label := ← Json.optionalText? label, emphasized := ← Json.flag? emphasized }

end Edge

namespace Graph

def toJson (g : Graph) : Json :=
  .obj [("nodes", .arr (g.nodes.map Node.toJson)), ("edges", .arr (g.edges.map Edge.toJson))]

def ofJson? (v : Json) : Option Graph := do
  let [some nodes, some edges] ← v.record? ["nodes", "edges"] | none
  return {
    nodes := ← (← nodes.items?).mapM Node.ofJson?
    edges := ← (← edges.items?).mapM Edge.ofJson? }

end Graph

end CodeAtlas
