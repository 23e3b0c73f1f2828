import CodeAtlas.Html.Dom
import CodeAtlas.Json.Number
import CodeAtlas.Proofs.Numeric.Widening

/-!
# Graphs and documents written and read

A graph or a document is written as a JSON value, without the fields that say nothing. Reading is
more generous: it passes over fields it does not know and supplies those that are missing. So the
value that is written may differ from the value that was read, but it is read as the same thing, and
writing it once more changes nothing.

There is one exception. A number beyond the largest coordinate is read as an infinite one, for which
JSON has no number: it is written as `null`, which is no coordinate. Main statement: a graph is read
back if and only if its positions are finite, whether it was read from a value or not, and a
document always is.
-/

namespace CodeAtlas

open Numeric (Floating Format)

/-! ### Fields that do not count -/

namespace Json

variable {α : Type}

theorem lookup_cons (fields : List (String × Json)) (name key : String) (v : Json) :
    lookup ((name, v) :: fields) key = if name = key then some v else lookup fields key := by
  by_cases same : name = key <;> simp [lookup, same]

/-- Reading an object passes over a field of another name. -/
def PassesOver (read : Json → α) (names : List String) : Prop :=
  ∀ fields key v, key ∉ names → read (.obj ((key, v) :: fields)) = read (.obj fields)

/-- The value under the key is read as if there were no such field. -/
def CountsAsMissing (read : Json → α) (key : String) (v : Json) : Prop :=
  ∀ fields, lookup fields key = none → read (.obj ((key, v) :: fields)) = read (.obj fields)

theorem passesOver_record? (names : List String) : PassesOver (record? names) names := by
  intro fields key v other
  simp only [record?, Option.some.injEq]
  refine List.map_congr_left fun name mem => ?_
  rw [lookup_cons, if_neg]
  rintro rfl
  exact other mem

/-- So does whatever is read from the fields of a record. -/
theorem PassesOver.of_record? {read : Json → Option α} {names : List String}
    {f : List (Option Json) → Option α} (h : ∀ v, read v = (record? names v).bind f) :
    PassesOver read names := by
  intro fields key v other
  rw [h, h, passesOver_record? names fields key v other]

end Json

/-- Reading a list of written things gives them back, unless one of them cannot be read. -/
theorem mapM_map_eq {α β : Type} {write : α → β} {read : β → Option α} {p : α → Prop}
    [DecidablePred p] (h : ∀ x, read (write x) = if p x then some x else none) (xs : List α) :
    (xs.map write).mapM read = if ∀ x ∈ xs, p x then some xs else none := by
  induction xs with
  | nil => simp
  | cons x xs ih =>
    rw [List.map_cons, List.mapM_cons, h, ih]
    simp only [List.forall_mem_cons]
    by_cases head : p x
    · by_cases tail : ∀ y ∈ xs, p y
      · rw [if_pos head, if_pos tail, if_pos ⟨head, tail⟩]
        rfl
      · rw [if_pos head, if_neg tail, if_neg fun both => tail both.2]
        rfl
    · rw [if_neg head]
      exact (if_neg fun both => head both.1).symm

/-! ### Positions -/

namespace Coordinate

def IsFinite : Coordinate → Prop
  | .finite _ => True
  | .infinite _ => False

instance (c : Coordinate) : Decidable c.IsFinite :=
  match c with
  | .finite _ => .isTrue trivial
  | .infinite _ => .isFalse id

/-- A coordinate has a number of double length, which is rounded to the same coordinate. -/
theorem exists_double (x : Floating .single) :
    ∃ y : Floating .double, Floating.round .double x.negative x.magnitude.1 x.magnitude.2 = some y ∧
      Floating.round .single y.negative y.magnitude.1 y.magnitude.2 = some x := by
  refine Floating.exists_widened x ?_ ?_ ?_
  · decide
  · decide
  · decide

theorem ofJson?_toJson (c : Coordinate) :
    ofJson? c.toJson = if c.IsFinite then some c else none := by
  cases c with
  | finite x =>
    obtain ⟨y, wide, back⟩ := exists_double x
    rw [toJson, wide]
    show some (nearest y.negative y.magnitude.1 y.magnitude.2) = some (.finite x)
    rw [nearest, back]
    rfl
  | infinite negative => rfl

end Coordinate

namespace Position

def IsFinite (p : Position) : Prop := p.x.IsFinite ∧ p.y.IsFinite

instance (p : Position) : Decidable p.IsFinite := inferInstanceAs (Decidable (_ ∧ _))

theorem ofJson?_toJson (p : Position) : ofJson? p.toJson = if p.IsFinite then some p else none := by
  have fields : ofJson? p.toJson =
      (Coordinate.ofJson? p.x.toJson).bind fun x => (Coordinate.ofJson? p.y.toJson).bind fun y =>
        some ⟨x, y⟩ := rfl
  rw [fields, Coordinate.ofJson?_toJson, Coordinate.ofJson?_toJson]
  by_cases x : p.x.IsFinite <;> by_cases y : p.y.IsFinite <;> simp [IsFinite, x, y]

theorem passesOver_ofJson? : Json.PassesOver ofJson? ["x", "y"] := .of_record? fun _ => rfl

end Position

/-! ### Graphs -/

theorem Role.ofJson?_toJson (r : Role) : ofJson? r.toJson = some r := by cases r <;> rfl

namespace LayoutHint

theorem ofJson?_toJson (h : LayoutHint) : ofJson? h.toJson = some h := rfl

theorem passesOver_ofJson? : Json.PassesOver ofJson? ["depth", "siblingIndex"] :=
  .of_record? fun _ => rfl

end LayoutHint

namespace Node

theorem get?_external_toJson (n : Node) :
    n.toJson.get? "external" = if n.external then some (.bool true) else none := by
  obtain ⟨id, label, kind, hint, position, external⟩ := n
  cases external <;> rfl

theorem ofJson?_toJson (n : Node) :
    ofJson? n.toJson = if n.position.IsFinite then some n else none := by
  have fields : ofJson? n.toJson =
      (Role.ofJson? n.kind.toJson).bind
        fun kind => (LayoutHint.ofJson? n.layoutHint.toJson).bind fun layoutHint =>
        (Position.ofJson? n.position.toJson).bind
          fun position => some { n with kind, layoutHint, position } := by
    obtain ⟨id, label, kind, hint, position, external⟩ := n
    cases external <;> rfl
  rw [fields, Role.ofJson?_toJson, LayoutHint.ofJson?_toJson, Position.ofJson?_toJson]
  by_cases finite : n.position.IsFinite <;> simp [finite]

theorem passesOver_ofJson? :
    Json.PassesOver ofJson? ["id", "label", "kind", "layoutHint", "position", "external"] :=
  .of_record? fun _ => rfl

theorem countsAsMissing_external : Json.CountsAsMissing ofJson? "external" (.bool false) := by
  intro fields missing
  simp only [ofJson?, Json.record?, List.map_cons, List.map_nil, Json.lookup_cons,
    String.reduceEq, if_false, if_true, missing]
  -- the five other fields are required, so without one of them there is no node in either case
  rcases Json.lookup fields "id" with _ | id
  · rfl
  rcases Json.lookup fields "label" with _ | label
  · rfl
  rcases Json.lookup fields "kind" with _ | kind
  · rfl
  rcases Json.lookup fields "layoutHint" with _ | hint
  · rfl
  rcases Json.lookup fields "position" with _ | position <;> rfl

end Node

namespace Edge

theorem get?_label_toJson (e : Edge) : e.toJson.get? "label" = e.label.map .str := by
  obtain ⟨id, source, target, label, emphasized⟩ := e
  cases label <;> rfl

theorem ofJson?_toJson (e : Edge) : ofJson? e.toJson = some e := by
  obtain ⟨id, source, target, label, emphasized⟩ := e
  cases label <;> rfl

theorem passesOver_ofJson? :
    Json.PassesOver ofJson? ["id", "source", "target", "label", "emphasized"] :=
  .of_record? fun _ => rfl

/-- A label that is `null` is no label, and a flag that is false need not be given. -/
theorem countsAsMissing {key : String} {v : Json}
    (idle : key = "label" ∧ v = .null ∨ key = "emphasized" ∧ v = .bool false) :
    Json.CountsAsMissing ofJson? key v := by
  intro fields missing
  rcases idle with ⟨rfl, rfl⟩ | ⟨rfl, rfl⟩
  all_goals
    simp only [ofJson?, Json.record?, List.map_cons, List.map_nil, Json.lookup_cons,
      String.reduceEq, if_false, if_true, missing]
    rcases Json.lookup fields "id" with _ | id
    · rfl
    rcases Json.lookup fields "source" with _ | source
    · rfl
    rcases Json.lookup fields "target" with _ | target <;> rfl

end Edge

namespace Graph

def IsFinite (g : Graph) : Prop := ∀ n ∈ g.nodes, n.position.IsFinite

instance (g : Graph) : Decidable g.IsFinite := inferInstanceAs (Decidable (∀ n ∈ g.nodes, _))

theorem ofJson?_toJson (g : Graph) : ofJson? g.toJson = if g.IsFinite then some g else none := by
  have fields : ofJson? g.toJson =
      ((g.nodes.map Node.toJson).mapM Node.ofJson?).bind fun nodes =>
        ((g.edges.map Edge.toJson).mapM Edge.ofJson?).bind fun edges => some ⟨nodes, edges⟩ := rfl
  have edges : (g.edges.map Edge.toJson).mapM Edge.ofJson? = some g.edges := by
    have each (e : Edge) : Edge.ofJson? e.toJson = if True then some e else none :=
      Edge.ofJson?_toJson e
    rw [mapM_map_eq each, if_pos fun _ _ => trivial]
  have nodes :
      (g.nodes.map Node.toJson).mapM Node.ofJson? = if g.IsFinite then some g.nodes else none :=
    mapM_map_eq Node.ofJson?_toJson g.nodes
  rw [fields, nodes, edges]
  by_cases finite : g.IsFinite
  · rw [if_pos finite, if_pos finite]
    rfl
  · rw [if_neg finite, if_neg finite]
    rfl

theorem passesOver_ofJson? : Json.PassesOver ofJson? ["nodes", "edges"] := .of_record? fun _ => rfl

end Graph

/-! ### Documents -/

namespace Dom

theorem read_obj (nested : Bool) (fields : List (String × Json)) :
    read nested (.obj fields) = (match Json.lookup fields "nodeType" with
      | none => .error (.missingField "nodeType")
      | some kind => (Kind.ofJson nested kind).bind fun kind =>
        build kind (Json.lookup fields "tagName") (Json.lookup fields "text")
          (readChildren fields)) := rfl

mutual

theorem read_toJson (nested : Bool) : (d : Dom) → read nested d.toJson = .ok d
  | .element tag children => by
    show ((readAll (toJsonAll children)).bind fun children => .ok (element tag children)) = _
    rw [readAll_toJsonAll children]
    rfl
  | .text content => rfl
  | .comment content => rfl

theorem readAll_toJsonAll : (ds : List Dom) → readAll (toJsonAll ds) = .ok ds
  | [] => rfl
  | d :: ds => by
    show ((read true d.toJson).bind fun d => (readAll (toJsonAll ds)).bind fun ds =>
      .ok (d :: ds)) = _
    rw [read_toJson true d, readAll_toJsonAll ds]
    rfl

end

theorem passesOver_ofJson : Json.PassesOver ofJson ["nodeType", "tagName", "text", "children"] := by
  intro fields key v other
  have lookup {name : String} (known : name ∈ ["nodeType", "tagName", "text", "children"]) :
      Json.lookup ((key, v) :: fields) name = Json.lookup fields name := by
    rw [Json.lookup_cons, if_neg]
    rintro rfl
    exact other known
  have children : readChildren ((key, v) :: fields) = readChildren fields := by
    refine if_neg ?_
    rintro rfl
    simp at other
  rw [ofJson, ofJson, read_obj, read_obj, lookup (by simp), lookup (by simp),
    lookup (by simp), children]

end Dom

/-! ### Reading back -/

/-- What reading makes no difference of. -/
structure ReadsGenerously : Prop where
  graph : Json.PassesOver Graph.ofJson? ["nodes", "edges"]
  node : Json.PassesOver Node.ofJson? ["id", "label", "kind", "layoutHint", "position", "external"]
  layoutHint : Json.PassesOver LayoutHint.ofJson? ["depth", "siblingIndex"]
  position : Json.PassesOver Position.ofJson? ["x", "y"]
  edge : Json.PassesOver Edge.ofJson? ["id", "source", "target", "label", "emphasized"]
  document : Json.PassesOver Dom.ofJson ["nodeType", "tagName", "text", "children"]
  external : Json.CountsAsMissing Node.ofJson? "external" (.bool false)
  label : Json.CountsAsMissing Edge.ofJson? "label" .null
  emphasized : Json.CountsAsMissing Edge.ofJson? "emphasized" (.bool false)

/-- What writing leaves out. -/
structure WritesSparingly : Prop where
  external : ∀ n : Node, n.toJson.get? "external" = if n.external then some (.bool true) else none
  label : ∀ e : Edge, e.toJson.get? "label" = e.label.map .str

/-- A graph with finite positions is read from what is written for it. What is written for a graph
that was read from some value is read as that value was, if and only if the positions are finite.
Both hold of all documents, whatever their depth. -/
theorem reads_back_what_is_written :
    WritesSparingly ∧ ReadsGenerously ∧
    (∀ g : Graph, g.IsFinite → Graph.ofJson? g.toJson = some g) ∧
    (∀ v g, Graph.ofJson? v = some g → (Graph.ofJson? g.toJson = Graph.ofJson? v ↔ g.IsFinite)) ∧
    (∀ d : Dom, Dom.ofJson d.toJson = .ok d) ∧
    ∀ v d, Dom.ofJson v = .ok d → Dom.ofJson d.toJson = Dom.ofJson v := by
  refine ⟨⟨Node.get?_external_toJson, Edge.get?_label_toJson⟩, ?_, ?_, ?_,
    Dom.read_toJson false, ?_⟩
  · exact {
      graph := Graph.passesOver_ofJson?
      node := Node.passesOver_ofJson?
      layoutHint := LayoutHint.passesOver_ofJson?
      position := Position.passesOver_ofJson?
      edge := Edge.passesOver_ofJson?
      document := Dom.passesOver_ofJson
      external := Node.countsAsMissing_external
      label := Edge.countsAsMissing (.inl ⟨rfl, rfl⟩)
      emphasized := Edge.countsAsMissing (.inr ⟨rfl, rfl⟩) }
  · intro g finite
    rw [Graph.ofJson?_toJson, if_pos finite]
  · intro v g found
    rw [Graph.ofJson?_toJson, found]
    simp
  · intro v d found
    rw [found]
    exact Dom.read_toJson false d

/-- A node given as an object with a field more, and an edge without a flag and with a label that is
`null`. -/
theorem reads_back_node_with_note :
    let node : Json :=
      .obj [("note", .null), ("id", .str "a"), ("label", .str "A"), ("kind", .str "input"),
        ("layoutHint", .arr [.ofNat 0, .ofNat 0]), ("position", .arr [.ofNat 170, .ofNat 100])]
    let edge : Json :=
      .obj [("id", .str "e"), ("source", .str "a"), ("target", .str "a"), ("label", .null)]
    let v : Json := .obj [("nodes", .arr [node]), ("edges", .arr [edge])]
    let g : Graph :=
      ⟨[{ id := "a", label := "A", kind := .input, layoutHint := {},
          position := ⟨.onGrid 1 170, .onGrid 1 100⟩ }],
        [{ id := "e", source := "a", target := "a" }]⟩
    g.IsFinite ∧ Graph.ofJson? v = some g ∧ Graph.ofJson? g.toJson = some g ∧
      Graph.ofJson? g.toJson = Graph.ofJson? v := by
  intro node edge v g
  have finite : g.IsFinite := by decide +kernel
  have found : Graph.ofJson? v = some g := by decide +kernel
  obtain ⟨-, -, written, again, -⟩ := reads_back_what_is_written
  exact ⟨finite, found, written g finite, (again v g found).2 finite⟩

/-- The number `1e39` is read as an infinite coordinate, and what is written for that is not
read. -/
theorem infinite_position_not_read_back :
    let x : Floating .double := ⟨false, 6617444900424221, 1151, by decide, by decide, by decide⟩
    let node : Json := .obj [("id", .str "a"), ("label", .str "A"), ("kind", .str "default"),
      ("layoutHint", .obj [("depth", .ofNat 0), ("siblingIndex", .ofNat 0)]),
      ("position", .obj [("x", .num (.real x)), ("y", .num (.real (.zero .double false)))])]
    let v : Json := .obj [("nodes", .arr [node]), ("edges", .arr [])]
    JsonNumber.scaled false 1 39 = some x ∧ ∃ g, Graph.ofJson? v = some g ∧
      Graph.ofJson? g.toJson = none := by
  intro x node v
  let g : Graph :=
    ⟨[{ id := "a", label := "A", kind := .default, layoutHint := {},
        position := ⟨.infinite false, .onGrid 0 0⟩ }], []⟩
  exact ⟨by decide +kernel, g, by decide +kernel, by decide +kernel⟩

end CodeAtlas
