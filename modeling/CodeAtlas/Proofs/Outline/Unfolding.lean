import CodeAtlas.Proofs.Outline.Address
import CodeAtlas.SourceTree

/-!
# Full drawings number a tree in pre-order

What a full drawing shows is said here by one function a language: which of its parts are the
children of a value. From a root the children unfold to a tree, and the drawing is that of the tree
by addresses: nodes in pre-order, rows by level, columns by position, and an edge from every parent
to each child.

The trees that are drawn are put together in one go from all parts of a value, with nulls, texts,
numbers and objects that are no nodes among them. The lemmas below say that nothing but the
unfolding comes of it, key by key where there are keys.
-/

namespace CodeAtlas

/-- How the trees of a language are drawn in full. -/
structure Anatomy (α : Type) [SizeOf α] where
  family : Family
  /-- Whether anything is drawn of a root. -/
  shows : α → Bool
  label : α → String
  children : α → List α
  sizeOf_lt : ∀ v, ∀ child ∈ children v, sizeOf child < sizeOf v

namespace Anatomy

variable {α β : Type} [SizeOf α]

/-- The tree that unfolds from a value. -/
def unfold (a : Anatomy α) (v : α) : Rose α :=
  .node v ((a.children v).attach.map fun child => a.unfold child.1)
termination_by sizeOf v
decreasing_by exact a.sizeOf_lt v child.1 child.2

theorem unfold_eq (a : Anatomy α) (v : α) : a.unfold v = .node v ((a.children v).map a.unfold) := by
  rw [unfold, List.attach_map_val]

/-- The drawing of a root by addresses. -/
def picture (a : Anatomy α) (root : α) : Graph :=
  if a.shows root then (a.unfold root).numbered a.family a.label else .empty

end Anatomy

namespace Rose

variable {α β : Type}

theorem mapAll_eq (f : α → β) (ts : List (Rose α)) : mapAll f ts = ts.map (map f) := by
  induction ts with
  | nil => rfl
  | cons t ts ih => rw [mapAll, ih, List.map_cons]

mutual

theorem visits_map (f : α → β) :
    (t : Rose α) → (t.map f).visits = t.visits.map fun x => (x.1, f x.2)
  | .node v ts => by rw [map, visits, visits, List.map_cons, visitsAll_mapAll f 0 ts]

theorem visitsAll_mapAll (f : α → β) (place : Nat) : (ts : List (Rose α)) →
    visitsAll place (mapAll f ts) = (visitsAll place ts).map fun x => (x.1, f x.2)
  | [] => by simp [mapAll, visitsAll]
  | t :: ts => by
    simp [mapAll, visitsAll, visits_map f t, visitsAll_mapAll f (place + 1) ts, Function.comp_def]

end

/-- Labels are all that matters of the values. -/
theorem numbered_map (f : Family) (label : α → String) (t : Rose α) :
    (t.map label).numbered f id = t.numbered f label := by
  have same : (t.map label).addresses = t.addresses := by
    simp [addresses, visits_map, Function.comp_def]
  simp only [numbered, same, Graph.mk.injEq, and_true]
  apply List.ext_getElem?
  intro i
  simp [visits_map, Function.comp_def]

end Rose

namespace Anatomy

variable {α β : Type} [SizeOf α]

/-- The labels of the tree that unfolds from a value. -/
def labels (a : Anatomy α) (v : α) : Rose String := (a.unfold v).map a.label

theorem labels_eq (a : Anatomy α) (v : α) :
    a.labels v = .node (a.label v) ((a.children v).map a.labels) := by
  rw [labels, unfold_eq, Rose.map, Rose.mapAll_eq, List.map_map]
  rfl

/-- A structural drawing whose trees have the labels of the unfolding draws it by addresses. -/
theorem draw_eq_picture (a : Anatomy α) {trees : α → List (Rose β)} {label : β → String}
    (h : ∀ root, (trees root).map (Rose.map label) = ([root].filter a.shows).map a.labels)
    (root : α) :
    (Drawing.structural a.family (fun v => (trees v).head?) label).draw root = a.picture root := by
  have found := h root
  simp only [Drawing.draw, Drawing.drawAt, Drawing.structural, picture]
  cases shows : a.shows root with
  | false =>
    have none : trees root = [] := by simpa [shows] using found
    rw [none]
    rfl
  | true =>
    obtain ⟨t, tree, same⟩ : ∃ t, trees root = [t] ∧ t.map label = a.labels root := by
      simpa [shows, List.map_eq_cons_iff] using found
    have drawn := Rose.ofDraft_itemize a.family label t
    rw [← Rose.numbered_map, same, labels, Rose.numbered_map] at drawn
    rw [tree]
    exact drawn

end Anatomy

/-! ### Documents -/

namespace Dom

def tagLabel : Dom → String
  | .element tag _ => "<" ++ Text.lower tag ++ ">"
  | .text _ | .comment _ => ""

def elements : Dom → List Dom
  | .element _ children => children.filter isElement
  | .text _ | .comment _ => []

theorem sizeOf_lt_of_mem_elements (v : Dom) : ∀ child ∈ elements v, sizeOf child < sizeOf v := by
  intro child h
  cases v with
  | element tag children =>
    have := List.sizeOf_lt_of_mem (List.mem_filter.1 h).1
    simp only [element.sizeOf_spec]
    omega
  | text content | comment content => simp [elements] at h

def anatomy : Anatomy Dom where
  family := .markup
  shows := isElement
  label := tagLabel
  children := elements
  sizeOf_lt := sizeOf_lt_of_mem_elements

mutual

theorem map_elementTrees : (d : Dom) →
    (elementTrees d).map (Rose.map fun tag => "<" ++ Text.lower tag ++ ">") =
      ([d].filter isElement).map anatomy.labels
  | .element tag children => by
    change _ = [anatomy.labels (.element tag children)]
    rw [elementTrees, List.map_singleton, Rose.map, Rose.mapAll_eq, map_elementTreesOfAll children,
      Anatomy.labels_eq]
    rfl
  | .text content => rfl
  | .comment content => rfl

theorem map_elementTreesOfAll : (ds : List Dom) →
    (elementTreesOfAll ds).map (Rose.map fun tag => "<" ++ Text.lower tag ++ ">") =
      (ds.filter isElement).map anatomy.labels
  | [] => rfl
  | d :: ds => by
    rw [elementTreesOfAll, List.map_append, map_elementTrees d, map_elementTreesOfAll ds,
      ← List.map_append, ← List.filter_append, List.singleton_append]

end

end Dom

/-! ### Parts of values -/

namespace Json

variable {fields : List (String × Json)} {items : List Json} {isNode : Json → Bool} {v child : Json}

theorem sizeOf_lt_of_mem_items (h : v ∈ items) : sizeOf v < sizeOf (arr items) := by
  have := List.sizeOf_lt_of_mem h
  simp only [arr.sizeOf_spec]
  omega

theorem sizeOf_lt_of_mem_fields {key : String} (h : (key, v) ∈ fields) :
    sizeOf v < sizeOf (obj fields) := by
  have := List.sizeOf_lt_of_mem h
  simp only [Prod.mk.sizeOf_spec] at this
  simp only [obj.sizeOf_spec]
  omega

theorem mem_fields_of_lookup {key : String} (h : lookup fields key = some v) :
    (key, v) ∈ fields := by
  obtain ⟨⟨k, w⟩, found, rfl⟩ := Option.map_eq_some_iff.1 h
  have same : k = key := by simpa using List.find?_some found
  exact same ▸ List.mem_of_find?_eq_some found

/-- The nodes that a value holds: itself, or those among its items. -/
def nodesIn (isNode : Json → Bool) : Json → List Json
  | arr items => items.filter isNode
  | v => [v].filter isNode

theorem sizeOf_le_of_mem_nodesIn (h : child ∈ nodesIn isNode v) : sizeOf child ≤ sizeOf v := by
  cases v with
  | arr items => exact Nat.le_of_lt (sizeOf_lt_of_mem_items (List.mem_filter.1 h).1)
  | null | bool | num | str | obj =>
    obtain rfl := List.mem_singleton.1 (List.mem_filter.1 h).1
    exact Nat.le_refl _

end Json

/-! ### Scripts and stylesheets -/

namespace TypedNode

open Json (nodesIn)

def isNode (v : Json) : Bool := (typeOf? v).isSome

/-- The nodes under a key. -/
def childrenUnder (v : Json) (key : String) : List Json :=
  ((v.get? key).map (nodesIn isNode)).getD []

theorem sizeOf_lt_of_mem_childrenUnder {v child : Json} {key : String}
    (h : child ∈ childrenUnder v key) : sizeOf child < sizeOf v := by
  cases v with
  | obj fields =>
    rw [childrenUnder, Json.get?] at h
    cases found : Json.lookup fields key with
    | none => simp [found] at h
    | some value =>
      have inside := Json.sizeOf_le_of_mem_nodesIn (by simpa [found] using h)
      exact Nat.lt_of_le_of_lt inside
        (Json.sizeOf_lt_of_mem_fields (Json.mem_fields_of_lookup found))
  | null | bool | num | str | arr => simp [childrenUnder, Json.get?] at h

/-- The drawing of trees in which the children of a node are found under the keys of its type. -/
def anatomy (family : Family) (shows : Json → Bool) (label : Json → String)
    (keysOf : Json → List String) : Anatomy Json where
  family := family
  shows := shows
  label := label
  children v := (keysOf v).flatMap (childrenUnder v)
  sizeOf_lt := by
    intro v child h
    obtain ⟨key, -, h⟩ := List.mem_flatMap.1 h
    exact sizeOf_lt_of_mem_childrenUnder h

/-- The trees of typed nodes are drawn with these labels and these children. -/
structure Fits (a : Anatomy Json) (keysOf : String → List String)
    (label : TypedNode → String) : Prop where
  label_eq : ∀ type body key repeated, typeOf? body = some type →
    label ⟨type, body, key, repeated⟩ = a.label body
  label_under : ∀ n : TypedNode, ∀ key repeated, label { n with key, repeated } = label n
  children_eq :
    ∀ v type, typeOf? v = some type → a.children v = (keysOf type).flatMap (childrenUnder v)

section

variable {a : Anatomy Json} {keysOf : String → List String} {label : TypedNode → String}

/-- What is found under some keys comes key by key, as often as a key comes. -/
theorem map_select (h : Fits a keysOf label) {found : List (String × List (Rose TypedNode))}
    {fields : List (String × Json)}
    (same : found.map (fun x => (x.1, x.2.map (Rose.map label))) =
      fields.map fun x => (x.1, (nodesIn isNode x.2).map a.labels)) (keys : List String) :
    (select keys found).map (Rose.map label) =
      (keys.flatMap (childrenUnder (.obj fields))).map a.labels := by
  have under_eq (key : String) (again : Bool) (t : Rose TypedNode) :
      (under key again t).map label = t.map label := by
    cases t with
    | node n ts => rw [under, Rose.map, Rose.map, h.label_under]
  have at_key (key : String) :
      ((found.find? (·.1 == key)).map fun x => x.2.map (Rose.map label)).getD [] =
        (childrenUnder (.obj fields) key).map a.labels := by
    have := congrArg (fun l => (l.find? (·.1 == key)).map (·.2)) same
    simp only [List.find?_map, Function.comp_def, Option.map_map] at this
    rw [this, childrenUnder, Json.get?, Json.lookup]
    cases fields.find? (·.1 == key) <;> rfl
  rw [select, List.map_flatten, List.map_flatMap, List.flatMap_def]
  congr 1
  apply List.ext_getElem?
  intro i
  simp only [List.getElem?_map, List.getElem?_mapIdx, Option.map_map, Function.comp_def]
  refine congrArg (Option.map · keys[i]?) (funext fun key => ?_)
  rw [← at_key]
  cases found.find? (·.1 == key) with
  | none => rfl
  | some x => simp [under_eq]

mutual

theorem map_trees (h : Fits a keysOf label) : (v : Json) →
    (trees keysOf v).map (Rose.map label) = ([v].filter isNode).map a.labels
  | .obj fields => by
    have children := map_select h (map_treesOfFields h fields)
    rw [trees, List.filter_singleton, isNode]
    cases typed : typeOf? (.obj fields) with
    | none =>
      have typed : (Json.lookup fields "type").bind Json.string? = none := typed
      rw [typed]
      rfl
    | some type =>
      have found : (Json.lookup fields "type").bind Json.string? = some type := typed
      rw [found]
      simp [Rose.map, Rose.mapAll_eq, children, Anatomy.labels_eq a (.obj fields),
        h.label_eq _ _ _ _ typed, h.children_eq _ _ typed]
  | .null => rfl
  | .bool _ => rfl
  | .num _ => rfl
  | .str _ => rfl
  | .arr _ => by simp [trees, isNode, typeOf?, Json.stringAt?, Json.get?]

theorem map_treesOfItems (h : Fits a keysOf label) : (items : List Json) →
    (treesOfItems keysOf items).map (Rose.map label) = (items.filter isNode).map a.labels
  | [] => rfl
  | v :: rest => by
    rw [treesOfItems, List.map_append, map_trees h v, map_treesOfItems h rest, ← List.map_append,
      ← List.filter_append, List.singleton_append]

theorem map_treesOfFields (h : Fits a keysOf label) : (fields : List (String × Json)) →
    (treesOfFields keysOf fields).map (fun x => (x.1, x.2.map (Rose.map label))) =
      fields.map fun x => (x.1, (nodesIn isNode x.2).map a.labels)
  | [] => rfl
  | (key, v) :: rest => by
    have own := map_trees h v
    have others := map_treesOfFields h rest
    cases v with
    | arr items =>
      rw [treesOfFields, List.map_cons, List.map_cons, map_treesOfItems h items, others]
      rfl
    | null | bool | num | str | obj =>
      rw [treesOfFields, List.map_cons, List.map_cons, others, own]
      · rfl
      · simp

end

end

end TypedNode

namespace Script

def anatomy (keys : ChildKeys) : Anatomy Json :=
  TypedNode.anatomy .script TypedNode.isNode
    (fun v => label { type := (TypedNode.typeOf? v).getD "", body := v })
    fun v => ((TypedNode.typeOf? v).bind keys.find?).getD []

theorem fits_anatomy (keys : ChildKeys) :
    TypedNode.Fits (anatomy keys) (fun type => (keys.find? type).getD []) label where
  label_eq type body key again typed := by simp [anatomy, TypedNode.anatomy, typed, label]
  label_under n key again := rfl
  children_eq v type typed := by simp [anatomy, TypedNode.anatomy, typed]

end Script

namespace Stylesheet

def anatomy : Anatomy Json :=
  TypedNode.anatomy .stylesheet (fun _ => true)
    (fun v => label ((TypedNode.typeOf? v).getD "StyleSheet") v) fun _ => childKeys

theorem fits_anatomy :
    TypedNode.Fits anatomy (fun _ => childKeys) fun n => label n.type n.body where
  label_eq type body key again typed := by simp [anatomy, TypedNode.anatomy, typed]
  label_under n key again := rfl
  children_eq v type typed := rfl

theorem map_rootTree (v : Json) :
    (rootTree v).map (fun n => label n.type n.body) = anatomy.labels v := by
  have children := TypedNode.map_treesOfFields fits_anatomy
  cases v with
  | obj fields =>
    rw [rootTree, Rose.map, Rose.mapAll_eq, Anatomy.labels_eq,
      TypedNode.map_select fits_anatomy (children fields) childKeys]
    rfl
  | null | bool | num | str | arr =>
    simp [rootTree, Rose.map, Rose.mapAll, Anatomy.labels_eq, anatomy, TypedNode.anatomy,
      TypedNode.childrenUnder, Json.get?]

theorem draw_eq_picture (root : Json) : drawing.draw root = anatomy.picture root := by
  have drawn :=
    Rose.ofDraft_itemize .stylesheet (fun n : TypedNode => label n.type n.body) (rootTree root)
  rw [← Rose.numbered_map, map_rootTree, Anatomy.labels, Rose.numbered_map] at drawn
  exact drawn

end Stylesheet

/-! ### Java -/

namespace Java

def isObject (v : Json) : Bool := v.fields?.isSome

/-- The objects in the arrays of a record of children. -/
def objectsIn (groups : List (String × Json)) : List Json :=
  groups.flatMap fun group => (group.2.items?.getD []).filter isObject

theorem sizeOf_lt_of_mem_objectsIn {groups : List (String × Json)} {child : Json}
    (h : child ∈ objectsIn groups) : sizeOf child < sizeOf (Json.obj groups) := by
  obtain ⟨⟨key, group⟩, mem, h⟩ := List.mem_flatMap.1 h
  cases group with
  | arr items =>
    have inside := Json.sizeOf_lt_of_mem_items (List.mem_filter.1 h).1
    exact Nat.lt_trans inside (Json.sizeOf_lt_of_mem_fields mem)
  | null | bool | num | str | obj => simp [Json.items?] at h

def anatomy : Anatomy Json where
  family := .java
  shows := isObject
  label v := (production? v).getD "node"
  children v := (((v.get? "children").bind Json.fields?).map objectsIn).getD []
  sizeOf_lt := by
    intro v child h
    cases v with
    | obj fields =>
      cases found : Json.lookup fields "children" with
      | none => simp [Json.get?, found] at h
      | some record =>
        cases record with
        | obj groups =>
          have inside :=
            sizeOf_lt_of_mem_objectsIn (by simpa [Json.get?, found, Json.fields?] using h)
          exact Nat.lt_trans inside (Json.sizeOf_lt_of_mem_fields (Json.mem_fields_of_lookup found))
        | null | bool | num | str | arr => simp [Json.get?, found, Json.fields?] at h
    | null | bool | num | str | arr => simp [Json.get?] at h

mutual

theorem trees_eq : (v : Json) → trees v = ([v].filter isObject).map anatomy.unfold
  | .obj fields => by
    rw [trees, treesBelow_eq fields]
    change _ = [anatomy.unfold (.obj fields)]
    rw [Anatomy.unfold_eq]
  | .null => rfl
  | .bool _ => rfl
  | .num _ => rfl
  | .str _ => rfl
  | .arr _ => by simp [trees, isObject, Json.fields?]

theorem treesOfItems_eq : (items : List Json) →
    treesOfItems items = (items.filter isObject).map anatomy.unfold
  | [] => rfl
  | v :: rest => by
    rw [treesOfItems, trees_eq v, treesOfItems_eq rest, ← List.map_append, ← List.filter_append,
      List.singleton_append]

theorem treesOfGroups_eq : (groups : List (String × Json)) →
    treesOfGroups groups = (objectsIn groups).map anatomy.unfold
  | [] => rfl
  | (key, v) :: rest => by
    have others := treesOfGroups_eq rest
    cases v with
    | arr items =>
      rw [treesOfGroups, treesOfItems_eq items, others, ← List.map_append]
      rfl
    | null | bool | num | str | obj =>
      rw [treesOfGroups, others]
      · rfl
      · simp

theorem treesBelow_eq : (fields : List (String × Json)) →
    treesBelow fields = (anatomy.children (.obj fields)).map anatomy.unfold
  | [] => rfl
  | (key, v) :: rest => by
    have others := treesBelow_eq rest
    by_cases found : key = "children"
    · subst found
      cases v with
      | obj groups =>
        rw [treesBelow, if_pos rfl, treesOfGroups_eq groups]
        rfl
      | null | bool | num | str | arr =>
        rw [treesBelow, if_pos rfl]
        · rfl
        · simp
    · have same : anatomy.children (.obj ((key, v) :: rest)) = anatomy.children (.obj rest) := by
        simp [anatomy, Json.get?, Json.lookup, found]
      rw [same, ← others]
      cases v with
      | obj groups => rw [treesBelow, if_neg found]
      | null | bool | num | str | arr =>
        rw [treesBelow, if_neg found]
        simp

end

end Java

/-! ### Python -/

namespace Python

def isNode (v : Json) : Bool := (v.stringAt? "_type").isSome

def anatomy : Anatomy Json where
  family := .python
  shows := isNode
  label v := (v.stringAt? "_type").getD ""
  children v := (v.fields?.getD []).flatMap fun field => Json.nodesIn isNode field.2
  sizeOf_lt := by
    intro v child h
    cases v with
    | obj fields =>
      obtain ⟨⟨key, value⟩, mem, h⟩ := List.mem_flatMap.1 h
      exact Nat.lt_of_le_of_lt (Json.sizeOf_le_of_mem_nodesIn h) (Json.sizeOf_lt_of_mem_fields mem)
    | null | bool | num | str | arr => simp [Json.fields?] at h

mutual

theorem map_trees : (v : Json) →
    (trees v).map (Rose.map PythonNode.type) = ([v].filter isNode).map anatomy.labels
  | .obj fields => by
    have children := map_treesOfFields fields
    rw [trees, List.filter_singleton, isNode]
    cases typed : (Json.obj fields).stringAt? "_type" with
    | none =>
      have typed : (Json.lookup fields "_type").bind Json.string? = none := typed
      rw [typed]
      rfl
    | some type =>
      have found : (Json.lookup fields "_type").bind Json.string? = some type := typed
      rw [found]
      have label : anatomy.label (.obj fields) = type := by simp [anatomy, typed]
      simp [Rose.map, Rose.mapAll_eq, children, Anatomy.labels_eq anatomy (.obj fields), label]
  | .null => rfl
  | .bool _ => rfl
  | .num _ => rfl
  | .str _ => rfl
  | .arr _ => by simp [trees, isNode, Json.stringAt?, Json.get?]

theorem map_treesOfItems : (items : List Json) →
    (treesOfItems items).map (Rose.map PythonNode.type) = (items.filter isNode).map anatomy.labels
  | [] => rfl
  | v :: rest => by
    rw [treesOfItems, List.map_append, map_trees v, map_treesOfItems rest, ← List.map_append,
      ← List.filter_append, List.singleton_append]

theorem map_treesOfFields : (fields : List (String × Json)) →
    (treesOfFields fields).map (Rose.map PythonNode.type) =
      (anatomy.children (.obj fields)).map anatomy.labels
  | [] => rfl
  | (key, v) :: rest => by
    have own := map_trees v
    have others := map_treesOfFields rest
    have children : anatomy.children (.obj ((key, v) :: rest)) =
        Json.nodesIn isNode v ++ anatomy.children (.obj rest) := rfl
    rw [children, List.map_append, ← others]
    cases v with
    | arr items =>
      rw [treesOfFields, List.map_append, map_treesOfItems items]
      rfl
    | null | bool | num | str | obj =>
      rw [treesOfFields, List.map_append, own]
      · rfl
      · simp

end

end Python

namespace SourceTree

/-- Every full drawing is the drawing by addresses of the tree that unfolds from its root: elements
of elements for documents; nodes under the keys of a type, in the table's order, for scripts, and
under four keys for stylesheets; objects in the arrays of children for Java; and nodes in all
properties for Python. Nothing is drawn of a root that is no node, but for the root of a stylesheet,
which is always drawn. -/
theorem full_drawings_number_in_preorder :
    (∀ root, Dom.drawing.draw root = Dom.anatomy.picture root) ∧
    (∀ root, Stylesheet.drawing.draw root = Stylesheet.anatomy.picture root) ∧
    (∀ keys program, (Script.full keys).draw program = (Script.anatomy keys).picture program) ∧
    (∀ root, Java.full.draw root = Java.anatomy.picture root) ∧
    ∀ root, Python.full.draw root = Python.anatomy.picture root := by
  refine ⟨?_, Stylesheet.draw_eq_picture, ?_, ?_, ?_⟩
  · exact Dom.anatomy.draw_eq_picture Dom.map_elementTrees
  · intro keys
    exact (Script.anatomy keys).draw_eq_picture (TypedNode.map_trees (Script.fits_anatomy keys))
  · refine Java.anatomy.draw_eq_picture ?_
    intro root
    rw [Java.trees_eq, List.map_map]
    rfl
  · exact Python.anatomy.draw_eq_picture Python.map_trees

end SourceTree

end CodeAtlas
