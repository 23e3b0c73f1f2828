import CodeAtlas.Proofs.Outline.Unfolding

/-!
# Where the text of a selector fails

The text of a selector is put together from a tree of nodes, some of which may be broken. What is
wrong with a node can be told from the node alone: it has no type, its type has no text, or it lacks
a field. Which nodes take part can be told as well, since a node names those that its text is put
together from, in their order.

So the tree can be searched for what is wrong without writing anything. There is a text if and only
if no node that takes part is broken, and otherwise the error is that of the first broken node in
pre-order. The fields of a node are looked at before the nodes below it, which is why no later node
can get ahead.
-/

namespace CodeAtlas.Selector

open TypedNode (typeOf?)

/-! ### What a node needs by itself -/

/-- What a field has to hold. -/
inductive Shape where
  | text
  | list
  | anything
deriving DecidableEq, Repr

def Shape.fits : Shape → Json → Bool
  | .text, v => v.string?.isSome
  | .list, v => v.items?.isSome
  | .anything, _ => true

/-- The fields that a node needs, by its type. Nodes of other types have no text. -/
def required? : String → Option (List (String × Shape))
  | "Selector" | "SelectorList" => some [("children", .list)]
  | "TypeSelector" | "ClassSelector" | "IdSelector" | "PseudoClassSelector"
  | "PseudoElementSelector"
  | "Combinator" | "Identifier" => some [("name", .text)]
  | "AttributeSelector" => some [("name", .anything)]
  | "Nth" => some [("nth", .anything)]
  | "String" | "Raw" => some [("value", .text)]
  | "NestingSelector" | "AnPlusB" => some []
  | _ => none

def has (v : Json) (field : String × Shape) : Bool := (v.get? field.1).any field.2.fits

/-- A node with a type that has a text, and with all the fields that such a node needs. -/
def IsComplete (v : Json) : Prop :=
  ∃ type fields, typeOf? v = some type ∧ required? type = some fields ∧
    ∀ field ∈ fields, has v field = true

/-- What is wrong with a node that is not complete. -/
inductive Offends (v : Json) : TextError → Prop
  | untyped (typed : typeOf? v = none) : Offends v .untyped
  | unsupported {type : String} (typed : typeOf? v = some type) (needs : required? type = none) :
      Offends v (.unsupported type)
  | missing {type : String} {before after : List (String × Shape)} {field : String × Shape}
      (typed : typeOf? v = some type) (needs : required? type = some (before ++ field :: after))
      (earlier : ∀ other ∈ before, has v other = true) (lacks : has v field = false) :
      Offends v (.missingField type field.1)

/-- What is wrong with a node that is taken to have a type. -/
def defectAs? (type : String) (v : Json) : Option TextError :=
  match required? type with
  | none => some (.unsupported type)
  | some fields =>
    (fields.find? fun field => !has v field).map fun field => .missingField type field.1

def defect? (v : Json) : Option TextError :=
  match typeOf? v with
  | none => some .untyped
  | some type => defectAs? type v

theorem defect?_eq_none_iff {v : Json} : defect? v = none ↔ IsComplete v := by
  rw [defect?, IsComplete]
  cases typeOf? v with
  | none => simp
  | some type =>
    simp only [defectAs?]
    cases needs : required? type with
    | none => simp [needs]
    | some fields => simp [needs]

theorem defect?_eq_some_iff {v : Json} {e : TextError} : defect? v = some e ↔ Offends v e := by
  constructor
  · intro h
    rw [defect?] at h
    split at h
    · next typed => exact Option.some.inj h ▸ .untyped typed
    · next type typed =>
      rw [defectAs?] at h
      split at h
      · next needs => exact Option.some.inj h ▸ .unsupported typed needs
      · next fields needs =>
        obtain ⟨field, found, rfl⟩ := Option.map_eq_some_iff.1 h
        obtain ⟨lacks, before, after, rfl, earlier⟩ := List.find?_eq_some_iff_append.1 found
        exact .missing typed needs (by simpa using earlier) (by simpa using lacks)
  · intro h
    cases h with
    | untyped typed => rw [defect?, typed]
    | unsupported typed needs =>
      rw [defect?, typed]
      simp only [defectAs?, needs]
    | @missing type before after field typed needs earlier lacks =>
      have found : (before ++ field :: after).find? (fun field => !has v field) = some field :=
        List.find?_eq_some_iff_append.2 ⟨by simpa using lacks, before, after, rfl,
          by simpa using earlier⟩
      rw [defect?, typed]
      simp only [defectAs?, needs, found, Option.map_some]

/-! ### The nodes of a text -/

def itemsUnder (v : Json) (key : String) : List Json := ((v.get? key).bind Json.items?).getD []

/-- The value under a key, unless it is `null`. -/
def nodeUnder (v : Json) (key : String) : List Json := ((v.get? key).filter (!·.isNull)).toList

/-- The nodes that a node of some type puts its text together from, from left to right. -/
def operandsAs (type : String) (v : Json) : List Json :=
  match type with
  | "Selector" | "SelectorList" | "PseudoClassSelector" => itemsUnder v "children"
  | "AttributeSelector" =>
    (v.get? "name").toList ++ if (v.stringAt? "matcher").isSome then nodeUnder v "value" else []
  | "Nth" => (v.get? "nth").toList ++ nodeUnder v "selector"
  | _ => []

def operands (v : Json) : List Json := ((typeOf? v).map (operandsAs · v)).getD []

theorem sizeOf_lt_of_get? {v child : Json} {key : String} (h : v.get? key = some child) :
    sizeOf child < sizeOf v := by
  cases v with
  | obj fields => exact Json.sizeOf_lt_of_mem_fields (Json.mem_fields_of_lookup h)
  | null | bool | num | str | arr => simp [Json.get?] at h

theorem sizeOf_lt_of_mem_itemsUnder {v child : Json} {key : String} (h : child ∈ itemsUnder v key) :
    sizeOf child < sizeOf v := by
  rw [itemsUnder] at h
  cases found : v.get? key with
  | none => simp [found] at h
  | some value =>
    have below := sizeOf_lt_of_get? found
    cases value with
    | arr items =>
      have inside : child ∈ items := by simpa [found, Json.items?] using h
      exact Nat.lt_trans (Json.sizeOf_lt_of_mem_items inside) below
    | null | bool | num | str | obj => simp [found, Json.items?] at h

theorem get?_of_mem_nodeUnder {v child : Json} {key : String} (h : child ∈ nodeUnder v key) :
    v.get? key = some child := by
  simp only [nodeUnder, Option.mem_toList, Option.filter_eq_some_iff] at h
  exact h.1

theorem sizeOf_lt_of_mem_operands {v child : Json} (h : child ∈ operands v) :
    sizeOf child < sizeOf v := by
  obtain ⟨type, -, h⟩ : ∃ type, typeOf? v = some type ∧ child ∈ operandsAs type v := by
    rw [operands] at h
    cases typed : typeOf? v with
    | none => simp [typed] at h
    | some type => exact ⟨type, rfl, by simpa [typed] using h⟩
  unfold operandsAs at h
  split at h
  · exact sizeOf_lt_of_mem_itemsUnder h
  · exact sizeOf_lt_of_mem_itemsUnder h
  · exact sizeOf_lt_of_mem_itemsUnder h
  · rcases List.mem_append.1 h with h | h
    · exact sizeOf_lt_of_get? (Option.mem_toList.1 h)
    · split at h
      · exact sizeOf_lt_of_get? (get?_of_mem_nodeUnder h)
      · simp at h
  · rcases List.mem_append.1 h with h | h
    · exact sizeOf_lt_of_get? (Option.mem_toList.1 h)
    · exact sizeOf_lt_of_get? (get?_of_mem_nodeUnder h)
  · simp at h

/-- The nodes that the text of a node is made from, in pre-order. -/
def visited (v : Json) : List Json := v :: (operands v).attach.flatMap fun child => visited child.1
termination_by sizeOf v
decreasing_by exact sizeOf_lt_of_mem_operands child.2

theorem visited_eq (v : Json) : visited v = v :: (operands v).flatMap visited := by
  rw [visited]
  simp [List.flatMap_subtype]

/-! ### The error of a text -/

def error? : Text → Option TextError
  | .ok _ => none
  | .error e => some e

theorem error?_eq_none_iff {t : Text} : error? t = none ↔ ∃ s, t = .ok s := by
  cases t <;> simp [error?]

theorem error?_eq_some_iff {t : Text} {e : TextError} : error? t = some e ↔ t = .error e := by
  cases t <;> simp [error?]

@[simp] theorem error?_ok (s : String) : error? (.ok s) = none := rfl

@[simp] theorem error?_error (e : TextError) : error? (.error e) = some e := rfl

@[simp] theorem error?_map (f : String → String) (t : Text) : error? (t.map f) = error? t := by
  cases t <;> rfl

/-- What is put after a text does not matter if that text has an error. -/
theorem error?_bind (t : Text) (f : String → Text) {e : Option TextError}
    (h : ∀ s, error? (f s) = e) : error? (t >>= f) = (error? t).or e := by
  cases t with
  | ok s => exact h s
  | error e => rfl

@[simp] theorem error?_bind_pure (t : Text) (f : String → String) :
    error? (t >>= fun s => pure (f s)) = error? t := by
  cases t <;> rfl

theorem error?_joined (separator : String) (texts : List Text) :
    error? (joined separator texts) = texts.findSome? error? := by
  suffices h :
      ∀ f : List String → String, error? ((texts.mapM id).map f) = texts.findSome? error? from h _
  induction texts with
  | nil => intro f; rfl
  | cons t texts ih =>
    intro f
    rw [List.mapM_cons, List.findSome?_cons]
    cases t with
    | error e => rfl
    | ok s =>
      refine (congrArg error? ?_).trans (ih fun l => f (s :: l))
      change ((texts.mapM id >>= fun l => pure (s :: l)) : Except TextError (List String)).map f = _
      cases texts.mapM id <;> rfl

/-! ### The parts of a node -/

theorem texts_eq (items : List Json) : texts items = items.map text := by
  induction items with
  | nil => rfl
  | cons v rest ih => rw [texts, ih, List.map_cons]

section Parts

variable (type key : String) (fields : List (String × Json))

/-- What is written of a field is the text of its value and, if this is a list, the texts of its
items. -/
theorem written?_writtenFields :
    written? (writtenFields fields) key =
      (Json.lookup fields key).map fun v => ⟨text v, v.items?.map (·.map text)⟩ := by
  have each : writtenFields fields =
      fields.map fun field => (field.1, ⟨text field.2, field.2.items?.map (·.map text)⟩) := by
    induction fields with
    | nil => rfl
    | cons field rest ih =>
      obtain ⟨key, v⟩ := field
      cases v <;> simp [writtenFields, ih, Json.items?, texts_eq, text]
  rw [written?, Json.lookup, each, List.find?_map, Option.map_map, Option.map_map]
  rfl

theorem items_writtenFields :
    (written? (writtenFields fields) key).bind (·.items) =
      ((Json.lookup fields key).bind Json.items?).map (·.map text) := by
  rw [written?_writtenFields, Option.bind_map, Option.map_bind]
  rfl

theorem has_list :
    has (.obj fields) (key, .list) = ((Json.lookup fields key).bind Json.items?).isSome := by
  rw [has, Json.get?]
  cases Json.lookup fields key <;> rfl

variable {type key fields}

theorem defectAs?_eq {shape : Shape} (needs : required? type = some [(key, shape)]) (v : Json) :
    defectAs? type v = if has v (key, shape) then none else some (.missingField type key) := by
  simp only [defectAs?, needs, List.find?_singleton]
  cases has v (key, shape) <;> rfl

theorem error?_textField (needs : required? type = some [(key, .text)]) :
    error? (textField type fields key) = defectAs? type (.obj fields) := by
  rw [textField, defectAs?_eq needs, has, Json.get?]
  cases Json.lookup fields key with
  | none => rfl
  | some v => cases v <;> rfl

theorem error?_childTexts (needs : required? type = some [("children", .list)])
    (separator : String) :
    error? (childTexts type separator (writtenFields fields)) =
      (defectAs? type (.obj fields)).or
        ((itemsUnder (.obj fields) "children").findSome? (error? ∘ text)) := by
  rw [childTexts, items_writtenFields, defectAs?_eq needs, has_list, itemsUnder, Json.get?]
  cases (Json.lookup fields "children").bind Json.items? with
  | none => rfl
  | some items => simp [error?_joined, List.findSome?_map]

theorem error?_nodeField (needs : required? type = some [(key, .anything)]) :
    error? (nodeField type (writtenFields fields) key) =
      (defectAs? type (.obj fields)).or
        (((Json.obj fields).get? key).toList.findSome? (error? ∘ text)) := by
  rw [nodeField, written?_writtenFields, defectAs?_eq needs, has, Json.get?]
  cases Json.lookup fields key with
  | none => rfl
  | some v => simp [Shape.fits]

theorem error?_optionalNode (lead : String) :
    error? (optionalNode fields (writtenFields fields) key lead) =
      (nodeUnder (.obj fields) key).findSome? (error? ∘ text) := by
  rw [optionalNode, written?_writtenFields, nodeUnder, Json.get?]
  cases Json.lookup fields key with
  | none => rfl
  | some v => cases v <;> simp [Option.filter, Json.isNull]

end Parts

/-- The error of a node is its own defect, or else the first error of the nodes it is put together
from. -/
def ErrsInOrder (type : String) (fields : List (String × Json)) : Prop :=
  error? (compose type fields (writtenFields fields)) =
    (defectAs? type (.obj fields)).or ((operandsAs type (.obj fields)).findSome? (error? ∘ text))

section Types

variable (fields : List (String × Json))

theorem errsInOrder_pseudoClass : ErrsInOrder "PseudoClassSelector" fields := by
  rw [ErrsInOrder, ← error?_textField rfl]
  refine error?_bind _ _ fun name => ?_
  rw [items_writtenFields, operandsAs, itemsUnder, Json.get?]
  cases (Json.lookup fields "children").bind Json.items? with
  | none => rfl
  | some items =>
    refine (error?_bind_pure _ _).trans ?_
    simp [error?_joined, List.findSome?_map]

theorem errsInOrder_attribute : ErrsInOrder "AttributeSelector" fields := by
  rw [ErrsInOrder, operandsAs, List.findSome?_append, ← Option.or_assoc, ← error?_nodeField rfl]
  refine error?_bind _ _ fun name => ?_
  rw [Json.stringAt?, Json.get?]
  -- without a matcher that is a text the value is not looked at
  cases Json.lookup fields "matcher" with
  | none => rfl
  | some v =>
    cases v with
    | str matcher =>
      refine (error?_bind_pure _ _).trans ?_
      rw [error?_map, error?_optionalNode]
      rfl
    | null | bool | num | arr | obj => rfl

theorem errsInOrder_nth : ErrsInOrder "Nth" fields := by
  rw [ErrsInOrder, operandsAs, List.findSome?_append, ← Option.or_assoc, ← error?_nodeField rfl]
  refine error?_bind _ _ fun nth => ?_
  rw [error?_bind_pure, error?_optionalNode]

/-- A node that is written with one of its texts and nothing else. -/
theorem errsInOrder_of_text {type key : String} (needs : required? type = some [(key, .text)])
    (alone : operandsAs type (.obj fields) = [])
    (composed : error? (compose type fields (writtenFields fields)) =
      error? (textField type fields key)) :
    ErrsInOrder type fields := by
  rw [ErrsInOrder, composed, error?_textField needs, alone, List.findSome?_nil, Option.or_none]

theorem errsInOrder_of_unsupported {type : String} (unsupported : required? type = none) :
    ErrsInOrder type fields := by
  have own : defectAs? type (.obj fields) = some (.unsupported type) := by
    rw [defectAs?, unsupported]
  rw [ErrsInOrder, own, Option.some_or, error?_eq_some_iff]
  unfold compose
  split
  case h_16 => rfl
  -- every other case is of a type that has a text
  all_goals cases unsupported

end Types

/-- Every node errs in this order. The types are split as `required?` lists them; nodes that are
written with one text differ in their marks only. -/
theorem errsInOrder (type : String) (fields : List (String × Json)) : ErrsInOrder type fields := by
  cases needs : required? type with
  | none => exact errsInOrder_of_unsupported fields needs
  | some required =>
    unfold required? at needs
    split at needs
    · exact error?_childTexts rfl _
    · exact error?_childTexts rfl _
    · exact errsInOrder_of_text fields rfl rfl rfl
    · exact errsInOrder_of_text fields rfl rfl (error?_map _ _)
    · exact errsInOrder_of_text fields rfl rfl (error?_map _ _)
    · exact errsInOrder_pseudoClass fields
    · exact errsInOrder_of_text fields rfl rfl (error?_map _ _)
    · exact errsInOrder_of_text fields rfl rfl rfl
    · exact errsInOrder_of_text fields rfl rfl rfl
    · exact errsInOrder_attribute fields
    · exact errsInOrder_nth fields
    · exact errsInOrder_of_text fields rfl rfl (error?_map _ _)
    · exact errsInOrder_of_text fields rfl rfl rfl
    · rfl
    · rfl
    · cases needs

theorem error?_text_step (v : Json) :
    error? (text v) = (defect? v).or ((operands v).findSome? (error? ∘ text)) := by
  cases v with
  | obj fields =>
    have typed : typeOf? (.obj fields) = (Json.lookup fields "type").bind Json.string? := rfl
    rw [text, defect?, operands, typed]
    cases (Json.lookup fields "type").bind Json.string? with
    | none => rfl
    | some type => exact errsInOrder type fields
  | null | bool | num | str | arr => simp [text, defect?, typeOf?, Json.stringAt?, Json.get?]

/-- A search below every element is one search through all that is below. -/
theorem findSome?_flatMap_of_forall {α β γ : Type} {f : α → Option γ} {g : α → List β}
    {p : β → Option γ} {l : List α} (h : ∀ a ∈ l, f a = (g a).findSome? p) :
    l.findSome? f = (l.flatMap g).findSome? p := by
  induction l with
  | nil => rfl
  | cons a l ih =>
    rw [List.flatMap_cons, List.findSome?_append, ← h a List.mem_cons_self,
      ← ih fun b mem => h b (List.mem_cons_of_mem a mem), List.findSome?_cons]
    cases f a <;> rfl

/-- The error of a text is the first defect in pre-order. -/
theorem error?_text (v : Json) : error? (text v) = (visited v).findSome? defect? := by
  induction size : sizeOf v using Nat.strongRecOn generalizing v with
  | ind n ih =>
    have below :
        (operands v).findSome? (error? ∘ text) =
          ((operands v).flatMap visited).findSome? defect? := by
      apply findSome?_flatMap_of_forall
      intro child mem
      exact ih _ (size ▸ sizeOf_lt_of_mem_operands mem) child rfl
    rw [error?_text_step, visited_eq, List.findSome?_cons, below]
    cases defect? v <;> rfl

/-! ### The label of a selector -/

theorem label_ne (s : String) : "Selector: " ++ s ≠ "Selector" := by
  intro same
  have := congrArg (·.toList.length) same
  simp at this

/-- The text of a selector can be read off its label. -/
theorem label_eq_iff {v : Json} {s : String} :
    Stylesheet.label "Selector" v = "Selector: " ++ s ↔ text v = .ok s := by
  change (match text v with | .ok s => "Selector: " ++ s | .error _ => "Selector") = _ ↔ _
  cases text v with
  | ok other => simp
  | error e => simp [(label_ne s).symm]

theorem label_eq_type_iff {v : Json} :
    Stylesheet.label "Selector" v = "Selector" ↔ ¬ ∃ s, text v = .ok s := by
  change (match text v with | .ok s => "Selector: " ++ s | .error _ => "Selector") = _ ↔ _
  cases text v with
  | ok s => simp [label_ne s]
  | error e => simp

/-- A selector has a text if and only if every node that takes part in it is complete, and else the
error of the first one that is not. Its label shows the text in the first case and nothing but the
type in the second. -/
theorem fails_at_first_defect (v : Json) :
    ((∃ s, text v = .ok s) ↔ ∀ n ∈ visited v, IsComplete n) ∧
    (∀ e, text v = .error e ↔ ∃ before n after, visited v = before ++ n :: after ∧
      (∀ m ∈ before, IsComplete m) ∧ Offends n e) ∧
    (∀ s, Stylesheet.label "Selector" v = "Selector: " ++ s ↔ text v = .ok s) ∧
    (Stylesheet.label "Selector" v = "Selector" ↔ ∃ n ∈ visited v, ¬ IsComplete n) := by
  have ok : (∃ s, text v = .ok s) ↔ ∀ n ∈ visited v, IsComplete n := by
    rw [← error?_eq_none_iff, error?_text, List.findSome?_eq_none_iff]
    simp only [defect?_eq_none_iff]
  refine ⟨ok, ?_, ?_, ?_⟩
  · intro e
    rw [← error?_eq_some_iff, error?_text, List.findSome?_eq_some_iff]
    simp only [defect?_eq_none_iff, defect?_eq_some_iff, and_comm]
  · intro s
    exact label_eq_iff
  · rw [label_eq_type_iff, ok]
    simp

/-- The value of an attribute comes before the next selector, though it lies deeper. -/
example :
    let link : Json := .obj [("type", .str "AttributeSelector"), ("matcher", .str "="),
      ("value", .obj [("type", .str "String")]),
      ("name", .obj [("type", .str "Identifier"), ("name", .str "href")])]
    text (.obj [("type", .str "Selector"),
      ("children", .arr [link, .obj [("type", .str "Percentage")]])]) =
      .error (.missingField "String" "value") := by
  rfl

end CodeAtlas.Selector
