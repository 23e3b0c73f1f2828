import CodeAtlas.Proofs.Outline.Forest
import CodeAtlas.Proofs.Outline.SurveyDraft
import Mathlib.Data.Set.Card

/-!
# The simple drawing is a contraction of the advanced one

Of the advanced drawing of a script or of a Python module, the simple one is what is left when all
nodes that it does not show are contracted into those above them: a node hangs below the nearest
that is shown above it, and stands in the row that counts those above. The simple drawing of a Java
file is only embedded in the advanced one, with what a node hangs below somewhere above it.

Both drawings are compared with one survey of the tree, which knows the place of every shown node
among all nodes.
-/

namespace CodeAtlas

open Sight (shown)

/-! ### Nodes above nodes -/

namespace Graph

/-- An edge leads from the node in one place to that in the other. -/
def Parent (g : Graph) (p c : Nat) : Prop :=
  ∃ e ∈ g.edges, g.idAt? p = some e.source ∧ g.idAt? c = some e.target

/-- A path leads from the node in one place to that in the other. -/
def Above (g : Graph) : Nat → Nat → Prop := Relation.TransGen g.Parent

theorem get_nodes_ofDraft {f : Family} {d : Draft} (i : Fin (ofDraft f d).nodes.length) {e : Entry}
    (here : d[(i : Nat)]? = some e) : (ofDraft f d).nodes.get i = e.toNode f i := by
  have node := getElem?_nodes_ofDraft f d i
  rw [here, List.getElem?_eq_getElem i.2] at node
  exact Option.some.inj node

theorem parent_ofDraft_iff (f : Family) {d : Draft} (h : Draft.Anchored 0 d) {p c : Nat} :
    (ofDraft f d).Parent p c ↔ ∃ e, d[c]? = some e ∧ e.anchor = .entry p := by
  constructor
  · rintro ⟨_, edge, source, target⟩
    obtain ⟨p, c, e, here, anchor, rfl⟩ := mem_edges_ofDraft_iff.1 edge
    obtain rfl := Family.nodeName_inj.1 (eq_of_idAt?_ofDraft source)
    obtain rfl := Family.nodeName_inj.1 (eq_of_idAt?_ofDraft target)
    exact ⟨e, here, anchor⟩
  · rintro ⟨e, here, anchor⟩
    have lt := Draft.lt_of_anchor h here anchor
    have inside := (List.getElem?_eq_some_iff.1 here).1
    exact ⟨_, mem_edges_ofDraft_iff.2 ⟨p, c, e, here, anchor, rfl⟩, idAt?_ofDraft f (by omega),
      idAt?_ofDraft f inside⟩

/-- The places `m` of the nodes of `s` among those of `f`, in their order. A node of `s` hangs below
the nearest of the others whose place is above its own, and its row is the number of the others
above. -/
structure IsContraction (s f : Graph) (m : Fin s.nodes.length → Fin f.nodes.length) : Prop where
  strictMono : StrictMono m
  parent_iff : ∀ p i : Fin s.nodes.length, s.Parent p i ↔
    f.Above (m p) (m i) ∧ ¬ ∃ q, f.Above (m p) (m q) ∧ f.Above (m q) (m i)
  root_iff : ∀ i : Fin s.nodes.length, (¬ ∃ p, s.Parent p i) ↔ ¬ ∃ q, f.Above (m q) (m i)
  depth_eq : ∀ i, (s.nodes.get i).layoutHint.depth = {q | f.Above (m q) (m i)}.ncard

/-- The places `m` of the nodes of `s` among those of `f`, in their order. A node of `s` hangs below
nothing or below one whose place is above its own. -/
structure IsEmbedding (s f : Graph) (m : Fin s.nodes.length → Fin f.nodes.length) : Prop where
  strictMono : StrictMono m
  above_of_parent : ∀ p i : Fin s.nodes.length, s.Parent p i → f.Above (m p) (m i)

/-- Every label of `s` was made from a node of the tree, and that node stands in the same place as
its image in `f`, whose label is the node's type. The table pairs types with what labels made from
them begin with. -/
def LabelsFrom {α : Type} (nodes : List α) (type concept : α → Option String)
    (openings : List (String × String)) (s f : Graph)
    (m : Fin s.nodes.length → Fin f.nodes.length) : Prop :=
  ∀ i, ∃ n opening rest, nodes[(m i : Nat)]? = some n ∧ type n = some (f.nodes.get (m i)).label ∧
    concept n = some (s.nodes.get i).label ∧ ((f.nodes.get (m i)).label, opening) ∈ openings ∧
    (s.nodes.get i).label = opening ++ rest

theorem length_le_of_strictMono {s f : Graph} {m : Fin s.nodes.length → Fin f.nodes.length}
    (h : StrictMono m) : s.nodes.length ≤ f.nodes.length := by
  simpa using Fintype.card_le_of_injective m h.injective

end Graph

section

variable {α β : Type} {R : α → β → Prop} {a : List α} {b : List β}

theorem exists_of_getElem?_left (h : List.Forall₂ R a b) {i : Nat} {x : α} (here : a[i]? = some x) :
    ∃ y, b[i]? = some y ∧ R x y := by
  obtain ⟨inside, rfl⟩ := List.getElem?_eq_some_iff.1 here
  have inside' : i < b.length := h.length_eq ▸ inside
  exact ⟨b[i], List.getElem?_eq_getElem inside', h.get inside inside'⟩

theorem exists_of_getElem?_right (h : List.Forall₂ R a b) {i : Nat} {y : β}
    (here : b[i]? = some y) : ∃ x, a[i]? = some x ∧ R x y := by
  obtain ⟨inside, rfl⟩ := List.getElem?_eq_some_iff.1 here
  have inside' : i < a.length := h.length_eq ▸ inside
  exact ⟨a[i], List.getElem?_eq_getElem inside', h.get inside' inside⟩

end

namespace Surveyed

open Sight (indexOf)

variable {α : Type} {l : List (Sight α)} {d full : Draft}

/-- In the advanced drawing the nodes stand above each other as in the survey. -/
theorem above_ofDraft (h : Surveyed [] 0 0 l) {label : α → String} (f : Family)
    (drawn : List.Forall₂ (Sight.IsDrawn label) l full) (anchored : Draft.Anchored 0 full) :
    (Graph.ofDraft f full).Above = Sight.Above l := by
  refine congrArg Relation.TransGen (funext fun p => funext fun c => propext ?_)
  rw [Graph.parent_ofDraft_iff f anchored, Sight.Parent]
  constructor
  · rintro ⟨e, here, anchor⟩
    obtain ⟨x, place, drawn⟩ := exists_of_getElem?_right drawn here
    exact ⟨x, List.mem_of_getElem? place, h.index_of_getElem? place,
      Anchor.below_eq_entry_iff.1 (drawn.anchor.symm.trans anchor)⟩
  · rintro ⟨x, hx, rfl, head⟩
    obtain ⟨e, here, drawn⟩ := exists_of_getElem?_left drawn (h.getElem?_index hx)
    exact ⟨e, here, drawn.anchor.trans (Anchor.below_eq_entry_iff.2 head)⟩

/-- The places of the shown nodes among all nodes. -/
theorem exists_places (h : Surveyed [] 0 0 l) {R S : Sight α → Entry → Prop}
    (drawn : List.Forall₂ S l full) (listed : List.Forall₂ R (shown l) d) (s f : Family) :
    ∃ m : Fin (Graph.ofDraft s d).nodes.length → Fin (Graph.ofDraft f full).nodes.length,
      StrictMono m ∧ ∀ i, (m i : Nat) = indexOf l i := by
  have shows (i : Fin (Graph.ofDraft s d).nodes.length) : (i : Nat) < (shown l).length := by
    simpa [listed.length_eq] using i.2
  have inside (i : Fin (Graph.ofDraft s d).nodes.length) :
      indexOf l i < (Graph.ofDraft f full).nodes.length := by
    simpa [← drawn.length_eq] using h.indexOf_lt_length (shows i)
  refine ⟨fun i => ⟨indexOf l i, inside i⟩, ?_, fun _ => rfl⟩
  intro i j lt
  exact h.indexOf_lt_indexOf lt (shows j)

/-- The rows of the simple drawing count the shown nodes above. -/
theorem length_numbers (h : Surveyed [] 0 0 l) {x : Sight α} (hx : x ∈ l) {n : Nat}
    (shows : n = (shown l).length) :
    x.numbers.length = {q : Fin n | Sight.Above l (indexOf l q) x.mark.index}.ncard := by
  have image : Fin.val '' {q : Fin n | Sight.Above l (indexOf l q) x.mark.index} =
      ↑x.numbers.toFinset := by
    ext q
    simp only [Set.mem_image, Set.mem_ofPred_eq, List.coe_toFinset, h.mem_numbers_iff hx, ← shows]
    constructor
    · rintro ⟨q, higher, rfl⟩
      exact ⟨q.2, higher⟩
    · rintro ⟨inside, higher⟩
      exact ⟨⟨q, inside⟩, higher, rfl⟩
  rw [← Set.ncard_image_of_injective _ Fin.val_injective, image, Set.ncard_coe_finset,
    List.toFinset_card_of_nodup (h.nodup_numbers hx)]

/-- Every entry of the simple drawing has a sight. -/
theorem exists_sight (h : Surveyed [] 0 0 l) {R : Sight α → Entry → Prop}
    (listed : List.Forall₂ R (shown l) d) {i : Nat} (inside : i < d.length) :
    ∃ x ∈ l, x.mark.index = indexOf l i ∧ ∃ e, d[i]? = some e ∧ R x e := by
  rw [← listed.length_eq] at inside
  obtain ⟨x, hx, here, mark⟩ := h.exists_of_lt_length_shown inside
  exact ⟨x, hx, by rw [mark], exists_of_getElem?_left listed here⟩

theorem isContraction (h : Surveyed [] 0 0 l) {label : α → String}
    {concept : α → Option (String × Bool)} {s f : Family}
    (drawn : List.Forall₂ (Sight.IsDrawn label) l full) (fullAnchored : Draft.Anchored 0 full)
    (contracted : List.Forall₂ (Sight.IsContracted concept) (shown l) d)
    (anchored : Draft.Anchored 0 d)
    {m : Fin (Graph.ofDraft s d).nodes.length → Fin (Graph.ofDraft f full).nodes.length}
    (strictMono : StrictMono m) (place : ∀ i, (m i : Nat) = indexOf l i) :
    (Graph.ofDraft s d).IsContraction (Graph.ofDraft f full) m := by
  have shows : (Graph.ofDraft s d).nodes.length = (shown l).length := by
    rw [Graph.length_nodes_ofDraft, contracted.length_eq]
  have inside (i : Fin (Graph.ofDraft s d).nodes.length) : (i : Nat) < d.length := by
    simpa using i.2
  have sight (i : Fin (Graph.ofDraft s d).nodes.length) := h.exists_sight contracted (inside i)
  have parent_iff {i p : Nat} {x : Sight α} {e : Entry} (here : d[i]? = some e)
      (contracted : Sight.IsContracted concept x e) :
      (Graph.ofDraft s d).Parent p i ↔ x.numbers.head? = some p := by
    simp [Graph.parent_ofDraft_iff s anchored, here, contracted.anchor, Anchor.below_eq_entry_iff]
  constructor
  · exact strictMono
  · intro p i
    obtain ⟨x, hx, index, e, here, contracted⟩ := sight i
    rw [parent_iff here contracted, h.head?_numbers_iff hx, h.mem_numbers_iff hx,
      h.above_ofDraft f drawn fullAnchored, index]
    simp only [place, ← shows, p.2, true_and, not_exists, not_and, Fin.forall_iff]
  · intro i
    obtain ⟨x, hx, index, e, here, contracted⟩ := sight i
    simp only [parent_iff here contracted, h.above_ofDraft f drawn fullAnchored, place, ← index]
    have none_iff : (¬ ∃ p, x.numbers.head? = some p) ↔ ¬ ∃ q, q ∈ x.numbers := by
      cases x.numbers <;> simp
    rw [none_iff]
    simp only [h.mem_numbers_iff hx, ← shows, Fin.exists_iff, exists_prop]
  · intro i
    obtain ⟨x, hx, index, e, here, contracted⟩ := sight i
    rw [Graph.get_nodes_ofDraft i here]
    simp only [Entry.toNode, contracted.depth, h.length_numbers hx shows,
      h.above_ofDraft f drawn fullAnchored, place, index]

/-- What is noted below nodes shown above hangs below them. -/
theorem isEmbedding (h : Surveyed [] 0 0 l) {R : Sight α → Entry → Prop} {label : α → String}
    {s f : Family} (drawn : List.Forall₂ (Sight.IsDrawn label) l full)
    (fullAnchored : Draft.Anchored 0 full) (listed : List.Forall₂ R (shown l) d)
    (anchored : Draft.Anchored 0 d)
    (noted : ∀ x e, R x e → ∀ k, e.anchor = .entry k → k ∈ x.numbers)
    {m : Fin (Graph.ofDraft s d).nodes.length → Fin (Graph.ofDraft f full).nodes.length}
    (strictMono : StrictMono m) (place : ∀ i, (m i : Nat) = indexOf l i) :
    (Graph.ofDraft s d).IsEmbedding (Graph.ofDraft f full) m := by
  refine ⟨strictMono, ?_⟩
  intro p i parent
  obtain ⟨x, hx, index, e, here, r⟩ := h.exists_sight listed (by simpa using i.2)
  obtain ⟨e', here', anchor⟩ := (Graph.parent_ofDraft_iff s anchored).1 parent
  obtain rfl := Option.some.inj (here.symm.trans here')
  rw [h.above_ofDraft f drawn fullAnchored, place, place, ← index]
  exact ((h.mem_numbers_iff hx).1 (noted x e r p anchor)).2

/-- The two labels of a node that is shown. -/
theorem exists_labels (h : Surveyed [] 0 0 l) {R : Sight α → Entry → Prop} {label : α → String}
    {s f : Family} (drawn : List.Forall₂ (Sight.IsDrawn label) l full)
    (listed : List.Forall₂ R (shown l) d)
    {m : Fin (Graph.ofDraft s d).nodes.length → Fin (Graph.ofDraft f full).nodes.length}
    (place : ∀ i, (m i : Nat) = indexOf l i) (i : Fin (Graph.ofDraft s d).nodes.length) :
    ∃ x e, R x e ∧ ((Graph.ofDraft s d).nodes.get i).label = e.label ∧
      (l.map (·.value))[(m i : Nat)]? = some x.value ∧
      ((Graph.ofDraft f full).nodes.get (m i)).label = label x.value := by
  obtain ⟨x, hx, index, e, here, r⟩ := h.exists_sight listed (by simpa using i.2)
  have sight := h.getElem?_index hx
  rw [index, ← place] at sight
  obtain ⟨e', here', drawn⟩ := exists_of_getElem?_left drawn sight
  refine ⟨x, e, r, ?_, by rw [List.getElem?_map, sight]; rfl, ?_⟩
  · rw [Graph.get_nodes_ofDraft i here]
    rfl
  · rw [Graph.get_nodes_ofDraft (m i) here', ← drawn.label]
    rfl

end Surveyed

/-! ### The drawings of source trees -/

namespace Drawing

variable {α β : Type}

/-- A conceptual drawing is a contraction of the structural one of the same tree. -/
theorem exists_isContraction (s f : Family) (view : α → Option (Rose β))
    (rules : Rose.ConceptRules β) {label type : β → String} {openings : List (String × String)}
    (typed : ∀ n text highlighted, rules.concept n = some (text, highlighted) →
      label n = type n ∧ ∃ opening rest, (type n, opening) ∈ openings ∧ text = opening ++ rest)
    (tree : α) :
    ∃ m, ((conceptual s view rules).draw tree).IsContraction
      ((structural f view label).draw tree) m ∧
      Graph.LabelsFrom (((view tree).map Rose.preorder).getD []) (fun n => some (type n))
        (fun n => (rules.concept n).map Prod.fst) openings _ _ m := by
  have fullAnchored := anchored_structural f view label tree 0 0 false
  have anchored := anchored_conceptual s view rules tree 0 0 false
  obtain ⟨l, values, surveyed, drawn, contracted⟩ : ∃ l : List (Sight β),
      l.map (·.value) = ((view tree).map Rose.preorder).getD [] ∧ Surveyed [] 0 0 l ∧
      List.Forall₂ (Sight.IsDrawn label) l ((structural f view label).draft tree 0 0 false) ∧
      List.Forall₂ (Sight.IsContracted rules.concept) (shown l)
        ((conceptual s view rules).draft tree 0 0 false) := by
    simp only [structural, conceptual]
    cases view tree with
    | none => exact ⟨[], rfl, .nil, .nil, .nil⟩
    | some t =>
      exact ⟨t.survey rules.selection true [] 0 0, Rose.map_value_survey _ _ _ _ _ t,
        Rose.surveyed_survey _ _ _ _ _ t, Rose.isDrawn_draft _ label true [] 0 0 0 0 t,
        Rose.isContracted_concepts rules [] 0 0 0 t⟩
  obtain ⟨m, strictMono, place⟩ := surveyed.exists_places drawn contracted s f
  refine ⟨m, surveyed.isContraction drawn fullAnchored contracted anchored strictMono place, ?_⟩
  intro i
  obtain ⟨x, e, ⟨⟨highlighted, concept⟩, -, -⟩, simple, value, advanced⟩ :=
    surveyed.exists_labels drawn contracted place i
  obtain ⟨labelled, opening, rest, member, eq⟩ := typed _ _ _ concept
  rw [values] at value
  rw [labelled] at advanced
  rw [← advanced] at member
  rw [← simple] at concept eq
  exact ⟨x.value, opening, rest, value, congrArg some advanced.symm,
    congrArg (Option.map Prod.fst) concept, member, eq⟩

end Drawing

namespace Script

def openings : List (String × String) :=
  [("FunctionDeclaration", "[Function: "), ("ClassDeclaration", "[Class: "),
    ("VariableDeclarator", "[Variable: "), ("CallExpression", "[Call: ")]

theorem label_of_concept {n : TypedNode} {text : String} {highlighted : Bool}
    (h : concept n = some (text, highlighted)) :
    label n = n.type ∧ ∃ opening rest, (n.type, opening) ∈ openings ∧ text = opening ++ rest := by
  unfold concept at h
  split at h <;> cases h
  all_goals
    rename_i type
    refine ⟨by simp [label, type], _, _, ?_, String.append_assoc⟩
    simp [openings, type]

end Script

namespace Python

def openings : List (String × String) :=
  [("FunctionDef", "[Function: "), ("AsyncFunctionDef", "[Function: "), ("Assign", "[Variable: "),
    ("Call", "[Call: ")]

theorem label_of_concept {n : PythonNode} {text : String} {highlighted : Bool}
    (h : concept n = some (text, highlighted)) :
    ∃ opening rest, (n.type, opening) ∈ openings ∧ text = opening ++ rest := by
  unfold concept at h
  split at h <;> cases h
  all_goals
    rename_i type
    refine ⟨_, _, ?_, String.append_assoc⟩
    simp [openings, type]

end Python

namespace Java

def openings : List (String × String) :=
  [("normalClassDeclaration", "[Class: "), ("fieldDeclaration", "[Field: "),
    ("methodDeclaration", "[Method: "), ("localVariableDeclarationStatement", "[Variable: "),
    ("methodInvocation", "[Call: ")]

theorem label_of_concept? {v : Json} {c : Concept} (h : concept? v = some c) :
    ∃ production opening rest, production? v = some production ∧ (production, opening) ∈ openings ∧
      c.label = opening ++ rest := by
  unfold concept? at h
  split at h
  case h_1 production =>
    obtain ⟨name, -, rfl⟩ := Option.map_eq_some_iff.1 h
    have assoc (more : String) :
        "[Class: " ++ name ++ "]" ++ more = "[Class: " ++ (name ++ "]" ++ more) := by
      simp only [String.append_assoc]
    exact ⟨_, _, _, production, by simp [openings], assoc _⟩
  case h_6 => cases h
  all_goals
    rename_i production
    obtain ⟨name, -, rfl⟩ := Option.map_eq_some_iff.1 h
    refine ⟨_, _, _, production, ?_, String.append_assoc⟩
    simp [openings]

/-- The conceptual drawing of a tree keeps to the structural one, if more loosely than a
contraction. -/
theorem exists_isEmbedding (root : Json) :
    ∃ m, (conceptual.draw root).IsEmbedding (full.draw root) m ∧
      Graph.LabelsFrom (((tree? root).map Rose.preorder).getD []) production?
        (fun v => (concept? v).map Concept.label) openings (conceptual.draw root)
          (full.draw root) m := by
  have fullAnchored : Draft.Anchored 0 (full.draft root 0 0 false) :=
    Drawing.anchored_structural _ _ _ root 0 0 false
  have anchored := anchored_conceptual root 0 0 false
  obtain ⟨l, values, surveyed, drawn, listed⟩ : ∃ l : List (Sight Json),
      l.map (·.value) = ((tree? root).map Rose.preorder).getD [] ∧ Surveyed [] 0 0 l ∧
      List.Forall₂ (Sight.IsDrawn fun v => (production? v).getD "node") l
        (full.draft root 0 0 false) ∧
      List.Forall₂ IsListed (shown l) (conceptual.draft root 0 0 false) := by
    simp only [full, Drawing.structural, conceptual]
    cases tree? root with
    | none => exact ⟨[], rfl, .nil, .nil, .nil⟩
    | some t =>
      have fits : Scope.Fits (Mark.numbers []) false ⟨none, .loose, 0⟩ := ⟨rfl, rfl⟩
      exact ⟨t.survey selection (some false) [] 0 0, Rose.map_value_survey _ _ _ _ _ t,
        Rose.surveyed_survey _ _ _ _ _ t, Rose.isDrawn_draft _ _ _ [] 0 0 0 0 t,
        isListed_entries fits 0 0 0 0 t⟩
  obtain ⟨m, strictMono, place⟩ := surveyed.exists_places drawn listed .javaConcepts .java
  refine ⟨m, surveyed.isEmbedding drawn fullAnchored listed anchored (fun _ _ => IsListed.anchor)
    strictMono place, ?_⟩
  intro i
  obtain ⟨x, e, named, simple, value, advanced⟩ := surveyed.exists_labels drawn listed place i
  obtain ⟨c, means, label⟩ := Option.map_eq_some_iff.1 named.label
  obtain ⟨production, opening, rest, here, member, eq⟩ := label_of_concept? means
  rw [values] at value
  have type : ((full.draw root).nodes.get (m i)).label = production :=
    advanced.trans (by rw [here, Option.getD_some])
  have text : ((conceptual.draw root).nodes.get i).label = c.label := simple.trans label.symm
  rw [← type] at here member
  rw [← text] at eq
  exact ⟨x.value, opening, rest, value, here, by simp only [means, text, Option.map_some], member,
    eq⟩

end Java

namespace SourceTree

/-- The simple drawing of a script or of a Python module is a contraction of the advanced one, onto
nodes of the types that its labels were made from. That of a Java file is embedded in the advanced
one, and so no simple drawing has more nodes. -/
theorem contracts_advanced :
    (∀ program keys, ∃ m,
      ((script program keys).toGraph .simple).IsContraction
        ((script program keys).toGraph .advanced) m ∧
      Graph.LabelsFrom (((Script.tree? keys program).map Rose.preorder).getD [])
        (fun n => some n.type) (fun n => (Script.concept n).map Prod.fst) Script.openings _ _ m) ∧
    (∀ root, ∃ m,
      ((python root).toGraph .simple).IsContraction ((python root).toGraph .advanced) m ∧
      Graph.LabelsFrom (((Python.tree? root).map Rose.preorder).getD []) (fun n => some n.type)
        (fun n => (Python.concept n).map Prod.fst) Python.openings _ _ m) ∧
    (∀ root, ∃ m,
      ((java root).toGraph .simple).IsEmbedding ((java root).toGraph .advanced) m ∧
      Graph.LabelsFrom (((Java.tree? root).map Rose.preorder).getD []) Java.production?
        (fun v => (Java.concept? v).map Java.Concept.label) Java.openings _ _ m) ∧
    ∀ tree : SourceTree,
      (tree.toGraph .simple).nodes.length ≤ (tree.toGraph .advanced).nodes.length := by
  have scripts (program : Json) (keys : ChildKeys) :=
    Drawing.exists_isContraction .scriptConcepts .script
      (Script.tree? keys) Script.conceptRules (fun _ _ _ => Script.label_of_concept) program
  have modules (root : Json) := Drawing.exists_isContraction .pythonConcepts .python Python.tree?
    Python.conceptRules (fun _ _ _ h => ⟨rfl, Python.label_of_concept h⟩) root
  refine ⟨scripts, modules, Java.exists_isEmbedding, ?_⟩
  intro tree
  cases tree with
  | script program keys =>
    obtain ⟨m, contraction, -⟩ := scripts program keys
    exact Graph.length_le_of_strictMono contraction.strictMono
  | html root => exact Nat.le_refl _
  | css root => exact Nat.le_refl _
  | java root =>
    obtain ⟨m, embedding, -⟩ := Java.exists_isEmbedding root
    exact Graph.length_le_of_strictMono embedding.strictMono
  | python root =>
    obtain ⟨m, contraction, -⟩ := modules root
    exact Graph.length_le_of_strictMono contraction.strictMono

end SourceTree

end CodeAtlas
