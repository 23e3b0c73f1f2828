import CodeAtlas.Proofs.Outline.Scoping

/-!
# Rows in Java drawings

In the conceptual drawing of a Java file classes stand in the first row, and everything else one row
below the nearest class or method that encloses it. A variable or a call hangs below that node, so
its edge leads to the next row. A field or a method hangs below the nearest class. This is the same
node unless a method stands between the two, as it does around the members of a class without a
name: then the edge leads further down.
-/

namespace CodeAtlas

/-! ### What encloses what -/

theorem Encloses.trans {a b c : List Nat} (h : Encloses a b)
    (h' : Encloses b c) : Encloses a c := by
  obtain ⟨i, rest, rfl⟩ := h
  obtain ⟨j, more, rfl⟩ := h'
  exact ⟨i, rest ++ j :: more, by simp⟩

theorem Encloses.length_lt {a b : List Nat} (h : Encloses a b) : a.length < b.length := by
  obtain ⟨i, rest, rfl⟩ := h
  simp

/-- An edge that leads from a node to one in the next row. -/
def Graph.SpansOneRow (g : Graph) (e : Edge) : Prop :=
  ∃ a ∈ g.nodes, ∃ b ∈ g.nodes, a.id = e.source ∧ b.id = e.target ∧
    b.layoutHint.depth = a.layoutHint.depth + 1

instance (g : Graph) (e : Edge) : Decidable (g.SpansOneRow e) :=
  inferInstanceAs (Decidable (∃ a ∈ g.nodes, ∃ b ∈ g.nodes, _))

/-- Behind the first number noted with a node stand the numbers noted with the node of that
number. -/
theorem Surveyed.exists_of_numbers_eq_cons {α : Type} {l : List (Sight α)} {x : Sight α}
    (h : Surveyed [] 0 0 l) (hx : x ∈ l) {q : Nat} {more : List Nat}
    (numbers : x.numbers = q :: more) :
    ∃ y ∈ l, y.mark.index = Sight.indexOf l q ∧ y.numbers = more := by
  have nodup := h.nodup_numbers hx
  obtain ⟨y, hy, index, before, eq⟩ := h.exists_numbers_eq hx (q := q) (by simp [numbers])
  rw [eq] at numbers nodup
  cases before with
  | nil => exact ⟨y, hy, index, (List.cons.inj numbers).2⟩
  | cons first before =>
    obtain ⟨rfl, -⟩ := List.cons.inj numbers
    simp at nodup

namespace Java

theorem Concept.isOwner_eq (c : Concept) : c.isOwner = !c.isLeaf := by
  cases c <;> rfl

def Concept.isMethod : Concept → Bool
  | .method _ => true
  | .classDeclaration _ | .field _ | .variable _ | .call _ => false

theorem Concept.isMethod_iff {c : Concept} :
    c.isMethod = true ↔ c.isOwner = true ∧ c.isClass = false := by
  cases c <;> simp [isMethod, isOwner, isClass]

theorem Concept.isOwner_of_isClass {c : Concept} (h : c.isClass = true) : c.isOwner = true := by
  cases c <;> simp_all [isOwner, isClass]

theorem Concept.isClass_of_isMember {c : Concept} (h : c.isMember = true) : c.isClass = false := by
  cases c <;> simp_all [isMember, isClass]

theorem IsNearest.unique {n : Nat} {site : Fin n → List Nat} {concept : Fin n → Concept}
    {kind : Concept → Bool} {p q i : Fin n} (hp : IsNearest site concept kind p i)
    (hq : IsNearest site concept kind q i) : p = q := by
  obtain same | above := hp.nearest q hq.kind_eq hq.encloses
  · exact same.symm
  · obtain same | below := hq.nearest p hp.kind_eq hp.encloses
    · exact same
    · have := above.length_lt
      have := below.length_lt
      omega

/-! ### The row of a node -/

namespace IsChart

variable {t : Rose Json} {n : Nat} {sight : Fin n → Sight Json} {entry : Fin n → Entry}
  {site : Fin n → List Nat} {concept : Fin n → Concept}

/-- A node that is no class stands one row below the nearest class or method that encloses it. -/
theorem exists_owner (h : IsChart t sight entry site concept) {i : Fin n}
    (rest : (concept i).isClass = false) :
    ∃ p, IsNearest site concept Concept.isOwner p i ∧
      (entry i).hint.depth = (entry p).hint.depth + 1 := by
  have here : t.addresses[(sight i).mark.index]? = some (site i) := by rw [h.mark, h.address_eq]
  obtain ⟨inside, visible⟩ :=
    (h.shown_iff (List.mem_of_getElem? (h.visit i)) (h.placed i).means).1 ⟨i, rfl⟩
  have depth := (h.placed i).depth
  cases numbers : (sight i).numbers with
  | nil =>
    -- Nothing shown is noted above it, but a class encloses it.
    obtain ⟨p, -, encloses⟩ := inside.resolve_left (by simp [rest])
    have noted := (h.mem_numbers_iff (h.mem i) here p).2 encloses
    simp [numbers] at noted
  | cons q more =>
    have member : q ∈ (sight i).numbers := by simp [numbers]
    have bound := ((surveyed_scan t).mem_numbers_iff (h.mem i)).1 member
    rw [h.length_eq] at bound
    let p : Fin n := ⟨q, bound.1⟩
    have means : meaningAt t q = some (concept p) := h.meaningAt_eq p
    -- What is noted above it has the node in its body, so it is no leaf.
    have owner : (concept p).isOwner = true := by
      rw [Concept.isOwner_eq, Bool.not_eq_true', Bool.eq_false_iff]
      intro leaf
      exact visible ⟨p, leaf, (h.mem_numbers_iff (h.mem i) here p).1 member⟩
    have found : nearest (meaningAt t) Concept.isOwner (sight i).numbers = some q := by
      rw [numbers, nearest_cons _ _ means, if_pos owner]
    obtain ⟨p', same, isNearest⟩ := h.isNearest found
    obtain rfl : p' = p := Fin.ext same
    refine ⟨p, isNearest, ?_⟩
    obtain ⟨y, hy, index, behind⟩ := (surveyed_scan t).exists_of_numbers_eq_cons (h.mem i) numbers
    obtain rfl : y = sight p :=
      (surveyed_scan t).eq_of_index_eq hy (h.mem p) (by rw [index, h.mark])
    rw [depth, rest, if_neg Bool.false_ne_true, numbers, rowBelow_cons _ means,
      (h.placed p).depth, behind]
    split <;> rfl

theorem depth_of_isClass (h : IsChart t sight entry site concept) {i : Fin n}
    (isClass : (concept i).isClass = true) : (entry i).hint.depth = 0 := by
  rw [(h.placed i).depth, if_pos isClass]

end IsChart

/-! ### Members in the bodies of methods -/

/-- The node at an address is of a kind. -/
def IsAt (t : Rose Json) (kind : Concept → Bool) (address : List Nat) : Prop :=
  ∃ v c, (address, v) ∈ t.visits ∧ concept? v = some c ∧ kind c = true

/-- A field or a method that is declared in the body of a method without a class between the two.
A class encloses them both, and no field, variable or call inside of a class hides the member. -/
structure IsStray (t : Rose Json) (method member : List Nat) : Prop where
  isMethod : IsAt t Concept.isMethod method
  isMember : IsAt t Concept.isMember member
  encloses : Encloses method member
  inside : ∃ a, IsAt t Concept.isClass a ∧ Encloses a method
  alone : ∀ a, IsAt t Concept.isClass a → Encloses method a → ¬ Encloses a member
  visible :
    ∀ a b, IsAt t Concept.isClass a → IsAt t Concept.isLeaf b → Encloses a b → ¬ Encloses b member

namespace IsScoped

variable {t : Rose Json} {g : Graph} {site : Fin g.nodes.length → List Nat}
  {concept : Fin g.nodes.length → Concept} {kind : Concept → Bool} {address : List Nat}

theorem isAt (h : IsScoped t g site concept) {i : Fin g.nodes.length}
    (hi : kind (concept i) = true) : IsAt t kind (site i) := by
  obtain ⟨v, visit, means⟩ := h.means i
  exact ⟨v, concept i, visit, means, hi⟩

/-- A node that is shown is of the kind of the node at its address. -/
theorem kind_of_isAt (h : IsScoped t g site concept) {i : Fin g.nodes.length}
    (hi : IsAt t kind (site i)) : kind (concept i) = true := by
  obtain ⟨v, c, visit, means, hc⟩ := hi
  obtain ⟨w, visit', means'⟩ := h.means i
  obtain ⟨-, rfl⟩ := Prod.mk.inj (List.inj_on_of_nodup_map t.nodup_addresses visit visit' rfl)
  rwa [Option.some.inj (means'.symm.trans means)]

/-- A field, a variable or a call that is shown encloses the address. -/
def Hides (site : Fin g.nodes.length → List Nat) (concept : Fin g.nodes.length → Concept)
    (address : List Nat) : Prop :=
  ∃ p, (concept p).isLeaf = true ∧ Encloses (site p) address

theorem Hides.of_encloses {inner : List Nat} (h : Hides site concept address)
    (encloses : Encloses address inner) : Hides site concept inner := by
  obtain ⟨p, leaf, above⟩ := h
  exact ⟨p, leaf, above.trans encloses⟩

theorem exists_class (h : IsScoped t g site concept) (isClass : IsAt t Concept.isClass address)
    (visible : ¬ Hides site concept address) :
    ∃ i, site i = address ∧ (concept i).isClass = true := by
  obtain ⟨v, c, visit, means, hc⟩ := isClass
  obtain ⟨i, rfl⟩ := (h.shown_iff address v c visit means).2 ⟨.inl hc, visible⟩
  exact ⟨i, rfl, h.kind_of_isAt ⟨v, c, visit, means, hc⟩⟩

/-- Inside of a class all that nothing hides is shown. -/
theorem exists_site (h : IsScoped t g site concept) (isAt : IsAt t kind address)
    (visible : ¬ Hides site concept address) {a : List Nat} (isClass : IsAt t Concept.isClass a)
    (encloses : Encloses a address) : ∃ i, site i = address ∧ kind (concept i) = true := by
  obtain ⟨p, rfl, hp⟩ := h.exists_class isClass fun hides => visible (hides.of_encloses encloses)
  obtain ⟨v, c, visit, means, hc⟩ := isAt
  obtain ⟨i, rfl⟩ := (h.shown_iff address v c visit means).2 ⟨.inr ⟨p, hp, encloses⟩, visible⟩
  exact ⟨i, rfl, h.kind_of_isAt ⟨v, c, visit, means, hc⟩⟩

theorem not_hides_site (h : IsScoped t g site concept) (i : Fin g.nodes.length) :
    ¬ Hides site concept (site i) := by
  obtain ⟨v, visit, means⟩ := h.means i
  exact ((h.shown_iff (site i) v (concept i) visit means).1 ⟨i, rfl⟩).2

/-- Only what is inside of a class hides anything. -/
theorem hides_iff (h : IsScoped t g site concept) :
    Hides site concept address ↔
      ∃ a b, IsAt t Concept.isClass a ∧ IsAt t Concept.isLeaf b ∧ Encloses a b ∧
        Encloses b address := by
  constructor
  · rintro ⟨p, leaf, encloses⟩
    have rest : (concept p).isClass = false := by
      cases meaning : concept p <;> simp_all [Concept.isLeaf, Concept.isClass]
    obtain ⟨q, isClass, above⟩ := h.inside p rest
    exact ⟨site q, site p, h.isAt isClass, h.isAt leaf, above, encloses⟩
  · rintro ⟨a, b, isClass, leaf, above, encloses⟩
    by_contra visible
    obtain ⟨p, rfl, hp⟩ :=
      h.exists_site leaf (fun hides => visible (hides.of_encloses encloses)) isClass above
    exact visible ⟨p, hp, encloses⟩

/-- The members that stand below a method and not below a class are the strays of the tree. -/
theorem exists_stray_iff (h : IsScoped t g site concept)
    (owned : ∀ i, (concept i).isClass = false → ∃ p, IsNearest site concept Concept.isOwner p i) :
    (∃ method member, IsStray t method member) ↔
      ∃ p i, (concept i).isMember = true ∧ (concept p).isMethod = true ∧
        IsNearest site concept Concept.isOwner p i := by
  constructor
  · rintro ⟨method, member, stray⟩
    obtain ⟨a, isClass, above⟩ := stray.inside
    have visible : ¬ Hides site concept member := by
      rw [h.hides_iff]
      rintro ⟨a, b, isClass, leaf, above, encloses⟩
      exact stray.visible a b isClass leaf above encloses
    obtain ⟨i, rfl, isMember⟩ :=
      h.exists_site stray.isMember visible isClass (above.trans stray.encloses)
    obtain ⟨p, rfl, isMethod⟩ :=
      h.exists_site stray.isMethod
        (fun hides => visible (hides.of_encloses stray.encloses)) isClass above
    obtain ⟨isOwner, rest⟩ := Concept.isMethod_iff.1 isMethod
    obtain ⟨q, isNearest⟩ := owned i (Concept.isClass_of_isMember isMember)
    refine ⟨q, i, isMember, Concept.isMethod_iff.2 ⟨isNearest.kind_eq, Bool.eq_false_iff.2 ?_⟩,
      isNearest⟩
    -- If a class came first, it would stand between the method and the member.
    intro hq
    obtain rfl | below := isNearest.nearest p isOwner stray.encloses
    · simp [hq] at rest
    · exact stray.alone (site q) (h.isAt hq) below isNearest.encloses
  · rintro ⟨p, i, isMember, isMethod, isNearest⟩
    refine ⟨site p, site i, h.isAt isMethod, h.isAt isMember, isNearest.encloses, ?_, ?_, ?_⟩
    · obtain ⟨q, isClass, above⟩ := h.inside p (Concept.isMethod_iff.1 isMethod).2
      exact ⟨site q, h.isAt isClass, above⟩
    · intro a isClass below encloses
      obtain ⟨q, rfl, hq⟩ :=
        h.exists_class isClass fun hides => h.not_hides_site i (hides.of_encloses encloses)
      have lt := below.length_lt
      obtain rfl | above := isNearest.nearest q (Concept.isOwner_of_isClass hq) encloses
      · omega
      · have := above.length_lt
        omega
    · intro a b isClass leaf above encloses
      exact h.not_hides_site i (h.hides_iff.2 ⟨a, b, isClass, leaf, above, encloses⟩)

end IsScoped

/-! ### Edges and rows -/

namespace IsChart

variable {t : Rose Json} {sight : Fin (graphOf t).nodes.length → Sight Json}
  {entry : Fin (graphOf t).nodes.length → Entry} {site : Fin (graphOf t).nodes.length → List Nat}
  {concept : Fin (graphOf t).nodes.length → Concept}

theorem depth_node (h : IsChart t sight entry site concept) (i : Fin (graphOf t).nodes.length) :
    ((graphOf t).nodes.get i).layoutHint.depth = (entry i).hint.depth := by
  rw [h.node_eq]
  rfl

/-- An edge leads from one entry to another, and spans one row if they do. -/
theorem spansOneRow_iff (h : IsChart t sight entry site concept)
    {p i : Fin (graphOf t).nodes.length} {e : Edge}
    (source : e.source = ((graphOf t).nodes.get p).id)
    (target : e.target = ((graphOf t).nodes.get i).id) :
    (graphOf t).SpansOneRow e ↔ (entry i).hint.depth = (entry p).hint.depth + 1 := by
  have unique := List.inj_on_of_nodup_map (isForest_graphOf t).nodup_ids
  rw [← h.depth_node, ← h.depth_node]
  constructor
  · rintro ⟨a, ha, b, hb, hsource, htarget, depth⟩
    obtain rfl := unique ha (List.get_mem _ p) (hsource.trans source)
    obtain rfl := unique hb (List.get_mem _ i) (htarget.trans target)
    exact depth
  · intro depth
    exact ⟨_, List.get_mem _ p, _, List.get_mem _ i, source.symm, target.symm, depth⟩

/-- There are edges into all nodes but classes. -/
theorem exists_edge_iff (h : IsChart t sight entry site concept)
    (i : Fin (graphOf t).nodes.length) :
    (∃ e ∈ (graphOf t).edges, e.target = ((graphOf t).nodes.get i).id) ↔
      (concept i).isClass = false := by
  rw [← List.mem_map, ← List.count_pos_iff, h.count_targets]
  cases (concept i).isClass <;> simp

/-- The edge into a node spans one row unless the node is a member and a method is the nearest
around it. -/
theorem spansOneRow_iff_not_stray (h : IsChart t sight entry site concept) {e : Edge}
    (he : e ∈ (graphOf t).edges) {q i : Fin (graphOf t).nodes.length}
    (target : e.target = ((graphOf t).nodes.get i).id)
    (isOwner : IsNearest site concept Concept.isOwner q i) :
    (graphOf t).SpansOneRow e ↔ ¬ ((concept i).isMember = true ∧ (concept q).isMethod = true) := by
  have rest := (h.exists_edge_iff i).1 ⟨e, he, target⟩
  obtain ⟨p, source, isNearest⟩ := h.exists_source he target
  obtain ⟨q', isOwner', depth⟩ := h.exists_owner rest
  obtain rfl := isOwner'.unique isOwner
  rw [h.spansOneRow_iff source target, depth]
  cases isMember : (concept i).isMember with
  | false =>
    rw [Concept.hangsBelow, isMember] at isNearest
    obtain rfl := isNearest.unique isOwner
    simp
  | true =>
    -- The edge comes from a class, and classes stand in the first row.
    rw [Concept.hangsBelow, isMember] at isNearest
    rw [h.depth_of_isClass isNearest.kind_eq, Concept.isMethod_iff]
    cases isClass : (concept q').isClass with
    | true => simp [h.depth_of_isClass isClass]
    | false =>
      obtain ⟨above, -, depth⟩ := h.exists_owner isClass
      simp [depth, isOwner.kind_eq]

end IsChart

/-- In the conceptual drawing of any value a node without an edge into it stands in the first row.
All edges lead from one row to the next if and only if no field or method is declared in the body of
a method without a class between the two. -/
theorem edges_span_one_row_iff (root : Json) :
    (∀ node ∈ (conceptual.draw root).nodes,
      (∀ e ∈ (conceptual.draw root).edges, e.target ≠ node.id) → node.layoutHint.depth = 0) ∧
    ((∀ e ∈ (conceptual.draw root).edges, (conceptual.draw root).SpansOneRow e) ↔
      ¬ ∃ method member, IsStray (anatomy.unfold root) method member) := by
  have draw : conceptual.draw root = graphOf (anatomy.unfold root) :=
    congrArg (Graph.ofDraft .javaConcepts) (draft_conceptual root)
  rw [draw]
  obtain ⟨sight, entry, site, concept, chart⟩ :=
    exists_isChart (anatomy.unfold root) (Graph.length_nodes_ofDraft .javaConcepts _)
  constructor
  · intro node mem free
    obtain ⟨i, rfl⟩ := List.get_of_mem mem
    have isClass : (concept i).isClass = true := by
      rw [← Bool.not_eq_false, ← chart.exists_edge_iff]
      rintro ⟨e, he, target⟩
      exact free e he target
    rw [chart.depth_node, chart.depth_of_isClass isClass]
  · have owned (i) (rest : (concept i).isClass = false) :
        ∃ p, IsNearest site concept Concept.isOwner p i := by
      obtain ⟨p, isNearest, -⟩ := chart.exists_owner rest
      exact ⟨p, isNearest⟩
    rw [chart.isScoped.exists_stray_iff owned]
    constructor
    · rintro spans ⟨q, i, isMember, isMethod, isNearest⟩
      obtain ⟨e, he, target⟩ := (chart.exists_edge_iff i).2 (Concept.isClass_of_isMember isMember)
      exact (chart.spansOneRow_iff_not_stray he target isNearest).1 (spans e he)
        ⟨isMember, isMethod⟩
    · intro none_stray e he
      obtain ⟨p, i, -, eq⟩ := chart.mem_edges_iff.1 he
      have target : e.target = ((graphOf (anatomy.unfold root)).nodes.get i).id := by
        rw [eq, chart.node_eq]
        rfl
      obtain ⟨q, isNearest⟩ := owned i ((chart.exists_edge_iff i).1 ⟨e, he, target⟩)
      refine (chart.spansOneRow_iff_not_stray he target isNearest).2 ?_
      rintro ⟨isMember, isMethod⟩
      exact none_stray ⟨q, i, isMember, isMethod, isNearest⟩

/-- A class without a name, in the body of a method, declares another method. It hangs below
the class that has the first method, two rows further down. -/
theorem edge_spans_two_rows :
    let token (text : String) : Json := .obj [("image", .str text)]
    let node (production : String) (children : List (String × Json)) : Json :=
      .obj [("name", .str production), ("children", .obj (children.map fun c => (c.1, .arr [c.2])))]
    let method (name : String) (body : Json) : Json :=
      let declarator := node "methodDeclarator" [("Identifier", token name)]
      node "methodDeclaration"
        [("methodHeader", node "methodHeader" [("methodDeclarator", declarator)]),
          ("methodBody", body)]
    let root := node "normalClassDeclaration"
      [("typeIdentifier", node "typeIdentifier" [("Identifier", token "A")]),
        ("classBody",
          method "f" (node "classBody" [("methodDeclaration", method "g" (node "block" []))]))]
    (conceptual.draw root).nodes.map (fun n => (n.label, n.layoutHint.depth)) =
        [("[Class: A]", 0), ("[Method: f]", 1), ("[Method: g]", 2)] ∧
      (conceptual.draw root).edges.map (fun e => (e.source, e.target)) =
        [("simple-java-0", "simple-java-1"), ("simple-java-0", "simple-java-2")] ∧
      ¬ ∀ e ∈ (conceptual.draw root).edges, (conceptual.draw root).SpansOneRow e := by
  decide +kernel

end Java

end CodeAtlas
