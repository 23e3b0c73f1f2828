import CodeAtlas.Proofs.Outline.Draft
import CodeAtlas.SourceTree
import Mathlib.Data.List.Nodup
import Mathlib.Logic.Relation

/-!
# Drawings are forests

In the drawing of any source tree the nodes are named by their numbers, every edge leads from a node
to a later one, and no node has two edges into it. So no edge dangles, no path comes back to where
it began, and the drawing is a forest.

Names are text. That different numbers give different names, and different edges different names
of edges, rests on the digits of a number holding no hyphen: the number of a node can be read off
the end of its name, and off the end of the name of the edge into it.
-/

namespace CodeAtlas

/-! ### Names -/

/-- Two texts that end in a hyphen and digits agree only if the digits do. -/
theorem append_repr_inj {a b : String} {n m : Nat}
    (h : a ++ "-" ++ toString n = b ++ "-" ++ toString m) : n = m := by
  have digits (k : Nat) : '-' ∉ Nat.toDigits 10 k := by
    intro hyphen
    have := Nat.isDigit_of_mem_toDigits (by decide) (by decide) hyphen
    exact absurd this (by decide)
  have lists : a.toList ++ '-' :: Nat.toDigits 10 n = b.toList ++ '-' :: Nat.toDigits 10 m := by
    simpa [Nat.toString_eq_repr, Nat.toList_repr] using congrArg String.toList h
  -- Read from the end, both digit strings stop at the first hyphen.
  have ends : (Nat.toDigits 10 n).reverse = (Nat.toDigits 10 m).reverse := by
    have reversed := congrArg (List.takeWhile (· != '-')) (congrArg List.reverse lists)
    have stop (k : Nat) (l : List Char) :
        ((l ++ '-' :: Nat.toDigits 10 k).reverse).takeWhile (· != '-') =
          (Nat.toDigits 10 k).reverse := by
      rw [List.reverse_append, List.reverse_cons, List.append_assoc, List.takeWhile_append_of_pos]
      · simp
      · intro c hc
        rw [List.mem_reverse] at hc
        simp only [bne_iff_ne, ne_eq]
        rintro rfl
        exact digits k hc
    rwa [stop, stop] at reversed
  have same := congrArg (fun ds => Nat.ofDigitChars 10 ds 0) (List.reverse_inj.1 ends)
  simpa using same

theorem Family.nodeName_inj {f : Family} {n m : Nat} : f.nodeName n = f.nodeName m ↔ n = m :=
  ⟨append_repr_inj, fun h => h ▸ rfl⟩

/-- The name of an edge tells where it leads. -/
theorem Edge.target_eq_of_nameOf_eq {f : Family} {s s' : String} {n m : Nat}
    (h : Edge.nameOf s (f.nodeName n) = Edge.nameOf s' (f.nodeName m)) : n = m := by
  refine append_repr_inj (a := "e-" ++ s ++ "-to-" ++ f.stem)
    (b := "e-" ++ s' ++ "-to-" ++ f.stem) ?_
  simpa [Edge.nameOf, Family.nodeName, String.append_assoc] using h

/-! ### The links of a draft -/

/-- An edge into an entry of a draft, from an earlier entry, by number, or from what the draft is
added below. -/
structure Link where
  source : Option Nat
  target : Nat

/-- The edge of a link in a draft that is added after `base` nodes. -/
def Link.toEdge (f : Family) (base : Nat) (parent : Option String) (l : Link) : Edge :=
  .between ((l.source.map (f.nodeName <| base + ·)).getD (parent.getD ""))
    (f.nodeName (base + l.target))

/-- The link into an entry, unless it hangs below nothing. -/
def Entry.link? (attached : Bool) (index : Nat) (e : Entry) : Option Link :=
  match e.anchor with
  | .loose => none
  | .outer => if attached then some ⟨none, index⟩ else none
  | .entry k => some ⟨some k, index⟩

theorem Entry.link?_eq_some_iff {attached : Bool} {index : Nat} {e : Entry} {l : Link} :
    e.link? attached index = some l ↔ l.target = index ∧
      ((l.source = none ∧ e.anchor = .outer ∧ attached = true) ∨
        ∃ k, l.source = some k ∧ e.anchor = .entry k) := by
  obtain ⟨source, target⟩ := l
  rw [link?]
  cases e.anchor with
  | loose => simp
  | outer => cases attached <;> simp [and_comm, eq_comm]
  | entry k => simp [and_comm, eq_comm]

theorem Entry.edge?_eq_link? (f : Family) (base : Nat) (parent : Option String) (index : Nat)
    (e : Entry) :
    e.edge? f base parent index =
      (e.link? parent.isSome index).map (Link.toEdge f base parent) := by
  rw [edge?, link?]
  cases e.anchor with
  | loose | entry k => rfl
  | outer => cases parent <;> rfl

namespace Draft

/-- The links of a draft that is added below something or not. -/
def links (attached : Bool) (d : Draft) : List Link :=
  (d.mapIdx fun k e => e.link? attached k).filterMap id

variable {attached : Bool} {d : Draft}

theorem mem_links_iff {l : Link} :
    l ∈ d.links attached ↔ ∃ e, d[l.target]? = some e ∧
      ((l.source = none ∧ e.anchor = .outer ∧ attached = true) ∨
        ∃ k, l.source = some k ∧ e.anchor = .entry k) := by
  rw [links, List.mem_filterMap]
  constructor
  · rintro ⟨_, mem, rfl⟩
    obtain ⟨i, inside, link⟩ := List.mem_mapIdx.1 mem
    obtain ⟨rfl, source⟩ := Entry.link?_eq_some_iff.1 link
    exact ⟨_, List.getElem?_eq_getElem inside, source⟩
  · rintro ⟨e, here, source⟩
    obtain ⟨inside, rfl⟩ := List.getElem?_eq_some_iff.1 here
    have link := Entry.link?_eq_some_iff.2 ⟨rfl, source⟩
    exact ⟨_, List.mem_mapIdx.2 ⟨l.target, inside, link⟩, rfl⟩

theorem target_lt_of_mem_links {l : Link} (h : l ∈ d.links attached) : l.target < d.length := by
  obtain ⟨e, here, -⟩ := mem_links_iff.1 h
  exact (List.getElem?_eq_some_iff.1 here).1

/-- Links come in the order of their targets. -/
theorem pairwise_links (attached : Bool) (d : Draft) :
    (d.links attached).Pairwise fun l l' => l.target < l'.target := by
  rw [links, List.pairwise_filterMap, List.pairwise_iff_getElem]
  intro i j _ _ lt l hl l' hl'
  rw [id, List.getElem_mapIdx] at hl hl'
  rw [(Entry.link?_eq_some_iff.1 hl).1, (Entry.link?_eq_some_iff.1 hl').1]
  exact lt

/-- The edges of a draft are those of its links. -/
theorem edges_eq_links (f : Family) (base : Nat) (parent : Option String) (d : Draft) :
    (d.mapIdx fun k e => e.edge? f base parent k).filterMap id =
      (d.links parent.isSome).map (Link.toEdge f base parent) := by
  simp only [Entry.edge?_eq_link?, links, List.mapIdx_eq_zipIdx_map, List.filterMap_map,
    List.map_filterMap]
  rfl

theorem anchor_before {next : Nat} (h : Anchored next d) {i : Nat} {e : Entry}
    (here : d[i]? = some e) : e.anchor.Before (next + i) := by
  induction d generalizing next i with
  | nil => simp at here
  | cons first d ih =>
    cases i with
    | zero =>
      obtain rfl := Option.some.inj here
      exact h.1
    | succ i =>
      rw [← Nat.add_assoc, Nat.add_right_comm]
      exact ih h.2 here

theorem lt_of_anchor (h : Anchored 0 d) {p c : Nat} {e : Entry} (here : d[c]? = some e)
    (anchor : e.anchor = .entry p) : p < c := by
  have before := anchor_before h here
  rwa [anchor, Nat.zero_add] at before

end Draft

/-! ### The graph of a draft -/

namespace Graph

/-- There is an edge between two names. -/
def Linked (g : Graph) (source target : String) : Prop :=
  ∃ e ∈ g.edges, e.source = source ∧ e.target = target

/-- The name of the node in a place. -/
def idAt? (g : Graph) (i : Nat) : Option String := g.nodes[i]?.map (·.id)

/-- A graph whose nodes are numbered in a family's way and in which every edge leads to a later
node, in the order of the nodes they lead to. -/
structure IsForest (g : Graph) (f : Family) : Prop where
  id_eq : ∀ i < g.nodes.length, g.idAt? i = some (f.stem ++ "-" ++ toString i)
  nodup_ids : (g.nodes.map (·.id)).Nodup
  forward : ∀ e ∈ g.edges, ∃ p c, p < c ∧ g.idAt? p = some e.source ∧ g.idAt? c = some e.target
  /-- No node has two edges into it. -/
  nodup_targets : (g.edges.map (·.target)).Nodup
  ordered : g.edges.Pairwise fun e e' =>
    ∃ c c', c < c' ∧ g.idAt? c = some e.target ∧ g.idAt? c' = some e'.target
  nodup_edgeIds : (g.edges.map (·.id)).Nodup
  closed : g.isClosed = true
  acyclic : ∀ id, ¬ Relation.TransGen g.Linked id id

variable {f : Family} {d : Draft}

/-- The graph of a draft that is drawn on its own. -/
def ofDraft (f : Family) (d : Draft) : Graph := Graph.empty.add f none d

theorem getElem?_nodes_ofDraft (f : Family) (d : Draft) (i : Nat) :
    (ofDraft f d).nodes[i]? = d[i]?.map (·.toNode f i) := by
  simp [ofDraft, add, Graph.empty]

@[simp] theorem length_nodes_ofDraft (f : Family) (d : Draft) :
    (ofDraft f d).nodes.length = d.length := by
  simp [ofDraft, add, Graph.empty]

theorem edges_ofDraft (f : Family) (d : Draft) :
    (ofDraft f d).edges = (d.links false).map (Link.toEdge f 0 none) :=
  Draft.edges_eq_links f 0 none d

/-- An edge leads into an entry from the one that it hangs below. -/
theorem mem_edges_ofDraft_iff {e : Edge} :
    e ∈ (ofDraft f d).edges ↔ ∃ p c entry, d[c]? = some entry ∧ entry.anchor = .entry p ∧
      e = .between (f.nodeName p) (f.nodeName c) := by
  have edge (p c : Nat) :
      Link.toEdge f 0 none ⟨some p, c⟩ = .between (f.nodeName p) (f.nodeName c) := by
    simp [Link.toEdge]
  rw [edges_ofDraft, List.mem_map]
  constructor
  · rintro ⟨⟨source, c⟩, link, rfl⟩
    obtain ⟨entry, here, ⟨-, -, attached⟩ | ⟨p, rfl, anchor⟩⟩ := Draft.mem_links_iff.1 link
    · cases attached
    · exact ⟨p, c, entry, here, anchor, edge p c⟩
  · rintro ⟨p, c, entry, here, anchor, rfl⟩
    exact ⟨⟨some p, c⟩, Draft.mem_links_iff.2 ⟨entry, here, .inr ⟨p, rfl, anchor⟩⟩, edge p c⟩

theorem exists_lt_of_mem_edges (h : Draft.Anchored 0 d) {e : Edge} (he : e ∈ (ofDraft f d).edges) :
    ∃ p c, p < c ∧ c < d.length ∧ e = .between (f.nodeName p) (f.nodeName c) := by
  obtain ⟨p, c, entry, here, anchor, rfl⟩ := mem_edges_ofDraft_iff.1 he
  exact ⟨p, c, Draft.lt_of_anchor h here anchor, (List.getElem?_eq_some_iff.1 here).1, rfl⟩

theorem idAt?_ofDraft {i : Nat} (f : Family) (inside : i < d.length) :
    (ofDraft f d).idAt? i = some (f.nodeName i) := by
  rw [idAt?, getElem?_nodes_ofDraft, List.getElem?_eq_getElem inside]
  rfl

theorem eq_of_idAt?_ofDraft {i : Nat} {id : String} (h : (ofDraft f d).idAt? i = some id) :
    id = f.nodeName i := by
  rw [idAt?, getElem?_nodes_ofDraft] at h
  obtain ⟨node, here, rfl⟩ := Option.map_eq_some_iff.1 h
  obtain ⟨e, -, rfl⟩ := Option.map_eq_some_iff.1 here
  rfl

theorem ids_ofDraft (f : Family) (d : Draft) :
    (ofDraft f d).nodes.map (·.id) = (List.range d.length).map f.nodeName := by
  refine List.ext_getElem (by simp) ?_
  intro i inside _
  have inside : i < d.length := by simpa using inside
  have here := idAt?_ofDraft f inside
  rw [idAt?, List.getElem?_eq_getElem (by simpa using inside)] at here
  simpa using here

theorem hasNode_ofDraft {i : Nat} (f : Family) (inside : i < d.length) :
    (ofDraft f d).hasNode (f.nodeName i) = true := by
  obtain ⟨node, here, id⟩ := Option.map_eq_some_iff.1 (idAt?_ofDraft f inside)
  exact List.any_eq_true.2 ⟨node, List.mem_of_getElem? here, by simp [id]⟩

/-- A path leads to nodes with greater and greater numbers. -/
theorem lt_of_transGen (h : Draft.Anchored 0 d) {p : Nat} {target : String}
    (path : Relation.TransGen (ofDraft f d).Linked (f.nodeName p) target) :
    ∃ c, target = f.nodeName c ∧ p < c := by
  have step {p : Nat} {target : String} (link : (ofDraft f d).Linked (f.nodeName p) target) :
      ∃ c, target = f.nodeName c ∧ p < c := by
    obtain ⟨e, he, source, rfl⟩ := link
    obtain ⟨q, c, lt, -, rfl⟩ := exists_lt_of_mem_edges h he
    obtain rfl := Family.nodeName_inj.1 source
    exact ⟨c, rfl, lt⟩
  induction path with
  | single link => exact step link
  | tail _ link ih =>
    obtain ⟨c, rfl, hc⟩ := ih
    obtain ⟨c', rfl, hc'⟩ := step link
    exact ⟨c', rfl, Nat.lt_trans hc hc'⟩

/-- The graph of a draft is a forest if its entries hang below earlier ones. -/
theorem isForest_ofDraft (f : Family) (h : Draft.Anchored 0 d) : (ofDraft f d).IsForest f where
  id_eq := by
    intro i inside
    exact idAt?_ofDraft f (by simpa using inside)
  nodup_ids := by
    rw [ids_ofDraft]
    exact List.Nodup.map (fun _ _ => Family.nodeName_inj.1) List.nodup_range
  forward := by
    intro e he
    obtain ⟨p, c, lt, inside, rfl⟩ := exists_lt_of_mem_edges h he
    exact ⟨p, c, lt, idAt?_ofDraft f (by omega), idAt?_ofDraft f inside⟩
  nodup_targets := by
    rw [edges_ofDraft, List.map_map]
    refine List.pairwise_map.2 ((Draft.pairwise_links false d).imp ?_)
    intro l l' lt same
    have := Family.nodeName_inj.1 same
    omega
  ordered := by
    rw [edges_ofDraft]
    refine List.pairwise_map.2 ((Draft.pairwise_links false d).imp_of_mem ?_)
    intro l l' hl hl' lt
    have inside := Draft.target_lt_of_mem_links hl'
    exact ⟨0 + l.target, 0 + l'.target, by omega, idAt?_ofDraft f (by omega),
      idAt?_ofDraft f (by omega)⟩
  nodup_edgeIds := by
    rw [edges_ofDraft, List.map_map]
    refine List.pairwise_map.2 ((Draft.pairwise_links false d).imp ?_)
    intro l l' lt same
    have := Edge.target_eq_of_nameOf_eq same
    omega
  closed := by
    rw [isClosed, List.isEmpty_iff, danglingEdges, List.filter_eq_nil_iff]
    intro e he
    obtain ⟨p, c, lt, inside, rfl⟩ := exists_lt_of_mem_edges h he
    have source := hasNode_ofDraft (d := d) (i := p) f (by omega)
    have target := hasNode_ofDraft f inside
    simp [anchors, Edge.between, source, target]
  acyclic := by
    intro id cycle
    obtain ⟨next, ⟨e, he, rfl, -⟩, -⟩ := Relation.TransGen.head'_iff.1 cycle
    obtain ⟨p, c, -, -, rfl⟩ := exists_lt_of_mem_edges h he
    obtain ⟨c, same, lt⟩ := lt_of_transGen h cycle
    exact absurd (Family.nodeName_inj.1 same) (Nat.ne_of_lt lt)

end Graph

/-! ### The drawings of source trees -/

/-- A way of drawing in which every entry hangs below an earlier one. -/
def Drawing.Anchored {α : Type} (d : Drawing α) : Prop :=
  ∀ tree depth place attached, Draft.Anchored 0 (d.draft tree depth place attached)

namespace Drawing

variable {α β : Type}

theorem anchored_structural (f : Family) (view : α → Option (Rose β)) (label : β → String) :
    (structural f view label).Anchored := by
  intro tree depth place attached
  have outer : Anchor.outer.Before 0 := trivial
  simp only [structural]
  split
  · exact Rose.anchored_draft outer _
  · trivial

theorem anchored_conceptual (f : Family) (view : α → Option (Rose β))
    (rules : Rose.ConceptRules β) : (conceptual f view rules).Anchored := by
  intro tree depth place attached
  have outer : Anchor.outer.Before 0 := trivial
  simp only [conceptual]
  split
  · exact Rose.anchored_draftAll outer _
  · trivial

theorem isForest_draw {d : Drawing α} (h : d.Anchored) (tree : α) :
    (d.draw tree).IsForest d.family :=
  Graph.isForest_ofDraft d.family (h tree 0 0 false)

end Drawing

theorem Stylesheet.anchored_drawing : drawing.Anchored := by
  intro tree depth place attached
  have outer : Anchor.outer.Before 0 := trivial
  simp only [drawing]
  split
  · trivial
  · exact Rose.anchored_draft outer _

theorem Java.anchored_conceptual : conceptual.Anchored := by
  intro tree depth place attached
  simp only [conceptual]
  split
  · refine anchored_entries ⟨by simp, ?_⟩ _
    cases attached <;> trivial
  · trivial

namespace SourceTree

/-- The family that a source tree is drawn in. -/
def family (mode : Fidelity) : SourceTree → Family
  | .script _ _ => if mode = .simple then .scriptConcepts else .script
  | .html _ => .markup
  | .css _ => .stylesheet
  | .java _ => if mode = .simple then .javaConcepts else .java
  | .python _ => if mode = .simple then .pythonConcepts else .python

/-- Whatever the source tree, well-formed or not, and whatever the fidelity, its drawing is a
forest: nodes are named by their numbers, edges lead from earlier to later nodes in the order of
these, and no node has two edges into it. -/
theorem isForest_toGraph (tree : SourceTree) (mode : Fidelity) :
    (tree.toGraph mode).IsForest (tree.family mode) := by
  cases tree with
  | script program keys =>
    cases mode with
    | simple => exact Drawing.isForest_draw (Drawing.anchored_conceptual _ _ _) program
    | advanced => exact Drawing.isForest_draw (Drawing.anchored_structural _ _ _) program
  | html root => exact Drawing.isForest_draw (Drawing.anchored_structural _ _ _) root
  | css root => exact Drawing.isForest_draw Stylesheet.anchored_drawing root
  | java root =>
    cases mode with
    | simple => exact Drawing.isForest_draw Java.anchored_conceptual root
    | advanced => exact Drawing.isForest_draw (Drawing.anchored_structural _ _ _) root
  | python root =>
    cases mode with
    | simple => exact Drawing.isForest_draw (Drawing.anchored_conceptual _ _ _) root
    | advanced => exact Drawing.isForest_draw (Drawing.anchored_structural _ _ _) root

end SourceTree

end CodeAtlas
