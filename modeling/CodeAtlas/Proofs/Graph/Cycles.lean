import CodeAtlas.Proofs.Graph.Reach
import CodeAtlas.Proofs.Project.Soundness

/-!
# The listed cycles are the cycles

A node is listed if and only if a path of one or more edges leads from it back to it, and two nodes
stand in one group if and only if each reaches the other. The groups do not overlap, and sorting the
names once is enough to have every group sorted and the groups in lexicographic order: a group is
listed where its least member stands.

In a dependency graph edges lead only into files, so nothing outside the project lies on a cycle.
-/

namespace CodeAtlas.Graph

open Relation (TransGen)

theorem mem_sortedIds_iff {g : Graph} {id : String} :
    id ∈ g.sortedIds ↔ ∃ n ∈ g.nodes, n.id = id := by
  simp [sortedIds, List.mem_eraseDups]

/-! ### Classes of sorted names -/

section Classes

variable {members : List String} {classOf : String → List String}

/-- A sorted class comes before another one if it has a member below all of the other's. -/
theorem lt_of_forall_lt {first second : List String} {least : String}
    (sorted : first.Pairwise (· < ·)) (mem : least ∈ first) (least_le : ∀ id ∈ first, least ≤ id)
    (below : ∀ id ∈ second, least < id) (ne_nil : second ≠ []) : first < second := by
  obtain ⟨next, others, rfl⟩ := List.exists_cons_of_ne_nil ne_nil
  cases first with
  | nil => simp at mem
  | cons head tail =>
    have head_le : head ≤ least := by
      rcases List.mem_cons.1 mem with rfl | later
      · exact le_refl _
      · exact (List.rel_of_pairwise_cons sorted later).le
    exact List.Lex.rel (lt_of_le_of_lt head_le (below next List.mem_cons_self))

/-- The classes of sorted names, each listed where its first member stands, are in lexicographic
order. -/
theorem pairwise_lt_eraseDups_map (sorted : members.Pairwise (· < ·))
    (self : ∀ a ∈ members, a ∈ classOf a) (inside : ∀ a ∈ members, ∀ b ∈ classOf a, b ∈ members)
    (same : ∀ a ∈ members, ∀ b ∈ classOf a, classOf b = classOf a)
    (ascending : ∀ a ∈ members, (classOf a).Pairwise (· < ·)) :
    (members.map classOf).eraseDups.Pairwise (· < ·) := by
  -- along the list with the whole class of its head taken away, so that `inside` holds of what is
  -- left
  induction members using eraseDupsBy_induction classOf with
  | nil => simp
  | cons a rest ih =>
    obtain ⟨above, sortedRest⟩ := List.pairwise_cons.1 sorted
    have others : (rest.map classOf).filter (fun c => !c == classOf a) =
        (rest.filter fun b => decide ((classOf b == classOf a) = false)).map classOf := by
      rw [List.filter_map]
      congr 2
      funext b
      simp [Bool.beq_eq_decide_eq]
    rw [List.map_cons, List.eraseDups_cons, others, List.pairwise_cons]
    have other_iff {b : String} :
        b ∈ rest.filter (fun b => decide ((classOf b == classOf a) = false)) ↔
          b ∈ rest ∧ classOf b ≠ classOf a := by
      simp
    constructor
    · intro group mem
      rw [List.mem_eraseDups, List.mem_map] at mem
      obtain ⟨b, hb, rfl⟩ := mem
      obtain ⟨inRest, different⟩ := other_iff.1 hb
      have hb := List.mem_cons_of_mem a inRest
      refine lt_of_forall_lt (ascending a List.mem_cons_self) (self a List.mem_cons_self) ?_ ?_
        (List.ne_nil_of_mem (self b hb))
      · intro id mem
        rcases List.mem_cons.1 (inside a List.mem_cons_self id mem) with rfl | later
        · exact le_refl _
        · exact (above id later).le
      · intro id mem
        rcases List.mem_cons.1 (inside b hb id mem) with rfl | later
        · exact absurd (same b hb id mem).symm different
        · exact above id later
    · have keeps {b : String}
          (hb : b ∈ rest.filter fun b => decide ((classOf b == classOf a) = false)) :
          b ∈ a :: rest :=
        List.mem_cons_of_mem a (other_iff.1 hb).1
      apply ih (sortedRest.filter _)
      · intro b hb
        exact self b (keeps hb)
      · intro b hb c hc
        have eq := same b (keeps hb) c hc
        rcases List.mem_cons.1 (inside b (keeps hb) c hc) with rfl | later
        · exact absurd eq.symm (other_iff.1 hb).2
        · exact other_iff.2 ⟨later, eq ▸ (other_iff.1 hb).2⟩
      · intro b hb
        exact same b (keeps hb)
      · intro b hb
        exact ascending b (keeps hb)

end Classes

/-! ### Groups -/

/-- One name reaches another, as the search found it. -/
def reaches (g : Graph) (a b : String) : Bool :=
  (g.sortedIds.map fun id => (id, reachedFrom g.anchoredEdges g.nodes.length id)).any
    fun (id, ends) => id == a && ends.contains b

/-- The names on cycles, sorted. -/
def onCycles (g : Graph) : List String := g.sortedIds.filter fun a => g.reaches a a

/-- The names on cycles that reach a name and are reached from it. -/
def groupOf (g : Graph) (a : String) : List String :=
  g.onCycles.filter fun b => g.reaches a b && g.reaches b a

theorem cycles_eq (g : Graph) : g.cycles = (g.onCycles.map g.groupOf).eraseDups := by
  have names : (g.sortedIds.map fun id =>
      (id, reachedFrom g.anchoredEdges g.nodes.length id)).map (·.1) = g.sortedIds := by
    simp [Function.comp_def]
  rw [cycles, cycleGroups, names]
  rfl

variable {g : Graph} {a b : String}

/-- A path starts at a node. -/
theorem mem_sortedIds_of_transGen (path : TransGen g.Leads a b) : a ∈ g.sortedIds := by
  obtain ⟨c, ⟨source, -⟩, -⟩ := Relation.TransGen.head'_iff.1 path
  exact mem_sortedIds_iff.2 source

theorem reaches_iff : g.reaches a b = true ↔ TransGen g.Leads a b := by
  simp only [reaches, List.any_map, List.any_eq_true, Function.comp_apply,
    Bool.and_eq_true, beq_iff_eq, List.contains_iff_mem, mem_reachedFrom_anchoredEdges_iff]
  constructor
  · rintro ⟨id, -, rfl, path⟩
    exact path
  · intro path
    exact ⟨a, mem_sortedIds_of_transGen path, rfl, path⟩

theorem mem_onCycles_iff : a ∈ g.onCycles ↔ TransGen g.Leads a a := by
  rw [onCycles, List.mem_filter, reaches_iff]
  exact and_iff_right_of_imp mem_sortedIds_of_transGen

/-- The members of a group are the names that a name reaches and that reach it. -/
theorem mem_groupOf_iff : b ∈ g.groupOf a ↔ TransGen g.Leads a b ∧ TransGen g.Leads b a := by
  rw [groupOf, List.mem_filter, Bool.and_eq_true, reaches_iff, reaches_iff, mem_onCycles_iff]
  refine and_iff_right_of_imp ?_
  rintro ⟨there, back⟩
  exact back.trans there

theorem pairwise_onCycles (g : Graph) : g.onCycles.Pairwise (· < ·) :=
  (pairwise_eraseDups_mergeSort _).filter _

theorem pairwise_groupOf (g : Graph) (a : String) : (g.groupOf a).Pairwise (· < ·) :=
  (pairwise_onCycles g).filter _

theorem self_mem_groupOf (h : a ∈ g.onCycles) : a ∈ g.groupOf a := by
  rw [mem_onCycles_iff] at h
  exact mem_groupOf_iff.2 ⟨h, h⟩

theorem mem_onCycles_of_mem_groupOf (h : b ∈ g.groupOf a) : b ∈ g.onCycles :=
  List.mem_of_mem_filter h

/-- A group belongs to each of its members. -/
theorem groupOf_eq_of_mem (h : b ∈ g.groupOf a) : g.groupOf b = g.groupOf a := by
  obtain ⟨there, back⟩ := mem_groupOf_iff.1 h
  -- both are filtered from one list, so equal members are enough
  refine List.filter_congr fun c _ => ?_
  rw [Bool.eq_iff_iff]
  simp only [Bool.and_eq_true, reaches_iff]
  constructor
  · rintro ⟨out, home⟩
    exact ⟨there.trans out, home.trans back⟩
  · rintro ⟨out, home⟩
    exact ⟨back.trans out, home.trans there⟩

theorem mem_cycles_iff {group : List String} :
    group ∈ g.cycles ↔ ∃ a ∈ g.onCycles, g.groupOf a = group := by
  rw [cycles_eq, List.mem_eraseDups, List.mem_map]

/-- A group with a member is the group of that member. -/
theorem eq_groupOf_of_mem {group : List String} (h : group ∈ g.cycles) (mem : a ∈ group) :
    a ∈ g.onCycles ∧ group = g.groupOf a := by
  obtain ⟨b, -, rfl⟩ := mem_cycles_iff.1 h
  exact ⟨mem_onCycles_of_mem_groupOf mem, (groupOf_eq_of_mem mem).symm⟩

theorem exists_group_iff : (∃ group ∈ g.cycles, a ∈ group) ↔ TransGen g.Leads a a := by
  constructor
  · rintro ⟨group, listed, mem⟩
    exact mem_onCycles_iff.1 (eq_groupOf_of_mem listed mem).1
  · intro path
    have onCycle := mem_onCycles_iff.2 path
    exact ⟨g.groupOf a, mem_cycles_iff.2 ⟨a, onCycle, rfl⟩, self_mem_groupOf onCycle⟩

theorem exists_common_group_iff :
    (∃ group ∈ g.cycles, a ∈ group ∧ b ∈ group) ↔ TransGen g.Leads a b ∧ TransGen g.Leads b a := by
  constructor
  · rintro ⟨group, listed, ha, hb⟩
    obtain ⟨-, rfl⟩ := eq_groupOf_of_mem listed ha
    exact mem_groupOf_iff.1 hb
  · rintro ⟨there, back⟩
    have onCycle := mem_onCycles_iff.2 (there.trans back)
    exact ⟨g.groupOf a, mem_cycles_iff.2 ⟨a, onCycle, rfl⟩, self_mem_groupOf onCycle,
      mem_groupOf_iff.2 ⟨there, back⟩⟩

/-- What groups have to say about the cycles of a graph. -/
structure ListsCycles (g : Graph) (groups : List (List String)) : Prop where
  mem_iff : ∀ a, (∃ group ∈ groups, a ∈ group) ↔ TransGen g.Leads a a
  /-- A name that is listed stands together with itself and what it reaches both ways. -/
  together_iff : ∀ a b, (∃ group ∈ groups, a ∈ group) →
    ((∃ group ∈ groups, a ∈ group ∧ b ∈ group) ↔
      a = b ∨ TransGen g.Leads a b ∧ TransGen g.Leads b a)
  ne_nil : ∀ group ∈ groups, group ≠ []
  disjoint : groups.Pairwise List.Disjoint
  ascending : ∀ group ∈ groups, group.Pairwise (· < ·)
  /-- The order of the groups is lexicographic. -/
  ordered : groups.Pairwise (· < ·)

/-- No edge of a dependency graph leads to what is outside the project. -/
theorem not_leads_to_external {scan : ImportScanner} {files : List ProjectFile} {n : Node}
    (mem : n ∈ (Dependency.build scan files).graph.nodes) (external : n.external = true)
    (id : String) :
    ¬ (Dependency.build scan files).graph.Leads id n.id := by
  rintro ⟨-, -, e, he, -, target⟩
  obtain ⟨link, drawn, outside, eq⟩ := Dependency.exists_link_of_external mem external
  have file : n.id ∈ files.map (·.path) := target ▸ (Dependency.imports_of_mem_edges he).path_mem
  exact Dependency.externals_disjoint
    (Dependency.mem_externals_iff.2 ⟨link, drawn, outside, eq⟩) file

/-- The groups list exactly the cycles, and those of a dependency graph hold no name from outside
the project. Names may be shared by several nodes, and edges may dangle. -/
theorem lists_exactly_the_cycles (g : Graph) (scan : ImportScanner) (files : List ProjectFile) :
    ListsCycles g g.cycles ∧
      (Dependency.build scan files).cycles = (Dependency.build scan files).graph.cycles ∧
      ∀ n ∈ (Dependency.build scan files).graph.nodes, n.external = true →
        ∀ group ∈ (Dependency.build scan files).cycles, n.id ∉ group := by
  refine ⟨⟨fun a => exists_group_iff, ?_, ?_, ?_, ?_, ?_⟩, rfl, ?_⟩
  · intro a b listed
    rw [exists_common_group_iff]
    constructor
    · exact .inr
    · rintro (rfl | both)
      · exact ⟨exists_group_iff.1 listed, exists_group_iff.1 listed⟩
      · exact both
  · intro group listed
    obtain ⟨a, onCycle, rfl⟩ := mem_cycles_iff.1 listed
    exact List.ne_nil_of_mem (self_mem_groupOf onCycle)
  · refine List.Nodup.pairwise_of_forall_ne (by rw [cycles_eq]; exact nodup_eraseDups _) ?_
    intro group listed other otherListed different a mem again
    exact different ((eq_groupOf_of_mem listed mem).2.trans
      (eq_groupOf_of_mem otherListed again).2.symm)
  · intro group listed
    obtain ⟨a, -, rfl⟩ := mem_cycles_iff.1 listed
    exact pairwise_groupOf g a
  · rw [cycles_eq]
    apply pairwise_lt_eraseDups_map (pairwise_onCycles g)
    · intro a onCycle
      exact self_mem_groupOf onCycle
    · intro a _ b mem
      exact mem_onCycles_of_mem_groupOf mem
    · intro a _ b mem
      exact groupOf_eq_of_mem mem
    · intro a _
      exact pairwise_groupOf g a
  · intro n mem external group listed inGroup
    have path := exists_group_iff.1 ⟨group, listed, inGroup⟩
    obtain ⟨id, -, last⟩ := Relation.TransGen.tail'_iff.1 path
    exact not_leads_to_external mem external id last

/-- Two scripts import each other, and one of them a package. -/
theorem lists_cycle_beside_package :
    let files : List ProjectFile := [⟨"a.js", ""⟩, ⟨"b.js", ""⟩]
    let scan : ImportScanner := fun path _ =>
      if path = "a.js" then .ok ["./b", "lodash"] else .ok ["./a"]
    let r := Dependency.build scan files
    (∃ group ∈ r.cycles, "a.js" ∈ group ∧ "b.js" ∈ group) ∧
      (∃ n ∈ r.graph.nodes, n.external = true ∧ n.id = "lodash") ∧
      ∀ group ∈ r.cycles, "lodash" ∉ group := by
  intro files scan r
  obtain ⟨listed, -, outside⟩ := lists_exactly_the_cycles r.graph scan files
  have leads (a b : String) (h : a ∈ r.graph.nodes.map (·.id) ∧ b ∈ r.graph.nodes.map (·.id) ∧
      (a, b) ∈ r.graph.edges.map fun e => (e.source, e.target)) : r.graph.Leads a b := by
    simpa [Leads] using h
  have there : TransGen r.graph.Leads "a.js" "b.js" := .single (leads _ _ (by decide))
  have back : TransGen r.graph.Leads "b.js" "a.js" := .single (leads _ _ (by decide))
  have package : ∃ n ∈ r.graph.nodes, n.external = true ∧ n.id = "lodash" := by decide
  refine ⟨?_, package, ?_⟩
  · exact (listed.together_iff "a.js" "b.js" ((listed.mem_iff _).2 (there.trans back))).2
      (.inr ⟨there, back⟩)
  · obtain ⟨n, mem, external, id⟩ := package
    exact id ▸ outside n mem external

end CodeAtlas.Graph
