import CodeAtlas.Graph.Cycles
import CodeAtlas.Proofs.Project.Links
import Mathlib.Logic.Relation
import Mathlib.Data.List.Perm.Subperm

/-!
# What a node reaches

One node leads to another when both are there and an edge joins them. The search for what a node
reaches goes on from the nodes it found last, so it must not stop before nothing new is found: its
limit is the number of nodes, and every further round finds a node that was not seen before.

Main statement: the names that the search lists are exactly those at the end of a path of one or
more edges.
-/

namespace CodeAtlas.Graph

open Relation (TransGen)

/-- An edge that does not dangle leads from one name to another. -/
def Leads (g : Graph) (a b : String) : Prop :=
  (∃ n ∈ g.nodes, n.id = a) ∧ (∃ n ∈ g.nodes, n.id = b) ∧ ∃ e ∈ g.edges, e.source = a ∧ e.target = b

theorem mem_successors_iff {edges : List Edge} {a b : String} :
    b ∈ successors edges a ↔ ∃ e ∈ edges, e.source = a ∧ e.target = b := by
  simp [successors]

theorem hasNode_iff {g : Graph} {id : String} : g.hasNode id = true ↔ ∃ n ∈ g.nodes, n.id = id := by
  simp [hasNode]

/-- The successors along the edges that do not dangle are what a node leads to. -/
theorem mem_successors_anchoredEdges_iff {g : Graph} {a b : String} :
    b ∈ successors g.anchoredEdges a ↔ g.Leads a b := by
  simp only [mem_successors_iff, anchoredEdges, List.mem_filter, anchors, Bool.and_eq_true,
    hasNode_iff, Leads]
  constructor
  · rintro ⟨e, ⟨mem, source, target⟩, rfl, rfl⟩
    exact ⟨source, target, e, mem, rfl, rfl⟩
  · rintro ⟨source, target, e, mem, rfl, rfl⟩
    exact ⟨e, ⟨mem, source, target⟩, rfl, rfl⟩

/-! ### Rounds of the search -/

/-- The names that a round adds: those one edge away from the frontier that were not seen before. -/
def fresh (edges : List Edge) (frontier seen : List String) : List String :=
  ((frontier.flatMap (successors edges)).filter (!seen.contains ·)).eraseDups

theorem mem_fresh_iff {edges : List Edge} {frontier seen : List String} {id : String} :
    id ∈ fresh edges frontier seen ↔
      (∃ origin ∈ frontier, id ∈ successors edges origin) ∧ id ∉ seen := by
  simp [fresh, List.mem_eraseDups]

theorem spread_succ (edges : List Edge) (steps : Nat) (frontier seen : List String) :
    spread edges (steps + 1) frontier seen =
      if (fresh edges frontier seen).isEmpty then seen
      else spread edges steps (fresh edges frontier seen) (seen ++ fresh edges frontier seen) := rfl

/-- What the search from `start` knows when `steps` more rounds are allowed. The names in the
frontier are those whose successors have not been looked at. -/
structure Search (edges : List Edge) (names : List String) (start : String) (steps : Nat)
    (frontier seen : List String) : Prop where
  nodup : seen.Nodup
  mem_names : ∀ id ∈ seen, id ∈ names
  reached : ∀ id ∈ seen, TransGen (fun a b => b ∈ successors edges a) start id
  frontier_seen : ∀ id ∈ frontier, id ∈ seen
  looked_at : ∀ id ∈ seen, id ∉ frontier → ∀ next ∈ successors edges id, next ∈ seen
  /-- Even if every round finds no more than one name, the rounds are enough to find all. -/
  enough : names.length ≤ steps + seen.length

/-- Names that are all reached from `start`, and from which no edge leads to another name. -/
structure IsReach (edges : List Edge) (start : String) (found : List String) : Prop where
  reached : ∀ id ∈ found, TransGen (fun a b => b ∈ successors edges a) start id
  closed : ∀ id ∈ found, ∀ next ∈ successors edges id, next ∈ found

namespace Search

variable {edges : List Edge} {names frontier seen : List String} {start : String} {steps : Nat}

/-- A round that finds something new. -/
theorem round (h : Search edges names start (steps + 1) frontier seen)
    (inside : ∀ id, ∀ next ∈ successors edges id, next ∈ names)
    (found : fresh edges frontier seen ≠ []) :
    Search edges names start steps (fresh edges frontier seen)
      (seen ++ fresh edges frontier seen) where
  nodup := by
    refine List.Nodup.append h.nodup (nodup_eraseDups _) ?_
    intro id old new
    exact (mem_fresh_iff.1 new).2 old
  mem_names := by
    intro id mem
    rcases List.mem_append.1 mem with old | new
    · exact h.mem_names id old
    · obtain ⟨⟨origin, -, next⟩, -⟩ := mem_fresh_iff.1 new
      exact inside origin id next
  reached := by
    intro id mem
    rcases List.mem_append.1 mem with old | new
    · exact h.reached id old
    · obtain ⟨⟨origin, mem, next⟩, -⟩ := mem_fresh_iff.1 new
      exact (h.reached origin (h.frontier_seen origin mem)).tail next
  frontier_seen := by
    intro id mem
    exact List.mem_append_right _ mem
  looked_at := by
    intro id mem notFresh next hnext
    have old : id ∈ seen := (List.mem_append.1 mem).resolve_right notFresh
    by_cases inFrontier : id ∈ frontier
    · by_cases known : next ∈ seen
      · exact List.mem_append_left _ known
      · exact List.mem_append_right _ (mem_fresh_iff.2 ⟨⟨id, inFrontier, hnext⟩, known⟩)
    · exact List.mem_append_left _ (h.looked_at id old inFrontier next hnext)
  enough := by
    have := h.enough
    have := List.length_pos_iff.2 found
    rw [List.length_append]
    omega

/-- When a round finds nothing new, nothing is missing. -/
theorem isReach_of_fresh_eq_nil (h : Search edges names start steps frontier seen)
    (nothing : fresh edges frontier seen = []) : IsReach edges start seen where
  reached := h.reached
  closed := by
    intro id mem next hnext
    by_cases inFrontier : id ∈ frontier
    · by_contra unknown
      have new := mem_fresh_iff.2 ⟨⟨id, inFrontier, hnext⟩, unknown⟩
      simp [nothing] at new
    · exact h.looked_at id mem inFrontier next hnext

/-- When no round is left, every name has been seen. -/
theorem isReach_of_no_steps (h : Search edges names start 0 frontier seen)
    (inside : ∀ id, ∀ next ∈ successors edges id, next ∈ names) : IsReach edges start seen where
  reached := h.reached
  closed := by
    intro id mem next hnext
    have all : seen.Perm names :=
      (List.subperm_of_subset h.nodup h.mem_names).perm_of_length_le (by have := h.enough; omega)
    exact all.mem_iff.2 (inside id next hnext)

/-- The search ends with everything that is reached, and drops nothing on the way. -/
theorem spread (h : Search edges names start steps frontier seen)
    (inside : ∀ id, ∀ next ∈ successors edges id, next ∈ names) :
    IsReach edges start (spread edges steps frontier seen) ∧
      seen ⊆ spread edges steps frontier seen := by
  induction steps generalizing frontier seen with
  | zero => exact ⟨h.isReach_of_no_steps inside, fun _ mem => mem⟩
  | succ steps ih =>
    rw [spread_succ]
    split
    · next nothing =>
      exact ⟨h.isReach_of_fresh_eq_nil (List.isEmpty_iff.1 nothing), fun _ mem => mem⟩
    · next found =>
      rw [List.isEmpty_iff] at found
      obtain ⟨reach, kept⟩ := ih (h.round inside found)
      exact ⟨reach, fun _ mem => kept (List.mem_append_left _ mem)⟩

end Search

/-- The search lists what is reached along one or more edges, if there are no more names at the ends
of edges than it has rounds. -/
theorem mem_reachedFrom_iff {edges : List Edge} (names : List String) {limit : Nat}
    {start id : String} (inside : ∀ id, ∀ next ∈ successors edges id, next ∈ names)
    (enough : names.length ≤ limit) :
    id ∈ reachedFrom edges limit start ↔ TransGen (fun a b => b ∈ successors edges a) start id := by
  have first : Search edges names start limit (successors edges start).eraseDups
      (successors edges start).eraseDups := by
    refine ⟨nodup_eraseDups _, ?_, ?_, fun _ mem => mem, ?_, by omega⟩
    · intro id mem
      exact inside start id (List.mem_eraseDups.1 mem)
    · intro id mem
      exact .single (List.mem_eraseDups.1 mem)
    · intro id mem notMem
      exact absurd mem notMem
  obtain ⟨reach, kept⟩ := first.spread inside
  constructor
  · exact reach.reached id
  · intro path
    induction path with
    | single next => exact kept (List.mem_eraseDups.2 next)
    | tail _ next ih => exact reach.closed _ ih _ next

/-- What a node of a graph reaches. -/
theorem mem_reachedFrom_anchoredEdges_iff {g : Graph} {a b : String} :
    b ∈ reachedFrom g.anchoredEdges g.nodes.length a ↔ TransGen g.Leads a b := by
  have steps : (fun a b => b ∈ successors g.anchoredEdges a) = g.Leads := by
    funext a b
    exact propext mem_successors_anchoredEdges_iff
  rw [← steps]
  apply mem_reachedFrom_iff (g.nodes.map (·.id))
  · intro id next hnext
    obtain ⟨-, ⟨n, mem, rfl⟩, -⟩ := mem_successors_anchoredEdges_iff.1 hnext
    exact List.mem_map_of_mem mem
  · simp

end CodeAtlas.Graph
