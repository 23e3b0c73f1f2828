import CodeAtlas.Outline.Concepts
import CodeAtlas.Proofs.Outline.Forest

/-!
# Addresses

The address of a node in a tree is the list of the positions taken on the way to it from the root.
Its length is the level of the node, its last position that of the node among its siblings, and what
comes before is the address of its parent. So a drawing of a tree can be said directly, without a
walk: the nodes are numbered as they come in pre-order, and every node but the root has an edge from
the node with its parent's address.

The structural drawing of a tree is that one.
-/

namespace CodeAtlas

namespace Rose

variable {α β : Type}

mutual

/-- The nodes of a tree in pre-order, each with its address. -/
def visits : Rose α → List (List Nat × α)
  | .node v ts => ([], v) :: visitsAll 0 ts

/-- The nodes of trees side by side, of which the first is in position `place`. -/
def visitsAll (place : Nat) : List (Rose α) → List (List Nat × α)
  | [] => []
  | t :: ts => (visits t).map (fun x => (place :: x.1, x.2)) ++ visitsAll (place + 1) ts

end

def addresses (t : Rose α) : List (List Nat) := t.visits.map (·.1)

def addressesAll (place : Nat) (ts : List (Rose α)) : List (List Nat) :=
  (visitsAll place ts).map (·.1)

@[simp] theorem addresses_node (v : α) (ts : List (Rose α)) :
    addresses (.node v ts) = [] :: addressesAll 0 ts := by
  rw [addresses, visits, List.map_cons, addressesAll]

@[simp] theorem addressesAll_nil (place : Nat) : addressesAll place ([] : List (Rose α)) = [] := by
  rw [addressesAll, visitsAll, List.map_nil]

@[simp] theorem addressesAll_cons (place : Nat) (t : Rose α) (ts : List (Rose α)) :
    addressesAll place (t :: ts) = (addresses t).map (place :: ·) ++
      addressesAll (place + 1) ts := by
  simp [addressesAll, addresses, visitsAll]

/-! ### The addresses of a tree -/

/-- An address below trees side by side starts with the position of one of them. -/
theorem exists_cons_of_mem_addressesAll {place : Nat} {ts : List (Rose α)} {address : List Nat}
    (h : address ∈ addressesAll place ts) : ∃ i rest, address = i :: rest ∧ place ≤ i := by
  induction ts generalizing place with
  | nil => simp at h
  | cons t ts ih =>
    rw [addressesAll_cons, List.mem_append, List.mem_map] at h
    rcases h with ⟨rest, -, rfl⟩ | h
    · exact ⟨place, rest, rfl, Nat.le_refl place⟩
    · obtain ⟨i, rest, rfl, le⟩ := ih h
      exact ⟨i, rest, rfl, by omega⟩

theorem ne_nil_of_mem_addressesAll {place : Nat} {ts : List (Rose α)} {address : List Nat}
    (h : address ∈ addressesAll place ts) : address ≠ [] := by
  obtain ⟨i, rest, rfl, -⟩ := exists_cons_of_mem_addressesAll h
  simp

mutual

/-- No two nodes have one address. -/
theorem nodup_addresses : (t : Rose α) → t.addresses.Nodup
  | .node v ts => by
    rw [addresses_node, List.nodup_cons]
    exact ⟨fun h => ne_nil_of_mem_addressesAll h rfl, nodup_addressesAll 0 ts⟩

theorem nodup_addressesAll (place : Nat) : (ts : List (Rose α)) → (addressesAll place ts).Nodup
  | [] => by simp
  | t :: ts => by
    rw [addressesAll_cons]
    refine List.Nodup.append ?_ (nodup_addressesAll (place + 1) ts) ?_
    · exact (nodup_addresses t).map fun _ _ same => (List.cons.inj same).2
    · intro address first rest
      obtain ⟨below, -, rfl⟩ := List.mem_map.1 first
      obtain ⟨i, _, same, le⟩ := exists_cons_of_mem_addressesAll rest
      obtain ⟨rfl, -⟩ := List.cons.inj same
      omega

end

mutual

/-- The parent of a node has its address in the tree. -/
theorem dropLast_mem_addresses {address : List Nat} :
    (t : Rose α) → address ∈ t.addresses → address.dropLast ∈ t.addresses
  | .node v ts, h => by
    rw [addresses_node, List.mem_cons] at h ⊢
    rcases h with rfl | h
    · exact .inl rfl
    · exact (dropLast_mem_addressesAll 0 ts h).imp_left id

theorem dropLast_mem_addressesAll {address : List Nat} (place : Nat) :
    (ts : List (Rose α)) → address ∈ addressesAll place ts →
      address.dropLast = [] ∨ address.dropLast ∈ addressesAll place ts
  | [], h => by simp at h
  | t :: ts, h => by
    rw [addressesAll_cons, List.mem_append, List.mem_map] at h ⊢
    rcases h with ⟨rest, h, rfl⟩ | h
    · cases rest with
      | nil => exact .inl rfl
      | cons i rest => exact .inr (.inl ⟨_, dropLast_mem_addresses t h, rfl⟩)
    · exact (dropLast_mem_addressesAll (place + 1) ts h).imp_right .inr

end

/-! ### Drawing by addresses -/

/-- The drawing of a tree: its nodes are numbered in pre-order, in the rows of their levels and the
columns of their positions, and an edge leads to each from its parent. -/
def numbered (f : Family) (label : α → String) (t : Rose α) : Graph where
  nodes := t.visits.mapIdx fun i (address, v) =>
    let hint : LayoutHint := ⟨address.length, address.getLastD 0⟩
    { id := f.nodeName i, label := label v, kind := if address = [] then .input else .default
      layoutHint := hint, position := f.spacing.position hint }
  edges := (t.addresses.filter (· ≠ [])).map fun address =>
    Edge.between (f.nodeName (t.addresses.idxOf address.dropLast))
      (f.nodeName (t.addresses.idxOf address))

/-- The entry of a node of trees side by side, in the row `depth` and below `anchor`. The first of
their nodes is entry number `next`. -/
def entryAt (label : α → String) (depth : Nat) (anchor : Anchor) (next : Nat)
    (addresses : List (List Nat)) : List Nat × α → Entry
  | (address, v) =>
    let up := address.dropLast
    ⟨label v, .forDepth (depth + up.length), ⟨depth + up.length, address.getLastD 0⟩,
      if up = [] then anchor else .entry (next + addresses.idxOf up)⟩

section

variable {label : α → String} {depth next place : Nat} {anchor : Anchor} {l l' : List (List Nat)}
  {address : List Nat} {v : α}

theorem entryAt_append_left (h : address.dropLast = [] ∨ address.dropLast ∈ l) :
    entryAt label depth anchor next (l ++ l') (address, v) =
      entryAt label depth anchor next l (address, v) := by
  rcases h with top | inside
  · simp [entryAt, top]
  · simp [entryAt, List.idxOf_append_of_mem inside]

theorem entryAt_append_right (h : address.dropLast ∉ l) :
    entryAt label depth anchor next (l ++ l') (address, v) =
      entryAt label depth anchor (next + l.length) l' (address, v) := by
  simp [entryAt, List.idxOf_append_of_notMem h, Nat.add_assoc]

theorem idxOf_map_cons (address : List Nat) :
    (l.map (place :: ·)).idxOf (place :: address) = l.idxOf address := by
  induction l with
  | nil => rfl
  | cons first l ih => simp [List.idxOf_cons, ih]

/-- What stands below the only node of a row stands below the first entry. -/
theorem entryAt_cons (h : address ≠ []) :
    entryAt label depth anchor next ([place] :: l.map (place :: ·)) (place :: address, v) =
      entryAt label (depth + 1) (.entry next) (next + 1) l (address, v) := by
  obtain ⟨up, i, rfl⟩ := (List.eq_nil_or_concat' address).resolve_left h
  have row : depth + (up.length + 1) = depth + 1 + up.length := by omega
  rw [entryAt, entryAt, ← List.cons_append, List.dropLast_concat, List.dropLast_concat,
    List.length_cons, row, List.getLastD_concat, List.getLastD_concat]
  cases up with
  | nil => simp
  | cons j up => simp [idxOf_map_cons, Nat.add_assoc, Nat.add_comm 1]

end

mutual

theorem draft_itemize (label : α → String) (depth place : Nat) (anchor : Anchor) (next : Nat) :
    (t : Rose α) → (t.itemize label place).draft depth anchor next =
      t.visits.map fun x =>
        entryAt label depth anchor next (t.addresses.map (place :: ·)) (place :: x.1, x.2)
  | .node v ts => by
    rw [itemize, draft, visits, List.map_cons, addresses_node, List.map_cons,
      draftAll_itemizeAll label (depth + 1) 0 (.entry next) (next + 1) ts]
    refine congrArg₂ List.cons (by simp [entryAt, Item.role]) (List.map_congr_left ?_)
    intro x hx
    exact (entryAt_cons (ne_nil_of_mem_addressesAll (List.mem_map_of_mem hx))).symm

theorem draftAll_itemizeAll (label : α → String) (depth place : Nat) (anchor : Anchor)
    (next : Nat) :
    (ts : List (Rose α)) → draftAll depth anchor next (itemizeAll label place ts) =
      (visitsAll place ts).map (entryAt label depth anchor next (addressesAll place ts))
  | [] => by simp [itemizeAll, draftAll, visitsAll]
  | t :: ts => by
    have first := draft_itemize label depth place anchor next t
    rw [itemizeAll, draftAll, visitsAll, List.map_append, List.map_map, addressesAll_cons, first,
      draftAll_itemizeAll label depth (place + 1) anchor _ ts]
    refine congrArg₂ (· ++ ·) (List.map_congr_left ?_) (List.map_congr_left ?_)
    · intro x hx
      refine (entryAt_append_left ?_).symm
      cases rest : x.1 with
      | nil => exact .inl rfl
      | cons i rest' =>
        have up := dropLast_mem_addresses t (List.mem_map_of_mem hx)
        rw [rest] at up
        exact .inr (List.mem_map_of_mem up)
    · intro x hx
      have outside : x.1.dropLast ∉ t.addresses.map (place :: ·) := by
        intro first
        obtain ⟨below, -, same⟩ := List.mem_map.1 first
        obtain ⟨i, rest, eq, le⟩ := exists_cons_of_mem_addressesAll (List.mem_map_of_mem hx)
        rw [eq] at same
        cases rest with
        | nil => cases same
        | cons j rest =>
          obtain ⟨rfl, -⟩ := List.cons.inj same
          omega
      rw [entryAt_append_right outside, List.length_map, List.length_map, addresses,
        List.length_map]

end

/-- The entry of a node of a tree that is drawn on its own. -/
theorem entryAt_root (label : α → String) (l : List (List Nat)) (address : List Nat) (v : α) :
    entryAt label 0 .outer 0 (l.map (0 :: ·)) (0 :: address, v) =
      ⟨label v, if address = [] then .input else .default, ⟨address.length, address.getLastD 0⟩,
        if address = [] then .outer else .entry (l.idxOf address.dropLast)⟩ := by
  cases address with
  | nil => rfl
  | cons i rest => simp [entryAt, Role.forDepth, idxOf_map_cons]

/-- Where the elements have different keys, the place of one is that of its key. -/
theorem mapIdx_map_eq {γ δ : Type} [BEq β] [LawfulBEq β] {key : α → β} {l : List α}
    (h : (l.map key).Nodup) (g : α → γ) (f : Nat → γ → δ) :
    (l.map g).mapIdx f = l.map fun x => f ((l.map key).idxOf (key x)) (g x) := by
  apply List.ext_getElem (by simp)
  intro i inside _
  have inside : i < (l.map key).length := by simpa using inside
  have index := h.idxOf_getElem i inside
  rw [List.getElem_map] at index
  simp [index]

/-- The structural drawing of a tree is the one by addresses. -/
theorem ofDraft_itemize (f : Family) (label : α → String) (t : Rose α) :
    Graph.ofDraft f ((t.itemize label 0).draft 0 .outer 0) = t.numbered f label := by
  simp only [draft_itemize, entryAt_root, Graph.ofDraft, Graph.add, Graph.empty, numbered,
    List.nil_append, List.length_nil, Nat.zero_add, Graph.mk.injEq]
  constructor
  · apply List.ext_getElem?
    intro i
    simp [Entry.toNode, Function.comp_def]
  · have below (link : List Nat → Edge) : (t.addresses.filter (· ≠ [])).map link =
        t.visits.filterMap fun x => if x.1 = [] then none else some (link x.1) := by
      rw [addresses]
      induction t.visits with
      | nil => rfl
      | cons x l ih => by_cases root : x.1 = [] <;> simpa [root] using ih
    rw [below, mapIdx_map_eq t.nodup_addresses, List.filterMap_map]
    refine List.filterMap_congr ?_
    intro x _
    by_cases root : x.1 = [] <;> simp [Entry.edge?, Anchor.resolve, root, addresses]

end Rose

end CodeAtlas
