import CodeAtlas.Proofs.Project.Soundness

/-!
# Cells of the dependency graph

The files and what is outside the project are numbered apart, and each number is laid out in rows of
five. Within one grid a number can be got back from its cell. The two grids do not meet, since the
last row of the files is the count divided by five and rounded up, less one, and the other grid
starts two rows below that.
-/

namespace CodeAtlas.Dependency

/-! ### One grid -/

/-- The number is five times the row plus the column. -/
theorem cell_injective (top : Nat) : Function.Injective (cell top) := by
  intro i j same
  obtain ⟨row, column⟩ : top + i / 5 = top + j / 5 ∧ i % 5 = j % 5 := by
    simpa only [cell, columns, LayoutHint.mk.injEq] using same
  omega

theorem siblingIndex_cell_lt (top index : Nat) : (cell top index).siblingIndex < 5 :=
  Nat.mod_lt index (by decide)

/-- Nodes that are placed by their numbers. -/
def Lays {α : Type} (place : Nat → α → Node) (top : Nat) : Prop :=
  ∀ index a, (place index a).layoutHint = cell top index

theorem lays_fileNode : Lays fileNode 0 := fun _ _ => rfl

theorem lays_externalNode (count : Nat) : Lays (externalNode count) (externalTop count) :=
  fun _ _ => rfl

section Lays

variable {α : Type} {place : Nat → α → Node} {top : Nat} {l : List α} {n : Node}

theorem Lays.exists_index (h : Lays place top) (mem : n ∈ l.mapIdx place) :
    ∃ index < l.length, n.layoutHint = cell top index := by
  obtain ⟨index, inside, rfl⟩ := List.mem_mapIdx.1 mem
  exact ⟨index, inside, h index _⟩

theorem Lays.hints_eq (h : Lays place top) (l : List α) :
    (l.mapIdx place).map (·.layoutHint) = (List.range l.length).map (cell top) := by
  apply List.ext_getElem?
  intro index
  simp only [List.getElem?_map, List.getElem?_mapIdx, Option.map_map]
  by_cases inside : index < l.length
  · simp [inside, h index]
  · simp [inside]

theorem Lays.nodup_hints (h : Lays place top) (l : List α) :
    ((l.mapIdx place).map (·.layoutHint)).Nodup := by
  rw [h.hints_eq]
  exact List.nodup_range.map (cell_injective top)

end Lays

/-! ### Two grids -/

/-- Between the files and the rest at least one row is free, also where the last row of files is
full. -/
theorem depth_cell_add_two_le {count index : Nat} (inside : index < count) (other : Nat) :
    (cell 0 index).depth + 2 ≤ (cell (externalTop count) other).depth := by
  change 0 + index / 5 + 2 ≤ (count + 5 - 1) / 5 + 1 + other / 5
  omega

theorem depth_add_two_le {scan : ImportScanner} {files : List ProjectFile} {file outer : Node}
    (inside : file ∈ files.mapIdx fileNode) (outside : outer ∈ outsideNodes scan files) :
    file.layoutHint.depth + 2 ≤ outer.layoutHint.depth := by
  obtain ⟨index, lt, hint⟩ := lays_fileNode.exists_index inside
  obtain ⟨other, -, hint'⟩ := (lays_externalNode files.length).exists_index outside
  rw [hint, hint']
  exact depth_cell_add_two_le lt other

/-- No two nodes of a dependency graph share a cell, no row has more than five, and what is outside
the project stands at least two rows below every file. -/
theorem cells_never_collide (scan : ImportScanner) (files : List ProjectFile) :
    ∃ inside outside, (build scan files).graph.nodes = inside ++ outside ∧
      inside.map (·.id) = files.map (·.path) ∧ (∀ n ∈ inside, n.external = false) ∧
      (∀ n ∈ outside, n.external = true) ∧
      ((build scan files).graph.nodes.map (·.layoutHint)).Nodup ∧
      (∀ n ∈ (build scan files).graph.nodes, n.layoutHint.siblingIndex < 5) ∧
      ∀ file ∈ inside, ∀ outer ∈ outside, file.layoutHint.depth + 2 ≤ outer.layoutHint.depth := by
  refine ⟨files.mapIdx fileNode, outsideNodes scan files, nodes_build scan files,
    ids_fileNodes files, fun _ => external_fileNodes, fun _ => external_outsideNodes, ?_, ?_,
    fun _ inside _ => depth_add_two_le inside⟩
  · rw [nodes_build, List.map_append]
    refine List.Nodup.append (lays_fileNode.nodup_hints files)
      ((lays_externalNode _).nodup_hints _) ?_
    intro hint inside outside
    obtain ⟨file, mem, rfl⟩ := List.mem_map.1 inside
    obtain ⟨outer, mem', same⟩ := List.mem_map.1 outside
    have below := depth_add_two_le mem mem'
    rw [same] at below
    omega
  · intro n mem
    rw [nodes_build] at mem
    rcases List.mem_append.1 mem with mem | mem
    · obtain ⟨index, -, hint⟩ := lays_fileNode.exists_index mem
      exact hint ▸ siblingIndex_cell_lt 0 index
    · obtain ⟨index, -, hint⟩ := (lays_externalNode files.length).exists_index mem
      exact hint ▸ siblingIndex_cell_lt _ index

end CodeAtlas.Dependency
