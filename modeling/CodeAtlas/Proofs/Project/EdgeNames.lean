import CodeAtlas.Proofs.Project.Soundness

/-!
# Imports that share an edge name

Edges are told apart by their names, and a name is put together from the importing file and the
target with a separator between them. The separator may occur in a path, so two imports can have one
name: then only the first of them is drawn, and the other is lost.

This is the only way to lose an import. Two imports of scripts have one name exactly when they are
the same pair or `Clash`, and a build draws every import once exactly when no two of them clash.
-/

namespace CodeAtlas

/-! ### The end of a script's path

A separator could also start inside a path, if this ended in a beginning of the separator. No
script's path does: its extension stands at its end, up to slashes and dots. -/

namespace Text

/-- A last character that is no separator belongs to the last part. -/
theorem splitChars_concat {separator c : Char} (h : c ≠ separator) (cs : List Char) :
    ∃ parts last, splitChars separator (cs ++ [c]) = parts ++ [last ++ [c]] := by
  induction cs with
  | nil => exact ⟨[], [], by simp [splitChars, h]⟩
  | cons first cs ih =>
    obtain ⟨parts, last, eq⟩ := ih
    rw [List.cons_append]
    by_cases cut : first = separator
    · refine ⟨[] :: parts, last, ?_⟩
      rw [cut, splitChars_cons_self, eq, List.cons_append]
    · cases parts with
      | nil => exact ⟨[], first :: last, by simp [splitChars, eq, cut]⟩
      | cons part parts => exact ⟨(first :: part) :: parts, last, by simp [splitChars, eq, cut]⟩

end Text

namespace Path

theorem componentOf?_concat {c : Char} (dot : c ≠ '.') (cs : List Char) :
    componentOf? (String.ofList (cs ++ [c])) = some (.normal (String.ofList (cs ++ [c]))) := by
  have ends {text : String} (same : String.ofList (cs ++ [c]) = text) :
      text.toList.getLast? = some c := by
    simp [← same]
  rw [componentOf?]
  · intro same
    simpa using ends same
  · intro same
    simpa [eq_comm, dot] using ends same
  · intro same
    simpa [eq_comm, dot] using ends same

/-- The file name takes the last character of a path with it. -/
theorem fileName?_concat {c : Char} (slash : c ≠ '/') (dot : c ≠ '.') (cs : List Char) :
    ∃ last, fileName? (String.ofList (cs ++ [c])) = some (String.ofList (last ++ [c])) := by
  obtain ⟨parts, last, eq⟩ := Text.splitChars_concat slash cs
  have names : segments (String.ofList (cs ++ [c])) =
      parts.map String.ofList ++ [String.ofList (last ++ [c])] := by
    rw [segments, Text.split, String.toList_ofList, eq, List.map_append, List.map_singleton]
  refine ⟨last, ?_⟩
  simp only [fileName?, components, names, List.filterMap_append, List.filterMap_cons,
    componentOf?_concat dot, List.filterMap_nil, ← List.append_assoc, List.getLast?_concat]
  rfl

/-- So does the extension. -/
theorem extension?_concat {c : Char} (slash : c ≠ '/') (dot : c ≠ '.') {cs : List Char}
    {ext : String} (h : extension? (String.ofList (cs ++ [c])) = some ext) :
    ext.toList.getLast? = some c := by
  obtain ⟨last, eq⟩ := fileName?_concat slash dot cs
  simp only [extension?, eq, splitAtLastDot, Option.bind_eq_bind, Option.bind_some,
    String.toList_ofList, List.reverse_append, List.reverse_singleton, List.singleton_append] at h
  split at h
  · cases h
  · simp only [Option.bind_some] at h
    split at h
    · cases h
    · rw [← Option.some.inj h]
      simp [dot]

end Path

/-- The path of a script does not end in `o`, since no extension of scripts does. -/
theorem ne_concat_of_isScriptPath {path : String} (h : isScriptPath path = true) (cs : List Char) :
    path.toList ≠ cs ++ ['o'] := by
  intro same
  have path_eq : path = String.ofList (cs ++ ['o']) := by rw [← same, String.ofList_toList]
  rw [isScriptPath] at h
  split at h
  · next ext found =>
    have last := Path.extension?_concat (by decide) (by decide) (path_eq ▸ found)
    simp only [List.contains_cons, List.contains_nil, Bool.or_false, Bool.or_eq_true,
      beq_iff_eq] at h
    rcases h with rfl | rfl | rfl | rfl <;> simp at last
  · cases h

/-! ### Names of edges -/

namespace Edge

/-- The second file is the first one, the separator and some `rest`, and what the first file imports
is this `rest`, the separator and what the second one imports. -/
def Clash (file target file' target' : String) : Prop :=
  ∃ rest, file' = file ++ "-to-" ++ rest ∧ target = rest ++ "-to-" ++ target'

variable {file target file' target' : String}

theorem Clash.nameOf_eq (h : Clash file target file' target') :
    nameOf file target = nameOf file' target' := by
  obtain ⟨rest, rfl, rfl⟩ := h
  simp [nameOf, String.append_assoc]

theorem Clash.file_ne (h : Clash file target file' target') : file ≠ file' := by
  obtain ⟨rest, rfl, rfl⟩ := h
  intro same
  have := congrArg (·.toList.length) same
  simp at this

/-- Of two imports with one name, that of the longer path is the other one or clashes with it. -/
theorem eq_or_clash_of_append {front : List Char} (script' : isScriptPath file' = true)
    (longer : file'.toList = file.toList ++ front)
    (same : "-to-".toList ++ target.toList = front ++ ("-to-".toList ++ target'.toList)) :
    file = file' ∧ target = target' ∨ Clash file target file' target' := by
  match front with
  | [] =>
    refine .inl ⟨String.toList_inj.1 ?_, String.toList_inj.1 ?_⟩
    · simpa using longer.symm
    · simpa using same
  | [_] => simp at same
  | [_, _] => simp at same
  | [a, b, c] =>
    -- Here the second separator starts in the first one, so the longer path ends in `-to`.
    obtain ⟨-, -, rfl, -⟩ : _ ∧ _ ∧ 'o' = c ∧ _ := by simpa using same
    exact absurd (by simpa using longer) (ne_concat_of_isScriptPath script' (file.toList ++ [a, b]))
  | a :: b :: c :: d :: rest =>
    obtain ⟨rfl, rfl, rfl, rfl, eq⟩ : '-' = a ∧ 't' = b ∧ 'o' = c ∧ '-' = d ∧ _ := by
      simpa using same
    refine .inr ⟨String.ofList rest, String.toList_inj.1 ?_, String.toList_inj.1 ?_⟩
    · simpa using longer
    · simpa using eq

/-- Two imports of scripts have one name only if they are the same or clash. -/
theorem eq_or_clash_of_nameOf_eq (script : isScriptPath file = true)
    (script' : isScriptPath file' = true) (h : nameOf file target = nameOf file' target') :
    file = file' ∧ target = target' ∨ Clash file target file' target' ∨
      Clash file' target' file target := by
  have lists : file.toList ++ ("-to-".toList ++ target.toList) =
      file'.toList ++ ("-to-".toList ++ target'.toList) := by
    simpa [nameOf] using congrArg String.toList h
  rcases List.append_eq_append_iff.1 lists with ⟨front, longer, same⟩ | ⟨front, longer, same⟩
  · rcases eq_or_clash_of_append script' longer same with eq | clash
    · exact .inl eq
    · exact .inr (.inl clash)
  · rcases eq_or_clash_of_append script longer same with ⟨file_eq, target_eq⟩ | clash
    · exact .inl ⟨file_eq.symm, target_eq.symm⟩
    · exact .inr (.inr clash)

end Edge

/-! ### The edges of an import -/

namespace Dependency

variable {scan : ImportScanner} {files : List ProjectFile}

/-- How many edges lead from a target to a file. -/
def edgeCount (g : Graph) (path target : String) : Nat :=
  g.edges.countP fun e => e.source = target ∧ e.target = path

theorem edgeCount_pos_iff {g : Graph} {path target : String} :
    0 < edgeCount g path target ↔ ∃ e ∈ g.edges, e.source = target ∧ e.target = path := by
  simp [edgeCount, List.countP_pos_iff]

theorem id_of_mem_edges {e : Edge} (h : e ∈ (build scan files).graph.edges) :
    e.id = Edge.nameOf e.target e.source := by
  obtain ⟨link, -, -, rfl⟩ := exists_link_of_mem_edges h
  rfl

/-- However often something is imported, it is drawn at most once. -/
theorem edgeCount_le_one (scan : ImportScanner) (files : List ProjectFile) (path target : String) :
    edgeCount (build scan files).graph path target ≤ 1 := by
  let edges := (build scan files).graph.edges
  calc edges.countP (fun e => e.source = target ∧ e.target = path)
      ≤ edges.countP (fun e => e.id == Edge.nameOf path target) := by
        apply List.countP_mono_left
        intro e he ends
        obtain ⟨rfl, rfl⟩ := of_decide_eq_true ends
        simp [id_of_mem_edges he]
    _ = (edges.map (·.id)).count (Edge.nameOf path target) := by
        rw [List.count, List.countP_map]
        rfl
    _ ≤ 1 := List.nodup_iff_count_le_one.1 (nodup_edgeIds_build scan files) _

theorem edgeCount_eq_one_iff {path target : String} :
    edgeCount (build scan files).graph path target = 1 ↔
      ∃ e ∈ (build scan files).graph.edges, e.source = target ∧ e.target = path := by
  rw [← edgeCount_pos_iff]
  have := edgeCount_le_one scan files path target
  omega

/-- Every import has an edge of its name. -/
theorem exists_edge_of_imports {path target : String} (h : Imports scan files path target) :
    ∃ e ∈ (build scan files).graph.edges,
      Edge.nameOf e.target e.source = Edge.nameOf path target := by
  obtain ⟨link, found, rfl, rfl⟩ := exists_link_of_imports h
  obtain ⟨drawn, hd, same⟩ := exists_mem_drawnLinks found
  exact ⟨drawn.edge, edges_build scan files ▸ List.mem_map_of_mem hd, same⟩

/-- No import clashes with another one. -/
def Unambiguous (scan : ImportScanner) (files : List ProjectFile) : Prop :=
  ∀ path target path' target', Imports scan files path target → Imports scan files path' target' →
    ¬ Edge.Clash path target path' target'

theorem edgeCount_eq_one_of_unambiguous (h : Unambiguous scan files) {path target : String}
    (imports : Imports scan files path target) :
    edgeCount (build scan files).graph path target = 1 := by
  obtain ⟨e, he, same⟩ := exists_edge_of_imports imports
  have drawn := imports_of_mem_edges he
  rw [edgeCount_eq_one_iff]
  rcases Edge.eq_or_clash_of_nameOf_eq drawn.isScript imports.isScript same with
    ⟨file_eq, target_eq⟩ | clash | clash
  · exact ⟨e, he, target_eq, file_eq⟩
  · exact absurd clash (h _ _ _ _ drawn imports)
  · exact absurd clash (h _ _ _ _ imports drawn)

/-- Of two imports that clash, not both are drawn. -/
theorem not_drawn_of_clash {path target path' target' : String}
    (clash : Edge.Clash path target path' target')
    (drawn : edgeCount (build scan files).graph path target = 1) :
    edgeCount (build scan files).graph path' target' ≠ 1 := by
  intro drawn'
  obtain ⟨e, he, rfl, rfl⟩ := edgeCount_eq_one_iff.1 drawn
  obtain ⟨e', he', rfl, rfl⟩ := edgeCount_eq_one_iff.1 drawn'
  have same : e.id = e'.id := by
    rw [id_of_mem_edges he, id_of_mem_edges he', clash.nameOf_eq]
  have := List.inj_on_of_nodup_map (nodup_edgeIds_build scan files) he he' same
  exact clash.file_ne (this ▸ rfl)

/-- No edge is drawn twice, and every import has its edge exactly when no two imports clash. -/
theorem drawn_once_iff_unambiguous (scan : ImportScanner) (files : List ProjectFile) :
    (∀ path target, edgeCount (build scan files).graph path target ≤ 1) ∧
      ((∀ path target, Imports scan files path target →
          edgeCount (build scan files).graph path target = 1) ↔ Unambiguous scan files) := by
  refine ⟨edgeCount_le_one scan files, ?_, ?_⟩
  · intro once path target path' target' imports imports' clash
    exact not_drawn_of_clash clash (once path target imports) (once path' target' imports')
  · intro unambiguous path target imports
    exact edgeCount_eq_one_of_unambiguous unambiguous imports

/-- A script imports a file of the project and has no edge from it, since a script whose path is a
beginning of its path imports a file with a name that makes up the difference. -/
theorem import_lost_by_clash :
    let files : List ProjectFile :=
      [⟨"a.js", "import './b.js-to-c.js';"⟩, ⟨"a.js-to-b.js", "import './c.js';"⟩,
        ⟨"b.js-to-c.js", ""⟩, ⟨"c.js", ""⟩]
    (files.map (·.path)).Nodup ∧ Imports textScanner files "a.js-to-b.js" "c.js" ∧
      edgeCount (build textScanner files).graph "a.js-to-b.js" "c.js" = 0 := by
  intro files
  refine ⟨by decide, ⟨⟨"a.js-to-b.js", "import './c.js';"⟩, ["./c.js"], ⟨?_, ?_, ?_⟩, rfl, ?_⟩, ?_⟩
  · simp [files]
  · decide +kernel
  · decide +kernel
  · exact ⟨"./c.js", by simp, by decide +kernel⟩
  · decide +kernel

end Dependency

end CodeAtlas
