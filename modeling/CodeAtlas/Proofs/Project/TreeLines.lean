import CodeAtlas.Proofs.Graph.Cycles
import CodeAtlas.Proofs.Project.TreeRows

/-!
# How a file tree is drawn

Every row of a file tree has one line. Which marks stand on it depends on which of its prefixes are
last in their directories, and that can be told from the routes: no name beside it occurs first
later. So the line of a row is said here without the tree, and the drawing is the lines of all rows
in their order.

The routes come from the sorted paths. A path that is given twice adds nothing, and sorting forgets
the order in which the paths were given, so the drawing depends on which paths there are and nothing
else.
-/

namespace CodeAtlas.FileTree

variable {routes : List (List String)} {name : String} {row : List String}

/-! ### The last in a directory -/

/-- Nothing beside a row occurs first later than the row. -/
def IsLast (routes : List (List String)) (row : List String) : Prop :=
  ∀ route ∈ routes, ∀ name ∈ route, row.dropLast ++ [name] <+: route →
    first routes (row.dropLast ++ [name]) ≤ first routes row

instance : Decidable (IsLast routes row) :=
  inferInstanceAs (Decidable (∀ route ∈ routes, ∀ name ∈ route, _ → _))

theorem isLast_iff : IsLast routes row ↔ ∀ name, Shows routes (row.dropLast ++ [name]) →
    first routes (row.dropLast ++ [name]) ≤ first routes row := by
  constructor
  · rintro last name ⟨-, route, mem, isPrefix⟩
    exact last route mem name (isPrefix.subset (by simp)) isPrefix
  · intro last route mem name _ isPrefix
    exact last name ⟨by simp, route, mem, isPrefix⟩

theorem isLast_cons_iff (ne : row ≠ []) :
    IsLast routes (name :: row) ↔ IsLast (below name routes) row := by
  rw [isLast_iff, isLast_iff, List.dropLast_cons_of_ne_nil ne]
  refine forall_congr' fun next => ?_
  rw [List.cons_append, shows_cons_iff (by simp), ← Nat.not_lt, ← Nat.not_lt, first_cons_lt_iff]

/-- In a list that a measure ascends, the last element is the one with the greatest measure. -/
theorem getLast?_eq_some_iff_of_pairwise {α : Type} {measure : α → Nat} {l : List α} {a : α}
    (ascends : l.Pairwise fun a b => measure a < measure b) (mem : a ∈ l) :
    l.getLast? = some a ↔ ∀ b ∈ l, measure b ≤ measure a := by
  induction l using List.reverseRecOn with
  | nil => simp at mem
  | append_singleton l last _ =>
    have below : ∀ b ∈ l, measure b < measure last := by
      simpa using (List.pairwise_append.1 ascends).2.2
    rw [List.getLast?_concat, Option.some_inj]
    constructor
    · rintro rfl b mem
      rcases List.mem_append.1 mem with mem | mem
      · exact (below b mem).le
      · rw [List.mem_singleton.1 mem]
    · intro greatest
      rcases List.mem_append.1 mem with inside | isLast
      · exact absurd (below a inside) (Nat.not_lt.2 (greatest last (by simp)))
      · exact (List.mem_singleton.1 isLast).symm

theorem isLast_singleton_iff (mem : name ∈ names routes) :
    IsLast routes [name] ↔ (names routes).getLast? = some name := by
  rw [getLast?_eq_some_iff_of_pairwise (pairwise_names routes) mem, isLast_iff]
  simp only [List.dropLast_singleton, List.nil_append, shows_singleton_iff]

/-! ### The line of a row -/

/-- The proper prefixes of a row, from the shortest on. The empty one is not among them. -/
def above (row : List String) : List (List String) := row.dropLast.inits.tail

/-- The line of a row: a bar for every directory above it that is not the last of its own, the row's
branch and its last name. -/
def line (routes : List (List String)) (row : List String) : String :=
  String.join ((above row).map fun outer => if IsLast routes outer then "    " else "│   ") ++
    (if IsLast routes row then "└── " else "├── ") ++ row.getLastD ""

theorem above_cons (ne : row ≠ []) (name : String) :
    above (name :: row) = [name] :: (above row).map (name :: ·) := by
  have start : row.dropLast.inits = [] :: above row := by
    rw [above]
    cases row.dropLast <;> rfl
  rw [above, List.dropLast_cons_of_ne_nil ne, List.inits_cons, start]
  rfl

theorem ne_nil_of_mem_above {outer : List String} (h : outer ∈ above row) : outer ≠ [] := by
  rw [above] at h
  cases inner : row.dropLast with
  | nil => simp [inner] at h
  | cons name rest =>
    obtain ⟨rest, -, rfl⟩ : ∃ rest', rest' ∈ rest.inits ∧ name :: rest' = outer := by
      simpa [inner] using h
    exact List.cons_ne_nil name rest

theorem line_singleton (routes : List (List String)) (name : String) :
    line routes [name] = branch (IsLast routes [name]) ++ name := by
  by_cases last : IsLast routes [name] <;> simp [line, above, branch, last]

theorem line_cons (ne : row ≠ []) :
    line routes (name :: row) = margin (IsLast routes [name]) ++ line (below name routes) row := by
  have outer :
      (above row).map (fun outer => if IsLast routes (name :: outer) then "    " else "│   ") =
        (above row).map fun outer =>
          if IsLast (below name routes) outer then "    " else "│   " := by
    apply List.map_congr_left
    intro outer mem
    simp only [isLast_cons_iff (ne_nil_of_mem_above mem)]
  have last : (name :: row).getLastD "" = row.getLastD "" := by
    obtain ⟨next, rest, rfl⟩ := List.exists_cons_of_ne_nil ne
    rfl
  rw [line, line, above_cons ne, List.map_cons, List.map_map, String.join_cons, last]
  simp only [Function.comp_def, outer, isLast_cons_iff ne, margin, decide_eq_true_eq,
    String.append_assoc]

theorem lines_level {ns : List String} (distinct : ns.Nodup) (indent : String)
    (inside : String → Directory) :
    lines indent (level ns inside) = ns.flatMap fun name =>
      (indent ++ branch (ns.getLast? = some name) ++ name) ::
        lines (indent ++ margin (ns.getLast? = some name)) (inside name) := by
  induction ns with
  | nil => rfl
  | cons first ns ih =>
    obtain ⟨absent, distinct⟩ := List.nodup_cons.1 distinct
    change entryLines indent (level ns inside).isEmpty (.node first (inside first)) ++
      lines indent (level ns inside) = _
    rw [entryLines, ih distinct, List.flatMap_cons]
    cases ns with
    | nil => simp [level]
    | cons second ns =>
      have others : (second :: ns).getLast? ≠ some first :=
        fun last => absent (List.mem_of_getLast? last)
      simp [level, List.getLast?_cons_cons, others]

/-- A drawing is the lines of all rows. -/
theorem lines_ofRoutes (routes : List (List String)) (indent : String) :
    lines indent (ofRoutes routes) = (rows (ofRoutes routes)).map fun row =>
      indent ++ line routes row := by
  induction routes using routes_induction generalizing indent with
  | step routes ih =>
    rw [ofRoutes_eq, lines_level (nodup_names routes), rows_level, List.map_flatMap]
    -- Name by name: its own line, and below it the lines of what is left of its routes, one margin
    -- further in.
    apply List.flatMap_congr
    intro name mem
    have marks : decide ((names routes).getLast? = some name) = decide (IsLast routes [name]) := by
      simp only [isLast_singleton_iff mem]
    rw [marks, List.map_cons, line_singleton, ih name mem, List.map_map, String.append_assoc]
    congr 1
    apply List.map_congr_left
    intro row inside
    rw [Function.comp_apply, line_cons (mem_rows_iff.1 inside).1, String.append_assoc]

/-- A name that is a file and a directory has one entry, and stands before a longer name that sorts
between. -/
example : lines "" (ofPaths ["a", "a-b", "a/b"]) = ["├── a", "│   └── b", "└── a-b"] := by
  rfl

/-! ### Lines of a text -/

/-- The marks of a line are on one line, so that only its name could break it. -/
theorem noBreak_line (h : ∀ name ∈ row, '\n' ∉ name.toList) : '\n' ∉ (line routes row).toList := by
  have last : '\n' ∉ (row.getLast?.getD "").toList := by
    cases found : row.getLast? with
    | none => simp
    | some name => exact h name (List.mem_of_getLast? found)
  have bar (outer : List String) :
      '\n' ∉ (if IsLast routes outer then "    " else "│   ").toList := by
    split <;> decide
  have own : '\n' ∉ (if IsLast routes row then "└── " else "├── ").toList := by
    split <;> decide
  simp [line, String.toList_join, last, bar, own]

/-! ### The paths that are drawn -/

/-- No pattern of the ignore list occurs in the path. -/
def Kept (ignore : List String) (path : String) : Prop :=
  ∀ pattern ∈ ignore, ¬ pattern.toList <:+: path.toList

instance (ignore : List String) (path : String) : Decidable (Kept ignore path) :=
  inferInstanceAs (Decidable (∀ pattern ∈ ignore, ¬ _))

theorem shownPaths_perm (ignore : List String) (files : List ProjectFile) :
    (shownPaths ignore files).Perm ((files.map (·.path)).filter (Kept ignore ·)) := by
  have kept (path : String) : (!ignore.any (Text.contains path)) = decide (Kept ignore path) := by
    rw [Bool.eq_iff_iff]
    simp [Kept, ← Text.contains_iff]
  rw [shownPaths, funext kept]
  exact List.mergeSort_perm _ _

theorem ofPaths_eraseDups (paths : List String) : ofPaths paths.eraseDups = ofPaths paths := by
  induction paths using List.reverseRecOn with
  | nil => rfl
  | append_singleton paths path ih =>
    by_cases mem : path ∈ paths
    · rw [eraseDups_concat_of_mem mem, ih, ofPaths_eq, ofPaths_eq, List.map_append,
        List.map_singleton, ofRoutes_concat_of_mem (List.mem_map_of_mem mem)]
    · rw [eraseDups_concat_of_notMem mem, ofPaths_eq, ofPaths_eq, List.map_append, List.map_append,
        List.map_singleton, ofRoutes_concat, ofRoutes_concat, ← ofPaths_eq, ← ofPaths_eq, ih]

/-- Files that are given in another order or more than once are drawn in the same way. -/
theorem draw_eq_of_mem_iff {files others : List ProjectFile}
    (same : ∀ file, file ∈ others ↔ file ∈ files) (ignore : List String) :
    draw ignore others = draw ignore files := by
  have mem (path : String) : path ∈ (shownPaths ignore others).eraseDups ↔
      path ∈ (shownPaths ignore files).eraseDups := by
    simp only [List.mem_eraseDups, (shownPaths_perm ignore _).mem_iff, List.mem_filter,
      List.mem_map, same]
  have perm : (shownPaths ignore others).eraseDups.Perm (shownPaths ignore files).eraseDups :=
    (List.perm_ext_iff_of_nodup (nodup_eraseDups _) (nodup_eraseDups _)).2 mem
  have paths : (shownPaths ignore others).eraseDups = (shownPaths ignore files).eraseDups :=
    perm.eq_of_pairwise (fun _ _ _ _ lt gt => absurd lt (lt_asymm gt))
      (Graph.pairwise_eraseDups_mergeSort _) (Graph.pairwise_eraseDups_mergeSort _)
  rw [draw, draw, ← ofPaths_eraseDups, paths, ofPaths_eraseDups]

/-- No line of a drawing is broken if no path is. -/
theorem noBreak_of_mem_lines {paths : List String} (h : ∀ path ∈ paths, '\n' ∉ path.toList) :
    ∀ text ∈ lines "" (ofPaths paths), '\n' ∉ text.toList := by
  rw [ofPaths_eq, lines_ofRoutes]
  intro text mem
  obtain ⟨row, shown, rfl⟩ := List.mem_map.1 mem
  obtain ⟨-, route, found, isPrefix⟩ := mem_rows_iff.1 shown
  obtain ⟨path, given, rfl⟩ := List.mem_map.1 found
  rw [String.empty_append]
  apply noBreak_line
  intro name mem isBreak
  exact h path given (Text.mem_of_mem_split (isPrefix.subset mem) isBreak)

/-- The lines of a drawing after the first are those of the prefixes of the paths that are kept:
each prefix has one line, in pre-order, where the names of a directory stand in the order in which
they first occur in the sorted paths. Other lists of the same files are drawn in the same way. -/
theorem draws_every_prefix_once (ignore : List String) (files : List ProjectFile)
    (noBreak : ∀ file ∈ files, '\n' ∉ file.path.toList) :
    ∃ (paths : List String) (rows : List (List String)),
      paths.Perm ((files.map (·.path)).filter (Kept ignore ·)) ∧ paths.Pairwise (· ≤ ·) ∧
      IsPreorder (paths.map Path.segments) rows ∧
      Text.split '\n' (draw ignore files) =
        "." :: rows.map (line (paths.map Path.segments)) ++ [""] ∧
      ∀ others, (∀ file, file ∈ others ↔ file ∈ files) →
        draw ignore others = draw ignore files := by
  refine ⟨shownPaths ignore files, rows (ofPaths (shownPaths ignore files)),
    shownPaths_perm ignore files, Graph.pairwise_mergeSort (fun path => path) _, ?_, ?_, ?_⟩
  · rw [ofPaths_eq]
    exact isPreorder_rows _
  · have plain :
        ∀ text ∈ "." :: lines "" (ofPaths (shownPaths ignore files)), '\n' ∉ text.toList := by
      rw [List.forall_mem_cons]
      refine ⟨by decide, noBreak_of_mem_lines ?_⟩
      intro path mem
      have kept := (shownPaths_perm ignore files).mem_iff.1 mem
      obtain ⟨file, given, rfl⟩ := List.mem_map.1 (List.mem_filter.1 kept).1
      exact noBreak file given
    refine (Text.split_join_terminated '\n' _ plain).trans ?_
    simp [ofPaths_eq, lines_ofRoutes]
  · intro others same
    exact draw_eq_of_mem_iff same ignore

/-- A file is also a directory, another name sorts between the two, one path has an empty name in it
and one is ignored. -/
theorem draws_file_that_is_a_directory :
    let files : List ProjectFile :=
      [⟨"a/b", ""⟩, ⟨"a-b", ""⟩, ⟨"src//x", ""⟩, ⟨"a", ""⟩, ⟨"node_modules/y", ""⟩]
    (∀ file ∈ files, '\n' ∉ file.path.toList) ∧
      ∃ (paths : List String) (rows : List (List String)),
        IsPreorder (paths.map Path.segments) rows ∧
        ["a"] ∈ rows ∧ ["a", "b"] ∈ rows ∧ ["a-b"] ∈ rows ∧ ["src", ""] ∈ rows ∧
        "node_modules/y" ∉ paths ∧
        Text.split '\n' (draw ["node_modules"] files) =
          "." :: rows.map (line (paths.map Path.segments)) ++ [""] := by
  intro files
  have noBreak : ∀ file ∈ files, '\n' ∉ file.path.toList := by decide
  obtain ⟨paths, rows, perm, -, preorder, drawn, -⟩ :=
    draws_every_prefix_once ["node_modules"] files noBreak
  have shown {row : List String} (path : String)
      (given : path ∈ (files.map (·.path)).filter (Kept ["node_modules"] ·))
      (isPrefix : row ≠ [] ∧ row <+: Path.segments path) : row ∈ rows := by
    exact (preorder.mem_iff row).2 ⟨isPrefix.1, _, List.mem_map_of_mem (perm.mem_iff.2 given),
      isPrefix.2⟩
  refine ⟨noBreak, paths, rows, preorder, ?_, ?_, ?_, ?_, ?_, drawn⟩
  · exact shown "a" (by decide) (by decide)
  · exact shown "a/b" (by decide) (by decide)
  · exact shown "a-b" (by decide) (by decide)
  · exact shown "src//x" (by decide) (by decide)
  · rw [perm.mem_iff]
    decide

end CodeAtlas.FileTree
