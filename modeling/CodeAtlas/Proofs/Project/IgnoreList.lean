import CodeAtlas.Proofs.Project.Following
import CodeAtlas.Proofs.Project.Resolution
import CodeAtlas.Proofs.Project.TreeLines
import Mathlib.Algebra.Order.BigOperators.Group.List

/-!
# Three readings of the ignore list

The names on the ignore list are read in three ways. Loading a project compares them with the names
below the project's root. The filter of a watched project compares them with every component of a
path, those of the root among them. The drawing of a project's files looks for them anywhere in the
text of a path.

So the three agree only now and then. The filter excludes by name what loading leaves out by name if
and only if no component of the root's own path is on the list. A file that has been loaded has its
lines in the drawing if and only if nothing on the list occurs in its path, inside of a name or
across a slash.
-/

namespace CodeAtlas

open CodeAtlas.Path (IsName IsPath ofNames startOf)

/-! ### Paths below a root -/

namespace Path

/-- A relative path that leads through these names and nothing else. -/
structure Spells (path : String) (names : List String) : Prop where
  ne_nil : names ≠ []
  components_eq : components path = names.map Component.normal

instance (path : String) (names : List String) : Decidable (Spells path names) :=
  decidable_of_iff (names ≠ [] ∧ components path = names.map Component.normal)
    ⟨fun h => ⟨h.1, h.2⟩, fun h => ⟨h.ne_nil, h.components_eq⟩⟩

theorem eq_of_componentOf? {segment name : String}
    (h : componentOf? segment = some (.normal name)) : segment = name := by
  unfold componentOf? at h
  split at h
  · cases h
  · cases h
  · cases h
  · exact Component.normal.inj (Option.some.inj h)

theorem spells_ofNames {names : List String} (h : IsPath names) : Spells (ofNames names) names :=
  ⟨h.ne_nil, components_ofNames h⟩

namespace Spells

variable {path : String} {names : List String}

theorem startOf_eq_nil (h : Spells path names) : startOf path = [] := by
  have named : ∀ c ∈ startOf path, ∃ name, c = .normal name := by
    intro c mem
    have among : c ∈ components path := by
      rw [Path.components_eq]
      exact List.mem_append_left _ mem
    rw [h.components_eq] at among
    obtain ⟨name, -, rfl⟩ := List.mem_map.1 among
    exact ⟨name, rfl⟩
  rw [startOf] at named ⊢
  split at named
  · simp at named
  · split at named
    · simp at named
    · simp_all

theorem isPath (h : Spells path names) : IsPath names where
  ne_nil := h.ne_nil
  isName := by
    intro name mem
    have among : Component.normal name ∈ components path := by
      rw [h.components_eq]
      exact List.mem_map_of_mem mem
    rw [Path.components_eq, h.startOf_eq_nil, List.nil_append] at among
    obtain ⟨segment, found, component⟩ := List.mem_filterMap.1 among
    obtain rfl := eq_of_componentOf? component
    exact ⟨component, noSlash_of_mem_segments found⟩

end Spells

/-- There is always another name. -/
theorem exists_isName_notMem (names : List String) : ∃ name, IsName name ∧ name ∉ names := by
  let total := (names.map (·.toList.length)).sum
  let name := String.ofList (List.replicate (3 + total) 'a')
  have length : name.toList.length = 3 + total := by simp [name]
  have ne {other : String} (shorter : other.toList.length ≤ 2 + total) : name ≠ other := by
    rintro rfl
    omega
  refine ⟨name, isName_iff.2 ⟨⟨ne (by simp), by simp [name]⟩, ne ?_, ne ?_⟩, ?_⟩
  · show 1 ≤ 2 + total
    omega
  · show 2 ≤ 2 + total
    omega
  · intro mem
    have : name.toList.length ≤ total := List.le_sum_of_mem (List.mem_map_of_mem mem)
    omega

theorem ofNames_isPrefix {names others : List String} (h : names <+: others) :
    (ofNames names).toList <+: (ofNames others).toList := by
  obtain ⟨rest, rfl⟩ := h
  induction rest using List.reverseRecOn with
  | nil => rw [List.append_nil]
  | append_singleton rest name ih =>
    by_cases empty : names ++ rest = []
    · rw [(List.append_eq_nil_iff.1 empty).1]
      exact List.nil_prefix
    · rw [← List.append_assoc, ofNames_concat empty, String.append_assoc, String.toList_append]
      exact ih.trans (List.prefix_append _ _)

theorem ofNames_segments (path : String) : ofNames (segments path) = path :=
  Text.join_split '/' path

end Path

/-! ### Loading -/

namespace Directory

variable {d : Directory} {s : Settings} {root : String} {names : List String}

/-- Everything in the directory is listed under names. -/
def IsNamed (d : Directory) : Prop := ∀ e ∈ d.entries, ∀ name ∈ e.1, IsName name

instance (d : Directory) : Decidable d.IsNamed :=
  inferInstanceAs (Decidable (∀ e ∈ d.entries, ∀ name ∈ e.1, _))

/-- A file with this path is loaded. -/
def Loads (d : Directory) (s : Settings) (root path : String) : Prop :=
  ∃ files, d.load s root = .ok files ∧ ∃ file ∈ files, file.path = path

/-- A file with this path is not loaded, but would be if the ignore list were empty. -/
def LeavesOutByName (d : Directory) (s : Settings) (root path : String) : Prop :=
  d.Loads { s with ignore := [] } root path ∧ ¬ d.Loads s root path

theorem load_eq_ok_iff {files : List ProjectFile} :
    d.load s root = .ok files ↔
      ∃ base, d.locate? root = some base ∧ d.entry? base = some .directory ∧
        files = (d.entries.filterMap (d.projectFile? s base)).mergeSort
          fun a b => Graph.textLe a.path b.path := by
  rw [load]
  cases located : d.locate? root with
  | none => simp
  | some base =>
    by_cases isDirectory : d.entry? base = some .directory
    · simp [isDirectory, eq_comm]
    · simp [isDirectory]

/-- A loaded file stands at some names below the root, and is admitted there. -/
theorem exists_names_of_mem_load (isNamed : d.IsNamed) {files : List ProjectFile}
    (loaded : d.load s root = .ok files) {file : ProjectFile} (mem : file ∈ files) :
    ∃ base names content, d.locate? root = some base ∧ d.entry? base = some .directory ∧
      (base ++ names, .file content) ∈ d.entries ∧ IsPath names ∧
      d.admits s base names content.length = true ∧
      file.path = ofNames names := by
  obtain ⟨base, located, isDirectory, rfl⟩ := load_eq_ok_iff.1 loaded
  obtain ⟨e, listed, given⟩ := List.mem_filterMap.1 (List.mem_mergeSort.1 mem)
  obtain ⟨names, content, rfl, ne_nil, admitted, rfl⟩ := projectFile?_iff.1 given
  have isPath : IsPath names :=
    ⟨ne_nil, fun name mem => isNamed _ listed name (List.mem_append_right _ mem)⟩
  exact ⟨base, names, content, located, isDirectory, listed, isPath, admitted, rfl⟩

theorem loads_iff (isNamed : d.IsNamed) (isPath : IsPath names) :
    d.Loads s root (ofNames names) ↔ ∃ base content, d.locate? root = some base ∧
      d.entry? base = some .directory ∧ (base ++ names, .file content) ∈ d.entries ∧
      d.admits s base names content.length = true := by
  constructor
  · rintro ⟨files, loaded, file, mem, path⟩
    obtain ⟨base, others, content, located, isDirectory, listed, isPathOther, admitted, path'⟩ :=
      exists_names_of_mem_load isNamed loaded mem
    obtain rfl := Path.ofNames_inj isPathOther isPath (path'.symm.trans path)
    exact ⟨base, content, located, isDirectory, listed, admitted⟩
  · rintro ⟨base, content, located, isDirectory, listed, admitted⟩
    refine ⟨_, load_eq_ok_iff.2 ⟨base, located, isDirectory, rfl⟩,
      ⟨ofNames names, Utf8.decodeLossy content⟩, ?_, rfl⟩
    rw [List.mem_mergeSort, List.mem_filterMap]
    exact ⟨_, listed, projectFile?_iff.2 ⟨names, content, rfl, isPath.ne_nil, admitted, rfl⟩⟩

/-- The ignore list leaves out files below a name on it, and has no other effect. -/
theorem admits_iff (base : List String) (size : Nat) :
    d.admits s base names size = true ↔
      (∀ name ∈ names, name ∉ s.ignore) ∧
        d.admits { s with ignore := [] } base names size = true := by
  have accepts : ({ s with ignore := [] } : Settings).accepts = s.accepts := rfl
  simp [admits, accepts, and_assoc]

theorem leavesOutByName_iff (isNamed : d.IsNamed) (isPath : IsPath names) :
    d.LeavesOutByName s root (ofNames names) ↔
      d.Loads { s with ignore := [] } root (ofNames names) ∧ ∃ name ∈ names, name ∈ s.ignore := by
  refine and_congr_right ?_
  intro otherwise
  obtain ⟨base, content, located, isDirectory, listed, admitted⟩ :=
    (loads_iff isNamed isPath).1 otherwise
  constructor
  · intro leftOut
    by_contra allowed
    push Not at allowed
    exact leftOut ((loads_iff isNamed isPath).2
      ⟨base, content, located, isDirectory, listed, (admits_iff base _).2 ⟨allowed, admitted⟩⟩)
  · rintro ⟨name, mem, ignored⟩ loads
    obtain ⟨base, content, -, -, -, admitted⟩ := (loads_iff isNamed isPath).1 loads
    exact ((admits_iff base _).1 admitted).1 name mem ignored

end Directory

/-! ### The filter of a watched project -/

namespace PathFilter

variable {d : Directory} {root path : String} {names : List String}

/-- Without an ignore file a path is excluded by the names on its way, above the root or below. -/
theorem excludes_join_iff (s : Settings) (noRules : d.read? (Path.join root ignoreFileName) = none)
    (spells : Path.Spells path names) :
    (ofRoot d s root).excludes d (Path.join root path) = true ↔
      (∃ c ∈ Path.components root, c.text ∈ s.ignore) ∨ ∃ name ∈ names, name ∈ s.ignore := by
  have filter : ofRoot d s root = ⟨root, s.ignore, []⟩ := by rw [ofRoot, noRules]
  rw [filter, excludes_eq, shouldIgnore, Path.components_join_of_startOf root spells.startOf_eq_nil,
    spells.components_eq, List.any_append, Bool.or_eq_true, List.any_map]
  simp [Path.Component.text]

/-- Below a root without an ignore file the filter excludes what has a name on the ignore list, and
everything if the root's own path has one. So it excludes what loading leaves out by name if and
only if the root's path has none. -/
theorem depends_on_location_iff (d : Directory) (s : Settings) (root : String) (isNamed : d.IsNamed)
    (noRules : d.read? (Path.join root ignoreFileName) = none) :
    (∀ path names, Path.Spells path names →
      ((ofRoot d s root).excludes d (Path.join root path) = true ↔
        (∃ c ∈ Path.components root, c.text ∈ s.ignore) ∨ ∃ name ∈ names, name ∈ s.ignore) ∧
      (d.LeavesOutByName s root (ofNames names) ↔
        d.Loads { s with ignore := [] } root (ofNames names) ∧ ∃ name ∈ names, name ∈ s.ignore)) ∧
    ((∀ path names, Path.Spells path names →
      ((ofRoot d s root).excludes d (Path.join root path) = true ↔
        ∃ name ∈ names, name ∈ s.ignore)) ↔
      ∀ c ∈ Path.components root, c.text ∉ s.ignore) := by
  refine ⟨fun path names spells => ⟨excludes_join_iff s noRules spells,
    Directory.leavesOutByName_iff isNamed spells.isPath⟩, ?_⟩
  constructor
  · intro agree c mem ignored
    -- A file with a name that is not on the list is excluded all the same.
    obtain ⟨name, isName, allowed⟩ := Path.exists_isName_notMem s.ignore
    have spells : Path.Spells (ofNames [name]) [name] :=
      Path.spells_ofNames ⟨by simp, by simpa using isName⟩
    have excluded := (excludes_join_iff s noRules spells).2 (.inl ⟨c, mem, ignored⟩)
    simpa [allowed] using (agree _ _ spells).1 excluded
  · intro outside path names spells
    rw [excludes_join_iff s noRules spells]
    apply or_iff_right
    rintro ⟨c, mem, ignored⟩
    exact outside c mem ignored

/-- A project that lies outside of everything ignored, with an ignored directory in it. -/
theorem location_does_not_matter_for_app :
    let d : Directory :=
      ⟨"/w", [(["app", "dist", "a.js"], .file []), (["app", "src", "a.js"], .file [])]⟩
    let s : Settings := {}
    d.IsNamed ∧ d.read? (Path.join "/w/app" ignoreFileName) = none ∧
      (∀ path names, Path.Spells path names →
        ((ofRoot d s "/w/app").excludes d (Path.join "/w/app" path) = true ↔
          ∃ name ∈ names, name ∈ s.ignore)) ∧
      d.LeavesOutByName s "/w/app" "dist/a.js" := by
  intro d s
  have isNamed : d.IsNamed := by decide
  have noRules : d.read? (Path.join "/w/app" ignoreFileName) = none := by decide +kernel
  have spells : Path.Spells "dist/a.js" ["dist", "a.js"] := by decide
  obtain ⟨each, agree_iff⟩ := depends_on_location_iff d s "/w/app" isNamed noRules
  refine ⟨isNamed, noRules, agree_iff.2 (by decide),
    (each _ _ spells).2.2 ⟨?_, "dist", by decide, by decide⟩⟩
  exact (Directory.loads_iff isNamed spells.isPath).2
    ⟨["app"], [], by decide +kernel, by decide +kernel, by decide, by decide +kernel⟩

/-- A project in a directory with an ignored name is loaded, but nothing in it is reported. -/
theorem project_inside_ignored_directory :
    let d : Directory := ⟨"/w", [(["build", "a.js"], .file [97])]⟩
    let s : Settings := {}
    d.read? (Path.join "/w/build" ignoreFileName) = none ∧ Path.Spells "a.js" ["a.js"] ∧
      (¬ ∃ name ∈ ["a.js"], name ∈ s.ignore) ∧ d.load s "/w/build" = .ok [⟨"a.js", "a"⟩] ∧
      (ofRoot d s "/w/build").excludes d (Path.join "/w/build" "a.js") = true := by
  decide +kernel

end PathFilter

/-! ### The drawing of the files -/

namespace FileTree

variable {ignore : List String} {files : List ProjectFile}

/-- The routes that are drawn. -/
def routesOf (ignore : List String) (files : List ProjectFile) : List (List String) :=
  (shownPaths ignore files).map Path.segments

/-- The rows of the drawing: a route for every line. -/
def rowsOf (ignore : List String) (files : List ProjectFile) : List (List String) :=
  rows (ofRoutes (routesOf ignore files))

/-- Every prefix of the path has its row. -/
def DrawsAll (ignore : List String) (files : List ProjectFile) (path : String) : Prop :=
  ∀ row, row ≠ [] → row <+: Path.segments path → row ∈ rowsOf ignore files

/-- The drawing has the line of each row, in their order. -/
theorem draw_eq_lines (ignore : List String) (files : List ProjectFile) :
    draw ignore files =
      String.join (("." :: (rowsOf ignore files).map (line (routesOf ignore files))).map
        (· ++ "\n")) := by
  rw [draw, ofPaths_eq, lines_ofRoutes]
  simp [rowsOf, routesOf]

theorem mem_shownPaths_iff {path : String} :
    path ∈ shownPaths ignore files ↔ (∃ file ∈ files, file.path = path) ∧ Kept ignore path := by
  simp [(shownPaths_perm ignore files).mem_iff]

/-- A path is drawn if nothing on the list occurs in it. Where something does, no longer path is
drawn that could have it on its way. -/
theorem drawsAll_iff {file : ProjectFile} (mem : file ∈ files) :
    DrawsAll ignore files file.path ↔ Kept ignore file.path := by
  constructor
  · intro drawn pattern ignored occurs
    have whole := drawn _ (Path.segments_ne_nil file.path) List.prefix_rfl
    obtain ⟨-, route, found, above⟩ := mem_rows_iff.1 whole
    obtain ⟨path, shown, rfl⟩ := List.mem_map.1 found
    have text := Path.ofNames_isPrefix above
    rw [Path.ofNames_segments, Path.ofNames_segments] at text
    exact (mem_shownPaths_iff.1 shown).2 pattern ignored (occurs.trans text.isInfix)
  · intro kept row ne isPrefix
    have shown : file.path ∈ shownPaths ignore files :=
      mem_shownPaths_iff.2 ⟨⟨file, mem, rfl⟩, kept⟩
    exact mem_rows_iff.2 ⟨ne, _, List.mem_map_of_mem shown, isPrefix⟩

/-- The drawing has one line for each of its rows. No name of a loaded file is on the ignore list,
but the file has its lines if and only if nothing on the list occurs in its path as text. -/
theorem draws_loaded_iff (d : CodeAtlas.Directory) (s : Settings) (root : String)
    (files : List ProjectFile) (isNamed : d.IsNamed) (loaded : d.load s root = .ok files) :
    draw s.ignore files =
      String.join (("." :: (rowsOf s.ignore files).map (line (routesOf s.ignore files))).map
        (· ++ "\n")) ∧
    ∀ file ∈ files, (∀ name ∈ Path.segments file.path, name ∉ s.ignore) ∧
      (DrawsAll s.ignore files file.path ↔
        ∀ pattern ∈ s.ignore, ¬ pattern.toList <:+: file.path.toList) := by
  refine ⟨draw_eq_lines s.ignore files, ?_⟩
  intro file mem
  obtain ⟨base, names, content, -, -, -, isPath, admitted, path⟩ :=
    CodeAtlas.Directory.exists_names_of_mem_load isNamed loaded mem
  refine ⟨?_, drawsAll_iff mem⟩
  rw [path, Path.segments_ofNames isPath]
  exact ((CodeAtlas.Directory.admits_iff base _).1 admitted).1

/-- A file beside an ignored directory. -/
theorem draws_loaded_beside_ignored :
    let d : CodeAtlas.Directory :=
      ⟨"/w", [(["dist", "a.js"], .file []), (["src", "a.js"], .file [])]⟩
    let s : Settings := {}
    let files : List ProjectFile := [⟨"src/a.js", ""⟩]
    d.IsNamed ∧ d.load s "/w" = .ok files ∧ DrawsAll s.ignore files "src/a.js" := by
  intro d s files
  have isNamed : d.IsNamed := by decide
  have loaded : d.load s "/w" = .ok files := by decide +kernel
  have drawn := (draws_loaded_iff d s "/w" files isNamed loaded).2 _ List.mem_cons_self
  exact ⟨isNamed, loaded, drawn.2.2 (by decide)⟩

/-- A file is loaded but not drawn, because a name on the list is part of its name. -/
theorem loaded_file_not_drawn :
    let d : CodeAtlas.Directory := ⟨"/w", [(["builder.js"], .file [])]⟩
    let s : Settings := {}
    let files : List ProjectFile := [⟨"builder.js", ""⟩]
    d.load s "/w" = .ok files ∧ draw s.ignore files = ".\n" ∧
      ¬ DrawsAll s.ignore files "builder.js" := by
  intro d s files
  have mem : ⟨"builder.js", ""⟩ ∈ files := List.mem_cons_self
  exact ⟨by decide +kernel, by decide +kernel, mt (drawsAll_iff mem).1 (by decide)⟩

end FileTree

end CodeAtlas
