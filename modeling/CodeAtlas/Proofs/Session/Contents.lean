import CodeAtlas.Proofs.Graph.Names
import CodeAtlas.Session

/-!
# A project is a map from paths to contents

The files of an open project are a list, kept sorted so that a file can be put in its place. What
the list stands for is a map from paths to contents. Every edit changes the map in a simple way:
writing inserts, removing erases a path and what lies below it, and the text in the editor goes to
the active path.

The lemmas here are about the list: it stays strictly sorted when a file is put in its place or
taken away, and then it stands for the map with that path inserted or erased.
-/

namespace CodeAtlas

/-- What is stored under every path. -/
abbrev Contents := String → Option String

namespace Contents

def ofFiles (files : List ProjectFile) : Contents := fun path =>
  (files.find? (·.path == path)).map (·.content)

def insert (c : Contents) (path content : String) : Contents :=
  Function.update c path (some content)

/-- Nothing is left at a path and below it. -/
def erase (c : Contents) (path : String) : Contents := fun p =>
  if p = path ∨ (path ++ "/").toList <+: p.toList then none else c p

/-- What an edit makes of the contents of the open project, if there is one, while `active` is
shown. -/
def edited (active : Option String) (c : Option Contents) : Edit → Option Contents
  | .openProject files => some (ofFiles files)
  | .closeProject => none
  | .write file => c.map (·.insert file.path file.content)
  | .buffer text =>
    match active with
    | some path => c.map (·.insert path text)
    | none => c
  | .remove path => c.map (·.erase path)
  | .language _ | .mode _ | .activate _ => c

end Contents

/-! ### Sorted files -/

/-- The paths increase, so none occurs twice. -/
def Ascending (files : List ProjectFile) : Prop := files.Pairwise fun a b => a.path < b.path

namespace Ascending

variable {files : List ProjectFile}

theorem nodup_paths (h : Ascending files) : (files.map (·.path)).Nodup := by
  rw [List.Nodup, List.pairwise_map]
  exact h.imp fun lt => ne_of_lt lt

theorem filter (h : Ascending files) (keep : ProjectFile → Bool) : Ascending (files.filter keep) :=
  List.Pairwise.filter keep h

/-- Files with different paths are strictly sorted by sorting them. -/
theorem mergeSort (distinct : (files.map (·.path)).Nodup) :
    Ascending (files.mergeSort fun a b => Graph.textLe a.path b.path) := by
  have sorted := Graph.pairwise_mergeSort ProjectFile.path files
  have different : (files.mergeSort fun a b => Graph.textLe a.path b.path).Pairwise
      fun a b => a.path ≠ b.path := by
    rw [← List.pairwise_map, ← List.Nodup]
    exact (List.Perm.map _ (List.mergeSort_perm files _)).nodup_iff.2 distinct
  refine (sorted.and different).imp ?_
  rintro a b ⟨le, ne⟩
  exact lt_of_le_of_ne le ne

end Ascending

namespace Project

variable {files : List ProjectFile} {file other : ProjectFile} {rest : List ProjectFile}

/-- Among strictly sorted files there is only one that a file can replace. -/
theorem place_cons (h : Ascending (other :: rest)) :
    place file (other :: rest) =
      if file.path < other.path then file :: other :: rest
      else if other.path = file.path then file :: rest
      else other :: place file rest := by
  have head : other.path = file.path → (rest.head?.map (·.path)) ≠ some file.path := by
    intro same again
    obtain ⟨next, found, next_eq⟩ := Option.map_eq_some_iff.1 again
    have lt := (List.pairwise_cons.1 h).1 next (List.mem_of_mem_head? found)
    rw [same, next_eq] at lt
    exact lt_irrefl _ lt
  rw [place]
  split
  · rfl
  · by_cases same : other.path = file.path
    · simp only [same, head same, ne_eq, not_false_eq_true, and_self, if_true]
    · simp only [same, false_and, if_false]

/-- Putting a file in its place takes away what has the same path, and nothing else. -/
theorem mem_place_iff (h : Ascending files) {f : ProjectFile} :
    f ∈ place file files ↔ f = file ∨ f ∈ files ∧ f.path ≠ file.path := by
  induction files with
  | nil => simp [place]
  | cons other rest ih =>
    obtain ⟨above, sorted⟩ := List.pairwise_cons.1 h
    have later (le : file.path ≤ other.path) (mem : f ∈ rest) : f.path ≠ file.path :=
      (lt_of_le_of_lt le (above f mem)).ne'
    rw [place_cons h]
    split
    · next lt =>
      have others : f ∈ other :: rest → f.path ≠ file.path := by
        intro mem
        rcases List.mem_cons.1 mem with rfl | mem
        · exact lt.ne'
        · exact later lt.le mem
      rw [List.mem_cons, and_iff_left_of_imp others]
    · split
      · next same =>
        have others : f ∈ other :: rest ∧ f.path ≠ file.path ↔ f ∈ rest := by
          constructor
          · rintro ⟨mem, ne⟩
            rcases List.mem_cons.1 mem with rfl | mem
            · exact absurd same ne
            · exact mem
          · intro mem
            exact ⟨List.mem_cons_of_mem _ mem, later same.ge mem⟩
        rw [List.mem_cons, others]
      · next ne =>
        have first : f = other → f.path ≠ file.path := by
          rintro rfl
          exact ne
        rw [List.mem_cons, List.mem_cons, ih sorted, or_and_right, and_iff_left_of_imp first,
          or_left_comm]

theorem ascending_place (h : Ascending files) : Ascending (place file files) := by
  induction files with
  | nil => exact List.pairwise_singleton _ _
  | cons other rest ih =>
    obtain ⟨above, sorted⟩ := List.pairwise_cons.1 h
    rw [place_cons h]
    split
    · next lt =>
      refine List.pairwise_cons.2 ⟨?_, h⟩
      intro f mem
      rcases List.mem_cons.1 mem with rfl | mem
      · exact lt
      · exact lt_trans lt (above f mem)
    · next notLt =>
      split
      · next same =>
        refine List.pairwise_cons.2 ⟨?_, sorted⟩
        intro f mem
        exact same ▸ above f mem
      · next ne =>
        refine List.pairwise_cons.2 ⟨?_, ih sorted⟩
        intro f mem
        rcases (mem_place_iff sorted).1 mem with rfl | ⟨mem, -⟩
        · exact lt_of_le_of_ne (not_lt.1 notLt) ne
        · exact above f mem

end Project

/-! ### What files stand for -/

namespace Contents

variable {files : List ProjectFile}

theorem ofFiles_eq_some_iff (distinct : (files.map (·.path)).Nodup) {path content : String} :
    ofFiles files path = some content ↔ ⟨path, content⟩ ∈ files := by
  rw [ofFiles, Option.map_eq_some_iff]
  constructor
  · rintro ⟨file, found, rfl⟩
    have same : file.path = path := by simpa using List.find?_some found
    exact same ▸ List.mem_of_find?_eq_some found
  · intro mem
    have some_file : (files.find? (·.path == path)).isSome := by
      rw [List.find?_isSome]
      exact ⟨_, mem, by simp⟩
    obtain ⟨file, found⟩ := Option.isSome_iff_exists.1 some_file
    have same : file.path = path := by simpa using List.find?_some found
    have := List.inj_on_of_nodup_map distinct (List.mem_of_find?_eq_some found) mem same
    exact ⟨file, found, this ▸ rfl⟩

/-- Files with different paths and the same members stand for the same contents. -/
theorem ofFiles_eq_of_mem_iff {c : Contents} (distinct : (files.map (·.path)).Nodup)
    (h : ∀ path content, ⟨path, content⟩ ∈ files ↔ c path = some content) : ofFiles files = c := by
  funext path
  apply Option.ext
  intro content
  rw [ofFiles_eq_some_iff distinct]
  exact h path content

theorem isSome_ofFiles_iff {path : String} :
    (ofFiles files path).isSome ↔ ∃ file ∈ files, file.path = path := by
  simp [ofFiles]

theorem ofFiles_mergeSort (distinct : (files.map (·.path)).Nodup) :
    ofFiles (files.mergeSort fun a b => Graph.textLe a.path b.path) = ofFiles files := by
  apply ofFiles_eq_of_mem_iff (Ascending.mergeSort distinct).nodup_paths
  intro path content
  rw [List.mem_mergeSort, ofFiles_eq_some_iff distinct]

theorem ofFiles_place (h : Ascending files) (file : ProjectFile) :
    ofFiles (Project.place file files) = (ofFiles files).insert file.path file.content := by
  apply ofFiles_eq_of_mem_iff (Project.ascending_place h).nodup_paths
  intro path content
  rw [Project.mem_place_iff h, insert]
  by_cases same : path = file.path
  · subst same
    obtain ⟨filePath, fileContent⟩ := file
    simp [eq_comm]
  · have ne : (⟨path, content⟩ : ProjectFile) ≠ file := by
      rintro rfl
      exact same rfl
    rw [Function.update_of_ne same, ofFiles_eq_some_iff h.nodup_paths]
    simp [same, ne]

theorem isAtOrBelow_iff {path : String} {file : ProjectFile} :
    Project.isAtOrBelow path file = true ↔
      file.path = path ∨ (path ++ "/").toList <+: file.path.toList := by
  simp [Project.isAtOrBelow, Text.hasStart]

theorem ofFiles_filter (h : Ascending files) (path : String) :
    ofFiles (files.filter fun f => !Project.isAtOrBelow path f) = (ofFiles files).erase path := by
  apply ofFiles_eq_of_mem_iff (h.filter _).nodup_paths
  intro p content
  rw [List.mem_filter, Bool.not_eq_true', Bool.eq_false_iff, ne_eq, isAtOrBelow_iff, erase]
  split
  · next gone => simp only [gone, not_true_eq_false, and_false, reduceCtorEq]
  · next kept => simp only [kept, not_false_eq_true, and_true, ofFiles_eq_some_iff h.nodup_paths]

end Contents

end CodeAtlas
