import CodeAtlas.Project.Specifier
import CodeAtlas.Proofs.Project.Below

/-!
# Normal paths

A specifier is followed segment by segment from the directory of its file. What is reached is a list
of segments without slashes, none of them empty, and such a list can be read back from the path that
joins it. So a specifier in two parts can be followed in two stages, with the path reached in
between written out, and it does not matter how often the way up has met the root by then.

The way up and the names after it are all that counts: from a directory of names only names are
reached, and climbing as often as there are directories, or more often, leads to the root.
-/

namespace CodeAtlas

theorem Text.notMem_of_mem_splitChars {separator : Char} {cs part : List Char}
    (h : part ∈ splitChars separator cs) : separator ∉ part := by
  induction cs generalizing part with
  | nil =>
    rw [List.mem_singleton.1 h]
    exact List.not_mem_nil
  | cons c cs ih =>
    obtain ⟨first, rest, eq⟩ := List.exists_cons_of_ne_nil (splitChars_ne_nil separator cs)
    rw [eq] at ih
    rw [splitChars, eq] at h
    by_cases cut : c = separator
    · simp only [cut, if_true, List.mem_cons] at h
      rcases h with rfl | h
      · exact List.not_mem_nil
      · exact ih (List.mem_cons.2 h)
    · simp only [cut, if_false, List.mem_cons] at h
      rcases h with rfl | h
      · rw [List.mem_cons, not_or]
        exact ⟨Ne.symm cut, ih List.mem_cons_self⟩
      · exact ih (List.mem_cons_of_mem first h)

namespace Path

/-! ### Segments -/

/-- A text that can stand between two slashes. -/
structure IsSegment (part : String) : Prop where
  ne_empty : part ≠ ""
  noSlash : '/' ∉ part.toList

theorem noSlash_of_mem_segments {path part : String} (h : part ∈ segments path) :
    '/' ∉ part.toList := by
  obtain ⟨chars, mem, rfl⟩ := List.mem_map.1 h
  rw [String.toList_ofList]
  exact Text.notMem_of_mem_splitChars mem

theorem segments_of_noSlash {name : String} (h : '/' ∉ name.toList) : segments name = [name] := by
  rw [segments, Text.split, Text.splitChars_of_notMem h, List.map_singleton, String.ofList_toList]

theorem isName_iff {name : String} : IsName name ↔ IsSegment name ∧ name ≠ "." ∧ name ≠ ".." := by
  constructor
  · intro h
    refine ⟨⟨h.ne_empty, h.2⟩, h.ne_dot, ?_⟩
    rintro rfl
    cases h.1
  · rintro ⟨⟨ne_empty, noSlash⟩, ne_dot, ne_parent⟩
    exact ⟨by simp only [componentOf?], noSlash⟩

/-- The segments of a path. The empty path is the root and has none. -/
def parts (path : String) : List String := if path = "" then [] else segments path

/-- Segments are read back from the path that they make. -/
theorem segments_ofNames_of_isSegment {names : List String} (ne : names ≠ [])
    (h : ∀ name ∈ names, IsSegment name) : segments (ofNames names) = names :=
  Text.split_join '/' names ne fun name mem => (h name mem).noSlash

theorem ofNames_eq_empty_iff {names : List String} (h : ∀ name ∈ names, IsSegment name) :
    ofNames names = "" ↔ names = [] := by
  constructor
  · intro empty
    refine Decidable.byContradiction fun ne => ?_
    have read := segments_ofNames_of_isSegment ne h
    rw [empty] at read
    have mem : "" ∈ names := by
      rw [← read]
      decide
    exact (h _ mem).ne_empty rfl
  · rintro rfl
    rfl

theorem parts_ofNames {names : List String} (h : ∀ name ∈ names, IsSegment name) :
    parts (ofNames names) = names := by
  rw [parts]
  split
  · next empty => exact ((ofNames_eq_empty_iff h).1 empty).symm
  · next notEmpty => exact segments_ofNames_of_isSegment (mt (ofNames_eq_empty_iff h).2 notEmpty) h

/-- Without its empty segments a path still has the segments that it was made from. -/
theorem filter_segments_ofNames {names : List String} (h : ∀ name ∈ names, IsSegment name) :
    (segments (ofNames names)).filter (· != "") = names := by
  by_cases none : names = []
  · rw [none]
    rfl
  · rw [segments_ofNames_of_isSegment none h, List.filter_eq_self]
    intro name mem
    simpa using (h name mem).ne_empty

/-- A path below the root that takes no detour: no segment is empty or leads to where the way has
been, and no slash stands at either end. -/
structure IsNormal (path : String) : Prop where
  straight : ∀ part ∈ parts path, part ≠ "" ∧ part ≠ "." ∧ part ≠ ".."
  noStart : Text.hasStart path "/" = false
  noEnd : Text.hasEnd path "/" = false

/-- A slash at either end is next to an empty segment. -/
theorem isNormal_of_straight {path : String}
    (h : ∀ part ∈ parts path, part ≠ "" ∧ part ≠ "." ∧ part ≠ "..") : IsNormal path := by
  have no_empty {a b : String} (eq : path = a ++ "/" ++ b) : "" ∉ segments path := by
    have notEmpty : path ≠ "" := by simp [eq]
    intro mem
    refine (h "" ?_).1 rfl
    rwa [parts, if_neg notEmpty]
  refine ⟨h, Bool.eq_false_iff.2 ?_, Bool.eq_false_iff.2 ?_⟩
  · intro starts
    obtain ⟨rest, eq⟩ := (hasStart_slash_iff path).1 starts
    refine no_empty eq ?_
    rw [eq, segments_append]
    exact List.mem_append_left _ (by decide)
  · intro ends
    obtain ⟨before, text⟩ := List.isSuffixOf_iff_suffix.1 ends
    have eq : path = String.ofList before ++ "/" ++ "" :=
      String.toList_inj.1 (by simpa using text.symm)
    refine no_empty eq ?_
    rw [eq, segments_append]
    exact List.mem_append_right _ (by decide)

end Path

namespace Specifier

open CodeAtlas.Path (IsSegment IsName IsNormal ofNames segments)

variable {file : String}

/-! ### Following segments -/

theorem follow_of_isName {name : String} (h : IsName name) (directory : List String) :
    follow directory name = directory ++ [name] := by
  obtain ⟨⟨ne_empty, -⟩, ne_dot, ne_parent⟩ := Path.isName_iff.1 h
  simp only [follow]

/-- Only names are ever added to a directory. -/
theorem forall_mem_follow {P : String → Prop} (names : ∀ name, IsName name → P name)
    {directory : List String} {part : String} (noSlash : '/' ∉ part.toList)
    (h : ∀ name ∈ directory, P name) :
    ∀ name ∈ follow directory part, P name := by
  fun_cases follow directory part with
  | case1 => exact h
  | case2 => exact h
  | case3 => exact fun name mem => h name (List.dropLast_subset directory mem)
  | case4 name ne_empty ne_dot ne_parent =>
    have isName : IsName part := Path.isName_iff.2 ⟨⟨ne_empty, noSlash⟩, ne_dot, ne_parent⟩
    intro name mem
    rcases List.mem_append.1 mem with mem | mem
    · exact h name mem
    · rw [List.mem_singleton.1 mem]
      exact names part isName

theorem forall_mem_foldl_follow {P : String → Prop} (names : ∀ name, IsName name → P name)
    {way : List String} (noSlash : ∀ part ∈ way, '/' ∉ part.toList) {directory : List String}
    (h : ∀ name ∈ directory, P name) :
    ∀ name ∈ way.foldl follow directory, P name := by
  induction way generalizing directory with
  | nil => exact h
  | cons part way ih =>
    rw [List.foldl_cons]
    exact ih (fun p mem => noSlash p (List.mem_cons_of_mem part mem))
      (forall_mem_follow names (noSlash part List.mem_cons_self) h)

/-- What holds of all names and in the directory of the file holds on the path that is reached. -/
theorem forall_mem_normalSegments {P : String → Prop} (names : ∀ name, IsName name → P name)
    (h : ∀ name ∈ directory file, P name) (specifier : String) :
    ∀ name ∈ normalSegments file specifier, P name :=
  forall_mem_foldl_follow names (fun _ mem => Path.noSlash_of_mem_segments mem) h

theorem isSegment_of_mem_directory {part : String} (h : part ∈ directory file) :
    IsSegment part := by
  rw [directory, List.mem_filter] at h
  exact ⟨by simpa using h.2, Path.noSlash_of_mem_segments (List.dropLast_subset _ h.1)⟩

theorem isSegment_of_mem_normalSegments {specifier part : String}
    (h : part ∈ normalSegments file specifier) : IsSegment part :=
  forall_mem_normalSegments (fun _ isName => (Path.isName_iff.1 isName).1)
    (fun _ => isSegment_of_mem_directory)
    specifier part h

theorem parts_normalize (file specifier : String) :
    Path.parts (normalize file specifier) = normalSegments file specifier :=
  Path.parts_ofNames fun _ => isSegment_of_mem_normalSegments

theorem isName_of_mem_directory (noDot : "." ∉ directory file) (noParent : ".." ∉ directory file)
    {name : String} (mem : name ∈ directory file) : IsName name := by
  refine Path.isName_iff.2 ⟨isSegment_of_mem_directory mem, ?_, ?_⟩
  · rintro rfl
    exact noDot mem
  · rintro rfl
    exact noParent mem

/-- From a directory of names a normal path is reached, also where the way up is too long. -/
theorem isNormal_normalize (noDot : "." ∉ directory file) (noParent : ".." ∉ directory file)
    (specifier : String) : IsNormal (normalize file specifier) := by
  apply Path.isNormal_of_straight
  rw [parts_normalize]
  intro part mem
  have isName : IsName part :=
    forall_mem_normalSegments (fun _ h => h)
      (fun _ => isName_of_mem_directory noDot noParent) specifier part mem
  obtain ⟨⟨ne_empty, -⟩, ne_dot, ne_parent⟩ := Path.isName_iff.1 isName
  exact ⟨ne_empty, ne_dot, ne_parent⟩

/-! ### In stages -/

theorem normalSegments_append (file s t : String) :
    normalSegments file (s ++ "/" ++ t) = (segments t).foldl follow (normalSegments file s) := by
  rw [normalSegments, Path.segments_append, List.foldl_append]
  rfl

/-- The directory of a file is what stands before its name. -/
theorem directory_append {name : String} (noSlash : '/' ∉ name.toList) (path : String) :
    directory (path ++ "/" ++ name) = (segments path).filter (· != "") := by
  rw [directory, Path.segments_append, Path.segments_of_noSlash noSlash, List.dropLast_concat]

/-- A file in the directory that is reached has just that directory. -/
theorem directory_normalize_append {name : String} (noSlash : '/' ∉ name.toList)
    (file specifier : String) :
    directory (normalize file specifier ++ "/" ++ name) = normalSegments file specifier := by
  rw [directory_append noSlash]
  exact Path.filter_segments_ofNames fun _ => isSegment_of_mem_normalSegments

theorem normalize_append {name : String} (noSlash : '/' ∉ name.toList) (file s t : String) :
    normalize file (s ++ "/" ++ t) = normalize (normalize file s ++ "/" ++ name) t := by
  have staged :
      normalSegments (normalize file s ++ "/" ++ name) t = normalSegments file (s ++ "/" ++ t) := by
    calc
      normalSegments (normalize file s ++ "/" ++ name) t =
          (segments t).foldl follow (directory (normalize file s ++ "/" ++ name)) := rfl
      _ = (segments t).foldl follow (normalSegments file s) := by
        rw [directory_normalize_append noSlash]
      _ = normalSegments file (s ++ "/" ++ t) := (normalSegments_append file s t).symm
  rw [normalize, normalize, staged]

/-! ### Up and down -/

/-- The way up some directories. -/
def climb : Nat → String
  | 0 => ""
  | n + 1 => ".." ++ "/" ++ climb n

theorem segments_climb_append (n : Nat) (path : String) :
    segments (climb n ++ path) = List.replicate n ".." ++ segments path := by
  induction n with
  | zero => rw [climb, String.empty_append, List.replicate_zero, List.nil_append]
  | succ n ih =>
    have up : segments ".." = [".."] := rfl
    rw [climb, String.append_assoc, Path.segments_append, ih, up, List.replicate_succ]
    rfl

/-- The way up ends at the root. -/
theorem foldl_follow_replicate (directory : List String) (n : Nat) :
    (List.replicate n "..").foldl follow directory = directory.take (directory.length - n) := by
  induction n generalizing directory with
  | zero => rw [List.replicate_zero, List.foldl_nil, Nat.sub_zero, List.take_length]
  | succ n ih =>
    rw [List.replicate_succ, List.foldl_cons, ih]
    show directory.dropLast.take (directory.dropLast.length - n) = _
    rw [List.dropLast_eq_take, List.length_take, List.take_take]
    congr 1
    omega

theorem foldl_follow_names {names : List String} (h : ∀ name ∈ names, IsName name)
    (directory : List String) : names.foldl follow directory = directory ++ names := by
  induction names generalizing directory with
  | nil => rw [List.foldl_nil, List.append_nil]
  | cons name names ih =>
    rw [List.foldl_cons, follow_of_isName (h name List.mem_cons_self),
      ih fun other mem => h other (List.mem_cons_of_mem name mem), List.append_assoc]
    rfl

theorem foldl_follow_segments_ofNames {names : List String} (h : ∀ name ∈ names, IsName name)
    (directory : List String) :
    (segments (ofNames names)).foldl follow directory = directory ++ names := by
  by_cases none : names = []
  · rw [none, List.append_nil]
    rfl
  · rw [Path.segments_ofNames ⟨none, h⟩, foldl_follow_names h]

/-- Climbing keeps the outer directories, and names are put below them. -/
theorem normalSegments_climb {names : List String} (h : ∀ name ∈ names, IsName name)
    (file : String) (n : Nat) :
    normalSegments file (climb n ++ ofNames names) =
      (directory file).take ((directory file).length - n) ++ names := by
  rw [normalSegments, segments_climb_append, List.foldl_append, foldl_follow_replicate,
    foldl_follow_segments_ofNames h]

/-! ### Main statement -/

/-- A specifier in two parts can be followed in two stages; from a directory without detours a path
without detours is reached; and a way up and down again keeps the outer directories, however far up
it leads. -/
theorem normalize_composes_and_is_normal :
    (∀ file s t : String, normalize file (s ++ "/" ++ t) = normalize (normalize file s ++ "/x") t) ∧
    (∀ file : String, "." ∉ directory file → ".." ∉ directory file →
      ∀ s : String, IsNormal (normalize file s)) ∧
    ∀ (file : String) (n : Nat) (names : List String), (∀ name ∈ names, IsName name) →
      normalize file (climb n ++ ofNames names) =
        ofNames ((directory file).take ((directory file).length - n) ++ names) := by
  refine ⟨?_, ?_, ?_⟩
  · intro file s t
    have slash : normalize file s ++ "/x" = normalize file s ++ "/" ++ "x" := by
      rw [String.append_assoc]
      rfl
    rw [slash]
    exact normalize_append (by decide) file s t
  · intro file noDot noParent s
    exact isNormal_normalize noDot noParent s
  · intro file n names h
    rw [normalize, normalSegments_climb h]
    rfl

/-- Repeated slashes, and more steps up than there are directories. -/
theorem normalize_past_the_root :
    normalize "src//a/b.js" "./../../..//c/.//d/" =
      normalize (normalize "src//a/b.js" "./../../../" ++ "/x") "c/.//d/" ∧
    IsNormal (normalize "src//a/b.js" "./../../..//c/.//d/") ∧
    normalize "src//a/b.js" "../../../c/d" = "c/d" := by
  obtain ⟨composes, isNormal, upAndDown⟩ := normalize_composes_and_is_normal
  exact ⟨composes "src//a/b.js" "./../../../" "c/.//d/",
    isNormal "src//a/b.js" (by decide) (by decide) _,
    upAndDown "src//a/b.js" 3 ["c", "d"] (by decide)⟩

end Specifier

end CodeAtlas
