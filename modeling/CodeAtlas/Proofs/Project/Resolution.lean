import CodeAtlas.Proofs.Project.Normalization
import Mathlib.Data.List.Basic

/-!
# Resolving specifiers

A relative specifier stands for the first of its candidates that is a known file. So another known
file can only move the answer forward, and a specifier that climbs to the root and names a known
path from there stands for that path, whatever else is known.

The candidates are made from the text of the normalized path. The root is the empty text, and what
would be the index file in it starts with a slash, which no path in a project does. So a specifier
finds the index file of every directory but the root.
-/

namespace CodeAtlas

theorem Path.ofNames_concat {names : List String} (ne : names ≠ []) (name : String) :
    ofNames (names ++ [name]) = ofNames names ++ "/" ++ name := by
  induction names with
  | nil => exact absurd rfl ne
  | cons first rest ih =>
    cases rest with
    | nil => rfl
    | cons second rest =>
      have below := ih (List.cons_ne_nil second rest)
      show first ++ "/" ++ ofNames (second :: rest ++ [name]) =
        first ++ "/" ++ ofNames (second :: rest) ++ "/" ++ name
      rw [below, ← String.append_assoc, ← String.append_assoc]

namespace Specifier

open CodeAtlas.Path (IsName ofNames segments)

/-! ### The first known candidate -/

/-- A path is a known candidate, and no known candidate comes before it. -/
structure IsFirst (known candidates : List String) (path : String) : Prop where
  isKnown : path ∈ known
  listed : path ∈ candidates
  first : ∀ other ∈ candidates, other ∈ known → candidates.idxOf path ≤ candidates.idxOf other

theorem IsFirst.unique {known candidates : List String} {path other : String}
    (h : IsFirst known candidates path) (h' : IsFirst known candidates other) : path = other := by
  have same : candidates.idxOf path = candidates.idxOf other :=
    Nat.le_antisymm (h.first other h'.listed h'.isKnown) (h'.first path h.listed h.isKnown)
  exact (List.idxOf_inj h.listed).1 same

theorem isFirst_of_find? {known candidates : List String} {path : String}
    (h : candidates.find? known.contains = some path) : IsFirst known candidates path := by
  obtain ⟨isKnown, before, after, rfl, unknown⟩ := List.find?_eq_some_iff_append.1 h
  simp only [List.contains_eq_mem, decide_eq_true_eq, Bool.not_eq_true',
    decide_eq_false_iff_not] at isKnown unknown
  refine ⟨isKnown, List.mem_append_right before List.mem_cons_self, ?_⟩
  intro other _ otherKnown
  have here : (before ++ path :: after).idxOf path = before.length := by
    rw [List.idxOf_append_of_notMem fun mem => unknown path mem isKnown, List.idxOf_cons_self,
      Nat.add_zero]
  have later : before.length ≤ (before ++ path :: after).idxOf other := by
    rw [List.idxOf_append_of_notMem fun mem => unknown other mem otherKnown]
    exact Nat.le_add_right _ _
  omega

theorem find?_known_eq_some_iff {known candidates : List String} {path : String} :
    candidates.find? known.contains = some path ↔ IsFirst known candidates path := by
  refine ⟨isFirst_of_find?, fun h => ?_⟩
  cases found : candidates.find? known.contains with
  | none =>
    have unknown := List.find?_eq_none.1 found path h.listed
    simp [h.isKnown] at unknown
  | some other => rw [(isFirst_of_find? found).unique h]

theorem find?_known_eq_none_iff {known candidates : List String} :
    candidates.find? known.contains = none ↔ ∀ path ∈ candidates, path ∉ known := by
  simp [List.find?_eq_none]

/-! ### Candidates -/

variable {known : List String} {file specifier path : String}

theorem resolve?_of_isRelative (relative : isRelative specifier = true) :
    resolve? known file specifier = (candidates file specifier).find? known.contains := by
  rw [resolve?, if_pos relative]

theorem candidates_eq (file specifier : String) :
    candidates file specifier =
      [normalize file specifier, normalize file specifier ++ ".js",
        normalize file specifier ++ ".jsx", normalize file specifier ++ ".ts",
        normalize file specifier ++ ".tsx", normalize file specifier ++ "/index.js",
        normalize file specifier ++ "/index.jsx"] := by
  simp [candidates, suffixes]

theorem candidates_of_normalSegments_eq_nil (root : normalSegments file specifier = []) :
    candidates file specifier = suffixes := by
  rw [candidates, normalize, root]
  simp [Text.join]

/-- A larger set of files resolves to the same candidate or an earlier one. -/
theorem exists_resolve?_of_subset {larger : List String} (relative : isRelative specifier = true)
    (subset : known ⊆ larger) (h : resolve? known file specifier = some path) :
    ∃ other, resolve? larger file specifier = some other ∧
      (candidates file specifier).idxOf other ≤ (candidates file specifier).idxOf path := by
  rw [resolve?_of_isRelative relative] at h ⊢
  have old := isFirst_of_find? h
  cases found : (candidates file specifier).find? larger.contains with
  | none => exact absurd (subset old.isKnown) (find?_known_eq_none_iff.1 found path old.listed)
  | some other =>
    exact ⟨other, rfl, (isFirst_of_find? found).first path old.listed (subset old.isKnown)⟩

/-! ### From the root -/

theorem normalize_dot_slash (file path : String) :
    normalize file ("./" ++ path) = normalize file path := by
  have slash : "./" ++ path = "." ++ "/" ++ path := rfl
  have here : normalSegments file "." = directory file := rfl
  rw [normalize, slash, normalSegments_append, here]
  rfl

/-- A path of names, given from the root, is reached from every file. -/
theorem normalize_from_root
    (straight : ∀ part ∈ segments path, part ≠ "" ∧ part ≠ "." ∧ part ≠ "..") {n : Nat}
    (enough : (directory file).length ≤ n) : normalize file ("./" ++ climb n ++ path) = path := by
  have isName : ∀ part ∈ segments path, IsName part := by
    intro part mem
    obtain ⟨ne_empty, ne_dot, ne_parent⟩ := straight part mem
    exact Path.isName_iff.2 ⟨⟨ne_empty, Path.noSlash_of_mem_segments mem⟩, ne_dot, ne_parent⟩
  have read : ofNames (segments path) = path := Text.join_split '/' path
  have top : (directory file).length - n = 0 := Nat.sub_eq_zero_of_le enough
  rw [String.append_assoc, normalize_dot_slash, normalize]
  nth_rewrite 1 [← read]
  rw [normalSegments_climb isName, top, List.take_zero, List.nil_append]
  exact read

theorem resolve?_from_root (isKnown : path ∈ known)
    (straight : ∀ part ∈ segments path, part ≠ "" ∧ part ≠ "." ∧ part ≠ "..") {n : Nat}
    (enough : (directory file).length ≤ n) :
    resolve? known file ("./" ++ climb n ++ path) = some path := by
  have relative : isRelative ("./" ++ climb n ++ path) = true := by
    simp [isRelative, Text.hasStart]
  rw [resolve?_of_isRelative relative, candidates_eq, normalize_from_root straight enough]
  exact List.find?_cons_of_pos (by simpa using isKnown)

/-- A relative specifier stands for its first known candidate and for nothing if there is none; more
files lead to the same candidate or an earlier one; and every file can be reached from every other
by way of the root. -/
theorem resolves_to_first_candidate :
    (∀ (known : List String) (file specifier : String), isRelative specifier = true →
      candidates file specifier =
        [normalize file specifier, normalize file specifier ++ ".js",
          normalize file specifier ++ ".jsx", normalize file specifier ++ ".ts",
          normalize file specifier ++ ".tsx", normalize file specifier ++ "/index.js",
          normalize file specifier ++ "/index.jsx"] ∧
      (∀ path, resolve? known file specifier = some path ↔
        IsFirst known (candidates file specifier) path) ∧
      (resolve? known file specifier = none ↔ ∀ path ∈ candidates file specifier, path ∉ known)) ∧
    (∀ (known larger : List String) (file specifier path : String), isRelative specifier = true →
      known ⊆ larger →
      resolve? known file specifier = some path →
      ∃ other, resolve? larger file specifier = some other ∧
        (candidates file specifier).idxOf other ≤ (candidates file specifier).idxOf path) ∧
    ∀ (known : List String) (file path : String) (n : Nat), path ∈ known →
      (∀ part ∈ segments path, part ≠ "" ∧ part ≠ "." ∧ part ≠ "..") → (directory file).length ≤ n →
      resolve? known file ("./" ++ climb n ++ path) = some path := by
  refine ⟨?_, ?_, ?_⟩
  · intro known file specifier relative
    rw [resolve?_of_isRelative relative]
    exact ⟨candidates_eq file specifier, fun path => find?_known_eq_some_iff,
      find?_known_eq_none_iff⟩
  · intro known larger file specifier path relative subset h
    exact exists_resolve?_of_subset relative subset h
  · intro known file path n isKnown straight enough
    exact resolve?_from_root isKnown straight enough

/-- Two extensions and an index file are known, and then a file with an earlier extension. -/
theorem resolves_to_earlier_extension :
    IsFirst ["lib/x.tsx", "lib/x.ts", "lib/x/index.js"] (candidates "lib/y.js" "./x") "lib/x.ts" ∧
    (∃ other,
      resolve? ["lib/x.tsx", "lib/x.ts", "lib/x/index.js", "lib/x.js"] "lib/y.js" "./x" =
        some other ∧
      (candidates "lib/y.js" "./x").idxOf other ≤ (candidates "lib/y.js" "./x").idxOf "lib/x.ts") ∧
    resolve? ["lib/x.tsx", "lib/x.ts", "lib/x.ts.js"] "src/a/b.js" "./../../../lib/x.ts" =
      some "lib/x.ts" := by
  obtain ⟨first, monotone, complete⟩ := resolves_to_first_candidate
  refine ⟨((first _ _ _ (by decide)).2.1 _).1 (by decide), ?_, ?_⟩
  · exact monotone ["lib/x.tsx", "lib/x.ts", "lib/x/index.js"] _ _ _ _ (by decide)
      (by decide) (by decide)
  · exact complete _ "src/a/b.js" "lib/x.ts" 3 (by decide) (by decide) (by decide)

/-! ### Index files -/

/-- An index file lies directly in the directory that a specifier denotes. -/
def HasIndex (known : List String) (file specifier : String) : Prop :=
  ∃ name ∈ ["index.js", "index.jsx"], ofNames (normalSegments file specifier ++ [name]) ∈ known

instance (known : List String) (file specifier : String) :
    Decidable (HasIndex known file specifier) :=
  inferInstanceAs (Decidable (∃ name ∈ ["index.js", "index.jsx"], _))

/-- The index file of a directory below the root is a candidate. -/
theorem mem_candidates_of_index (below : normalSegments file specifier ≠ []) {name : String}
    (index : name ∈ ["index.js", "index.jsx"]) :
    ofNames (normalSegments file specifier ++ [name]) ∈ candidates file specifier := by
  rw [Path.ofNames_concat below, String.append_assoc]
  refine List.mem_map_of_mem ?_
  simp only [List.mem_cons, List.not_mem_nil, or_false] at index
  rcases index with rfl | rfl <;> decide

theorem isSome_resolve?_iff (relative : isRelative specifier = true) :
    (resolve? known file specifier).isSome = true ↔
      ∃ path ∈ candidates file specifier, path ∈ known := by
  rw [resolve?_of_isRelative relative, List.find?_isSome]
  simp

/-- A specifier for a directory with an index file resolves exactly if the directory is not the root
or a bare suffix happens to be a known path. -/
theorem finds_index_iff_below_root (relative : isRelative specifier = true)
    (index : HasIndex known file specifier) :
    (resolve? known file specifier).isSome = true ↔
      normalSegments file specifier ≠ [] ∨ ∃ suffix ∈ suffixes, suffix ∈ known := by
  rw [isSome_resolve?_iff relative]
  by_cases root : normalSegments file specifier = []
  · rw [candidates_of_normalSegments_eq_nil root]
    simp [root]
  · obtain ⟨name, isIndex, isKnown⟩ := index
    have found := mem_candidates_of_index root isIndex
    exact iff_of_true ⟨_, found, isKnown⟩ (.inl root)

theorem finds_index_of_parent :
    isRelative ".." = true ∧ HasIndex ["src/index.jsx"] "src/a/b.js" ".." ∧
    (resolve? ["src/index.jsx"] "src/a/b.js" "..").isSome = true :=
  ⟨by decide, by decide, (finds_index_iff_below_root (by decide) (by decide)).2 (.inl (by decide))⟩

/-- The root has an index file, and the specifier for the root does not find it. -/
theorem index_of_root_missed :
    isRelative "." = true ∧ HasIndex ["index.js"] "a.js" "." ∧
      resolve? ["index.js"] "a.js" "." = none := by
  decide

end Specifier

end CodeAtlas
