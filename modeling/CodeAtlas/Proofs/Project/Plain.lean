import CodeAtlas.Project.Load
import CodeAtlas.Proofs.Project.Below
import CodeAtlas.Proofs.Session.Contents

/-!
# Directories of files

A plain directory is a finite map from paths to bytes: it lists files only, none of them inside
another one, and none of them is an ignore file. There a path leads to a file if and only if the
file is listed under its names, so looking a path up and loading the whole directory see the same
files.

Main statement: loading a plain directory never fails, and gives the files whose names, extension
and size are accepted, sorted by path.
-/

namespace CodeAtlas

open CodeAtlas.Path (IsName IsPath ofNames)

/-- Strictly sorted files with the same members are the same list. -/
theorem Ascending.eq_of_mem_iff {a b : List ProjectFile} (sortedA : Ascending a)
    (sortedB : Ascending b) (same : ∀ file, file ∈ a ↔ file ∈ b) : a = b := by
  have perm : a.Perm b :=
    (List.perm_ext_iff_of_nodup sortedA.nodup_paths.of_map sortedB.nodup_paths.of_map).2 same
  refine perm.eq_of_pairwise ?_ sortedA sortedB
  intro x y _ _ lt gt
  exact absurd gt lt.asymm

/-- The names and the extension of a file do not keep it out of the project. -/
def Settings.welcomes (s : Settings) (names : List String) : Bool :=
  names.all (fun name => !s.ignore.contains name) &&
    !((Path.extension? (ofNames names)).map s.skipExtensions.contains).getD false

/-- A file with this content is not too large. -/
def Settings.fits (s : Settings) (content : List UInt8) : Bool := content.length ≤ s.maxFileBytes

/-- A file of the project in which `contentAt` says what is to be found under which names. -/
def Settings.Shows (s : Settings) (contentAt : List String → Option (List UInt8))
    (file : ProjectFile) : Prop :=
  ∃ names content, contentAt names = some content ∧ s.welcomes names = true ∧
    file = ⟨ofNames names, Utf8.decodeLossy content⟩

namespace Directory

structure IsPlain (d : Directory) : Prop where
  isFile : ∀ e ∈ d.entries, ∃ content, e.2 = .file content
  isPath : ∀ e ∈ d.entries, IsPath e.1
  nodup : (d.entries.map (·.1)).Nodup
  /-- No file lies inside another one. -/
  apart : ∀ a ∈ d.entries, ∀ b ∈ d.entries, a.1 <+: b.1 → a.1 = b.1
  noRules : ∀ e ∈ d.entries, e.1.getLast? ≠ some ignoreFileName

variable {d : Directory} {names here rest : List String} {content : List UInt8} {s : Settings}

/-! ### Looking up -/

/-- The content of the file that is listed under some names. -/
def fileAt? (d : Directory) (names : List String) : Option (List UInt8) :=
  match d.entry? names with
  | some (.file content) => some content
  | _ => none

/-- What is listed under some names is what they lead to. -/
theorem entry?_of_mem (h : d.IsPlain) {e : Entry} (mem : (names, e) ∈ d.entries) :
    d.entry? names = some e := by
  have listed : (d.entries.find? (·.1 == names)).isSome := by
    rw [List.find?_isSome]
    exact ⟨_, mem, by simp⟩
  obtain ⟨found, eq⟩ := Option.isSome_iff_exists.1 listed
  have same : found.1 = names := by simpa using List.find?_some eq
  have unique := List.inj_on_of_nodup_map h.nodup (List.mem_of_find?_eq_some eq) mem same
  rw [Directory.entry?, eq, unique]

/-- Only what is listed is more than a directory. -/
theorem mem_entries_of_eq {e : Entry} (found : d.entry? names = some e)
    (notDirectory : e ≠ .directory) : (names, e) ∈ d.entries := by
  rw [Directory.entry?] at found
  split at found
  · next listed eq =>
    have same : listed.1 = names := by simpa using List.find?_some eq
    rw [← Option.some.inj found, ← same]
    exact List.mem_of_find?_eq_some eq
  · split at found
    · exact absurd (Option.some.inj found).symm notDirectory
    · cases found

theorem fileAt?_eq_some_iff (h : d.IsPlain) :
    d.fileAt? names = some content ↔ (names, .file content) ∈ d.entries := by
  rw [fileAt?]
  constructor
  · intro found
    split at found
    · next other eq =>
      rw [← Option.some.inj found]
      exact mem_entries_of_eq eq (by simp)
    · cases found
  · intro mem
    rw [entry?_of_mem h mem]

theorem entry?_ne_link (h : d.IsPlain) (target : String) :
    d.entry? names ≠ some (.link target) := by
  intro found
  obtain ⟨content, file⟩ := h.isFile _ (mem_entries_of_eq found (by simp))
  cases file

/-- Above a file there are directories. -/
theorem entry?_above (h : d.IsPlain) {name : String} {e : Entry}
    (mem : (here ++ name :: rest, e) ∈ d.entries) : d.entry? here = some .directory := by
  have above : here <+: here ++ name :: rest := List.prefix_append _ _
  have unlisted : d.entries.find? (·.1 == here) = none := by
    rw [List.find?_eq_none]
    intro other listed same
    rw [beq_iff_eq] at same
    have eq := h.apart other listed _ mem (same ▸ above)
    simp [same] at eq
  have inside : d.entries.any (fun e => here.isPrefixOf e.1) = true :=
    List.any_eq_true.2 ⟨_, mem, List.isPrefixOf_iff_prefix.2 above⟩
  rw [Directory.entry?, unlisted, inside]
  simp

variable {follow : List String → List String → Option (List String)}

/-- One name on the way, in a directory without links. -/
theorem walkBy_cons (h : d.IsPlain) {name : String} (isName : IsName name) :
    d.walkBy follow here (name :: rest) =
      if d.entry? here = some .directory ∧ (d.entry? (here ++ [name])).isSome then
        d.walkBy follow (here ++ [name]) rest
      else none := by
  rw [walkBy, isName.1]
  by_cases inside : d.entry? here = some .directory
  · rw [if_neg (not_not.2 inside)]
    simp only [inside, true_and]
    cases found : d.entry? (here ++ [name]) with
    | none => rfl
    | some e =>
      cases e with
      | file content => rfl
      | directory => rfl
      | link target => exact absurd found (entry?_ne_link h target)
  · simp [inside]

/-- The way to a listed file is free. -/
theorem walkBy_of_mem (h : d.IsPlain) {e : Entry} (mem : (here ++ rest, e) ∈ d.entries) :
    d.walkBy follow here rest = some (here ++ rest) := by
  induction rest generalizing here with
  | nil =>
    rw [walkBy, List.append_nil]
  | cons name rest ih =>
    have isName := (h.isPath _ mem).isName name (by simp)
    have next : (here ++ [name] ++ rest, e) ∈ d.entries := by simpa using mem
    have there : (d.entry? (here ++ [name])).isSome := by
      cases rest with
      | nil =>
        rw [List.append_nil] at next
        rw [entry?_of_mem h next]
        rfl
      | cons other rest =>
        rw [entry?_above h next]
        rfl
    rw [walkBy_cons h isName, if_pos ⟨entry?_above h mem, there⟩, ih next, List.append_assoc]
    rfl

/-- A way that can be gone ends at its names. -/
theorem eq_of_walkBy (h : d.IsPlain) (isName : ∀ name ∈ rest, IsName name) {found : List String}
    (eq : d.walkBy follow here rest = some found) : found = here ++ rest := by
  induction rest generalizing here with
  | nil =>
    rw [walkBy] at eq
    rw [List.append_nil]
    exact (Option.some.inj eq).symm
  | cons name rest ih =>
    rw [walkBy_cons h (isName name List.mem_cons_self)] at eq
    split at eq
    · have := ih (fun other mem => isName other (List.mem_cons_of_mem name mem)) eq
      rw [this, List.append_assoc]
      rfl
    · cases eq

/-- The files that can be read are those that are listed. -/
theorem readAt?_eq (h : d.IsPlain) (isName : ∀ name ∈ names, IsName name) :
    d.readAt? names = d.fileAt? names := by
  have walk_eq : d.walk maxLinks [] names = d.walkBy (d.walk 39) [] names := rfl
  apply Option.ext
  intro content
  rw [fileAt?_eq_some_iff h, readAt?, walk_eq]
  constructor
  · intro read
    split at read
    · next found eq =>
      obtain ⟨reached, walked, entry⟩ := Option.bind_eq_some_iff.1 eq
      rw [eq_of_walkBy h isName walked, List.nil_append] at entry
      rw [← Option.some.inj read]
      exact mem_entries_of_eq entry (by simp)
    · cases read
  · intro mem
    rw [walkBy_of_mem h (by simpa using mem), List.nil_append, Option.bind_some,
      entry?_of_mem h mem]

/-- A path below the directory's own path is meant from there. -/
theorem below?_join (d : Directory) (h : IsPath names) :
    d.below? (Path.join d.home (ofNames names)) = some (ofNames names) := by
  have text := Path.join_eq (Path.not_hasStart_ofNames h) d.home
  have other : Path.join d.home (ofNames names) ≠ d.home := by
    intro same
    have longer := Path.length_le_length_join d.home
    have length := congrArg (·.toList.length) (text.symm.trans same)
    have some_char : 0 < (ofNames names).toList.length :=
      List.length_pos_iff.2 (by simpa using Path.ofNames_ne_empty h)
    simp only [String.toList_append, List.length_append] at length
    omega
  have starts : Text.hasStart (Path.join d.home (ofNames names)) (Path.join d.home "") = true := by
    rw [text, Text.hasStart, String.toList_append]
    exact List.isPrefixOf_iff_prefix.2 (List.prefix_append _ _)
  simp only [below?, other, starts, if_true, if_false]
  rw [text, String.toList_append, List.drop_left, String.ofList_toList]

/-- Reading a path below the directory gives the file that is listed under its names. -/
theorem read?_join (h : d.IsPlain) (isPath : IsPath names) :
    d.read? (Path.join d.home (ofNames names)) = d.fileAt? names := by
  rw [← readAt?_eq h isPath.isName, read?, find?, locate?, below?_join d isPath,
    Option.bind_eq_bind, Option.bind_some, Path.segments_ofNames isPath]
  rfl

/-! ### Ignore files -/

theorem fileAt?_ignoreFileName (h : d.IsPlain) (names : List String) :
    d.fileAt? (names ++ [ignoreFileName]) = none := by
  rw [Option.eq_none_iff_forall_ne_some]
  intro content found
  exact h.noRules _ ((fileAt?_eq_some_iff h).1 found) List.getLast?_concat

/-- Without ignore files there are no rules. -/
theorem rulesIn_eq_nil (h : d.IsPlain) (isName : ∀ name ∈ names, IsName name) :
    d.rulesIn names = [] := by
  have all : ∀ name ∈ names ++ [ignoreFileName], IsName name := by
    intro name mem
    rcases List.mem_append.1 mem with mem | mem
    · exact isName name mem
    · rw [List.mem_singleton.1 mem]
      decide
  rw [rulesIn, readAt?_eq h all, fileAt?_ignoreFileName h]

theorem lastMatch?_nil (path : String) (isDirectory : Bool) :
    IgnoreRules.lastMatch? [] path isDirectory = none :=
  rfl

theorem ruleFor?_eq_none (h : d.IsPlain) (base : List String)
    (isName : ∀ name ∈ base ++ names, IsName name) (isDirectory : Bool) :
    d.ruleFor? base isDirectory names = none := by
  induction names generalizing base with
  | nil => rfl
  | cons name rest ih =>
    have deeper : d.ruleFor? (base ++ [name]) isDirectory rest = none :=
      ih (base ++ [name]) (by simpa [or_assoc] using isName)
    have none_here := rulesIn_eq_nil h fun other mem => isName other (List.mem_append_left _ mem)
    rw [ruleFor?, deeper, none_here, lastMatch?_nil, Option.or_none]

theorem leavesOut_eq_false (h : d.IsPlain) (isName : ∀ name ∈ names, IsName name) :
    d.leavesOut [] names = false := by
  rw [leavesOut, List.any_eq_false]
  intro i _
  have onTheWay : ∀ name ∈ [] ++ names.take (i + 1), IsName name := by
    intro name mem
    exact isName name (List.mem_of_mem_take mem)
  simp [ruleFor?_eq_none h [] onTheWay]

/-! ### Loading -/

theorem admits_eq (h : d.IsPlain) (isName : ∀ name ∈ names, IsName name) (size : Nat) :
    d.admits s [] names size = (s.welcomes names && decide (size ≤ s.maxFileBytes)) := by
  rw [admits, leavesOut_eq_false h isName, Settings.accepts, Settings.welcomes]
  simp [Bool.and_assoc, ofNames]

/-- The files of the project are files below its root that are admitted. -/
theorem projectFile?_iff {base : List String} {e : List String × Entry} {file : ProjectFile} :
    d.projectFile? s base e = some file ↔
      ∃ names content, e = (base ++ names, .file content) ∧ names ≠ [] ∧
        d.admits s base names content.length = true ∧
        file = ⟨ofNames names, Utf8.decodeLossy content⟩ := by
  constructor
  · intro given
    rw [projectFile?] at given
    split at given
    · next content isFile =>
      obtain ⟨path, entry⟩ := e
      obtain rfl : entry = .file content := isFile
      simp only [Option.ite_none_right_eq_some, Bool.and_eq_true, List.isPrefixOf_iff_prefix,
        Bool.not_eq_true', List.isEmpty_eq_false_iff] at given
      obtain ⟨⟨⟨⟨names, rfl⟩, ne_nil⟩, admitted⟩, same⟩ := given
      rw [List.drop_left] at ne_nil admitted same
      exact ⟨names, content, rfl, ne_nil, admitted, (Option.some.inj same).symm⟩
    · cases given
  · rintro ⟨names, content, rfl, ne_nil, admitted, rfl⟩
    simp [projectFile?, ne_nil, admitted, ofNames]

/-- The file of the project that a file of the directory gives. -/
theorem projectFile?_eq_some_iff (h : d.IsPlain) {e : List String × Entry} (mem : e ∈ d.entries)
    {file : ProjectFile} :
    d.projectFile? s [] e = some file ↔ ∃ names content, e = (names, .file content) ∧
      s.welcomes names = true ∧ content.length ≤ s.maxFileBytes ∧
      file = ⟨ofNames names, Utf8.decodeLossy content⟩ := by
  rw [projectFile?_iff]
  refine exists_congr fun names => exists_congr fun content => ?_
  rw [List.nil_append]
  refine and_congr_right ?_
  rintro rfl
  have isPath := h.isPath _ mem
  rw [admits_eq h isPath.isName, Bool.and_eq_true, decide_eq_true_eq,
    and_iff_right isPath.ne_nil, and_assoc]

/-- Files of the directory give files with different paths. -/
theorem nodup_paths (h : d.IsPlain) (s : Settings) :
    ((d.entries.filterMap (d.projectFile? s [])).map (·.path)).Nodup := by
  have different := h.nodup
  rw [List.Nodup, List.pairwise_map] at different
  rw [List.Nodup, List.pairwise_map, List.pairwise_filterMap]
  refine different.imp_of_mem ?_
  intro a b ha hb ne file given other givenOther same
  obtain ⟨names, content, rfl, -, -, rfl⟩ := (projectFile?_eq_some_iff h ha).1 given
  obtain ⟨others, _, rfl, -, -, rfl⟩ := (projectFile?_eq_some_iff h hb).1 givenOther
  exact ne (Path.ofNames_inj (h.isPath _ ha) (h.isPath _ hb) same)

theorem entry?_nil (h : d.IsPlain) : d.entry? [] = some .directory := by
  have unlisted : d.entries.find? (·.1 == []) = none := by
    rw [List.find?_eq_none]
    intro e mem same
    exact (h.isPath e mem).ne_nil (beq_iff_eq.1 same)
  rw [Directory.entry?, unlisted]
  rfl

/-- The directory's own path leads to its top. -/
theorem locate?_home (h : d.IsPlain) : d.locate? d.home = some [] := by
  have own : d.below? d.home = some "" := by simp [below?]
  have walked : d.walkBy (d.walk 39) [] [""] = some [] := by
    rw [walkBy, if_neg (not_not.2 (entry?_nil h))]
    rfl
  rw [locate?, own]
  exact walked

/-- Loading a plain directory gives the files that are accepted, strictly sorted. -/
theorem exists_load (h : d.IsPlain) (s : Settings) :
    ∃ files, d.load s d.home = .ok files ∧ Ascending files ∧
      ∀ file, file ∈ files ↔ s.Shows (fun names => (d.fileAt? names).filter s.fits) file := by
  refine ⟨_, ?_, Ascending.mergeSort (nodup_paths h s), ?_⟩
  · rw [load, locate?_home h]
    simp only [entry?_nil h, if_true]
  · intro file
    have fitting (names : List String) (content : List UInt8) :
        (d.fileAt? names).filter s.fits = some content ↔
          (names, .file content) ∈ d.entries ∧ content.length ≤ s.maxFileBytes := by
      rw [Option.filter_eq_some_iff, fileAt?_eq_some_iff h, Settings.fits, decide_eq_true_eq]
    rw [List.mem_mergeSort, List.mem_filterMap]
    constructor
    · rintro ⟨e, mem, given⟩
      obtain ⟨names, content, rfl, welcome, fit, rfl⟩ := (projectFile?_eq_some_iff h mem).1 given
      exact ⟨names, content, (fitting _ _).2 ⟨mem, fit⟩, welcome, rfl⟩
    · rintro ⟨names, content, found, welcome, rfl⟩
      obtain ⟨mem, fit⟩ := (fitting _ _).1 found
      exact ⟨_, mem, (projectFile?_eq_some_iff h mem).2 ⟨names, content, rfl, welcome, fit, rfl⟩⟩

end Directory

end CodeAtlas
