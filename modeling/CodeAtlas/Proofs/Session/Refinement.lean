import CodeAtlas.Proofs.Session.Contents
import Mathlib.Data.List.Induction

/-!
# Sessions refine maps of contents

Whatever edits a session sees, as long as no project is opened with a path twice, the files of
the open project are strictly sorted, the active path is the path of one of them, and they stand
for the contents that the edits make: an opened project sets them, and each later edit changes
them as `Contents.edited` says.
-/

namespace CodeAtlas

/-- A project is only opened with different paths. -/
def Edit.OpensDistinct : Edit → Prop
  | .openProject files => (files.map (·.path)).Nodup
  | _ => True

/-! ### Projects -/

namespace Project

/-- What the list of files and the active path keep to. -/
structure IsOrderly (p : Project) : Prop where
  ascending : Ascending p.files
  active_mem : ∀ path, p.active = some path → ∃ file ∈ p.files, file.path = path

def contents (p : Project) : Contents := Contents.ofFiles p.files

variable {p : Project}

theorem mem_of_entryFile? {files : List ProjectFile} {file : ProjectFile}
    (h : entryFile? files = some file) : file ∈ files := by
  rw [entryFile?, Option.or_eq_some_iff] at h
  rcases h with found | ⟨-, first⟩
  · exact List.mem_of_find?_eq_some found
  · exact List.mem_of_mem_head? first

theorem mem_of_entryPath? {files : List ProjectFile} {path : String}
    (h : entryPath? files = some path) : ∃ file ∈ files, file.path = path := by
  obtain ⟨file, found, rfl⟩ := Option.map_eq_some_iff.1 h
  exact ⟨file, mem_of_entryFile? found, rfl⟩

theorem mem_of_activeFile? {file : ProjectFile} (h : p.activeFile? = some file) :
    file ∈ p.files ∧ p.active = some file.path := by
  obtain ⟨path, active, found⟩ := Option.bind_eq_some_iff.1 h
  have same : file.path = path := by simpa using List.find?_some found
  exact ⟨List.mem_of_find?_eq_some found, same ▸ active⟩

theorem isOrderly_ofFiles {files : List ProjectFile} (distinct : (files.map (·.path)).Nodup) :
    (ofFiles files).IsOrderly where
  ascending := Ascending.mergeSort distinct
  active_mem := by
    intro path active
    exact mem_of_entryPath? active

theorem contents_ofFiles {files : List ProjectFile} (distinct : (files.map (·.path)).Nodup) :
    (ofFiles files).contents = Contents.ofFiles files :=
  Contents.ofFiles_mergeSort distinct

theorem IsOrderly.write (h : p.IsOrderly) (file : ProjectFile) : (p.write file).IsOrderly where
  ascending := ascending_place h.ascending
  active_mem := by
    intro path active
    obtain ⟨other, mem, same⟩ := h.active_mem path active
    by_cases replaced : other.path = file.path
    · exact ⟨file, (mem_place_iff h.ascending).2 (.inl rfl), replaced ▸ same⟩
    · exact ⟨other, (mem_place_iff h.ascending).2 (.inr ⟨mem, replaced⟩), same⟩

theorem contents_write (h : p.IsOrderly) (file : ProjectFile) :
    (p.write file).contents = p.contents.insert file.path file.content :=
  Contents.ofFiles_place h.ascending file

theorem files_remove (p : Project) (path : String) :
    (p.remove path).files = p.files.filter fun f => !isAtOrBelow path f := by
  rw [remove]
  split <;> rfl

/-- After a removal the active path is that of a file which is left, kept or newly chosen. -/
theorem active_remove (p : Project) (path : String) :
    (p.remove path).active = entryPath? (p.remove path).files ∨
      ∃ file ∈ (p.remove path).files, (p.remove path).active = some file.path := by
  rw [remove]
  split
  · exact .inl rfl
  · next kept =>
    obtain ⟨file, found⟩ := Option.ne_none_iff_exists'.1 (by simpa using kept)
    exact .inr ⟨file, mem_of_activeFile? found⟩

theorem IsOrderly.remove (h : p.IsOrderly) (path : String) : (p.remove path).IsOrderly where
  ascending := by
    rw [files_remove]
    exact h.ascending.filter _
  active_mem := by
    intro active eq
    rcases p.active_remove path with chosen | ⟨file, mem, kept⟩
    · exact mem_of_entryPath? (chosen ▸ eq)
    · exact ⟨file, mem, Option.some.inj (kept ▸ eq)⟩

theorem contents_remove (h : p.IsOrderly) (path : String) :
    (p.remove path).contents = p.contents.erase path := by
  rw [contents, files_remove]
  exact Contents.ofFiles_filter h.ascending path

theorem IsOrderly.activate (h : p.IsOrderly) (path : String) : (p.activate path).IsOrderly := by
  rw [Project.activate]
  split
  · next found =>
    refine ⟨h.ascending, ?_⟩
    intro active eq
    obtain ⟨file, mem, same⟩ := List.any_eq_true.1 found
    exact ⟨file, mem, (beq_iff_eq.1 same).trans (Option.some.inj eq)⟩
  · exact h

theorem contents_activate (p : Project) (path : String) :
    (p.activate path).contents = p.contents := by
  rw [activate]
  split <;> rfl

theorem edit_of_active {path : String} (active : p.active = some path) (text : String) :
    p.edit text = p.write ⟨path, text⟩ := by
  rw [edit, active]

theorem edit_of_not_active (active : p.active = none) (text : String) : p.edit text = p := by
  rw [edit, active]

theorem IsOrderly.edit (h : p.IsOrderly) (text : String) : (p.edit text).IsOrderly := by
  cases active : p.active with
  | none => exact (edit_of_not_active active text).symm ▸ h
  | some path => exact (edit_of_active active text).symm ▸ h.write _

end Project

/-! ### Sessions -/

namespace Session

/-- The session that starts in a mode with nothing in it and sees some edits. -/
def after (mode : Fidelity) (edits : List Edit) : Session := edits.foldl apply { mode }

theorem after_concat (mode : Fidelity) (edits : List Edit) (e : Edit) :
    after mode (edits ++ [e]) = (after mode edits).apply e := by
  simp [after]

/-- The path of the file that the editor shows. -/
def activePath? (s : Session) : Option String := s.project.bind (·.active)

/-- The contents of the open project. -/
def contents? (s : Session) : Option Contents := s.project.map (·.contents)

/-- The contents that edits make, starting with a session and the contents of its project. -/
def replay (s : Session) (c : Option Contents) : List Edit → Option Contents
  | [] => c
  | e :: edits => replay (s.apply e) (Contents.edited s.activePath? c e) edits

def IsOrderly (s : Session) : Prop := ∀ p, s.project = some p → p.IsOrderly

variable {s : Session}

/-- In an open project the text of the editor is an edit of the project. -/
theorem apply_buffer {p : Project} (opened : s.project = some p) (text : String) :
    s.apply (.buffer text) = s.onProject (·.edit text) := by
  simp only [apply, opened]

/-- A change to projects that keeps them orderly keeps sessions orderly. -/
theorem IsOrderly.onProject (h : s.IsOrderly) {f : Project → Project}
    (keeps : ∀ p : Project, p.IsOrderly → (f p).IsOrderly) : (s.onProject f).IsOrderly := by
  intro p opened
  obtain ⟨before, found, rfl⟩ := Option.map_eq_some_iff.1 opened
  exact keeps before (h before found)

theorem IsOrderly.apply (h : s.IsOrderly) {e : Edit} (distinct : e.OpensDistinct) :
    (s.apply e).IsOrderly := by
  cases e with
  | buffer text =>
    cases opened : s.project with
    | none =>
      intro p again
      simp [Session.apply, opened] at again
    | some p =>
      rw [apply_buffer opened]
      exact h.onProject fun p hp => hp.edit text
  | language tag => exact h
  | mode mode => exact h
  | openProject files =>
    intro p opened
    exact Option.some.inj opened ▸ Project.isOrderly_ofFiles distinct
  | closeProject =>
    intro p opened
    cases opened
  | activate path => exact h.onProject fun p hp => hp.activate path
  | write file => exact h.onProject fun p hp => hp.write file
  | remove path => exact h.onProject fun p hp => hp.remove path

/-- What a change to projects does to the contents. -/
theorem contents?_onProject (s : Session) {f : Project → Project} {g : Contents → Contents}
    (changes : ∀ p, s.project = some p → (f p).contents = g p.contents) :
    (s.onProject f).contents? = s.contents?.map g := by
  cases opened : s.project with
  | none => simp [contents?, onProject, opened]
  | some p => simp [contents?, onProject, opened, changes p opened]

/-- One edit changes the contents as it should. -/
theorem contents?_apply (h : s.IsOrderly) {e : Edit} (distinct : e.OpensDistinct) :
    (s.apply e).contents? = Contents.edited s.activePath? s.contents? e := by
  cases e with
  | buffer text =>
    cases opened : s.project with
    | none => simp [Session.apply, contents?, activePath?, Contents.edited, opened]
    | some p =>
      rw [apply_buffer opened]
      cases active : p.active with
      | none =>
        simp [contents?, onProject, activePath?, Contents.edited, opened, active,
          Project.edit_of_not_active active]
      | some path =>
        simp [contents?, onProject, activePath?, Contents.edited, opened, active,
          Project.edit_of_active active, Project.contents_write (h p opened)]
  | language tag => rfl
  | mode mode => rfl
  | openProject files => exact congrArg some (Project.contents_ofFiles distinct)
  | closeProject => rfl
  | activate path =>
    have := s.contents?_onProject (g := id) fun p _ => p.contents_activate path
    rwa [Option.map_id] at this
  | write file =>
    exact s.contents?_onProject fun p opened => Project.contents_write (h p opened) file
  | remove path =>
    exact s.contents?_onProject fun p opened => Project.contents_remove (h p opened) path

theorem isOrderly_after (mode : Fidelity) {edits : List Edit}
    (distinct : ∀ e ∈ edits, e.OpensDistinct) : (after mode edits).IsOrderly := by
  induction edits using List.reverseRecOn with
  | nil =>
    intro p opened
    cases opened
  | append_singleton edits e ih =>
    rw [after_concat]
    refine (ih ?_).apply (distinct e (by simp))
    intro e' mem
    exact distinct e' (List.mem_append_left _ mem)

/-- Replaying edits gives the contents of the session that has seen them. -/
theorem replay_eq (h : s.IsOrderly) {edits : List Edit} (distinct : ∀ e ∈ edits, e.OpensDistinct) :
    s.replay s.contents? edits = (edits.foldl Session.apply s).contents? := by
  induction edits generalizing s with
  | nil => rfl
  | cons e edits ih =>
    have first := distinct e List.mem_cons_self
    rw [replay, ← contents?_apply h first, List.foldl_cons]
    apply ih (h.apply first)
    intro e' mem
    exact distinct e' (List.mem_cons_of_mem _ mem)

/-- The project of a session that started empty is the map that the edits make: its files are
strictly sorted, their contents are those of the replay, and the active path is one of theirs. -/
theorem refines_contents (mode : Fidelity) (edits : List Edit)
    (distinct : ∀ e ∈ edits, e.OpensDistinct) :
    (after mode edits).contents? = replay { mode } none edits ∧
      ∀ p, (after mode edits).project = some p →
        p.files.Pairwise (fun a b => a.path < b.path) ∧
        ∀ path, p.active = some path → (p.contents path).isSome := by
  refine ⟨(replay_eq (s := { mode }) ?_ distinct).symm, ?_⟩
  · intro p opened
    cases opened
  · intro p opened
    have orderly := isOrderly_after mode distinct p opened
    refine ⟨orderly.ascending, ?_⟩
    intro path active
    exact Contents.isSome_ofFiles_iff.2 (orderly.active_mem path active)

/-- A directory is removed while one of its files is active, next to another one whose name starts
alike. -/
theorem refines_contents_removed_directory :
    let edits : List Edit :=
      [.openProject [⟨"srcx/a.js", ""⟩, ⟨"src/index.js", ""⟩, ⟨"src/util.js", ""⟩],
        .buffer "import './util';", .write ⟨"lib.js", "0"⟩, .remove "src", .buffer "1"]
    (∀ e ∈ edits, e.OpensDistinct) ∧
      (after .simple edits).contents? = replay { mode := .simple } none edits ∧
      ∀ p, (after .simple edits).project = some p →
        p.files.Pairwise (fun a b => a.path < b.path) ∧
        ∀ path, p.active = some path → (p.contents path).isSome := by
  intro edits
  have distinct : ∀ e ∈ edits, e.OpensDistinct := by
    simp [edits, Edit.OpensDistinct]
  exact ⟨distinct, refines_contents .simple edits distinct⟩

end Session

end CodeAtlas
