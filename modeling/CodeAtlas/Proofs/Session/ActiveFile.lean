import CodeAtlas.Proofs.Session.Refinement

/-!
# Text that reaches no file

In an open project the text of the editor goes to the active file. Opening a project chooses an
active file and removing files chooses another one if need be, but writing a file does not: a
project without files has no active one, and when files are written into it, it still has none.
Until an edit chooses one of them the text of the editor reaches no file.

This is the only way. A session with files in its project takes the text exactly when its edits do
not end in such a stretch.
-/

namespace CodeAtlas

/-- The edit settles which file is active, or whether a project is open. -/
def Edit.Chooses (s : Session) : Edit → Prop
  | .openProject _ | .closeProject | .remove _ => True
  | .activate path => ∃ p, s.project = some p ∧ ∃ file ∈ p.files, file.path = path
  | .buffer _ | .language _ | .mode _ | .write _ => False

namespace Project

theorem entryPath?_eq_none_iff {files : List ProjectFile} :
    entryPath? files = none ↔ files = [] := by
  cases files with
  | nil => simp [entryPath?, entryFile?]
  | cons file files => simp [entryPath?, entryFile?]

variable {p : Project}

theorem IsOrderly.active_eq_none (h : p.IsOrderly) (empty : p.files = []) : p.active = none := by
  rw [Option.eq_none_iff_forall_ne_some]
  intro path active
  obtain ⟨file, mem, -⟩ := h.active_mem path active
  simp [empty] at mem

/-- The project has files and shows none of them. -/
def Unattended (p : Project) : Prop := p.files ≠ [] ∧ p.active = none

theorem not_unattended_ofFiles (files : List ProjectFile) : ¬ (ofFiles files).Unattended := by
  rintro ⟨some_file, none_active⟩
  exact some_file (entryPath?_eq_none_iff.1 none_active)

theorem unattended_edit_iff {text : String} : (p.edit text).Unattended ↔ p.Unattended := by
  cases active : p.active with
  | none => rw [edit_of_not_active active]
  | some path =>
    rw [edit_of_active active]
    simp [Unattended, write, active]

theorem unattended_activate_iff {path : String} :
    (p.activate path).Unattended ↔ p.Unattended ∧ ¬ ∃ file ∈ p.files, file.path = path := by
  by_cases found : ∃ file ∈ p.files, file.path = path
  · have : p.files.any (·.path == path) = true := by simpa using found
    simp [Unattended, activate, this, found]
  · have : ¬ p.files.any (·.path == path) = true := by simpa using found
    simp [activate, this, found]

theorem files_write_ne_nil (p : Project) (file : ProjectFile) : (p.write file).files ≠ [] := by
  cases files : p.files with
  | nil => simp [write, files, place]
  | cons other rest =>
    rw [write, files, place]
    split
    · simp
    · split <;> simp

/-- Writing leaves the active path as it is, also where there is none because there was no file. -/
theorem unattended_write_iff (h : p.IsOrderly) {file : ProjectFile} :
    (p.write file).Unattended ↔ p.files = [] ∨ p.Unattended := by
  have written : (p.write file).Unattended ↔ p.active = none :=
    and_iff_right (p.files_write_ne_nil file)
  rw [written]
  by_cases empty : p.files = []
  · simp [empty, h.active_eq_none empty]
  · simp [Unattended, empty]

theorem not_unattended_remove (p : Project) (path : String) : ¬ (p.remove path).Unattended := by
  rintro ⟨some_file, none_active⟩
  rcases p.active_remove path with chosen | ⟨file, -, kept⟩
  · exact some_file (entryPath?_eq_none_iff.1 (chosen ▸ none_active))
  · simp [kept] at none_active

end Project

namespace Session

/-- If the open project has files, one of them is active and takes the text of the editor. -/
def KeepsText (s : Session) : Prop :=
  ∀ p, s.project = some p → p.files ≠ [] →
    ∃ file ∈ p.files, p.active = some file.path ∧
      ∀ text, ∃ p', (s.apply (.buffer text)).project = some p' ∧ p'.contents file.path = some text

def Unattended (s : Session) : Prop := ∃ p, s.project = some p ∧ p.Unattended

def HasEmptyProject (s : Session) : Prop := ∃ p, s.project = some p ∧ p.files = []

/-- None of the edits settles which file is active. -/
def Quiet (s : Session) : List Edit → Prop
  | [] => True
  | e :: edits => ¬ e.Chooses s ∧ (s.apply e).Quiet edits

/-- A file is written into the open project while this has none, and the edits after that are
quiet. -/
def Stranded (mode : Fidelity) (edits : List Edit) : Prop :=
  ∃ before file later, edits = before ++ .write file :: later ∧
    (after mode before).HasEmptyProject ∧
    Quiet (after mode (before ++ [.write file])) later

variable {s : Session}

/-- An active file takes the text. -/
theorem keepsText_iff_not_unattended (h : s.IsOrderly) : s.KeepsText ↔ ¬ s.Unattended := by
  constructor
  · rintro keeps ⟨p, opened, some_file, none_active⟩
    obtain ⟨file, -, active, -⟩ := keeps p opened some_file
    simp [active] at none_active
  · intro attended p opened some_file
    cases active : p.active with
    | none => exact absurd ⟨p, opened, some_file, active⟩ attended
    | some path =>
      obtain ⟨file, mem, rfl⟩ := (h p opened).active_mem path active
      refine ⟨file, mem, rfl, ?_⟩
      intro text
      refine ⟨p.write ⟨file.path, text⟩, ?_, ?_⟩
      · rw [apply_buffer opened]
        simp [onProject, opened, Project.edit_of_active active]
      · rw [Project.contents_write (h p opened)]
        simp [Contents.insert]

theorem unattended_onProject_iff {f : Project → Project} :
    (s.onProject f).Unattended ↔ ∃ p, s.project = some p ∧ (f p).Unattended := by
  simp [Unattended, onProject]

/-- An edit leaves a project without an active file in one of two ways: it writes the first file of
the project, or there was none active before and it chooses none. -/
theorem unattended_apply_iff (h : s.IsOrderly) (e : Edit) :
    (s.apply e).Unattended ↔
      (∃ file, e = .write file ∧ s.HasEmptyProject) ∨ s.Unattended ∧ ¬ e.Chooses s := by
  cases e with
  | buffer text =>
    cases opened : s.project with
    | none => simp [Unattended, apply, opened]
    | some p =>
      rw [apply_buffer opened, unattended_onProject_iff]
      simp [Unattended, opened, Edit.Chooses, Project.unattended_edit_iff]
  | language tag => simp [Unattended, apply, Edit.Chooses]
  | mode mode => simp [Unattended, apply, Edit.Chooses]
  | openProject files => simp [Unattended, apply, Project.not_unattended_ofFiles, Edit.Chooses]
  | closeProject => simp [Unattended, apply, Edit.Chooses]
  | activate path =>
    rw [apply, unattended_onProject_iff]
    cases opened : s.project with
    | none => simp [Unattended, opened]
    | some p => simp [Unattended, opened, Edit.Chooses, Project.unattended_activate_iff]
  | write file =>
    rw [apply, unattended_onProject_iff]
    cases opened : s.project with
    | none => simp [Unattended, HasEmptyProject, opened]
    | some p =>
      simp [Unattended, HasEmptyProject, opened, Edit.Chooses,
        Project.unattended_write_iff (h p opened)]
  | remove path =>
    rw [apply, unattended_onProject_iff]
    simp [Project.not_unattended_remove, Edit.Chooses]

theorem quiet_concat_iff {edits : List Edit} {e : Edit} :
    s.Quiet (edits ++ [e]) ↔ s.Quiet edits ∧ ¬ e.Chooses (edits.foldl apply s) := by
  induction edits generalizing s with
  | nil => simp [Quiet]
  | cons first edits ih => simp [Quiet, ih, and_assoc]

/-- Going on after a stretch of edits. -/
theorem stranded_concat_iff {mode : Fidelity} {edits : List Edit} {e : Edit} :
    Stranded mode (edits ++ [e]) ↔
      (∃ file, e = .write file ∧ (after mode edits).HasEmptyProject) ∨
        Stranded mode edits ∧ ¬ e.Chooses (after mode edits) := by
  constructor
  · rintro ⟨before, file, later, eq, empty, quiet⟩
    cases later using List.reverseRecOn with
    | nil =>
      obtain ⟨rfl, same⟩ := List.append_inj' eq rfl
      exact .inl ⟨file, List.singleton_inj.1 same, empty⟩
    | append_singleton later last =>
      rw [← List.cons_append, ← List.append_assoc] at eq
      obtain ⟨rfl, same⟩ := List.append_inj' eq rfl
      obtain rfl := List.singleton_inj.1 same
      obtain ⟨quiet, keeps⟩ := quiet_concat_iff.1 quiet
      refine .inr ⟨⟨before, file, later, rfl, empty, quiet⟩, ?_⟩
      simpa [after] using keeps
  · rintro (⟨file, rfl, empty⟩ | ⟨⟨before, file, later, rfl, empty, quiet⟩, keeps⟩)
    · exact ⟨edits, file, [], rfl, empty, trivial⟩
    · refine ⟨before, file, later ++ [e], by simp, empty, quiet_concat_iff.2 ⟨quiet, ?_⟩⟩
      simpa [after] using keeps

theorem unattended_after_iff (mode : Fidelity) {edits : List Edit}
    (distinct : ∀ e ∈ edits, e.OpensDistinct) :
    (after mode edits).Unattended ↔ Stranded mode edits := by
  induction edits using List.reverseRecOn with
  | nil => simp [Unattended, after, Stranded]
  | append_singleton edits e ih =>
    have earlier : ∀ e ∈ edits, e.OpensDistinct := by
      intro e' mem
      exact distinct e' (List.mem_append_left _ mem)
    rw [after_concat, unattended_apply_iff (isOrderly_after mode earlier), ih earlier,
      stranded_concat_iff]

/-- Text of the editor reaches a file of a project with files exactly when it is not the case that
the project got its first file by writing and no edit has chosen a file since. -/
theorem keepsText_iff_not_stranded (mode : Fidelity) (edits : List Edit)
    (distinct : ∀ e ∈ edits, e.OpensDistinct) :
    (after mode edits).KeepsText ↔ ¬ Stranded mode edits := by
  rw [keepsText_iff_not_unattended (isOrderly_after mode distinct),
    unattended_after_iff mode distinct]

/-- A file of a project that is opened without files takes the text once it is activated. -/
theorem keepsText_after_activation :
    let edits : List Edit := [.openProject [], .write ⟨"a.js", ""⟩, .activate "a.js"]
    (∀ e ∈ edits, e.OpensDistinct) ∧
      ((after .simple edits).KeepsText ↔ ¬ Stranded .simple edits) := by
  intro edits
  have distinct : ∀ e ∈ edits, e.OpensDistinct := by
    simp [edits, Edit.OpensDistinct]
  exact ⟨distinct, keepsText_iff_not_stranded .simple edits distinct⟩

/-- Before that the text is lost. -/
theorem text_lost_in_opened_directory :
    let edits : List Edit := [.openProject [], .write ⟨"a.js", ""⟩]
    (∀ e ∈ edits, e.OpensDistinct) ∧ ¬ (after .simple edits).KeepsText ∧
      (after .simple edits).apply (.buffer "let a = 1;") = after .simple edits := by
  intro edits
  have distinct : ∀ e ∈ edits, e.OpensDistinct := by
    simp [edits, Edit.OpensDistinct]
  refine ⟨distinct, ?_, by decide +kernel⟩
  rw [keepsText_iff_not_unattended (isOrderly_after .simple distinct), not_not]
  exact ⟨⟨[⟨"a.js", ""⟩], none⟩, by decide +kernel, by simp, rfl⟩

end Session

end CodeAtlas
