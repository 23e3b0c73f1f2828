import CodeAtlas.Project.Watch
import CodeAtlas.Proofs.Project.Plain

/-!
# Versions of files

The files of a plain directory are written and deleted one by one. A directory that starts plain
stays so if every step is one that a file system allows and none writes an ignore file. The history
of the steps keeps what has been in each file since it was created. The directory has the last
versions; the last versions that are not too large are the same files, cut to size, unless a file
has outgrown the limit.
-/

namespace CodeAtlas

open CodeAtlas.Path (IsPath ofNames)

/-! ### Steps -/

/-- What happens to one file of a directory. -/
inductive FileStep where
  | write (names : List String) (content : List UInt8)
  | delete (names : List String)

namespace FileStep

def perform (d : Directory) : FileStep → Directory
  | .write names content => d.put names (.file content)
  | .delete names => d.erase names

/-- The change that is reported for a step, in the directory before it. -/
def change (d : Directory) : FileStep → Change
  | .write names _ =>
    let path := Path.join d.home (ofNames names)
    if (d.fileAt? names).isSome then .modified path else .created path
  | .delete names => .removed (Path.join d.home (ofNames names))

/-- A file may be written where neither a directory nor, on the way, a file is, unless it would be
an ignore file. Only a file may be deleted. -/
def Allowed (d : Directory) : FileStep → Prop
  | .write names _ =>
    IsPath names ∧ names.getLast? ≠ some ignoreFileName ∧
      ∀ e ∈ d.entries, e.1 <+: names ∨ names <+: e.1 → e.1 = names
  | .delete names => (d.fileAt? names).isSome

instance (d : Directory) : (step : FileStep) → Decidable (step.Allowed d)
  | .write names _ =>
    inferInstanceAs (Decidable (IsPath names ∧ names.getLast? ≠ some ignoreFileName ∧
      ∀ e ∈ d.entries, e.1 <+: names ∨ names <+: e.1 → e.1 = names))
  | .delete names => inferInstanceAs (Decidable ((d.fileAt? names).isSome = true))

/-- Every step may be taken after those before it. -/
def AllAllowed (d : Directory) : List FileStep → Prop
  | [] => True
  | step :: steps => step.Allowed d ∧ AllAllowed (step.perform d) steps

instance decidableAllAllowed (d : Directory) :
    (steps : List FileStep) → Decidable (AllAllowed d steps)
  | [] => inferInstanceAs (Decidable True)
  | step :: steps =>
    have := decidableAllAllowed (step.perform d) steps
    inferInstanceAs (Decidable (step.Allowed d ∧ AllAllowed (step.perform d) steps))

end FileStep

namespace Directory

variable {d : Directory} {names others : List String} {content : List UInt8}

theorem mem_entries_put {entry : Entry} {e : List String × Entry} :
    e ∈ (d.put names entry).entries ↔ e ∈ d.entries ∧ e.1 ≠ names ∨ e = (names, entry) := by
  simp [put]

theorem mem_entries_erase {e : List String × Entry} :
    e ∈ (d.erase names).entries ↔ e ∈ d.entries ∧ e.1 ≠ names := by
  simp [erase]

theorem isPlain_erase (h : d.IsPlain) (names : List String) : (d.erase names).IsPlain where
  isFile e mem := h.isFile e (mem_entries_erase.1 mem).1
  isPath e mem := h.isPath e (mem_entries_erase.1 mem).1
  nodup := h.nodup.sublist (List.filter_sublist.map _)
  apart a memA b memB := h.apart a (mem_entries_erase.1 memA).1 b (mem_entries_erase.1 memB).1
  noRules e mem := h.noRules e (mem_entries_erase.1 mem).1

theorem isPlain_put (h : d.IsPlain) (allowed : (FileStep.write names content).Allowed d) :
    (d.put names (.file content)).IsPlain where
  isFile e mem := by
    rcases mem_entries_put.1 mem with ⟨mem, -⟩ | rfl
    · exact h.isFile e mem
    · exact ⟨content, rfl⟩
  isPath e mem := by
    rcases mem_entries_put.1 mem with ⟨mem, -⟩ | rfl
    · exact h.isPath e mem
    · exact allowed.1
  nodup := by
    have before := (isPlain_erase h names).nodup
    have fresh : names ∉ (d.erase names).entries.map (·.1) := by
      intro mem
      obtain ⟨e, mem, rfl⟩ := List.mem_map.1 mem
      exact (mem_entries_erase.1 mem).2 rfl
    show (((d.erase names).entries ++ [(names, Entry.file content)]).map (·.1)).Nodup
    rw [List.map_append]
    exact before.append (List.nodup_singleton _) (by simpa using fresh)
  apart a memA b memB above := by
    rcases mem_entries_put.1 memA with ⟨memA, neA⟩ | rfl <;>
      rcases mem_entries_put.1 memB with ⟨memB, neB⟩ | rfl
    · exact h.apart a memA b memB above
    · exact allowed.2.2 a memA (.inl above)
    · exact (allowed.2.2 b memB (.inr above)).symm
    · rfl
  noRules e mem := by
    rcases mem_entries_put.1 mem with ⟨mem, -⟩ | rfl
    · exact h.noRules e mem
    · exact allowed.2.1

theorem fileAt?_put (h : d.IsPlain) (allowed : (FileStep.write names content).Allowed d) :
    (d.put names (.file content)).fileAt? = Function.update d.fileAt? names (some content) := by
  funext others
  apply Option.ext
  intro found
  rw [fileAt?_eq_some_iff (isPlain_put h allowed), mem_entries_put]
  by_cases same : others = names
  · subst same
    simp [eq_comm]
  · rw [Function.update_of_ne same, fileAt?_eq_some_iff h]
    simp [same]

theorem fileAt?_erase (h : d.IsPlain) (names : List String) :
    (d.erase names).fileAt? = Function.update d.fileAt? names none := by
  funext others
  apply Option.ext
  intro found
  rw [fileAt?_eq_some_iff (isPlain_erase h names), mem_entries_erase]
  by_cases same : others = names
  · subst same
    simp
  · rw [Function.update_of_ne same, fileAt?_eq_some_iff h]
    simp [same]

end Directory

/-! ### Versions -/

/-- What has been in every file since it was created, oldest first. -/
abbrev History := List String → List (List UInt8)

namespace History

def ofDirectory (d : Directory) : History := fun names => (d.fileAt? names).toList

def record (h : History) : FileStep → History
  | .write names content => Function.update h names (h names ++ [content])
  | .delete names => Function.update h names []

/-- The versions after some steps in a directory. -/
def after (d : Directory) (steps : List FileStep) : History := steps.foldl record (ofDirectory d)

/-- The last version of each file. -/
def last? (h : History) (names : List String) : Option (List UInt8) := (h names).getLast?

/-- The last version of each file that is not too large. -/
def lastFitting? (h : History) (s : Settings) (names : List String) : Option (List UInt8) :=
  ((h names).filter s.fits).getLast?

/-- The last version of a file is too large, an older one is not. -/
def Outgrown (h : History) (s : Settings) (names : List String) : Prop :=
  (∃ version, h.last? names = some version ∧ s.fits version = false) ∧
    ∃ version ∈ h names, s.fits version = true

variable {h : History} {s : Settings} {names : List String} {content : List UInt8}

theorem last?_ofDirectory (d : Directory) : (ofDirectory d).last? = d.fileAt? := by
  funext names
  rw [last?, ofDirectory]
  cases d.fileAt? names <;> rfl

theorem last?_write :
    (h.record (.write names content)).last? = Function.update h.last? names (some content) := by
  have updated := Function.comp_update List.getLast? h names (h names ++ [content])
  rwa [List.getLast?_concat] at updated

theorem last?_delete : (h.record (.delete names)).last? = Function.update h.last? names none :=
  Function.comp_update List.getLast? h names []

theorem lastFitting?_update (h : History) (s : Settings) (names : List String)
    (versions : List (List UInt8)) :
    lastFitting? (Function.update h names versions) s =
      Function.update (h.lastFitting? s) names (versions.filter s.fits).getLast? :=
  Function.comp_update (fun versions : List (List UInt8) => (versions.filter s.fits).getLast?) h
    names versions

theorem lastFitting?_write (fit : s.fits content = true) :
    (h.record (.write names content)).lastFitting? s =
      Function.update (h.lastFitting? s) names (some content) := by
  have last : ((h names ++ [content]).filter s.fits).getLast? = some content := by simp [fit]
  rw [record, lastFitting?_update, last]

/-- A version that is too large does not count. -/
theorem lastFitting?_write_of_large (large : s.fits content = false) :
    (h.record (.write names content)).lastFitting? s = h.lastFitting? s := by
  have same : ((h names ++ [content]).filter s.fits).getLast? = h.lastFitting? s names := by
    simp [large, lastFitting?]
  rw [record, lastFitting?_update, same, Function.update_eq_self]

theorem lastFitting?_delete :
    (h.record (.delete names)).lastFitting? s = Function.update (h.lastFitting? s) names none :=
  lastFitting?_update h s names []

/-- There is a last version that is not too large if there is any. -/
theorem exists_lastFitting? {version : List UInt8} (mem : version ∈ h names)
    (fit : s.fits version = true) : ∃ content, h.lastFitting? s names = some content := by
  rw [← Option.ne_none_iff_exists', lastFitting?, ne_eq, List.getLast?_eq_none_iff]
  exact List.ne_nil_of_mem (List.mem_filter.2 ⟨mem, fit⟩)

theorem written_of_lastFitting? (found : h.lastFitting? s names ≠ none) : h.last? names ≠ none := by
  intro nothing
  rw [last?, List.getLast?_eq_none_iff] at nothing
  simp [lastFitting?, nothing] at found

/-- A file that has not outgrown the limit is seen alike in both ways. -/
theorem lastFitting?_eq (h' : ¬ h.Outgrown s names) :
    h.lastFitting? s names = (h.last? names).filter s.fits := by
  rw [Outgrown] at h'
  rw [lastFitting?]
  rw [last?] at h' ⊢
  rcases List.eq_nil_or_concat' (h names) with nothing | ⟨older, version, eq⟩
  · rw [nothing]
    rfl
  · rw [eq] at h' ⊢
    rw [List.filter_append, List.getLast?_concat]
    by_cases fit : s.fits version = true
    · simp [fit, Option.filter]
    · rw [Bool.not_eq_true] at fit
      have none_fits : older.filter s.fits = [] := by
        rw [List.filter_eq_nil_iff]
        intro other mem isFit
        exact h' ⟨⟨version, List.getLast?_concat, fit⟩, other, List.mem_append_left _ mem, isFit⟩
      simp [fit, none_fits, Option.filter]

theorem lastFitting?_ofDirectory (d : Directory) (s : Settings) :
    (ofDirectory d).lastFitting? s = fun names => (d.fileAt? names).filter s.fits := by
  funext names
  rw [← last?_ofDirectory]
  apply lastFitting?_eq
  -- A single version has not outgrown the limit.
  rintro ⟨⟨version, last, large⟩, other, mem, fit⟩
  rw [last?_ofDirectory] at last
  rw [ofDirectory, last] at mem
  rw [List.mem_singleton.1 mem, large] at fit
  cases fit

end History

end CodeAtlas
