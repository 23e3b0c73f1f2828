import CodeAtlas.Proofs.Project.Versions
import CodeAtlas.Proofs.Session.Refinement

/-!
# Following a directory

A session that has opened a directory is kept up to date by the edits for the changes that are
reported. Here the files of a plain directory are written and deleted one by one. The session then
holds the last version of each file that was not too large, while loading the directory again gives
the last version, unless it is too large.

Main statement: the session has the files that loading again would give if and only if no file has
outgrown the size limit since it was created.
-/

namespace CodeAtlas

open CodeAtlas.Path (IsPath ofNames)

/-! ### Files of a project -/

namespace Settings

variable {s : Settings} {contentAt other : List String → Option (List UInt8)} {names : List String}
  {content : List UInt8} {file : ProjectFile}

theorem shows_congr (same : ∀ names, s.welcomes names = true → contentAt names = other names) :
    s.Shows contentAt file ↔ s.Shows other file := by
  constructor
  · rintro ⟨names, content, found, welcome, rfl⟩
    exact ⟨names, content, same names welcome ▸ found, welcome, rfl⟩
  · rintro ⟨names, content, found, welcome, rfl⟩
    exact ⟨names, content, (same names welcome).trans found, welcome, rfl⟩

/-- A version that would not be loaded changes nothing. -/
theorem shows_write_iff_of_refused {h : History}
    (refused : ¬ (s.welcomes names && s.fits content) = true) :
    s.Shows ((h.record (.write names content)).lastFitting? s) file ↔
      s.Shows (h.lastFitting? s) file := by
  apply shows_congr
  intro others welcome
  by_cases fit : s.fits content = true
  · have elsewhere : others ≠ names := by
      rintro rfl
      exact refused (by rw [welcome, fit, Bool.and_self])
    rw [History.lastFitting?_write fit, Function.update_of_ne elsewhere]
  · rw [History.lastFitting?_write_of_large (Bool.eq_false_iff.2 fit)]

variable (paths : ∀ others, contentAt others ≠ none → IsPath others) (isPath : IsPath names)
include paths isPath

/-- A path under which nothing is to be found is the path of no file. -/
theorem Shows.path_ne (shown : s.Shows contentAt file) (nothing : contentAt names = none) :
    file.path ≠ ofNames names := by
  obtain ⟨others, content, found, -, rfl⟩ := shown
  intro same
  have eq := Path.ofNames_inj (paths others (by simp [found])) isPath same
  rw [eq, nothing] at found
  cases found

theorem shows_update_some_iff (welcome : s.welcomes names = true) :
    s.Shows (Function.update contentAt names (some content)) file ↔
      file = ⟨ofNames names, Utf8.decodeLossy content⟩ ∨
        s.Shows contentAt file ∧ file.path ≠ ofNames names := by
  constructor
  · rintro ⟨others, found, eq, welcomeOther, rfl⟩
    by_cases here : others = names
    · subst here
      rw [Function.update_self] at eq
      exact .inl (Option.some.inj eq ▸ rfl)
    · rw [Function.update_of_ne here] at eq
      refine .inr ⟨⟨others, found, eq, welcomeOther, rfl⟩, ?_⟩
      intro same
      exact here (Path.ofNames_inj (paths others (by simp [eq])) isPath same)
  · rintro (rfl | ⟨⟨others, found, eq, welcomeOther, rfl⟩, ne⟩)
    · exact ⟨names, content, Function.update_self .., welcome, rfl⟩
    · have elsewhere : others ≠ names := fun here => ne (here ▸ rfl)
      exact ⟨others, found, (Function.update_of_ne elsewhere ..).trans eq, welcomeOther, rfl⟩

/-- Taking a file out takes out what is at its path and below it, if nothing is below. -/
theorem shows_update_none_iff
    (apart : ∀ others, contentAt others ≠ none → names <+: others → names = others) :
    s.Shows (Function.update contentAt names none) file ↔
      s.Shows contentAt file ∧ Project.isAtOrBelow (ofNames names) file = false := by
  constructor
  · rintro ⟨others, content, eq, welcome, rfl⟩
    have elsewhere : others ≠ names := by
      rintro rfl
      rw [Function.update_self] at eq
      cases eq
    rw [Function.update_of_ne elsewhere] at eq
    have isPathOther : IsPath others := paths others (by simp [eq])
    refine ⟨⟨others, content, eq, welcome, rfl⟩, ?_⟩
    rw [Bool.eq_false_iff, ne_eq, Contents.isAtOrBelow_iff]
    rintro (same | below)
    · exact elsewhere (Path.ofNames_inj isPathOther isPath same)
    · exact elsewhere
        (apart others (by simp [eq]) (Path.isPrefix_of_below isPath isPathOther below)).symm
  · rintro ⟨⟨others, content, eq, welcome, rfl⟩, kept⟩
    have elsewhere : others ≠ names := by
      rintro rfl
      simp [Project.isAtOrBelow] at kept
    exact ⟨others, content, (Function.update_of_ne elsewhere ..).trans eq, welcome, rfl⟩

end Settings

/-! ### The edit for a change -/

namespace PathFilter

theorem ofRoot_eq {d : Directory} (h : d.IsPlain) (s : Settings) :
    ofRoot d s d.home = ⟨d.home, s.ignore, []⟩ := by
  have isPath : IsPath [ignoreFileName] := ⟨by simp, by decide⟩
  have unread : d.read? (Path.join d.home ignoreFileName) = none :=
    (Directory.read?_join h isPath).trans (Directory.fileAt?_ignoreFileName h [])
  rw [ofRoot, unread]

/-- Without rules only names are excluded. -/
theorem excludes_eq (d : Directory) (root : String) (names : List String) (path : String) :
    excludes d ⟨root, names, []⟩ path = shouldIgnore names path := by
  have silent (isDirectory : Bool) (below : List String) :
      ruleFor? ⟨root, names, []⟩ isDirectory below = none := by
    simp [ruleFor?, Directory.lastMatch?_nil]
  simp only [excludes, silent]
  split <;> simp

end PathFilter

namespace Change

variable {d : Directory} {s : Settings} {names : List String} {content : List UInt8}

theorem accepts_join (s : Settings) (root : String) (isPath : IsPath names) (size : Nat) :
    s.accepts (Path.join root (ofNames names)) size = s.accepts (ofNames names) size := by
  rw [Settings.accepts, Settings.accepts, Path.extension?_join root isPath]

theorem welcomes_and_fits (s : Settings) (names : List String) (content : List UInt8) :
    (s.welcomes names && s.fits content) =
      (!names.any s.ignore.contains && s.accepts (ofNames names) content.length) := by
  rw [Settings.welcomes, Settings.accepts, List.not_any_eq_all_not, Bool.and_assoc]
  rfl

/-- A file that is written gives an edit if it would be loaded. -/
theorem writeEdit?_eq (h : d.IsPlain) (outside : shouldIgnore s.ignore d.home = false)
    (isPath : IsPath names) (listed : d.fileAt? names = some content) :
    writeEdit? d s ⟨d.home, s.ignore, []⟩ (Path.join d.home (ofNames names)) =
      if s.welcomes names && s.fits content then
        some (.write ⟨ofNames names, Utf8.decodeLossy content⟩)
      else none := by
  simp only [writeEdit?, PathFilter.excludes_eq, Path.shouldIgnore_join _ _ isPath, outside,
    Bool.false_or, Path.relative?_join _ isPath, Directory.read?_join h isPath, listed,
    accepts_join s _ isPath]
  rw [welcomes_and_fits]
  by_cases ignored : names.any s.ignore.contains = true
  · rw [if_pos ignored, ignored]
    rfl
  · rw [if_neg ignored, Bool.eq_false_iff.2 ignored]
    rfl

theorem edit?_write (h : d.IsPlain) (outside : shouldIgnore s.ignore d.home = false)
    (allowed : (FileStep.write names content).Allowed d) :
    ((FileStep.write names content).change d).edit? (d.put names (.file content)) s
      ⟨d.home, s.ignore, []⟩ =
      if s.welcomes names && s.fits content then
        some (.write ⟨ofNames names, Utf8.decodeLossy content⟩)
      else none := by
  have listed : (d.put names (.file content)).fileAt? names = some content := by
    rw [Directory.fileAt?_put h allowed, Function.update_self]
  rw [← writeEdit?_eq (Directory.isPlain_put h allowed) outside allowed.1 listed, FileStep.change]
  split <;> rfl

theorem edit?_delete (d : Directory) (s : Settings) (isPath : IsPath names) :
    ((FileStep.delete names).change d).edit? (d.erase names) s ⟨d.home, s.ignore, []⟩ =
      some (.remove (ofNames names)) := by
  rw [FileStep.change, edit?, Path.relative?_join _ isPath, Option.map_some]

end Change

/-! ### The session beside the directory -/

/-- A directory, and a session that follows it. -/
structure Watched where
  directory : Directory
  session : Session

namespace Watched

/-- A file is written or deleted, and the session gets the edit for the change, if there is one. -/
def step (s : Settings) (f : PathFilter) (w : Watched) (step : FileStep) : Watched where
  directory := step.perform w.directory
  session :=
    match (step.change w.directory).edit? (step.perform w.directory) s f with
    | some edit => w.session.apply edit
    | none => w.session

def run (s : Settings) (f : PathFilter) (w : Watched) (steps : List FileStep) : Watched :=
  steps.foldl (step s f) w

/-- The directory has the last versions, and the session the last ones that are not too large. -/
structure Tracks (s : Settings) (w : Watched) (h : History) : Prop where
  isPlain : w.directory.IsPlain
  latest : w.directory.fileAt? = h.last?
  kept :
    ∃ p, w.session.project = some p ∧ Ascending p.files ∧ ∀ file, file ∈ p.files ↔
      s.Shows (h.lastFitting? s) file

variable {s : Settings} {w : Watched} {h : History}

/-- Only files that are still there have versions. -/
theorem Tracks.mem_entries (t : Tracks s w h) {names : List String}
    (written : h.last? names ≠ none) : ∃ content, (names, .file content) ∈ w.directory.entries := by
  obtain ⟨content, last⟩ := Option.ne_none_iff_exists'.1 written
  rw [← t.latest] at last
  exact ⟨content, (Directory.fileAt?_eq_some_iff t.isPlain).1 last⟩

theorem Tracks.isPath (t : Tracks s w h) {names : List String}
    (written : h.last? names ≠ none) : IsPath names := by
  obtain ⟨content, mem⟩ := t.mem_entries written
  exact t.isPlain.isPath _ mem

theorem Tracks.isPath_of_lastFitting? (t : Tracks s w h) (names : List String)
    (found : h.lastFitting? s names ≠ none) : IsPath names :=
  t.isPath (History.written_of_lastFitting? found)

/-- What is written is in the directory at once, and in the session if it would be loaded. -/
theorem Tracks.write (t : Tracks s w h) (outside : shouldIgnore s.ignore w.directory.home = false)
    {names : List String} {content : List UInt8}
    (allowed : (FileStep.write names content).Allowed w.directory) :
    Tracks s (w.step s ⟨w.directory.home, s.ignore, []⟩ (.write names content))
      (h.record (.write names content)) := by
  have edit := Change.edit?_write t.isPlain outside allowed
  refine ⟨Directory.isPlain_put t.isPlain allowed, ?_, ?_⟩
  · rw [History.last?_write, ← t.latest, ← Directory.fileAt?_put t.isPlain allowed]
    rfl
  · obtain ⟨p, project, sorted, members⟩ := t.kept
    by_cases taken : (s.welcomes names && s.fits content) = true
    · obtain ⟨welcome, fit⟩ := Bool.and_eq_true_iff.1 taken
      refine ⟨p.write ⟨ofNames names, Utf8.decodeLossy content⟩, ?_,
        Project.ascending_place sorted, ?_⟩
      · simp only [step, FileStep.perform, edit, if_pos taken, Session.apply,
          Session.onProject, project, Option.map_some]
      · intro file
        rw [Project.write, Project.mem_place_iff sorted, members, History.lastFitting?_write fit,
          Settings.shows_update_some_iff t.isPath_of_lastFitting? allowed.1 welcome]
    · refine ⟨p, ?_, sorted, ?_⟩
      · simp only [step, FileStep.perform, edit, if_neg taken, project]
      · intro file
        rw [members, Settings.shows_write_iff_of_refused taken]

/-- What is deleted is gone from both. -/
theorem Tracks.delete (t : Tracks s w h) {names : List String}
    (allowed : (FileStep.delete names).Allowed w.directory) :
    Tracks s (w.step s ⟨w.directory.home, s.ignore, []⟩ (.delete names))
      (h.record (.delete names)) := by
  obtain ⟨content, listed⟩ := Option.isSome_iff_exists.1 allowed
  have mem := (Directory.fileAt?_eq_some_iff t.isPlain).1 listed
  have isPath : IsPath names := t.isPlain.isPath _ mem
  have apart : ∀ others, h.lastFitting? s others ≠ none → names <+: others → names = others := by
    intro others found above
    obtain ⟨_, memOther⟩ := t.mem_entries (History.written_of_lastFitting? found)
    exact t.isPlain.apart _ mem _ memOther above
  have edit := Change.edit?_delete w.directory s isPath
  refine ⟨Directory.isPlain_erase t.isPlain names, ?_, ?_⟩
  · rw [History.last?_delete, ← t.latest, ← Directory.fileAt?_erase t.isPlain]
    rfl
  · obtain ⟨p, project, sorted, members⟩ := t.kept
    refine ⟨p.remove (ofNames names), ?_, ?_, ?_⟩
    · simp only [step, FileStep.perform, edit, Session.apply, Session.onProject, project,
        Option.map_some]
    · rw [Project.files_remove]
      exact sorted.filter _
    · intro file
      rw [Project.files_remove, List.mem_filter, members, History.lastFitting?_delete,
        Settings.shows_update_none_iff t.isPath_of_lastFitting? isPath apart, Bool.not_eq_true']

theorem Tracks.step (t : Tracks s w h) (outside : shouldIgnore s.ignore w.directory.home = false)
    {step : FileStep} (allowed : step.Allowed w.directory) :
    Tracks s (w.step s ⟨w.directory.home, s.ignore, []⟩ step) (h.record step) := by
  cases step with
  | write names content => exact t.write outside allowed
  | delete names => exact t.delete allowed

theorem home_step (s : Settings) (f : PathFilter) (w : Watched) (step : FileStep) :
    (w.step s f step).directory.home = w.directory.home := by
  cases step <;> rfl

theorem Tracks.run (t : Tracks s w h) (outside : shouldIgnore s.ignore w.directory.home = false)
    {steps : List FileStep} (allowed : FileStep.AllAllowed w.directory steps) :
    Tracks s (w.run s ⟨w.directory.home, s.ignore, []⟩ steps) (steps.foldl History.record h) := by
  induction steps generalizing w h with
  | nil => exact t
  | cons step steps ih =>
    have next := t.step outside allowed.1
    have rest := ih next (by rwa [home_step]) allowed.2
    rwa [home_step] at rest

theorem home_run (s : Settings) (f : PathFilter) (w : Watched) (steps : List FileStep) :
    (w.run s f steps).directory.home = w.directory.home := by
  induction steps generalizing w with
  | nil => rfl
  | cons step steps ih => exact (ih _).trans (home_step s f w step)

/-- A directory, and a session that has opened some files. -/
def opened (d : Directory) (start : Session) (files : List ProjectFile) : Watched where
  directory := d
  session := start.apply (.openProject files)

theorem tracks_opened {d : Directory} (isPlain : d.IsPlain) (start : Session)
    {files : List ProjectFile} (sorted : Ascending files)
    (members : ∀ file, file ∈ files ↔ s.Shows (fun names => (d.fileAt? names).filter s.fits) file) :
    Tracks s (opened d start files) (.ofDirectory d) where
  isPlain := isPlain
  latest := (History.last?_ofDirectory d).symm
  kept := by
    refine ⟨.ofFiles files, rfl, Ascending.mergeSort sorted.nodup_paths, ?_⟩
    intro file
    rw [Project.ofFiles, List.mem_mergeSort, members, History.lastFitting?_ofDirectory]

/-- The session and the directory agree unless a file has outgrown the limit. -/
theorem Tracks.reload (t : Tracks s w h) :
    ∃ p reloaded, w.session.project = some p ∧ w.directory.load s w.directory.home = .ok reloaded ∧
      (∀ file, file ∈ p.files ↔ s.Shows (h.lastFitting? s) file) ∧
      (p.files = reloaded ↔ ∀ names, s.welcomes names = true → ¬ h.Outgrown s names) := by
  obtain ⟨p, project, sorted, members⟩ := t.kept
  obtain ⟨reloaded, loaded, sortedAgain, membersAgain⟩ := Directory.exists_load t.isPlain s
  rw [t.latest] at membersAgain
  refine ⟨p, reloaded, project, loaded, members, ?_⟩
  constructor
  · rintro same names welcome ⟨⟨version, last, large⟩, older, mem, fit⟩
    obtain ⟨content, found⟩ := History.exists_lastFitting? mem fit
    -- The session has the file, with an older content; loading again leaves it out.
    have shown : s.Shows (h.lastFitting? s) ⟨ofNames names, Utf8.decodeLossy content⟩ :=
      ⟨names, content, found, welcome, rfl⟩
    rw [← members, same, membersAgain] at shown
    have paths : ∀ others, (h.last? others).filter s.fits ≠ none → IsPath others := by
      intro others found
      apply t.isPath
      intro nothing
      simp [nothing] at found
    have nothing : (h.last? names).filter s.fits = none := by
      rw [last]
      simp [Option.filter, large]
    exact shown.path_ne paths (t.isPath (by simp [last])) nothing rfl
  · intro none_outgrown
    apply sorted.eq_of_mem_iff sortedAgain
    intro file
    rw [members, membersAgain]
    apply Settings.shows_congr
    intro names welcome
    exact History.lastFitting?_eq (none_outgrown names welcome)

/-- A session opens the files of a directory and gets the edits for what is written and deleted
there later. It then has the last version of every file that was not too large. These are the files
that loading again gives if and only if no file that names and extension let in has become too
large. -/
theorem agrees_with_reload_iff (d : Directory) (s : Settings) (start : Session)
    (steps : List FileStep) (isPlain : d.IsPlain)
    (outside : ∀ c ∈ Path.components d.home, c.text ∉ s.ignore)
    (allowed : FileStep.AllAllowed d steps) :
    ∃ files p reloaded, d.load s d.home = .ok files ∧
      ((opened d start files).run s (.ofRoot d s d.home) steps).session.project = some p ∧
      ((opened d start files).run s (.ofRoot d s d.home) steps).directory.load s d.home =
        .ok reloaded ∧
      (∀ file, file ∈ p.files ↔ s.Shows ((History.after d steps).lastFitting? s) file) ∧
      (p.files = reloaded ↔ ∀ names, s.welcomes names = true →
        ¬ (History.after d steps).Outgrown s names) := by
  obtain ⟨files, loaded, sorted, members⟩ := Directory.exists_load isPlain s
  have unignored : shouldIgnore s.ignore d.home = false := by
    simpa [shouldIgnore] using outside
  have tracks := (tracks_opened isPlain start sorted members).run unignored allowed
  obtain ⟨p, reloaded, project, again, shown, same⟩ := tracks.reload
  rw [home_run] at again
  rw [PathFilter.ofRoot_eq isPlain]
  exact ⟨files, p, reloaded, loaded, project, again, shown, same⟩

/-- One file that is too large at first, one that is deleted and one that is left alone. -/
theorem agrees_after_shrinking :
    let d : Directory := ⟨"/w", [(["a.js"], .file [97]), (["b.js"], .file [98])]⟩
    let s : Settings := { maxFileBytes := 1 }
    let steps : List FileStep :=
      [.write ["lib", "c.js"] [99, 99], .delete ["a.js"], .write ["lib", "c.js"] [99]]
    d.IsPlain ∧ (∀ c ∈ Path.components d.home, c.text ∉ s.ignore) ∧ FileStep.AllAllowed d steps ∧
    ∃ files p reloaded, d.load s d.home = .ok files ∧
      ((opened d {} files).run s (.ofRoot d s d.home) steps).session.project = some p ∧
      ((opened d {} files).run s (.ofRoot d s d.home) steps).directory.load s d.home =
        .ok reloaded ∧
      p.files = reloaded := by
  intro d s steps
  have isPlain : d.IsPlain := ⟨by simp [d], by decide, by decide, by decide, by decide⟩
  have outside : ∀ c ∈ Path.components d.home, c.text ∉ s.ignore := by decide
  have allowed : FileStep.AllAllowed d steps := by decide
  refine ⟨isPlain, outside, allowed, ?_⟩
  obtain ⟨files, p, reloaded, loaded, project, again, -, same⟩ :=
    agrees_with_reload_iff d s {} steps isPlain outside allowed
  refine ⟨files, p, reloaded, loaded, project, again, same.2 ?_⟩
  rintro names - ⟨⟨version, last, large⟩, -⟩
  have now :
      (History.after d steps).last? = Function.update (Function.update (Function.update d.fileAt?
        ["lib", "c.js"] (some [99, 99])) ["a.js"] none) ["lib", "c.js"] (some [99]) := by
    rw [← History.last?_ofDirectory, ← History.last?_write, ← History.last?_delete,
      ← History.last?_write]
    rfl
  have before {content : List UInt8} (listed : d.fileAt? names = some content) :
      s.fits content = true := by
    have mem := (Directory.fileAt?_eq_some_iff isPlain).1 listed
    have contents : ∀ e ∈ d.entries, e.2 = .file [97] ∨ e.2 = .file [98] := by decide
    rcases contents _ mem with eq | eq <;> cases eq <;> decide
  rw [now, Function.update_apply, Function.update_apply, Function.update_apply] at last
  have fit : s.fits version = true := by
    split at last
    · cases last
      decide
    · split at last
      · cases last
      · exact before (by simpa using last)
  rw [fit] at large
  cases large

/-- A file that is written again with more than the limit stays in the session as it was. -/
theorem stale_after_outgrowing :
    let d : Directory := ⟨"/w", [(["a.js"], .file [97])]⟩
    let s : Settings := { maxFileBytes := 1 }
    let step : FileStep := .write ["a.js"] [97, 98]
    d.load s d.home = .ok [⟨"a.js", "a"⟩] ∧
    ((opened d {} [⟨"a.js", "a"⟩]).step s (.ofRoot d s d.home) step).session.project.map (·.files) =
      some [⟨"a.js", "a"⟩] ∧
    (step.perform d).load s d.home = .ok [] := by
  decide +kernel

end Watched

end CodeAtlas
