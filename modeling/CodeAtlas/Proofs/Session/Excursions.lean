import CodeAtlas.Session
import Mathlib.Data.List.Induction

/-!
# Excursions into a project

While a project is open the text of the editor goes to its files, and the scratch text waits behind
it. The edits of a run decide the parts of a session one by one: the language and the mode are those
that were set last, whatever was open then, a project is open if the last edit to open or close one
has opened it, and the scratch text is the last that was typed while none was open.

So a session without a project that opens one, edits it and closes it is what it was before, as long
as the project stays open in between. A text that is typed after an earlier closing stays in the
scratch text.
-/

namespace CodeAtlas

namespace Edit

/-- The language that an edit sets. -/
def language? : Edit → Option (Option Language)
  | .language tag => some tag
  | _ => none

/-- The mode that an edit sets. -/
def mode? : Edit → Option Fidelity
  | .mode value => some value
  | _ => none

/-- Whether a project is open after an edit that opens or closes one. -/
def opens? : Edit → Option Bool
  | .openProject _ => some true
  | .closeProject => some false
  | _ => none

/-- The text that an edit puts into the editor. -/
def text? : Edit → Option String
  | .buffer text => some text
  | _ => none

/-! ### The last to set something -/

variable {α : Type}

/-- What the edit in a position sets, which may depend on the edits before it. -/
def setAt (sets : (before : List Edit) → Edit → Option α) (edits : List Edit)
    (k : Nat) : Option α :=
  edits[k]?.bind (sets (edits.take k))

/-- The value is the one that the last edit sets that sets any. If none does it is the value at the
start. -/
def IsLatest (sets : (before : List Edit) → Edit → Option α) (start : α) (edits : List Edit)
    (x : α) : Prop :=
  (∃ k, setAt sets edits k = some x ∧ ∀ j, k < j → setAt sets edits j = none) ∨
    x = start ∧ ∀ k, setAt sets edits k = none

variable {sets : List Edit → Edit → Option α} {start x : α} {edits : List Edit}

theorem setAt_concat (sets : List Edit → Edit → Option α) (edits : List Edit) (e : Edit) (k : Nat) :
    setAt sets (edits ++ [e]) k =
      if k = edits.length then sets edits e else setAt sets edits k := by
  rw [setAt, setAt]
  obtain lt | rfl | gt := Nat.lt_trichotomy k edits.length
  · rw [if_neg (by omega), List.getElem?_append_left lt, List.take_append_of_le_length (by omega)]
  · simp
  · rw [if_neg (by omega), List.getElem?_eq_none (by simp; omega), List.getElem?_eq_none (by omega)]
    rfl

theorem setAt_of_length_le {k : Nat} (outside : edits.length ≤ k) : setAt sets edits k = none := by
  rw [setAt, List.getElem?_eq_none outside]
  rfl

theorem exists_of_setAt {k : Nat} (given : setAt sets edits k = some x) :
    ∃ e ∈ edits, sets (edits.take k) e = some x := by
  obtain ⟨e, here, given⟩ := Option.bind_eq_some_iff.1 given
  exact ⟨e, List.mem_of_getElem? here, given⟩

namespace IsLatest

theorem nil (sets : List Edit → Edit → Option α) (start : α) : IsLatest sets start [] start :=
  .inr ⟨rfl, fun _ => rfl⟩

/-- One more edit sets a value or leaves it at that. -/
theorem concat (h : IsLatest sets start edits x) (e : Edit) :
    IsLatest sets start (edits ++ [e]) ((sets edits e).getD x) := by
  cases given : sets edits e with
  | some y =>
    refine .inl ⟨edits.length, by rw [setAt_concat, if_pos rfl, given]; rfl, ?_⟩
    intro j later
    rw [setAt_concat, if_neg (by omega), setAt_of_length_le (by omega)]
  | none =>
    have same (k : Nat) : setAt sets (edits ++ [e]) k = setAt sets edits k := by
      rw [setAt_concat]
      split
      · next last => rw [given, setAt_of_length_le (by omega)]
      · rfl
    simpa only [IsLatest, same, Option.getD_none] using h

theorem unique (h : IsLatest sets start edits x) {y : α} (h' : IsLatest sets start edits y) :
    x = y := by
  obtain ⟨k, given, later⟩ | ⟨rfl, silent⟩ := h
  · obtain ⟨j, given', later'⟩ | ⟨-, silent⟩ := h'
    · obtain lt | rfl | gt := Nat.lt_trichotomy k j
      · simp [later j lt] at given'
      · exact Option.some.inj (given.symm.trans given')
      · simp [later' k gt] at given
    · simp [silent k] at given
  · obtain ⟨j, given', -⟩ | ⟨rfl, -⟩ := h'
    · simp [silent j] at given'
    · rfl

/-- Where no other value is ever set the value at the start is kept. -/
theorem eq_start (h : IsLatest sets start edits x)
    (only : ∀ k y, setAt sets edits k = some y → y = start) : x = start := by
  obtain ⟨k, given, -⟩ | ⟨same, -⟩ := h
  · exact only k x given
  · exact same

end IsLatest

end Edit

/-! ### Runs of edits -/

namespace Session

/-- The text that an edit puts into the scratch text of a session that has seen the edits before. -/
def scratchText? (s : Session) (before : List Edit) (e : Edit) : Option String :=
  if (before.foldl apply s).project = none then e.text? else none

/-- Each part of a session is decided by the last edit that has a say in it. -/
structure FollowsLatest (s : Session) (edits : List Edit) (final : Session) : Prop where
  scratch : Edit.IsLatest s.scratchText? s.scratch edits final.scratch
  language : Edit.IsLatest (fun _ e => e.language?) s.language edits final.language
  mode : Edit.IsLatest (fun _ e => e.mode?) s.mode edits final.mode
  opened : Edit.IsLatest (fun _ e => e.opens?) s.project.isSome edits final.project.isSome

variable {s : Session}

/-! One edit, part by part. -/

theorem scratch_apply (s : Session) (e : Edit) :
    (s.apply e).scratch = (if s.project = none then e.text? else none).getD s.scratch := by
  cases e with
  | buffer text =>
    cases opened : s.project with
    | none => simp [apply, opened, Edit.text?]
    | some p => simp [apply, opened, onProject]
  | language tag | mode mode | openProject files | closeProject | activate path | write file
  | remove path =>
    simp [apply, onProject, Edit.text?]

theorem language_apply (s : Session) (e : Edit) :
    (s.apply e).language = e.language?.getD s.language := by
  cases e with
  | buffer text => cases opened : s.project <;> simp [apply, opened, onProject, Edit.language?]
  | language tag | mode mode | openProject files | closeProject | activate path | write file
  | remove path => rfl

theorem mode_apply (s : Session) (e : Edit) : (s.apply e).mode = e.mode?.getD s.mode := by
  cases e with
  | buffer text => cases opened : s.project <;> simp [apply, opened, onProject, Edit.mode?]
  | language tag | mode mode | openProject files | closeProject | activate path | write file
  | remove path => rfl

theorem isSome_project_apply (s : Session) (e : Edit) :
    (s.apply e).project.isSome = e.opens?.getD s.project.isSome := by
  cases e with
  | buffer text => cases opened : s.project <;> simp [apply, opened, onProject, Edit.opens?]
  | language tag | mode mode | openProject files | closeProject => rfl
  | activate path | write file | remove path => simp [apply, onProject, Edit.opens?]

theorem followsLatest (s : Session) (edits : List Edit) :
    s.FollowsLatest edits (edits.foldl apply s) := by
  -- The induction is on the last edit: the edits before it say whether a project is open then.
  induction edits using List.reverseRecOn with
  | nil => exact ⟨.nil .., .nil .., .nil .., .nil ..⟩
  | append_singleton edits e ih =>
    rw [List.foldl_append, List.foldl_cons, List.foldl_nil]
    refine ⟨?_, ?_, ?_, ?_⟩
    · rw [scratch_apply]
      exact ih.scratch.concat e
    · rw [language_apply]
      exact ih.language.concat e
    · rw [mode_apply]
      exact ih.mode.concat e
    · rw [isSome_project_apply]
      exact ih.opened.concat e

/-! ### There and back -/

/-- A project stays open while it is not closed. -/
theorem isSome_project_of_not_closed (opened : s.project.isSome = true) {edits : List Edit}
    (kept : .closeProject ∉ edits) : (edits.foldl apply s).project.isSome = true := by
  have latest := (s.followsLatest edits).opened
  rw [opened] at latest
  apply latest.eq_start
  intro k isOpen given
  obtain ⟨e, mem, given⟩ := Edit.exists_of_setAt given
  cases e with
  | openProject files => exact (Option.some.inj given).symm
  | closeProject => exact absurd mem kept
  | buffer text | language tag | mode mode | activate path | write file | remove path => cases given

/-- While a project is open nothing is typed into the scratch text. -/
theorem scratch_of_not_closed (opened : s.project.isSome = true) {edits : List Edit}
    (kept : .closeProject ∉ edits) : (edits.foldl apply s).scratch = s.scratch := by
  apply (s.followsLatest edits).scratch.eq_start
  intro k text given
  obtain ⟨e, -, given⟩ := Edit.exists_of_setAt given
  have earlier : .closeProject ∉ edits.take k := fun mem => kept (List.mem_of_mem_take mem)
  have isOpen := isSome_project_of_not_closed opened earlier
  rw [scratchText?, if_neg (Option.isSome_iff_ne_none.1 isOpen)] at given
  cases given

/-- A session that opens a project, edits it and closes it again. -/
def excursion (s : Session) (files : List ProjectFile) (edits : List Edit) : Session :=
  List.foldl apply s (.openProject files :: edits ++ [.closeProject])

variable {files : List ProjectFile} {edits : List Edit}

theorem excursion_eq (outside : s.project = none)
    (plain : ∀ e ∈ edits, e.language? = none ∧ e.mode? = none) :
    s.excursion files edits =
      { s with scratch := (edits.foldl apply (s.apply (.openProject files))).scratch } := by
  have latest := (s.apply (.openProject files)).followsLatest edits
  have language : (edits.foldl apply (s.apply (.openProject files))).language = s.language := by
    apply latest.language.eq_start
    intro k tag given
    obtain ⟨e, mem, given⟩ := Edit.exists_of_setAt given
    simp [(plain e mem).1] at given
  have mode : (edits.foldl apply (s.apply (.openProject files))).mode = s.mode := by
    apply latest.mode.eq_start
    intro k mode given
    obtain ⟨e, mem, given⟩ := Edit.exists_of_setAt given
    simp [(plain e mem).2] at given
  have closed : s.excursion files edits =
      { edits.foldl apply (s.apply (.openProject files)) with project := none } := by
    rw [excursion, List.cons_append, List.foldl_cons, List.foldl_append]
    rfl
  simp only [closed, language, mode, outside]

/-- After any edits the scratch text is the last that was typed while no project was open, language
and mode are those that were set last, and a project is open if the last edit to open or close one
has opened it. An excursion without a change of language or mode takes a session without a project
back to itself, unless the project is closed on the way and another text is typed then. -/
theorem excursions_keep_scratch (s : Session) (edits : List Edit) :
    s.FollowsLatest edits (edits.foldl apply s) ∧
      ∀ files, s.project = none → (∀ e ∈ edits, e.language? = none ∧ e.mode? = none) →
        (.closeProject ∉ edits → s.excursion files edits = s) ∧
        (s.excursion files edits = s ↔
          Edit.IsLatest (s.apply (.openProject files)).scratchText? s.scratch edits s.scratch) := by
  refine ⟨s.followsLatest edits, ?_⟩
  intro files outside plain
  have latest := ((s.apply (.openProject files)).followsLatest edits).scratch
  rw [excursion_eq outside plain]
  constructor
  · intro kept
    rw [scratch_of_not_closed rfl kept]
    rfl
  · constructor
    · intro same
      have scratch := congrArg Session.scratch same
      rwa [scratch] at latest
    · intro again
      rw [latest.unique again]

/-- A file is edited, another one is written and shown, and the project is opened anew before it is
closed. -/
theorem excursion_with_two_openings :
    let s : Session := { scratch := "let a = 1;", language := some .python, mode := .advanced }
    let files : List ProjectFile := [⟨"src/index.js", ""⟩]
    let edits : List Edit :=
      [.buffer "import './util';", .write ⟨"src/util.js", "0"⟩, .activate "src/util.js",
        .openProject [], .buffer "lost", .remove "src"]
    s.project = none ∧ (∀ e ∈ edits, e.language? = none ∧ e.mode? = none) ∧ .closeProject ∉ edits ∧
      s.excursion files edits = s := by
  intro s files edits
  have plain : ∀ e ∈ edits, e.language? = none ∧ e.mode? = none := by decide
  have kept : .closeProject ∉ edits := by decide
  exact ⟨rfl, plain, kept, ((excursions_keep_scratch s edits).2 files rfl plain).1 kept⟩

/-- The project is closed on the way, and the text that is typed then replaces the scratch text. -/
theorem scratch_replaced_between_closings :
    let s : Session := { scratch := "a" }
    let edits : List Edit := [.closeProject, .buffer "b"]
    s.project = none ∧ (∀ e ∈ edits, e.language? = none ∧ e.mode? = none) ∧
      s.excursion [] edits = { s with scratch := "b" } ∧ s.excursion [] edits ≠ s := by
  intro s edits
  have back : s.excursion [] edits = { s with scratch := "b" } := rfl
  refine ⟨rfl, by decide, back, ?_⟩
  intro same
  have scratch : "b" = "a" := congrArg Session.scratch (back.symm.trans same)
  exact absurd scratch (by decide)

end Session

end CodeAtlas
