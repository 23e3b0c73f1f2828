import CodeAtlas.Proofs.Live.Workshop

/-!
# Nothing stale is put up

In a fresh workshop, whatever the order of requests and turns: the display changes only at a turn of
the job that holds the latest token, so what is shown never goes back to an older request, and a job
that has been superseded is without effect from then on. A job answers yes exactly if one of its
turns put up its final picture.
-/

namespace CodeAtlas.Workshop

variable {studio : Studio} {w : Workshop} {i : Nat} {job : Job}

theorem issued_le_perform (h : Sound studio w) (event : Happening) :
    w.board.tokens.issued ≤ (perform studio w event).board.tokens.issued := by
  cases event with
  | request s => exact Nat.le_succ _
  | turn i t =>
    cases hi : w.jobs[i]? with
    | none => simp [perform_turn_of_none hi]
    | some job =>
      obtain ⟨b', j', eq, step, -⟩ := h.taken hi t
      simp [eq, step.tokens_eq]

theorem issued_le_run (h : Sound studio w) (events : List Happening) :
    w.board.tokens.issued ≤ (run studio w events).board.tokens.issued := by
  induction events generalizing w with
  | nil => exact Nat.le_refl _
  | cons event events ih => exact Nat.le_trans (issued_le_perform h event) (ih (h.step event))

/-- The display is as it was. -/
def Untouched (w w' : Workshop) : Prop :=
  w'.board.shown = w.board.shown ∧ w'.board.history = w.board.history

/-- The display was changed, under a token. -/
def PutUp (w w' : Workshop) (update : Update) : Prop :=
  w'.board.shown = update ∧ w'.board.history = w.board.history ++ [update]

/-- A change of the display is a turn of the job with the latest token. -/
theorem Sound.untouched_or_putUp (h : Sound studio w) (event : Happening) :
    Untouched w (perform studio w event) ∨
      ∃ i t job picture, event = .turn i t ∧ w.jobs[i]? = some job ∧
        job.token = w.board.tokens.issued ∧
          PutUp w (perform studio w event) ⟨job.token, picture⟩ := by
  cases event with
  | request s => exact .inl ⟨rfl, rfl⟩
  | turn i t =>
    cases hi : w.jobs[i]? with
    | none =>
      rw [perform_turn_of_none hi]
      exact .inl ⟨rfl, rfl⟩
    | some job =>
      obtain ⟨b', j', eq, -, display⟩ := h.taken hi t
      rw [eq]
      rcases display.unchanged_or_put with unchanged | ⟨latest, -, picture, put⟩
      · exact .inl unchanged
      · exact .inr ⟨i, t, job, picture, rfl, hi, latest.symm, put⟩

/-- Once another token has been issued, the turns of a job are without effect on the display. -/
theorem Sound.untouched_of_superseded (h : Sound studio w) (hi : w.jobs[i]? = some job)
    (superseded : job.token < w.board.tokens.issued) (more : List Happening) (t : Turn) :
    Untouched (run studio w more) (perform studio (run studio w more) (.turn i t)) := by
  have later := h.steps more
  rcases later.untouched_or_putUp (.turn i t) with untouched | ⟨k, _, other, _, eq, hk, latest, -⟩
  · exact untouched
  · cases eq
    have := h.token i job hi
    have := later.token i other hk
    have := issued_le_run h more
    omega

/-- The job has answered that its final picture was put up. -/
def Confirmed (w : Workshop) (i : Nat) : Prop :=
  ∃ job, w.jobs[i]? = some job ∧ job.answer = some true

/-- At this turn the job puts its final picture on display. -/
def Delivers (studio : Studio) (w : Workshop) (i : Nat) (t : Turn) : Prop :=
  ∃ job picture, w.jobs[i]? = some job ∧
    (Plan.ofSession studio job.session).outcome = some picture ∧
    job.todo = [.present job.token picture] ∧
    PutUp w (perform studio w (.turn i t)) ⟨job.token, picture⟩

theorem Sound.confirmed_turn (h : Sound studio w) (t : Turn) :
    Confirmed (perform studio w (.turn i t)) i ↔ Confirmed w i ∨ Delivers studio w i t := by
  cases hi : w.jobs[i]? with
  | none => simp [Confirmed, Delivers, perform_turn_of_none hi, hi]
  | some job =>
    obtain ⟨b', j', eq, step, display⟩ := h.taken hi t
    have inside := (List.getElem?_eq_some_iff.1 hi).1
    have after : Confirmed (perform studio w (.turn i t)) i ↔ j'.answer = some true := by
      simp [Confirmed, eq, List.getElem?_set_self inside]
    have before : Confirmed w i ↔ job.answer = some true := by simp [Confirmed, hi]
    have delivers : Delivers studio w i t ↔
        ∃ picture, (Plan.ofSession studio job.session).outcome = some picture ∧
          job.todo = [.present job.token picture] ∧ b'.shown = ⟨job.token, picture⟩ ∧
            b'.history = w.board.history ++ [⟨job.token, picture⟩] := by
      simp [Delivers, PutUp, eq, hi]
    rw [after, before, delivers]
    cases display with
    | quiet _ history answer => simp [answer, history]
    | placeholder _ _ _ todo _ _ _ before answer => simp [answer, before, todo]
    | dropped _ last _ _ history answer =>
      obtain ⟨-, before, -⟩ := (h.onPlan job (List.mem_of_getElem? hi)).of_todo_cons last
      simp [answer, history, before]
    | delivered picture last made _ shown history _ answer =>
      simp [answer, last, made, shown, history]

theorem Sound.confirmed_perform (h : Sound studio w) (event : Happening) :
    Confirmed (perform studio w event) i ↔
      Confirmed w i ∨ ∃ t, event = .turn i t ∧ Delivers studio w i t := by
  cases event with
  | request s =>
    have fresh : (newJob studio (w.board.act .issue) s).answer ≠ some true := by simp [newJob]
    simp only [Confirmed, perform, reduceCtorEq, false_and, exists_false, or_false]
    constructor
    · rintro ⟨job, hi, answer⟩
      rw [List.getElem?_append] at hi
      split at hi
      · exact ⟨job, hi, answer⟩
      · rw [List.mem_singleton.1 (List.mem_of_getElem? hi)] at answer
        exact absurd answer fresh
    · rintro ⟨job, hi, answer⟩
      exact ⟨job, by rw [List.getElem?_append_left (List.getElem?_eq_some_iff.1 hi).1, hi], answer⟩
  | turn k t =>
    by_cases same : k = i
    · subst same
      simpa using h.confirmed_turn t
    · have kept : (perform studio w (.turn k t)).jobs[i]? = w.jobs[i]? := by
        cases hk : w.jobs[k]? with
        | none => rw [perform_turn_of_none hk]
        | some job => rw [perform_turn hk, List.getElem?_set_ne same]
      simp [Confirmed, kept, same]

/-- A job has answered yes exactly if it had before, or one of its turns delivered. -/
theorem Sound.confirmed_run (h : Sound studio w) (events : List Happening) :
    Confirmed (run studio w events) i ↔
      Confirmed w i ∨ ∃ before t after, events = before ++ .turn i t :: after ∧
        Delivers studio (run studio w before) i t := by
  induction events generalizing w with
  | nil => simp
  | cons event events ih =>
    rw [run_cons, ih (h.step event), h.confirmed_perform event, or_assoc]
    refine or_congr_right ?_
    constructor
    · rintro (⟨t, rfl, delivers⟩ | ⟨before, t, after, rfl, delivers⟩)
      · exact ⟨[], t, events, rfl, delivers⟩
      · exact ⟨event :: before, t, after, rfl, delivers⟩
    · rintro ⟨before, t, after, eq, delivers⟩
      cases before with
      | nil =>
        obtain ⟨rfl, -⟩ := List.cons.inj eq
        exact .inl ⟨t, rfl, delivers⟩
      | cons first before =>
        obtain ⟨rfl, rfl⟩ := List.cons.inj eq
        exact .inr ⟨before, t, after, rfl, delivers⟩

/-! ### A request carried out without interruption -/

/-- Making a request and carrying it out is a run in which no other job gets a turn. -/
theorem Sound.run_recompute (h : Sound studio w) (s : Session) :
    ∃ n job, run studio w (.request s :: .replicate n (.turn w.jobs.length .act)) =
        ⟨(w.board.recompute studio s).1, w.jobs ++ [job]⟩ ∧
      ((w.board.recompute studio s).2 = true ↔ job.answer = some true) := by
  let fresh := newJob studio (w.board.act .issue) s
  have here : (w.jobs ++ [fresh])[w.jobs.length]? = some fresh := by simp
  obtain ⟨answer, eq⟩ := run_turns studio (w.board.act .issue) here
  rw [List.set_append_right _ _ (Nat.le_refl _), Nat.sub_self, List.set_cons_zero] at eq
  refine ⟨fresh.todo.length, { fresh with todo := [], answer }, eq, ?_⟩
  have later := h.steps (.request s :: .replicate fresh.todo.length (.turn w.jobs.length .act))
  rw [run_cons, perform, eq] at later
  have last : (w.jobs ++ [({ fresh with todo := [], answer } : Job)])[w.jobs.length]? =
      some { fresh with todo := [], answer } := by simp
  have latest := (later.token _ _ last).trans (later.issued.trans List.length_append).symm
  have made : (w.board.recompute studio s).2 = (Plan.ofSession studio s).outcome.isSome := by
    simp [Board.recompute, Board.fire, Tokens.isCurrent]
  rw [made]
  cases later.onPlan _ (List.mem_of_getElem? last) with
  | working rest unanswered =>
    have nothing : (Plan.ofSession studio s).outcome = none := rest
    have silent : answer = none := unanswered
    simp [nothing, silent]
  | answered picture made _ answered =>
    have something : (Plan.ofSession studio s).outcome = some picture := made
    have yes : answer = some true :=
      (later.final _ (List.mem_of_getElem? last) latest answered).1
    simp [something, yes]
  | broken _ _ crashed => cases crashed

/-- Whatever the order of requests and turns. What is shown belongs to no later request than the
latest one; every change of the display is a turn of the job with the latest token, so the tokens of
what has been shown never decrease; a job whose token has been superseded leaves the display alone
from then on; and a job answers yes exactly if one of its turns put up its final picture. Carrying a
request out at once is one such order, with the same answer. -/
theorem shows_only_latest_request (studio : Studio) (events : List Happening) :
    let w := run studio {} events
    w.board.shown.sequence ≤ w.board.tokens.issued ∧
    (∀ event, Untouched w (perform studio w event) ∨
      ∃ i t job picture, event = .turn i t ∧ w.jobs[i]? = some job ∧
        job.token = w.board.tokens.issued ∧ PutUp w (perform studio w event) ⟨job.token, picture⟩) ∧
    w.board.shown = w.board.history.getLast?.getD {} ∧
    w.board.history.Pairwise (fun earlier later => earlier.sequence ≤ later.sequence) ∧
    (∀ i job, w.jobs[i]? = some job → job.token < w.board.tokens.issued → ∀ more t,
      Untouched (run studio w more) (perform studio (run studio w more) (.turn i t))) ∧
    (∀ i, Confirmed w i ↔ ∃ before t after, events = before ++ .turn i t :: after ∧
      Delivers studio (run studio {} before) i t) ∧
    (∀ s, ∃ n job, run studio w (.request s :: .replicate n (.turn w.jobs.length .act)) =
        ⟨(w.board.recompute studio s).1, w.jobs ++ [job]⟩ ∧
      ((w.board.recompute studio s).2 = true ↔ job.answer = some true)) := by
  intro w
  have h : Sound studio w := sound_run studio events
  refine ⟨h.shown_le, h.untouched_or_putUp, h.last, h.sorted, ?_, ?_, h.run_recompute⟩
  · intro i job hi superseded more t
    exact h.untouched_of_superseded hi superseded more t
  · intro i
    rw [sound_empty.confirmed_run events]
    simp [Confirmed]

end CodeAtlas.Workshop
