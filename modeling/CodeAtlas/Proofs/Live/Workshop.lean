import CodeAtlas.Live.Board

/-!
# Requests worked on side by side

A workshop is a board together with the jobs that want to put pictures on it. A job is the work on
one request: the actions of its plan, taken one by one. Requests and turns of jobs may come in any
order, so a list of events is an interleaving, and every list of events is one.

The order in which a job asks whether a parser is ready and puts up a placeholder is not taken to be
atomic: besides consulting the board at once, a job may act on what it saw at any other moment. A
job may also break off at any of its turns.

`Job.turn_effect` says once what a turn can do. What holds of a whole run is derived from it.
-/

namespace CodeAtlas

/-- The work on a request. -/
structure Job where
  token : Nat
  /-- The session that the picture is made of. -/
  session : Session
  /-- The actions that have still to be taken. -/
  todo : List Action
  /-- Whether the final picture was put up, once that is known. -/
  answer : Option Bool := none
  /-- The work broke off. -/
  crashed : Bool := false

/-- What a job does when it gets a turn. -/
inductive Turn where
  /-- It takes its next action. -/
  | act
  /-- It starts to wait for a parser that it has seen to be ready, or not to be. -/
  | waitHavingSeen (ready : Bool)
  | crash
deriving DecidableEq, Repr

namespace Board

/-- Starts to wait for a parser, as one that has seen whether it is ready. -/
def waitHavingSeen (b : Board) (ready : Bool) (token : Nat) (wait : Wait) : Board :=
  match wait.placeholder with
  | some picture => if ready then b else b.put token picture
  | none => b

@[simp] theorem put_tokens (b : Board) (token : Nat) (picture : Picture) :
    (b.put token picture).tokens = b.tokens := by
  unfold put
  split <;> rfl

theorem put_of_isCurrent {b : Board} {token : Nat} (h : b.tokens.issued = token)
    (picture : Picture) :
    b.put token picture =
      { b with shown := ⟨token, picture⟩, history := b.history ++ [⟨token, picture⟩] } := by
  simp [put, Tokens.isCurrent, h]

theorem put_of_not_isCurrent {b : Board} {token : Nat} (h : b.tokens.issued ≠ token)
    (picture : Picture) : b.put token picture = b := by
  simp [put, Tokens.isCurrent, h]

end Board

namespace Job

/-- What a job answers when it takes an action: only the final picture settles it. -/
def answerTo (b : Board) (j : Job) : Action → Option Bool
  | .present token _ => some (b.tokens.isCurrent token)
  | _ => j.answer

/-- A turn of a job, on the board and on the job. -/
def turn (b : Board) (j : Job) : Turn → Board × Job
  | .act =>
    match j.todo with
    | action :: rest => (b.act action, { j with todo := rest, answer := j.answerTo b action })
    | [] => (b, j)
  | .waitHavingSeen ready =>
    match j.todo with
    | .await token wait :: rest => (b.waitHavingSeen ready token wait, { j with todo := rest })
    | _ => (b, j)
  | .crash => if j.todo.isEmpty then (b, j) else (b, { j with todo := [], crashed := true })

end Job

structure Workshop where
  board : Board := {}
  jobs : List Job := []

/-- What happens in a workshop. -/
inductive Happening where
  /-- A picture of a session is asked for. -/
  | request (session : Session)
  /-- A job gets a turn. -/
  | turn (job : Nat) (turn : Turn)

namespace Workshop

/-- A job for a session under the token that was issued last. -/
def newJob (studio : Studio) (b : Board) (s : Session) : Job :=
  { token := b.tokens.issued, session := s
    todo := (Plan.ofSession studio s).actions b.tokens.issued }

def perform (studio : Studio) (w : Workshop) : Happening → Workshop
  | .request s =>
    let board := w.board.act .issue
    ⟨board, w.jobs ++ [newJob studio board s]⟩
  | .turn i turn =>
    match w.jobs[i]? with
    | some job =>
      let (board, job) := job.turn w.board turn
      ⟨board, w.jobs.set i job⟩
    | none => w

def run (studio : Studio) (w : Workshop) (happenings : List Happening) : Workshop :=
  happenings.foldl (perform studio) w

variable {studio : Studio} {w : Workshop}

@[simp] theorem run_nil : run studio w [] = w := rfl

@[simp] theorem run_cons (h : Happening) (hs : List Happening) :
    run studio w (h :: hs) = run studio (perform studio w h) hs := rfl

end Workshop

/-! ### What a turn can do -/

/-- A list of actions is the rest of the work on a request with that outcome. -/
def Plan.IsRest (token : Nat) (outcome : Option Picture) : List Action → Prop
  | [] => outcome = none
  | .issue :: _ => False
  | .await t _ :: rest => t = token ∧ IsRest token outcome rest
  | .answered _ :: rest => IsRest token outcome rest
  | .present t picture :: rest => t = token ∧ outcome = some picture ∧ rest = []

theorem Plan.isRest_actions (token : Nat) (p : Plan) :
    IsRest token p.outcome (p.actions token) := by
  unfold actions
  induction p.waits with
  | nil => cases h : p.outcome <;> simp [IsRest]
  | cons wait waits ih => exact ⟨rfl, ih⟩

namespace Job

/-- The state of a job on its way to an outcome. -/
inductive OnPlan (outcome : Option Picture) (j : Job) : Prop where
  | working (rest : Plan.IsRest j.token outcome j.todo) (unanswered : j.answer = none)
      (whole : j.crashed = false)
  | answered (picture : Picture) (made : outcome = some picture) (done : j.todo = [])
      (answer : j.answer ≠ none) (whole : j.crashed = false)
  | broken (done : j.todo = []) (unanswered : j.answer = none) (crashed : j.crashed = true)

/-- The result of a turn, case by case. -/
inductive Taken (b : Board) (j : Job) : Board → Job → Prop where
  | idle : Taken b j b j
  | waits (ready : Bool) (wait : Wait) (rest : List Action)
      (todo : j.todo = .await j.token wait :: rest) :
      Taken b j (b.waitHavingSeen ready j.token wait) { j with todo := rest }
  | hears (wait : Wait) (rest : List Action) (todo : j.todo = .answered wait :: rest) :
      Taken b j (b.act (.answered wait)) { j with todo := rest }
  | presents (picture : Picture) (todo : j.todo = [.present j.token picture]) :
      Taken b j (b.put j.token picture)
        { j with todo := [], answer := some (b.tokens.isCurrent j.token) }
  | breaks (busy : j.todo ≠ []) : Taken b j b { j with todo := [], crashed := true }

variable {outcome : Option Picture} {b : Board} {j : Job}

theorem turn_of_todo_nil (done : j.todo = []) (b : Board) (t : Turn) : j.turn b t = (b, j) := by
  cases t <;> simp [turn, done]

/-- A job that has something left to do is neither answered nor broken. -/
theorem OnPlan.of_todo_ne_nil (h : j.OnPlan outcome) (busy : j.todo ≠ []) :
    Plan.IsRest j.token outcome j.todo ∧ j.answer = none ∧ j.crashed = false := by
  cases h with
  | working rest unanswered whole => exact ⟨rest, unanswered, whole⟩
  | answered _ _ done => exact absurd done busy
  | broken done => exact absurd done busy

theorem OnPlan.of_todo_cons {action : Action} {rest : List Action} (h : j.OnPlan outcome)
    (todo : j.todo = action :: rest) :
    Plan.IsRest j.token outcome (action :: rest) ∧ j.answer = none ∧ j.crashed = false := by
  rw [← todo]
  exact h.of_todo_ne_nil (by simp [todo])

theorem OnPlan.taken (h : j.OnPlan outcome) (b : Board) (t : Turn) :
    Taken b j (j.turn b t).1 (j.turn b t).2 := by
  cases todo : j.todo with
  | nil =>
    rw [turn_of_todo_nil todo]
    exact .idle
  | cons action more =>
    have rest := (h.of_todo_cons todo).1
    cases t with
    | crash =>
      simp only [turn, todo]
      exact .breaks (by simp [todo])
    | waitHavingSeen ready =>
      simp only [turn, todo]
      cases action with
      | issue => exact rest.elim
      | await token wait =>
        obtain ⟨rfl, -⟩ := rest
        exact .waits ready wait more todo
      | answered wait => exact .idle
      | present token picture => exact .idle
    | act =>
      simp only [turn, todo]
      cases action with
      | issue => exact rest.elim
      | await token wait =>
        obtain ⟨rfl, -⟩ := rest
        exact .waits _ wait more todo
      | answered wait => exact .hears wait more todo
      | present token picture =>
        obtain ⟨rfl, -, rfl⟩ := rest
        exact .presents picture todo

/-- What a turn means for the display: the board `b` and the job `j` before it, `b'` and `j'`
after. -/
inductive Display (outcome : Option Picture) (b : Board) (j : Job) (b' : Board)
    (j' : Job) : Prop where
  /-- Nothing was to be put up, or a placeholder came too late. -/
  | quiet (shown : b'.shown = b.shown) (history : b'.history = b.history)
      (answer : j'.answer = j.answer)
  | placeholder (picture : Picture) (wait : Wait) (rest : List Action)
      (todo : j.todo = .await j.token wait :: rest) (latest : b.tokens.issued = j.token)
      (shown : b'.shown = ⟨j.token, picture⟩)
      (history : b'.history = b.history ++ [⟨j.token, picture⟩]) (before : j.answer = none)
      (answer : j'.answer = none)
  /-- The final picture came too late. -/
  | dropped (picture : Picture) (last : j.todo = [.present j.token picture])
      (stale : b.tokens.issued ≠ j.token) (shown : b'.shown = b.shown)
      (history : b'.history = b.history) (answer : j'.answer = some false)
  | delivered (picture : Picture) (last : j.todo = [.present j.token picture])
      (made : outcome = some picture) (latest : b.tokens.issued = j.token)
      (shown : b'.shown = ⟨j.token, picture⟩)
      (history : b'.history = b.history ++ [⟨j.token, picture⟩]) (before : j.answer = none)
      (answer : j'.answer = some true)

/-- The display changes under the latest token only, and by a job that has not answered yet. -/
theorem Display.unchanged_or_put {b' : Board} {j' : Job} (h : Display outcome b j b' j') :
    (b'.shown = b.shown ∧ b'.history = b.history) ∨
      (b.tokens.issued = j.token ∧ j.answer = none ∧ ∃ picture, b'.shown = ⟨j.token, picture⟩ ∧
        b'.history = b.history ++ [⟨j.token, picture⟩]) := by
  cases h with
  | quiet shown history => exact .inl ⟨shown, history⟩
  | dropped _ _ _ shown history => exact .inl ⟨shown, history⟩
  | placeholder picture _ _ _ latest shown history before =>
    exact .inr ⟨latest, before, picture, shown, history⟩
  | delivered picture _ _ latest shown history before =>
    exact .inr ⟨latest, before, picture, shown, history⟩

namespace Taken

variable {b' : Board} {j' : Job}

theorem token_eq (h : Taken b j b' j') : j'.token = j.token := by
  cases h <;> rfl

theorem session_eq (h : Taken b j b' j') : j'.session = j.session := by
  cases h <;> rfl

/-- A turn issues no token. -/
theorem tokens_eq (h : Taken b j b' j') : b'.tokens = b.tokens := by
  cases h with
  | idle => rfl
  | waits ready wait =>
    unfold Board.waitHavingSeen
    cases wait.placeholder <;> cases ready <;> simp
  | hears wait =>
    simp only [Board.act]
    split <;> rfl
  | presents => exact Board.put_tokens ..
  | breaks => rfl

/-- A turn keeps a job on its plan. -/
theorem onPlan (h : Taken b j b' j') (plan : j.OnPlan outcome) : j'.OnPlan outcome := by
  cases h with
  | idle => exact plan
  | breaks busy =>
    obtain ⟨-, unanswered, -⟩ := plan.of_todo_ne_nil busy
    exact .broken rfl unanswered rfl
  | waits ready wait rest todo =>
    obtain ⟨⟨-, isRest⟩, unanswered, whole⟩ := plan.of_todo_cons todo
    exact .working isRest unanswered whole
  | hears wait rest todo =>
    obtain ⟨isRest, unanswered, whole⟩ := plan.of_todo_cons todo
    exact .working isRest unanswered whole
  | presents picture todo =>
    obtain ⟨⟨-, made, -⟩, -, whole⟩ := plan.of_todo_cons todo
    exact .answered picture made rfl (Option.some_ne_none _) whole

/-- Only the holder of the latest token changes the display. -/
theorem display (h : Taken b j b' j') (plan : j.OnPlan outcome) : Display outcome b j b' j' := by
  cases h with
  | idle => exact .quiet rfl rfl rfl
  | breaks => exact .quiet rfl rfl rfl
  | hears wait =>
    simp only [Board.act]
    split <;> exact .quiet rfl rfl rfl
  | waits ready wait rest todo =>
    obtain ⟨-, unanswered, -⟩ := plan.of_todo_cons todo
    unfold Board.waitHavingSeen
    cases wait.placeholder with
    | none => exact .quiet rfl rfl rfl
    | some picture =>
      cases ready with
      | true => exact .quiet rfl rfl rfl
      | false =>
        by_cases latest : b.tokens.issued = j.token
        · simp only [Bool.false_eq_true, if_false, Board.put_of_isCurrent latest]
          exact .placeholder picture wait rest todo latest rfl rfl unanswered unanswered
        · simp only [Bool.false_eq_true, if_false, Board.put_of_not_isCurrent latest]
          exact .quiet rfl rfl rfl
  | presents picture todo =>
    obtain ⟨⟨-, made, -⟩, unanswered, -⟩ := plan.of_todo_cons todo
    by_cases latest : b.tokens.issued = j.token
    · simp only [Board.put_of_isCurrent latest]
      exact .delivered picture todo made latest rfl rfl unanswered
        (by simp [Tokens.isCurrent, latest])
    · simp only [Board.put_of_not_isCurrent latest]
      exact .dropped picture todo latest rfl rfl (by simp [Tokens.isCurrent, latest])

end Taken

end Job

namespace Workshop

/-! ### What holds in every run -/

/-- What every run of a workshop keeps to. -/
structure Sound (studio : Studio) (w : Workshop) : Prop where
  /-- Jobs are numbered by their tokens. -/
  token : ∀ i job, w.jobs[i]? = some job → job.token = i + 1
  issued : w.board.tokens.issued = w.jobs.length
  onPlan : ∀ job ∈ w.jobs, job.OnPlan (Plan.ofSession studio job.session).outcome
  /-- What is shown was put up last. -/
  last : w.board.shown = w.board.history.getLast?.getD {}
  bounded : ∀ update ∈ w.board.history, update.sequence ≤ w.board.tokens.issued
  sorted : w.board.history.Pairwise fun earlier later => earlier.sequence ≤ later.sequence
  /-- Nothing comes after the picture of the latest request. -/
  final : ∀ job ∈ w.jobs, job.token = w.board.tokens.issued → job.answer ≠ none →
    job.answer = some true ∧ ∃ picture, (Plan.ofSession studio job.session).outcome = some picture ∧
      w.board.shown = ⟨job.token, picture⟩

variable {studio : Studio} {w : Workshop} {i : Nat} {job : Job}

theorem sound_empty : Sound studio {} where
  token := by simp
  issued := rfl
  onPlan := by simp
  last := rfl
  bounded := by simp
  sorted := .nil
  final := by simp

namespace Sound

theorem token_le (h : Sound studio w) (hj : job ∈ w.jobs) : job.token ≤ w.board.tokens.issued := by
  obtain ⟨k, hk⟩ := List.mem_iff_getElem?.1 hj
  have := (List.getElem?_eq_some_iff.1 hk).1
  rw [h.token k job hk, h.issued]
  omega

/-- A token belongs to one job. -/
theorem eq_of_token_eq (h : Sound studio w) (hi : w.jobs[i]? = some job) {other : Job}
    (ho : other ∈ w.jobs) (same : other.token = job.token) : other = job := by
  obtain ⟨k, hk⟩ := List.mem_iff_getElem?.1 ho
  have hki : k = i := by
    have := h.token k other hk
    have := h.token i job hi
    omega
  rw [hki, hi] at hk
  exact (Option.some.inj hk).symm

theorem shown_le (h : Sound studio w) : w.board.shown.sequence ≤ w.board.tokens.issued := by
  rw [h.last]
  cases hl : w.board.history.getLast? with
  | none => exact Nat.zero_le _
  | some update => exact h.bounded update (List.mem_of_getLast? hl)

/-- A new request: its token supersedes all others, and it has not answered yet. -/
theorem request (h : Sound studio w) (s : Session) :
    Sound studio (perform studio w (.request s)) where
  token := by
    intro k other hk
    simp only [perform, List.getElem?_append] at hk
    split at hk
    · exact h.token k other hk
    · obtain ⟨hlt, rfl⟩ := List.getElem?_eq_some_iff.1 hk
      simp only [List.length_singleton] at hlt
      simp only [newJob, Board.act, Tokens.issue, h.issued, List.getElem_singleton]
      omega
  issued := by simp [perform, Board.act, Tokens.issue, h.issued]
  onPlan := by
    intro other ho
    rcases List.mem_append.1 ho with ho | ho
    · exact h.onPlan other ho
    · rw [List.mem_singleton.1 ho]
      exact .working (Plan.isRest_actions ..) rfl rfl
  last := h.last
  bounded := fun update hu => Nat.le_succ_of_le (h.bounded update hu)
  sorted := h.sorted
  final := by
    intro other ho latest answered
    rcases List.mem_append.1 ho with ho | ho
    · have older := h.token_le ho
      simp only [perform, Board.act, Tokens.issue] at latest
      omega
    · rw [List.mem_singleton.1 ho] at answered
      exact absurd rfl answered

end Sound

theorem perform_turn (hi : w.jobs[i]? = some job) (t : Turn) :
    perform studio w (.turn i t) =
      ⟨(job.turn w.board t).1, w.jobs.set i (job.turn w.board t).2⟩ := by
  simp only [perform, hi]

theorem perform_turn_of_none (hi : w.jobs[i]? = none) (t : Turn) :
    perform studio w (.turn i t) = w := by
  simp only [perform, hi]

/-- A job that gets all its turns in a row takes all its actions. -/
theorem run_turns (studio : Studio) (b : Board) {jobs : List Job} (hi : jobs[i]? = some job) :
    ∃ answer, run studio ⟨b, jobs⟩ (.replicate job.todo.length (.turn i .act)) =
      ⟨job.todo.foldl Board.act b, jobs.set i { job with todo := [], answer }⟩ := by
  obtain ⟨token, session, todo, answer, crashed⟩ := job
  induction todo generalizing b jobs answer with
  | nil =>
    obtain ⟨inside, eq⟩ := List.getElem?_eq_some_iff.1 hi
    exact ⟨answer, by simp [← eq]⟩
  | cons action rest ih =>
    have inside := (List.getElem?_eq_some_iff.1 hi).1
    obtain ⟨last, eq⟩ := ih (b.act action) _ (List.getElem?_set_self inside)
    refine ⟨last, ?_⟩
    rw [List.set_set] at eq
    rw [List.length_cons, List.replicate_succ, run_cons, perform_turn hi]
    exact eq

namespace Sound

/-- A turn of a job, seen from the workshop. -/
theorem taken (h : Sound studio w) (hi : w.jobs[i]? = some job) (t : Turn) :
    ∃ b' j', perform studio w (.turn i t) = ⟨b', w.jobs.set i j'⟩ ∧ Job.Taken w.board job b' j' ∧
      Job.Display (Plan.ofSession studio job.session).outcome w.board job b' j' := by
  have plan := h.onPlan job (List.mem_of_getElem? hi)
  have step := plan.taken w.board t
  exact ⟨_, _, perform_turn hi t, step, step.display plan⟩

/-- The history stays sorted when the latest request puts something up. -/
theorem sorted_concat (h : Sound studio w) (picture : Picture) :
    (w.board.history ++ [(⟨w.board.tokens.issued, picture⟩ : Update)]).Pairwise
      fun earlier later => earlier.sequence ≤ later.sequence := by
  refine List.pairwise_append.2 ⟨h.sorted, List.pairwise_singleton .., ?_⟩
  intro earlier he later hl
  rw [List.mem_singleton.1 hl]
  exact h.bounded earlier he

theorem turn (h : Sound studio w) (i : Nat) (t : Turn) :
    Sound studio (perform studio w (.turn i t)) := by
  cases hi : w.jobs[i]? with
  | none =>
    rw [perform_turn_of_none hi]
    exact h
  | some job =>
    obtain ⟨b', j', eq, step, display⟩ := h.taken hi t
    have member := List.mem_of_getElem? hi
    rw [eq]
    refine
      { token := ?token, issued := ?issued, onPlan := ?onPlan, last := ?last, bounded := ?bounded
        sorted := ?sorted, final := ?final }
    case token =>
      intro k other hk
      rw [List.getElem?_set] at hk
      split at hk
      · rename_i hik
        subst hik
        split at hk
        · rw [← Option.some.inj hk, step.token_eq]
          exact h.token _ job hi
        · cases hk
      · exact h.token k other hk
    case issued => rw [List.length_set, step.tokens_eq, h.issued]
    case onPlan =>
      intro other ho
      rcases List.mem_or_eq_of_mem_set ho with ho | rfl
      · exact h.onPlan other ho
      · rw [step.session_eq]
        exact step.onPlan (h.onPlan job member)
    case last =>
      rcases display.unchanged_or_put with ⟨shown, history⟩ | ⟨-, -, picture, shown, history⟩
      · rw [shown, history, h.last]
      · simp [shown, history]
    case bounded =>
      intro update hu
      rw [step.tokens_eq]
      rcases display.unchanged_or_put with ⟨-, history⟩ | ⟨latest, -, picture, -, history⟩
      · exact h.bounded update (history ▸ hu)
      · rw [history] at hu
        rcases List.mem_append.1 hu with hu | hu
        · exact h.bounded update hu
        · rw [List.mem_singleton.1 hu]
          exact Nat.le_of_eq latest.symm
    case sorted =>
      rcases display.unchanged_or_put with ⟨-, history⟩ | ⟨latest, -, picture, -, history⟩
      · exact history ▸ h.sorted
      · rw [history, ← latest]
        exact h.sorted_concat picture
    case final =>
      intro other ho latest answered
      rw [step.tokens_eq] at latest
      rcases List.mem_or_eq_of_mem_set ho with ho | rfl
      · rcases display.unchanged_or_put with ⟨shown, -⟩ | ⟨mine, before, -⟩
        · rw [shown]
          exact h.final other ho latest answered
        · -- The job on turn holds the latest token, so it is the other one, and that has answered.
          rw [h.eq_of_token_eq hi ho (latest.trans mine)] at answered
          exact absurd before answered
      · rw [step.token_eq] at latest ⊢
        rw [step.session_eq]
        cases display with
        | quiet shown _ answer =>
          rw [answer] at answered ⊢
          rw [shown]
          exact h.final job member latest answered
        | placeholder _ _ _ _ _ _ _ _ answer => exact absurd answer answered
        | dropped _ _ stale => exact absurd latest.symm stale
        | delivered picture _ made _ shown _ _ answer => exact ⟨answer, picture, made, shown⟩

theorem step (h : Sound studio w) (event : Happening) : Sound studio (perform studio w event) := by
  cases event with
  | request s => exact h.request s
  | turn i t => exact h.turn i t

theorem steps (h : Sound studio w) (events : List Happening) :
    Sound studio (run studio w events) := by
  induction events generalizing w with
  | nil => exact h
  | cons event events ih => exact ih (h.step event)

end Sound

/-- Every run of a fresh workshop is sound. -/
theorem sound_run (studio : Studio) (events : List Happening) :
    Sound studio (run studio {} events) :=
  sound_empty.steps events

end Workshop

end CodeAtlas
