import CodeAtlas.Proofs.Live.Workshop

/-!
# Following a stream of edits

A desk has a session, the batches of edits that are still to come, and a workshop for its requests.
When a batch settles, its edits are applied to the session and a picture of the session is asked
for. Batches settle in order; between them and after them the jobs get turns in any order.

A desk that is idle has seen all its edits and has no work left. How the edits were cut into
batches, and what became of the jobs, does not matter for the session it ends with.
-/

namespace CodeAtlas

structure Desk where
  workshop : Workshop := {}
  session : Session
  /-- The batches that have not settled yet. -/
  pending : List (List Edit)

namespace Desk

/-- What happens at a desk. -/
inductive Move where
  /-- The next batch of edits settles. -/
  | settle
  /-- A job gets a turn. -/
  | turn (job : Nat) (turn : Turn)

/-- A desk with a fresh workshop. -/
def start (s : Session) (batches : List (List Edit)) : Desk := { session := s, pending := batches }

def perform (studio : Studio) (d : Desk) : Move → Desk
  | .settle =>
    match d.pending with
    | batch :: rest =>
      let s := batch.foldl Session.apply d.session
      ⟨d.workshop.perform studio (.request s), s, rest⟩
    | [] => d
  | .turn i t => { d with workshop := d.workshop.perform studio (.turn i t) }

def run (studio : Studio) (d : Desk) (moves : List Move) : Desk := moves.foldl (perform studio) d

/-- All edits have been seen and all work is over. -/
def Idle (d : Desk) : Prop := d.pending = [] ∧ ∀ job ∈ d.workshop.jobs, job.todo = []

/-- The session after each batch. -/
def sessions (s : Session) : List (List Edit) → List Session
  | [] => []
  | batch :: rest => batch.foldl Session.apply s :: sessions (batch.foldl Session.apply s) rest

@[simp] theorem length_sessions (s : Session) (batches : List (List Edit)) :
    (sessions s batches).length = batches.length := by
  induction batches generalizing s with
  | nil => rfl
  | cons batch rest ih => simp [sessions, ih]

/-- The last session has seen all edits. -/
theorem getLast?_sessions (s : Session) (batches : List (List Edit)) :
    (sessions s batches).getLast?.getD s = batches.flatten.foldl Session.apply s := by
  induction batches generalizing s with
  | nil => rfl
  | cons batch rest ih =>
    rw [List.flatten_cons, List.foldl_append, ← ih, sessions, List.getLast?_cons]
    rfl

variable {studio : Studio} {d : Desk}

@[simp] theorem run_nil : run studio d [] = d := rfl

@[simp] theorem run_cons (m : Move) (ms : List Move) :
    run studio d (m :: ms) = run studio (perform studio d m) ms := rfl

theorem run_append (first rest : List Move) :
    run studio d (first ++ rest) = run studio (run studio d first) rest :=
  List.foldl_append

/-! ### What holds at every moment -/

/-- What holds at a desk that started with the session `s` and the batches `batches`. -/
structure Follows (studio : Studio) (s : Session) (batches : List (List Edit))
    (d : Desk) : Prop where
  sound : d.workshop.Sound studio
  /-- The jobs, done or not, are for the sessions after each batch. -/
  jobs : d.workshop.jobs.map (·.session) ++ sessions d.session d.pending = sessions s batches
  /-- The edits that are still to come lead to the same session. -/
  session : d.pending.flatten.foldl Session.apply d.session = batches.flatten.foldl Session.apply s

theorem follows_start (studio : Studio) (s : Session) (batches : List (List Edit)) :
    Follows studio s batches (start s batches) :=
  ⟨Workshop.sound_empty, rfl, rfl⟩

/-- A turn leaves every job with its session. -/
theorem sessions_turn {w : Workshop} (h : w.Sound studio) (i : Nat) (t : Turn) :
    (w.perform studio (.turn i t)).jobs.map (·.session) = w.jobs.map (·.session) := by
  cases hi : w.jobs[i]? with
  | none => rw [Workshop.perform_turn_of_none hi]
  | some job =>
    obtain ⟨b', j', eq, step, -⟩ := h.taken hi t
    have here : (w.jobs.map (·.session))[i]? = some job.session := by simp [hi]
    obtain ⟨inside, get⟩ := List.getElem?_eq_some_iff.1 here
    rw [eq, List.map_set, step.session_eq, ← get]
    exact List.set_getElem_self inside

namespace Follows

variable {s : Session} {batches : List (List Edit)}

theorem step (h : Follows studio s batches d) (m : Move) :
    Follows studio s batches (perform studio d m) := by
  cases m with
  | turn i t => exact ⟨h.sound.turn i t, (sessions_turn h.sound i t).symm ▸ h.jobs, h.session⟩
  | settle =>
    cases pending : d.pending with
    | nil => simpa only [perform, pending] using h
    | cons batch rest =>
      have jobs := h.jobs
      have session := h.session
      rw [pending] at jobs session
      simp only [perform, pending]
      refine ⟨h.sound.request _, ?_, ?_⟩
      · rw [← jobs]
        simp [Workshop.perform, Workshop.newJob, sessions]
      · rw [← session, List.flatten_cons, List.foldl_append]

theorem steps (h : Follows studio s batches d) (ms : List Move) :
    Follows studio s batches (run studio d ms) := by
  induction ms generalizing d with
  | nil => exact h
  | cons m ms ih => exact ih (h.step m)

/-- The last job of an idle desk is for the final session, under the latest token. -/
theorem last_job (h : Follows studio s batches d) (idle : d.Idle) (some_batch : batches ≠ []) :
    ∃ job, d.workshop.jobs[batches.length - 1]? = some job ∧ job.token = batches.length ∧
      d.workshop.board.tokens.issued = batches.length ∧ job.session = d.session := by
  have jobs := h.jobs
  have session := h.session
  rw [idle.1] at jobs session
  simp only [sessions, List.append_nil] at jobs
  have length : d.workshop.jobs.length = batches.length := by
    simpa using congrArg List.length jobs
  have positive := List.length_pos_iff.2 some_batch
  have inside : batches.length - 1 < d.workshop.jobs.length := by omega
  refine ⟨_, List.getElem?_eq_getElem inside, ?_, h.sound.issued.trans length, ?_⟩
  · rw [h.sound.token _ _ (List.getElem?_eq_getElem inside)]
    omega
  · have last := getLast?_sessions s batches
    rw [← session, ← jobs, List.getLast?_map, List.getLast?_eq_getElem?, length,
      List.getElem?_eq_getElem inside] at last
    exact last

end Follows

/-! ### Work comes to an end -/

/-- The moves that every job makes by itself: no job breaks off. -/
def Move.IsRegular : Move → Prop
  | .settle => True
  | .turn _ t => t = .act

/-- The turns of one job, up to its end. -/
theorem run_turns (studio : Studio) (d : Desk) {i : Nat} {job : Job}
    (hi : d.workshop.jobs[i]? = some job) :
    ∃ board answer, run studio d (.replicate job.todo.length (.turn i .act)) =
      { d with workshop := ⟨board, d.workshop.jobs.set i { job with todo := [], answer }⟩ } := by
  have lift (n : Nat) (d : Desk) : run studio d (.replicate n (.turn i .act)) =
      { d with workshop := d.workshop.run studio (.replicate n (.turn i .act)) } := by
    induction n generalizing d with
    | zero => rfl
    | succ n ih => exact ih _
  obtain ⟨answer, eq⟩ := Workshop.run_turns studio d.workshop.board hi
  exact ⟨_, answer, (lift _ d).trans (congrArg (fun w => { d with workshop := w }) eq)⟩

/-- Any number of jobs can be brought to their end one after the other. -/
theorem exists_jobs_done (studio : Studio) (d : Desk) (n : Nat) :
    ∃ moves, (∀ m ∈ moves, m.IsRegular) ∧ (run studio d moves).pending = d.pending ∧
      (run studio d moves).workshop.jobs.length = d.workshop.jobs.length ∧
      ∀ i < n, ∀ job, (run studio d moves).workshop.jobs[i]? = some job → job.todo = [] := by
  induction n with
  | zero => exact ⟨[], by simp, rfl, rfl, by simp⟩
  | succ n ih =>
    obtain ⟨moves, regular, pending, length, done⟩ := ih
    cases hn : (run studio d moves).workshop.jobs[n]? with
    | none =>
      refine ⟨moves, regular, pending, length, ?_⟩
      intro i hi job hj
      rcases Nat.lt_succ_iff_lt_or_eq.1 hi with hi | rfl
      · exact done i hi job hj
      · simp [hn] at hj
    | some last =>
      obtain ⟨board, answer, eq⟩ := run_turns studio (run studio d moves) hn
      refine ⟨moves ++ .replicate last.todo.length (.turn n .act), ?_, ?_, ?_, ?_⟩
      · intro m hm
        rcases List.mem_append.1 hm with hm | hm
        · exact regular m hm
        · rw [List.eq_of_mem_replicate hm]
          rfl
      · rw [run_append, eq, pending]
      · rw [run_append, eq, List.length_set, length]
      · intro i hi job hj
        rw [run_append, eq, List.getElem?_set] at hj
        split at hj
        · split at hj
          · exact (Option.some.inj hj) ▸ rfl
          · cases hj
        · exact done i (by omega) job hj

/-- All batches can settle. -/
theorem run_settles (studio : Studio) (d : Desk) :
    (run studio d (.replicate d.pending.length .settle)).pending = [] := by
  obtain ⟨w, s, pending⟩ := d
  induction pending generalizing w s with
  | nil => rfl
  | cons batch rest ih => exact ih _ _

/-- From every moment on the desk can become idle, without any job breaking off. -/
theorem exists_idle (studio : Studio) (d : Desk) :
    ∃ moves, (∀ m ∈ moves, m.IsRegular) ∧ (run studio d moves).Idle := by
  let settled := run studio d (.replicate d.pending.length .settle)
  obtain ⟨moves, regular, pending, length, done⟩ :=
    exists_jobs_done studio settled settled.workshop.jobs.length
  refine ⟨.replicate d.pending.length .settle ++ moves, ?_, ?_⟩
  · intro m hm
    rcases List.mem_append.1 hm with hm | hm
    · rw [List.eq_of_mem_replicate hm]
      trivial
    · exact regular m hm
  · rw [run_append]
    refine ⟨pending.trans (run_settles studio d), ?_⟩
    intro job hj
    obtain ⟨i, hi⟩ := List.mem_iff_getElem?.1 hj
    have inside := (List.getElem?_eq_some_iff.1 hi).1
    exact done i (length ▸ inside) job hi

end Desk

end CodeAtlas
