import CodeAtlas.Proofs.Live.Bursts
import CodeAtlas.Proofs.Live.Desk

/-!
# The display converges

When all edits have been seen and all work is over, the session has had every edit applied in order,
and the display shows the picture of that session, provided the work on the last request did not
break off. This holds of every order in which batches settle and jobs get turns. The order by time
that a run of the board follows is one of them: `exists_moves_of_run` replays it move by move.
-/

namespace CodeAtlas

open Debounce

namespace Board

/-- Only a new request issues a token. -/
theorem act_tokens (b : Board) {action : Action} (h : action ≠ .issue) :
    (b.act action).tokens = b.tokens := by
  cases action with
  | issue => exact absurd rfl h
  | await token wait =>
    simp only [act]
    split
    · split
      · rfl
      · exact put_tokens ..
    · rfl
  | answered wait =>
    simp only [act]
    split <;> rfl
  | present token picture => exact put_tokens ..

end Board

namespace Desk

/-! ### Replaying actions as moves -/

/-- The actions of the requests for some sessions, the first of which gets the token after `issued`,
each with the request itself in front. -/
def planned (studio : Studio) (issued : Nat) : List Session → List (List Action)
  | [] => []
  | s :: rest =>
    (.issue :: (Plan.ofSession studio s).actions (issued + 1)) :: planned studio (issued + 1) rest

theorem getElem?_planned (studio : Studio) (issued : Nat) (sessions : List Session) (i : Nat) :
    (planned studio issued sessions)[i]? = sessions[i]?.map fun s =>
      .issue :: (Plan.ofSession studio s).actions (issued + i + 1) := by
  induction sessions generalizing issued i with
  | nil => simp [planned]
  | cons s sessions ih =>
    cases i with
    | zero => simp [planned]
    | succ i => simp [planned, ih, Nat.add_assoc, Nat.add_comm 1]

/-- What every job has still to do, also those that have not been asked for yet. -/
def agenda (studio : Studio) (d : Desk) : List (List Action) :=
  d.workshop.jobs.map (·.todo) ++
    planned studio d.workshop.jobs.length (sessions d.session d.pending)

/-- The move that takes the next action of the job in a place. -/
def moveOf : Nat × Action → Move
  | (_, .issue) => .settle
  | (i, _) => .turn i .act

/-- The actions of one job. -/
def ownActions (actions : List (Nat × Action)) (i : Nat) : List Action :=
  (actions.filter (·.1 == i)).map (·.2)

def isRequest (x : Nat × Action) : Bool :=
  match x.2 with
  | .issue => true
  | _ => false

theorem isRequest_iff {x : Nat × Action} : isRequest x = true ↔ x.2 = .issue := by
  obtain ⟨i, action⟩ := x
  cases action <;> simp [isRequest]

/-- A list of actions does all that is on the agenda: the actions of each job in order, and the
requests in the order of the batches. -/
structure Completes (studio : Studio) (d : Desk) (actions : List (Nat × Action)) : Prop where
  own : ∀ i, ownActions actions i = (agenda studio d)[i]?.getD []
  requests : (actions.filter isRequest).map (·.1) = .range' d.workshop.jobs.length d.pending.length
  issued : d.workshop.board.tokens.issued = d.workshop.jobs.length

variable {studio : Studio} {d : Desk} {i : Nat} {action : Action} {actions : List (Nat × Action)}

/-- The first action is the first on the agenda of its job. -/
theorem Completes.agenda_head (h : Completes studio d ((i, action) :: actions)) :
    (agenda studio d)[i]? = some (action :: ownActions actions i) := by
  have own := h.own i
  rw [ownActions, List.filter_cons_of_pos (by simp), List.map_cons] at own
  cases eq : (agenda studio d)[i]? with
  | none => simp [eq] at own
  | some todo => simpa [eq, ownActions] using own.symm

/-- Taking the first action off the agenda. -/
theorem Completes.own_tail (h : Completes studio d ((i, action) :: actions)) (k : Nat) :
    ownActions actions k = ((agenda studio d).set i (ownActions actions i))[k]?.getD [] := by
  have inside := (List.getElem?_eq_some_iff.1 h.agenda_head).1
  by_cases same : i = k
  · subst same
    rw [List.getElem?_set_self inside, Option.getD_some]
  · rw [List.getElem?_set_ne same, ← h.own k, ownActions, ownActions,
      List.filter_cons_of_neg (by simpa using same)]

/-- A request on the list is the next batch settling. -/
theorem Completes.settle (h : Completes studio d ((i, .issue) :: actions)) :
    Completes studio (perform studio d .settle) actions ∧
      (perform studio d .settle).workshop.board = d.workshop.board.act .issue := by
  have requests := h.requests
  rw [List.filter_cons_of_pos rfl, List.map_cons] at requests
  cases pending : d.pending with
  | nil => simp [pending] at requests
  | cons batch rest =>
    rw [pending, List.length_cons, List.range'_succ, List.cons.injEq] at requests
    obtain ⟨rfl, later⟩ := requests
    have head := h.agenda_head
    simp only [perform, pending]
    refine ⟨⟨?_, ?_, ?_⟩, rfl⟩
    · intro k
      rw [h.own_tail k]
      simp only [agenda, pending, sessions, planned] at head ⊢
      rw [List.getElem?_append_right (by simp)] at head
      simp only [List.length_map, Nat.sub_self, List.getElem?_cons_zero, Option.some.injEq,
        List.cons.injEq, true_and] at head
      rw [← head, List.set_append_right _ _ (by simp)]
      simp [Workshop.perform, Workshop.newJob, Board.act, Tokens.issue, h.issued]
    · simpa [Workshop.perform] using later
    · simp [Workshop.perform, Board.act, Tokens.issue, h.issued]

/-- Any other action is a turn of its job. -/
theorem Completes.turn (h : Completes studio d ((i, action) :: actions)) (other : action ≠ .issue) :
    Completes studio (perform studio d (.turn i .act)) actions ∧
      (perform studio d (.turn i .act)).workshop.board = d.workshop.board.act action := by
  have head := h.agenda_head
  have here :
      ∃ job, d.workshop.jobs[i]? = some job ∧ job.todo = action :: ownActions actions i := by
    rw [agenda, List.getElem?_append] at head
    split at head
    · simpa [List.getElem?_map] using head
    · simp only [getElem?_planned, Option.map_eq_some_iff, List.cons.injEq] at head
      obtain ⟨_, _, issue, _⟩ := head
      exact absurd issue.symm other
  obtain ⟨job, hi, todo⟩ := here
  have requests := h.requests
  have inside := (List.getElem?_eq_some_iff.1 hi).1
  rw [List.filter_cons_of_neg (fun request => other (isRequest_iff.1 request))] at requests
  simp only [perform, Workshop.perform_turn hi, Job.turn, todo]
  refine ⟨⟨?_, ?_, ?_⟩, trivial⟩
  · intro k
    rw [h.own_tail k]
    simp only [agenda, List.length_set, List.map_set]
    rw [List.set_append_left _ _ (by simpa using inside)]
  · simpa using requests
  · rw [Board.act_tokens _ other, h.issued, List.length_set]

/-- A list of actions that completes the agenda can be replayed, and leaves the desk idle. -/
theorem Completes.replay (h : Completes studio d actions) :
    (run studio d (actions.map moveOf)).Idle ∧
      (run studio d (actions.map moveOf)).workshop.board =
        (actions.map (·.2)).foldl Board.act d.workshop.board := by
  induction actions generalizing d with
  | nil =>
    have pending : d.pending = [] := by
      have length := congrArg List.length h.requests
      simp only [List.filter_nil, List.map_nil, List.length_nil, List.length_range'] at length
      exact List.length_eq_zero_iff.1 length.symm
    refine ⟨⟨pending, ?_⟩, rfl⟩
    intro job hj
    obtain ⟨i, hi⟩ := List.mem_iff_getElem?.1 hj
    have own := h.own i
    rw [agenda, pending, sessions, planned, List.append_nil, List.getElem?_map] at own
    exact (congrArg (fun job => (job.map Job.todo).getD []) hi).symm.trans own.symm
  | cons x actions ih =>
    obtain ⟨i, action⟩ := x
    by_cases request : action = .issue
    · subst request
      obtain ⟨rest, board⟩ := h.settle
      have done := ih rest
      rw [board] at done
      exact done
    · have move : moveOf (i, action) = .turn i .act := by cases action <;> simp_all [moveOf]
      obtain ⟨rest, board⟩ := h.turn request
      have done := ih rest
      rw [board] at done
      rw [List.map_cons, move]
      exact done

/-! ### The order by time -/

/-- The actions of one request by time, each with the place of its job. -/
def placedActions (studio : Studio) (place : Nat) (snapshot : Timed Session) :
    List (Timed (Nat × Action)) :=
  let plan := Plan.ofSession studio snapshot.value
  ⟨snapshot.time, place, .issue⟩ ::
    (Plan.timeline (place + 1) plan.outcome snapshot.time plan.waits).map
      fun x => ⟨x.time, place, x.value⟩

/-- The schedule of a board, with the place of every action's job. -/
def placedSchedule (studio : Studio) (issued : Nat) :
    List (Timed Session) → List (Timed (Nat × Action))
  | [] => []
  | snapshot :: rest =>
    placedActions studio issued snapshot ++ placedSchedule studio (issued + 1) rest

theorem map_placedSchedule (studio : Studio) (issued : Nat) (snapshots : List (Timed Session)) :
    (placedSchedule studio issued snapshots).map (fun x => (⟨x.time, x.value.2⟩ : Timed Action)) =
      Board.schedule studio issued snapshots := by
  induction snapshots generalizing issued with
  | nil => rfl
  | cons snapshot rest ih =>
    simp [placedSchedule, placedActions, Board.schedule, ih, Function.comp_def]

theorem map_timeline (token : Nat) (start : Nat) (p : Plan) :
    (Plan.timeline token p.outcome start p.waits).map (·.value) = p.actions token := by
  unfold Plan.actions
  induction p.waits generalizing start with
  | nil => simp [Plan.timeline, Function.comp_def]
  | cons wait waits ih => simp [Plan.timeline, ih]

/-- Time does not run backwards in a job. -/
theorem pairwise_timeline (token : Nat) (outcome : Option Picture) (start : Nat)
    (waits : List Wait) :
    (∀ x ∈ Plan.timeline token outcome start waits, start ≤ x.time) ∧
      (Plan.timeline token outcome start waits).Pairwise fun x y => x.time ≤ y.time := by
  induction waits generalizing start with
  | nil => cases outcome <;> simp [Plan.timeline]
  | cons wait waits ih =>
    obtain ⟨late, sorted⟩ := ih (start + wait.duration)
    simp only [Plan.timeline, List.mem_cons, List.pairwise_cons]
    refine ⟨?_, ?_, ?_, sorted⟩
    · rintro x (rfl | rfl | hx)
      · exact Nat.le_refl _
      · exact Nat.le_add_right ..
      · have := late x hx
        omega
    · rintro x (rfl | hx)
      · exact Nat.le_add_right ..
      · have := late x hx
        omega
    · exact late

theorem timeline_ne_issue {token start : Nat} {outcome : Option Picture} {waits : List Wait}
    {x : Timed Action} (hx : x ∈ Plan.timeline token outcome start waits) : x.value ≠ .issue := by
  induction waits generalizing start with
  | nil =>
    cases outcome with
    | none => simp [Plan.timeline] at hx
    | some picture =>
      simp only [Plan.timeline, Option.toList_some, List.map_cons, List.map_nil,
        List.mem_singleton] at hx
      simp [hx]
  | cons wait waits ih =>
    simp only [Plan.timeline, List.mem_cons] at hx
    rcases hx with rfl | rfl | hx
    · simp
    · simp
    · exact ih hx

theorem map_placedActions (studio : Studio) (place : Nat) (snapshot : Timed Session) :
    (placedActions studio place snapshot).map (·.value.2) =
      .issue :: (Plan.ofSession studio snapshot.value).actions (place + 1) := by
  simp [placedActions, ← map_timeline _ snapshot.time, Function.comp_def]

theorem place_of_mem {studio : Studio} {place : Nat} {snapshot : Timed Session}
    {x : Timed (Nat × Action)} (hx : x ∈ placedActions studio place snapshot) :
    x.value.1 = place := by
  simp only [placedActions, List.mem_cons, List.mem_map] at hx
  rcases hx with rfl | ⟨_, _, rfl⟩ <;> rfl

theorem pairwise_placedActions (studio : Studio) (place : Nat) (snapshot : Timed Session) :
    (placedActions studio place snapshot).Pairwise fun x y => x.time ≤ y.time := by
  obtain ⟨late, sorted⟩ :=
    pairwise_timeline (place + 1) (Plan.ofSession studio snapshot.value).outcome
      snapshot.time (Plan.ofSession studio snapshot.value).waits
  refine List.pairwise_cons.2 ⟨?_, List.pairwise_map.2 sorted⟩
  intro x hx
  obtain ⟨y, hy, rfl⟩ := List.mem_map.1 hx
  exact late y hy

theorem le_place_of_mem {studio : Studio} {issued : Nat} {snapshots : List (Timed Session)}
    {x : Timed (Nat × Action)} (hx : x ∈ placedSchedule studio issued snapshots) :
    issued ≤ x.value.1 := by
  induction snapshots generalizing issued with
  | nil => simp [placedSchedule] at hx
  | cons snapshot rest ih =>
    rcases List.mem_append.1 hx with hx | hx
    · exact Nat.le_of_eq (place_of_mem hx).symm
    · exact Nat.le_of_succ_le (ih hx)

/-- In the schedule every job has the actions of its own request. -/
theorem filter_placedSchedule (studio : Studio) (issued : Nat) (snapshots : List (Timed Session))
    (i : Nat) :
    (placedSchedule studio issued snapshots).filter (·.value.1 == issued + i) =
      (snapshots[i]?.map (placedActions studio (issued + i))).getD [] := by
  induction snapshots generalizing issued i with
  | nil => simp [placedSchedule]
  | cons snapshot rest ih =>
    rw [placedSchedule, List.filter_append]
    cases i with
    | zero =>
      have own : (placedActions studio issued snapshot).filter (·.value.1 == issued) =
          placedActions studio issued snapshot := by
        rw [List.filter_eq_self]
        intro x hx
        simp [place_of_mem hx]
      have others :
          (placedSchedule studio (issued + 1) rest).filter (·.value.1 == issued) = [] := by
        rw [List.filter_eq_nil_iff]
        intro x hx same
        have := le_place_of_mem hx
        rw [beq_iff_eq] at same
        omega
      simp [own, others]
    | succ i =>
      have others :
          (placedActions studio issued snapshot).filter (·.value.1 == issued + (i + 1)) = [] := by
        rw [List.filter_eq_nil_iff]
        intro x hx same
        rw [beq_iff_eq, place_of_mem hx] at same
        omega
      rw [others, List.nil_append, show issued + (i + 1) = issued + 1 + i by omega, ih]
      rfl

/-- The requests of the schedule. -/
theorem filter_isRequest_placedSchedule (studio : Studio) (issued : Nat)
    (snapshots : List (Timed Session)) :
    ((placedSchedule studio issued snapshots).filter (isRequest ·.value)).map (·.value.1) =
        .range' issued snapshots.length ∧
      ((placedSchedule studio issued snapshots).filter (isRequest ·.value)).map (·.time) =
        snapshots.map (·.time) := by
  induction snapshots generalizing issued with
  | nil => exact ⟨rfl, rfl⟩
  | cons snapshot rest ih =>
    have first : (placedActions studio issued snapshot).filter (isRequest ·.value) =
        [⟨snapshot.time, issued, .issue⟩] := by
      rw [placedActions, List.filter_cons_of_pos rfl, List.cons.injEq]
      refine ⟨rfl, List.filter_eq_nil_iff.2 ?_⟩
      intro x hx request
      obtain ⟨y, hy, rfl⟩ := List.mem_map.1 hx
      exact timeline_ne_issue hy (isRequest_iff.1 request)
    rw [placedSchedule, List.filter_append, first]
    obtain ⟨places, times⟩ := ih (issued + 1)
    simp [places, times, List.range'_succ]

theorem filter_mergeSort {l : List (Timed (Nat × Action))} {p : Timed (Nat × Action) → Bool}
    (sorted : (l.filter p).Pairwise fun x y => x.time ≤ y.time) :
    (l.mergeSort fun x y => decide (x.time ≤ y.time)).filter p = l.filter p := by
  -- Sorting is stable: what is in order already keeps its order.
  have kept : (l.filter p).Sublist (l.mergeSort fun x y => decide (x.time ≤ y.time)) := by
    refine List.sublist_mergeSort ?_ ?_ (sorted.imp fun h => by simpa using h) List.filter_sublist
    · intro x y z hxy hyz
      simp only [decide_eq_true_eq] at *
      omega
    · intro x y
      simp only [Bool.or_eq_true, decide_eq_true_eq]
      omega
  have again := kept.filter p
  simp only [List.filter_filter, Bool.and_self] at again
  exact (again.eq_of_length ((List.mergeSort_perm l _).filter p).length_eq.symm).symm

theorem sessions_map_values (s : Session) (bs : List (Burst Edit)) :
    (Board.snapshots s bs).map (·.value) = sessions s (bs.map (·.values)) ∧
      (Board.snapshots s bs).map (·.time) = bs.map (·.settledAt) := by
  induction bs generalizing s with
  | nil => exact ⟨rfl, rfl⟩
  | cons b bs ih =>
    obtain ⟨values, times⟩ := ih (b.values.foldl Session.apply s)
    simp [Board.snapshots, sessions, values, times]

theorem isRegular_moveOf (x : Nat × Action) : (moveOf x).IsRegular := by
  obtain ⟨i, action⟩ := x
  cases action <;> simp [moveOf, Move.IsRegular]

/-- The order by time does all that is on the agenda of a desk that starts. -/
theorem completes_placedSchedule (studio : Studio) (s : Session) (window close : Nat)
    {edits : List (Timed Edit)} (sorted : edits.Pairwise fun x y => x.time ≤ y.time) :
    Completes studio (start s ((bursts window close edits).map (·.values)))
      (((placedSchedule studio 0 (Board.snapshots s (bursts window close edits))).mergeSort
        fun x y => decide (x.time ≤ y.time)).map (·.value)) := by
  obtain ⟨values, times⟩ := sessions_map_values s (bursts window close edits)
  refine ⟨?_, ?_, rfl⟩
  · intro i
    have own := filter_placedSchedule studio 0 (Board.snapshots s (bursts window close edits)) i
    rw [Nat.zero_add] at own
    have ordered : ((placedSchedule studio 0 (Board.snapshots s (bursts window close edits))).filter
        (·.value.1 == i)).Pairwise fun x y => x.time ≤ y.time := by
      rw [own]
      cases (Board.snapshots s (bursts window close edits))[i]? with
      | none => exact .nil
      | some snapshot => exact pairwise_placedActions studio i snapshot
    have stable := filter_mergeSort ordered
    simp only [ownActions, List.filter_map, List.map_map, Function.comp_def]
    rw [stable, own]
    simp only [agenda, start, List.map_nil, List.nil_append, List.length_nil, getElem?_planned,
      ← values, List.getElem?_map, Nat.zero_add]
    cases (Board.snapshots s (bursts window close edits))[i]? with
    | none => rfl
    | some snapshot => exact map_placedActions studio i snapshot
  · obtain ⟨places, requestTimes⟩ :=
      filter_isRequest_placedSchedule studio 0 (Board.snapshots s (bursts window close edits))
    have ordered : ((placedSchedule studio 0 (Board.snapshots s (bursts window close edits))).filter
        (isRequest ·.value)).Pairwise fun x y => x.time ≤ y.time := by
      refine List.pairwise_map.1 ?_
      rw [requestTimes, times]
      exact List.pairwise_map.2 (pairwise_settledAt sorted)
    have stable := filter_mergeSort ordered
    simp only [List.filter_map, List.map_map, Function.comp_def]
    rw [stable, places]
    have length := congrArg List.length times
    simp only [List.length_map] at length
    simp [start, length]

/-- A run of the board by time is a run of the desk: every action in it is the move of a job, or a
batch that settles. -/
theorem exists_moves_of_run (studio : Studio) (s : Session) (window close : Nat)
    {edits : List (Timed Edit)} (sorted : edits.Pairwise fun x y => x.time ≤ y.time) :
    ∃ moves, (∀ m ∈ moves, m.IsRegular) ∧
      (run studio (start s ((bursts window close edits).map (·.values))) moves).Idle ∧
      (run studio (start s ((bursts window close edits).map (·.values))) moves).workshop.board =
        (Board.run {} studio s window close edits).1 ∧
      (run studio (start s ((bursts window close edits).map (·.values))) moves).session =
        (Board.run {} studio s window close edits).2 := by
  have completes := completes_placedSchedule studio s window close sorted
  obtain ⟨idle, board⟩ := completes.replay
  refine ⟨_, ?_, idle, board.trans ?_, ?_⟩
  · intro m hm
    obtain ⟨x, -, rfl⟩ := List.mem_map.1 hm
    exact isRegular_moveOf x
  · have untagged := List.map_mergeSort
      (l := placedSchedule studio 0 (Board.snapshots s (bursts window close edits)))
      (f := fun x => (⟨x.time, x.value.2⟩ : Timed Action))
      (r := fun x y => decide (x.time ≤ y.time)) (s := fun x y => decide (x.time ≤ y.time))
      (fun _ _ _ _ => rfl)
    rw [map_placedSchedule] at untagged
    simp only [Board.run, ← untagged, List.map_map]
    rfl
  · have follows := (follows_start studio s ((bursts window close edits).map (·.values))).steps
      ((((placedSchedule studio 0 (Board.snapshots s (bursts window close edits))).mergeSort
        fun x y => decide (x.time ≤ y.time)).map (·.value)).map moveOf)
    have session := follows.session
    rw [idle.1] at session
    rw [Board.run, ← List.getLast?_map, (sessions_map_values s _).1, getLast?_sessions]
    exact session

/-! ### Convergence -/

/-- What a request shows in the end if its token is the latest all the time. -/
theorem fire_shown (b : Board) {s : Session} {picture : Picture}
    (made : (Plan.ofSession studio s).outcome = some picture) :
    (b.fire studio b.tokens.issued s).1.shown = ⟨b.tokens.issued, picture⟩ := by
  have tokens (waits : List Wait) (b' : Board) (token : Nat) :
      ((waits.flatMap fun w => [.await token w, .answered w]).foldl Board.act b').tokens =
        b'.tokens := by
    induction waits generalizing b' with
    | nil => rfl
    | cons wait waits ih =>
      rw [List.flatMap_cons, List.foldl_append, ih, List.foldl_cons, List.foldl_cons,
        List.foldl_nil, Board.act_tokens _ (by simp), Board.act_tokens _ (by simp)]
  simp only [Board.fire, Plan.actions, made, Option.toList_some, List.map_cons, List.map_nil,
    List.foldl_append, List.foldl_cons, List.foldl_nil, Board.act]
  rw [Board.put_of_isCurrent (congrArg Tokens.issued (tokens _ b _))]

/-- The work on a request broke off, by itself or because a parser crashed on its text. -/
def Panicked (studio : Studio) (job : Job) : Prop :=
  job.crashed = true ∨ (Plan.ofSession studio job.session).outcome = none

/-- A job that is over and did not panic has answered. -/
theorem answer_ne_none {job : Job} (plan : job.OnPlan (Plan.ofSession studio job.session).outcome)
    (done : job.todo = []) (whole : ¬ Panicked studio job) : job.answer ≠ none := by
  cases plan with
  | working rest =>
    rw [done] at rest
    exact absurd (.inr rest) whole
  | answered _ _ _ answer => exact answer
  | broken _ _ crashed => exact absurd (.inl crashed) whole

/-- Edits are followed from a fresh desk, cut into batches in any way, with moves in any order. The
desk can always become idle. When it is, its session has had all edits applied in order; there is a
job for the session after each batch; and if the last of them did not panic, the display shows what
a request for the final session shows, under the token of that job. A run of the board by time is
one such order. -/
theorem converges (studio : Studio) (s : Session) (edits : List Edit) (batches : List (List Edit))
    (cut : batches.flatten = edits) (some_batch : batches ≠ []) (moves : List Move) :
    let d := run studio (start s batches) moves
    (∃ more, (∀ m ∈ more, m.IsRegular) ∧ (run studio d more).Idle) ∧
    (d.Idle → d.session = edits.foldl Session.apply s ∧
      d.workshop.jobs.map (·.session) = sessions s batches ∧
      ∃ job, d.workshop.jobs[batches.length - 1]? = some job ∧ job.token = batches.length ∧
        job.session = d.session ∧
        (¬ Panicked studio job → ∃ picture,
          (Plan.ofSession studio d.session).outcome = some picture ∧
          d.workshop.board.shown = ⟨batches.length, picture⟩ ∧
          d.workshop.board.shown =
            (({ tokens := ⟨batches.length⟩ } : Board).fire studio batches.length
              d.session).1.shown)) ∧
    (∀ window close stream, stream.Pairwise (fun x y => x.time ≤ y.time) →
      (bursts window close stream).map (·.values) = batches →
      ∃ others, (∀ m ∈ others, m.IsRegular) ∧ (run studio (start s batches) others).Idle ∧
        (run studio (start s batches) others).workshop.board =
          (Board.run {} studio s window close stream).1 ∧
        (run studio (start s batches) others).session =
          (Board.run {} studio s window close stream).2) := by
  intro d
  have follows : Follows studio s batches d := (follows_start studio s batches).steps moves
  refine ⟨exists_idle studio d, ?_, ?_⟩
  · intro idle
    have session := follows.session
    have jobs := follows.jobs
    rw [idle.1] at session jobs
    obtain ⟨job, here, token, issued, same⟩ := follows.last_job idle some_batch
    have member := List.mem_of_getElem? here
    refine ⟨cut ▸ session, by simpa [sessions] using jobs, job, here, token, same, ?_⟩
    intro whole
    have answered := answer_ne_none (follows.sound.onPlan job member) (idle.2 job member) whole
    obtain ⟨-, picture, made, shown⟩ :=
      follows.sound.final job member (token.trans issued.symm) answered
    rw [token] at shown
    rw [same] at made
    refine ⟨picture, made, shown, ?_⟩
    rw [shown]
    exact (fire_shown { tokens := ⟨batches.length⟩ } made).symm
  · intro window close stream sorted same
    rw [← same]
    exact exists_moves_of_run studio s window close sorted

/-- Two batches, of which the first is worked on last: what its job makes is dropped. -/
theorem converges_late_first_job :
    ∃ d, d = run {} (start {} [[.mode .advanced], [.language (some .python)]])
        [.settle, .settle, .turn 1 .act, .turn 0 .act] ∧
      d.Idle ∧ d.session = { mode := .advanced, language := some .python } ∧
      d.workshop.board.shown = ⟨2, { mode := .advanced, language := .python }⟩ := by
  have final := (converges {} {} [.mode .advanced, .language (some .python)]
    [[.mode .advanced], [.language (some .python)]] rfl (List.cons_ne_nil _ _)
    [.settle, .settle, .turn 1 .act, .turn 0 .act]).2.1
  have done : (run {} (start {} [[.mode .advanced], [.language (some .python)]])
      [.settle, .settle, .turn 1 .act, .turn 0 .act]).pending = [] := rfl
  have ended : (run {} (start {} [[.mode .advanced], [.language (some .python)]])
      [.settle, .settle, .turn 1 .act, .turn 0 .act]).workshop.jobs.all
        (fun job => job.todo.isEmpty && !job.crashed) = true := by decide
  generalize run {} (start {} [[.mode .advanced], [.language (some .python)]])
    [.settle, .settle, .turn 1 .act, .turn 0 .act] = d at final done ended ⊢
  have intact (job : Job) (hj : job ∈ d.workshop.jobs) : job.todo = [] ∧ job.crashed = false := by
    simpa using List.all_eq_true.1 ended job hj
  have idle : d.Idle := ⟨done, fun job hj => (intact job hj).1⟩
  obtain ⟨session, -, job, here, -, same, shows⟩ := final idle
  have made : (Plan.ofSession {} d.session).outcome =
      some { mode := .advanced, language := .python } := by
    rw [session]
    rfl
  have whole : ¬ Panicked {} job := by
    rintro (crashed | nothing)
    · simp [(intact job (List.mem_of_getElem? here)).2] at crashed
    · simp [same, made] at nothing
  obtain ⟨picture, eq, shown, -⟩ := shows whole
  rw [made, Option.some.injEq] at eq
  exact ⟨d, rfl, idle, session, eq ▸ shown⟩

end Desk

end CodeAtlas
