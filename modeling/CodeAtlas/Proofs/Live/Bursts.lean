import CodeAtlas.Live.Debounce

/-!
# The bursts of a stream

A stream is its first burst and what arrives after it, and so on: this is the induction that facts
about bursts are proved by. If items arrive in the order of their times, the bursts settle in the
order of theirs.
-/

namespace CodeAtlas.Debounce

variable {α : Type} {window close : Nat}

theorem gather_append (window last : Nat) (xs : List (Timed α)) :
    (gather window last xs).1 ++ (gather window last xs).2 = xs := by
  fun_induction gather window last xs with
  | case1 => rfl
  | case2 last x xs h burst rest eq ih =>
    rw [eq] at ih
    rw [List.cons_append, ih]
  | case3 => rfl

/-- The first burst and what arrives after it. -/
theorem cons_gather_append (window : Nat) (x : Timed α) (xs : List (Timed α)) :
    (x :: (gather window x.time xs).1) ++ (gather window x.time xs).2 = x :: xs := by
  rw [List.cons_append, gather_append]

@[simp] theorem bursts_nil : bursts window close ([] : List (Timed α)) = [] := by
  simp [bursts, next?]

/-- The first burst ends where the first gap is. -/
theorem bursts_cons (x : Timed α) (xs : List (Timed α)) :
    bursts window close (x :: xs) =
      ⟨x :: (gather window x.time xs).1,
        min (((x :: (gather window x.time xs).1).getLast (by simp)).time + window) close⟩ ::
      bursts window close (gather window x.time xs).2 := by
  rw [bursts]
  rfl

/-- An induction along the bursts of a stream. -/
theorem bursts_induction (window : Nat) {motive : List (Timed α) → Prop} (nil : motive [])
    (cons : ∀ x xs, motive (gather window x.time xs).2 → motive (x :: xs)) (xs : List (Timed α)) :
    motive xs := by
  induction h : xs.length using Nat.strongRecOn generalizing xs with
  | ind n ih =>
    cases xs with
    | nil => exact nil
    | cons x xs =>
      have shorter := length_gather_le window x.time xs
      refine cons x xs (ih _ ?_ _ rfl)
      rw [← h]
      exact Nat.lt_succ_of_le shorter

/-- Items that arrive at or after a time settle no sooner than a window after it. -/
theorem le_settledAt {xs : List (Timed α)} {time : Nat} (late : ∀ x ∈ xs, time ≤ x.time)
    {b : Burst α} (hb : b ∈ bursts window close xs) : min (time + window) close ≤ b.settledAt := by
  induction xs using bursts_induction window with
  | nil => simp at hb
  | cons x xs ih =>
    rw [bursts_cons] at hb
    rw [← cons_gather_append window x xs] at late
    rcases List.mem_cons.1 hb with rfl | hb
    · have := late _ (List.mem_append_left _ (List.getLast_mem (List.cons_ne_nil _ _)))
      simp only
      omega
    · exact ih (fun y hy => late y (List.mem_append_right _ hy)) hb

/-- Bursts settle in order. -/
theorem pairwise_settledAt {xs : List (Timed α)} (sorted : xs.Pairwise fun x y => x.time ≤ y.time) :
    (bursts window close xs).Pairwise fun b c => b.settledAt ≤ c.settledAt := by
  induction xs using bursts_induction window with
  | nil => simp
  | cons x xs ih =>
    rw [bursts_cons]
    rw [← cons_gather_append window x xs] at sorted
    obtain ⟨-, rest, across⟩ := List.pairwise_append.1 sorted
    refine List.pairwise_cons.2 ⟨?_, ih rest⟩
    intro b hb
    exact le_settledAt (across _ (List.getLast_mem _)) hb

end CodeAtlas.Debounce
