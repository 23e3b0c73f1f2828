import CodeAtlas.Proofs.Live.Bursts
import Mathlib.Data.List.Chain

/-!
# How bursts group the items of a stream

Whoever waits for a burst has a timer run against the next item, and against the closing of the
stream when no item is left. The timer starts again with every item. Where two of them are ready at
the same moment either may win, so a stream can come out in more than one way.

`Delivers` holds of every way in which a stream can come out when the next burst is awaited as soon
as the last one is returned. Main statement: `bursts` is one of them, and whichever it is, items
less than a window apart stay together, items more than a window apart do not, and a burst is
returned a window after its last item or when the stream closes, whichever is earlier.
-/

namespace CodeAtlas.Debounce

variable {α : Type} {window close : Nat}

/-- When there is next something to receive: an item, or that the stream is closed. -/
def nextArrival (close : Nat) : List (Timed α) → Nat
  | [] => close
  | x :: _ => x.time

/-- `Gathers window close now batch coming burst rest`: with `batch` in hand at the time `now`,
waiting may end with `burst` while `rest` has not been received. -/
inductive Gathers (window close : Nat) :
    (now : Nat) → (batch coming : List (Timed α)) → Burst α → (rest : List (Timed α)) → Prop
  | item {now batch x coming burst rest} (inTime : max now x.time ≤ now + window)
      (more : Gathers window close (max now x.time) (batch ++ [x]) coming burst rest) :
      Gathers window close now batch (x :: coming) burst rest
  | closed {now batch} (inTime : max now close ≤ now + window) :
      Gathers window close now batch [] ⟨batch, max now close⟩ []
  | elapsed {now batch coming} (quiet : now + window ≤ nextArrival close coming) :
      Gathers window close now batch coming ⟨batch, now + window⟩ coming

/-- The bursts that may be returned from the time `now` on, each awaited as soon as the one before
is returned. -/
inductive Delivers (window close : Nat) :
    (now : Nat) → (coming : List (Timed α)) → List (Burst α) → Prop
  | closed {now} : Delivers window close now [] []
  | burst {now x coming burst rest more}
      (first : Gathers window close (max now x.time) [x] coming burst rest)
      (others : Delivers window close burst.settledAt rest more) :
      Delivers window close now (x :: coming) (burst :: more)

/-- The number of the burst in which the item at a place of the stream stands. -/
def burstAt : List (Burst α) → Nat → Nat
  | [], _ => 0
  | b :: bs, i => if i < b.items.length then 0 else burstAt bs (i - b.items.length) + 1

/-- What bursts make of a stream. -/
structure IsGrouping (window close : Nat) (xs : List (Timed α)) (bs : List (Burst α)) : Prop where
  items_ne_nil : ∀ b ∈ bs, b.items ≠ []
  /-- Nothing is lost, repeated or moved. -/
  flatMap_items : bs.flatMap (·.items) = xs
  together : ∀ i x y, xs[i]? = some x → xs[i + 1]? = some y → y.time < x.time + window →
    burstAt bs i = burstAt bs (i + 1)
  apart : ∀ i x y, xs[i]? = some x → xs[i + 1]? = some y → x.time + window < y.time →
    burstAt bs i ≠ burstAt bs (i + 1)
  /-- A burst settles with its last item. -/
  settles : ∀ b ∈ bs, ∃ x, b.items.getLast? = some x ∧ b.last? = some x.value ∧
    b.settledAt = min (x.time + window) close

/-! ### One burst -/

/-- What is known of the first burst of a stream: no gap in it is longer than the window, and the
one behind it is no shorter. -/
structure IsFirst (window close : Nat) (burst : Burst α) (rest : List (Timed α))
    (last : Timed α) : Prop where
  getLast?_items : burst.items.getLast? = some last
  isChain : burst.items.IsChain fun x y => y.time ≤ x.time + window
  settledAt_eq : burst.settledAt = min (last.time + window) close
  gap : ∀ x ∈ rest.head?, last.time + window ≤ x.time

theorem getElem?_add_length {xs ys : List (Timed α)} (i : Nat) :
    (xs ++ ys)[xs.length + i]? = ys[i]? := by
  rw [List.getElem?_append_right (Nat.le_add_right _ _), Nat.add_sub_cancel_left]

theorem burstAt_of_lt {b : Burst α} {bs : List (Burst α)} {i : Nat} (h : i < b.items.length) :
    burstAt (b :: bs) i = 0 := by
  rw [burstAt, if_pos h]

theorem burstAt_add_length (b : Burst α) (bs : List (Burst α)) (i : Nat) :
    burstAt (b :: bs) (b.items.length + i) = burstAt bs i + 1 := by
  rw [burstAt, if_neg (by omega), Nat.add_sub_cancel_left]

/-- Two neighbours in a stream stand in its first burst, or on both sides of its end, or behind
it. -/
theorem neighbours_cases {b : Burst α} {rest : List (Timed α)} {last x y : Timed α} {i : Nat}
    (first : IsFirst window close b rest last) (hx : (b.items ++ rest)[i]? = some x)
    (hy : (b.items ++ rest)[i + 1]? = some y) :
    (i + 1 < b.items.length ∧ y.time ≤ x.time + window) ∨
      (i + 1 = b.items.length ∧ x.time + window ≤ y.time) ∨
      ∃ j, i = b.items.length + j ∧ rest[j]? = some x ∧ rest[j + 1]? = some y := by
  rcases Nat.lt_trichotomy (i + 1) b.items.length with inside | border | behind
  · left
    rw [List.getElem?_append_left (by omega), List.getElem?_eq_some_iff] at hx
    rw [List.getElem?_append_left inside, List.getElem?_eq_some_iff] at hy
    obtain ⟨-, rfl⟩ := hx
    obtain ⟨-, rfl⟩ := hy
    exact ⟨inside, first.isChain.getElem i inside⟩
  · right
    left
    have last_eq : some x = some last := by
      rw [← hx, ← first.getLast?_items, List.getLast?_eq_getElem?, ← border,
        List.getElem?_append_left (by omega), Nat.add_sub_cancel]
    rw [border, ← Nat.add_zero b.items.length, getElem?_add_length, ← List.head?_eq_getElem?] at hy
    cases last_eq
    exact ⟨border, first.gap y hy⟩
  · right
    right
    obtain ⟨j, rfl⟩ : ∃ j, i = b.items.length + j := ⟨i - b.items.length, by omega⟩
    rw [getElem?_add_length] at hx
    rw [Nat.add_assoc, getElem?_add_length] at hy
    exact ⟨j, rfl, hx, hy⟩

theorem IsGrouping.cons {b : Burst α} {bs : List (Burst α)} {rest : List (Timed α)} {last : Timed α}
    (others : IsGrouping window close rest bs) (first : IsFirst window close b rest last) :
    IsGrouping window close (b.items ++ rest) (b :: bs) where
  items_ne_nil := by
    intro c mem
    rcases List.mem_cons.1 mem with rfl | mem
    · intro empty
      simpa [empty] using first.getLast?_items
    · exact others.items_ne_nil c mem
  flatMap_items := by rw [List.flatMap_cons, others.flatMap_items]
  together := by
    intro i x y hx hy close
    rcases neighbours_cases first hx hy with ⟨inside, -⟩ | ⟨-, gap⟩ | ⟨j, rfl, hx, hy⟩
    · rw [burstAt_of_lt (by omega), burstAt_of_lt inside]
    · omega
    · rw [Nat.add_assoc, burstAt_add_length, burstAt_add_length, others.together j x y hx hy close]
  apart := by
    intro i x y hx hy far
    rcases neighbours_cases first hx hy with ⟨-, short⟩ | ⟨border, -⟩ | ⟨j, rfl, hx, hy⟩
    · omega
    · rw [burstAt_of_lt (by omega), border, ← Nat.add_zero b.items.length, burstAt_add_length]
      omega
    · rw [Nat.add_assoc, burstAt_add_length, burstAt_add_length]
      have := others.apart j x y hx hy far
      omega
  settles := by
    intro c mem
    rcases List.mem_cons.1 mem with rfl | mem
    · refine ⟨last, first.getLast?_items, ?_, first.settledAt_eq⟩
      rw [Burst.last?, Burst.values, List.getLast?_map, first.getLast?_items]
      rfl
    · exact others.settles c mem

/-! ### All ways to wait -/

/-- The items of a stream come in the order of their times, not before `now` and not after it
closes. -/
structure InOrder (now close : Nat) (xs : List (Timed α)) : Prop where
  sorted : xs.Pairwise fun x y => x.time ≤ y.time
  le_time : ∀ x ∈ xs, now ≤ x.time
  time_le : ∀ x ∈ xs, x.time ≤ close

theorem InOrder.tail {now : Nat} {x : Timed α} {xs : List (Timed α)}
    (h : InOrder now close (x :: xs)) : InOrder x.time close xs where
  sorted := h.sorted.of_cons
  le_time := (List.pairwise_cons.1 h.sorted).1
  time_le := fun y mem => h.time_le y (List.mem_cons_of_mem x mem)

theorem max_time_eq {now : Nat} {x : Timed α} {xs : List (Timed α)}
    (h : InOrder now close (x :: xs)) : max now x.time = x.time :=
  Nat.max_eq_right (h.le_time x List.mem_cons_self)

/-- Behind an item that was received when it arrived, every item is received when it arrives, and
the burst ends where it should. -/
theorem Gathers.isFirst {now : Nat} {batch coming rest : List (Timed α)} {burst : Burst α}
    {last : Timed α} (h : Gathers window close now batch coming burst rest)
    (inHand : batch.getLast? = some last) (time : last.time = now)
    (short : batch.IsChain fun x y => y.time ≤ x.time + window) (inOrder : InOrder now close coming)
    (opened : now ≤ close) :
    burst.items ++ rest = batch ++ coming ∧ ∃ x, IsFirst window close burst rest x := by
  induction h generalizing last with
  | @item now batch x coming burst rest inTime more ih =>
    rw [max_time_eq inOrder] at inTime more ih
    have short' : (batch ++ [x]).IsChain fun x y => y.time ≤ x.time + window := by
      rw [List.isChain_append]
      refine ⟨short, by simp, ?_⟩
      intro y hy z hz
      rw [inHand] at hy
      cases hy
      cases hz
      omega
    obtain ⟨split, found⟩ := ih List.getLast?_concat rfl short' inOrder.tail
      (inOrder.time_le x List.mem_cons_self)
    exact ⟨by simpa using split, found⟩
  | @closed now batch inTime =>
    refine ⟨rfl, last, inHand, short, ?_, by simp⟩
    change max now close = _
    omega
  | @elapsed now batch coming quiet =>
    have before : now + window ≤ close := by
      cases coming with
      | nil => exact quiet
      | cons x coming => exact Nat.le_trans quiet (inOrder.time_le x List.mem_cons_self)
    refine ⟨rfl, last, inHand, short, ?_, ?_⟩
    · change now + window = _
      omega
    · intro x first
      cases coming with
      | nil => simp at first
      | cons y coming =>
        cases first
        exact time ▸ quiet

/-- The first burst of a stream, and what it leaves for the next one. -/
theorem Gathers.first_of_stream {now : Nat} {x : Timed α} {coming rest : List (Timed α)}
    {burst : Burst α} (h : Gathers window close (max now x.time) [x] coming burst rest)
    (inOrder : InOrder now close (x :: coming)) :
    burst.items ++ rest = x :: coming ∧ (∃ last, IsFirst window close burst rest last) ∧
      InOrder burst.settledAt close rest := by
  rw [max_time_eq inOrder] at h
  obtain ⟨split, last, first⟩ := h.isFirst rfl rfl (by simp) inOrder.tail
    (inOrder.time_le x List.mem_cons_self)
  rw [List.singleton_append] at split
  have sorted := inOrder.sorted
  rw [← split, List.pairwise_append] at sorted
  refine ⟨split, ⟨last, first⟩, sorted.2.1, ?_, ?_⟩
  · intro y hy
    -- the first item behind the burst is a window later than its last, and all others are later
    -- still
    obtain ⟨z, zs, rfl⟩ := List.exists_cons_of_ne_nil (List.ne_nil_of_mem hy)
    have gap := first.gap z rfl
    have order : z.time ≤ y.time := by
      rcases List.mem_cons.1 hy with rfl | later
      · exact Nat.le_refl _
      · exact List.rel_of_pairwise_cons sorted.2.1 later
    rw [first.settledAt_eq]
    omega
  · intro y hy
    exact inOrder.time_le y (split ▸ List.mem_append_right _ hy)

/-- However a stream comes out, its items are grouped as they should be. -/
theorem Delivers.isGrouping {now : Nat} {xs : List (Timed α)} {bs : List (Burst α)}
    (h : Delivers window close now xs bs) (inOrder : InOrder now close xs) :
    IsGrouping window close xs bs := by
  induction h with
  | closed => constructor <;> simp
  | burst first _ ih =>
    obtain ⟨split, ⟨last, isFirst⟩, later⟩ := first.first_of_stream inOrder
    rw [← split]
    exact (ih later).cons isFirst

/-! ### The bursts of a stream -/

theorem gather_cons (window last : Nat) (x : Timed α) (xs : List (Timed α)) :
    gather window last (x :: xs) =
      if x.time < last + window then (x :: (gather window x.time xs).1, (gather window x.time xs).2)
      else ([], x :: xs) := rfl

/-- Ending a burst when the next item is a whole window away is one way to wait. -/
theorem gathers_gather (window : Nat) {last : Timed α} {batch coming : List (Timed α)}
    (inHand : batch.getLast? = some last)
    (inOrder : InOrder last.time close coming) (opened : last.time ≤ close) :
    ∃ final, (batch ++ (gather window last.time coming).1).getLast? = some final ∧
      Gathers window close last.time batch coming
        ⟨batch ++ (gather window last.time coming).1, min (final.time + window) close⟩
        (gather window last.time coming).2 := by
  induction coming generalizing batch last with
  | nil =>
    refine ⟨last, by simpa [gather] using inHand, ?_⟩
    rw [gather, List.append_nil]
    by_cases early : close ≤ last.time + window
    · have settled : min (last.time + window) close = max last.time close := by omega
      rw [settled]
      exact .closed (by omega)
    · rw [Nat.min_eq_left (by omega)]
      exact .elapsed (by simp only [nextArrival]; omega)
  | cons x xs ih =>
    rw [gather_cons]
    split
    · next inTime =>
      obtain ⟨final, last_eq, more⟩ := ih (List.getLast?_concat (l := batch)) inOrder.tail
        (inOrder.time_le x List.mem_cons_self)
      refine ⟨final, by simpa using last_eq, ?_⟩
      refine .item (by rw [max_time_eq inOrder]; omega) ?_
      rw [max_time_eq inOrder]
      simpa using more
    · next late =>
      have before := inOrder.time_le x List.mem_cons_self
      refine ⟨last, by simpa using inHand, ?_⟩
      rw [List.append_nil, Nat.min_eq_left (by omega)]
      exact .elapsed (by simp only [nextArrival]; omega)

/-- The bursts of a stream are one of the ways in which it can come out. -/
theorem delivers_bursts (window : Nat) {now : Nat} {xs : List (Timed α)}
    (inOrder : InOrder now close xs) : Delivers window close now xs (bursts window close xs) := by
  induction xs using bursts_induction window generalizing now with
  | nil =>
    rw [bursts_nil]
    exact .closed
  | cons x xs ih =>
    have inHand : [x].getLast? = some x := rfl
    obtain ⟨final, last_eq, first⟩ := gathers_gather window inHand inOrder.tail
      (inOrder.time_le x List.mem_cons_self)
    have settled : (x :: (gather window x.time xs).1).getLast (by simp) = final := by
      rw [List.singleton_append, List.getLast?_eq_some_getLast (by simp)] at last_eq
      exact Option.some.inj last_eq
    rw [bursts_cons, settled]
    rw [List.singleton_append] at first
    nth_rewrite 1 [← max_time_eq inOrder] at first
    exact .burst first (ih (first.first_of_stream inOrder).2.2)

/-- However the next item, the window and the closing of a stream race each other, the bursts group
its items by their gaps, and `bursts` is one way for the race to go. -/
theorem groups_by_gaps (window close : Nat) (xs : List (Timed α))
    (sorted : xs.Pairwise fun x y => x.time ≤ y.time) (closes : ∀ x ∈ xs, x.time ≤ close) :
    IsGrouping window close xs (bursts window close xs) ∧
      Delivers window close 0 xs (bursts window close xs) ∧
      ∀ bs, Delivers window close 0 xs bs → IsGrouping window close xs bs := by
  have inOrder : InOrder 0 close xs := ⟨sorted, fun _ _ => Nat.zero_le _, closes⟩
  have delivered := delivers_bursts window inOrder
  refine ⟨delivered.isGrouping inOrder, delivered, ?_⟩
  intro bs delivered
  exact delivered.isGrouping inOrder

/-- One item arrives just before the window has passed, one just when it has, and the stream closes
before the last window is over. -/
theorem groups_by_gaps_with_tie :
    let xs : List (Timed Nat) := [⟨0, 1⟩, ⟨499, 2⟩, ⟨999, 3⟩, ⟨2000, 4⟩]
    xs.Pairwise (fun x y => x.time ≤ y.time) ∧ (∀ x ∈ xs, x.time ≤ 2100) ∧
      IsGrouping 500 2100 xs (bursts 500 2100 xs) ∧
      Delivers 500 2100 0 xs (bursts 500 2100 xs) ∧
      ∀ bs, Delivers 500 2100 0 xs bs → IsGrouping 500 2100 xs bs := by
  intro xs
  exact ⟨by decide, by decide, groups_by_gaps 500 2100 xs (by decide) (by decide)⟩

end CodeAtlas.Debounce
