/-!
# Bursts

Items that arrive one after the other are gathered into bursts. A burst is over when a window of
time has passed without a further item, or when the stream closes. Times are in milliseconds.
-/

namespace CodeAtlas.Debounce

variable {α : Type}

/-- Something that happens at a time. -/
structure Timed (α : Type) where
  time : Nat
  value : α
deriving DecidableEq, Repr

/-- A burst that is over. -/
structure Burst (α : Type) where
  items : List (Timed α)
  /-- When it was known to be over. -/
  settledAt : Nat
deriving DecidableEq, Repr

/-- The items that follow one at time `last` before the window has passed, and the rest. -/
def gather (window last : Nat) : List (Timed α) → List (Timed α) × List (Timed α)
  | [] => ([], [])
  | x :: xs =>
    if x.time < last + window then
      let (burst, rest) := gather window x.time xs
      (x :: burst, rest)
    else ([], x :: xs)

theorem length_gather_le (window last : Nat) (xs : List (Timed α)) :
    (gather window last xs).2.length ≤ xs.length := by
  fun_induction gather window last xs with
  | case1 => simp
  | case2 last x xs h burst rest eq ih =>
    rw [eq] at ih
    exact Nat.le_succ_of_le ih
  | case3 => simp

/-- The next burst, and what arrives after it. -/
def next? (window close : Nat) : List (Timed α) → Option (Burst α × List (Timed α))
  | [] => none
  | x :: xs =>
    let more := gather window x.time xs
    let last := ((x :: more.1).getLast (by simp)).time
    some (⟨x :: more.1, min (last + window) close⟩, more.2)

theorem length_lt_of_next? {window close : Nat} {xs rest : List (Timed α)} {burst : Burst α}
    (h : next? window close xs = some (burst, rest)) : rest.length < xs.length := by
  cases xs with
  | nil => cases h
  | cons x xs =>
    cases h
    exact Nat.lt_succ_of_le (length_gather_le ..)

/-- All bursts of a stream that closes. -/
def bursts (window close : Nat) (xs : List (Timed α)) : List (Burst α) :=
  match h : next? window close xs with
  | none => []
  | some (burst, rest) =>
    have : rest.length < xs.length := length_lt_of_next? h
    burst :: bursts window close rest
termination_by xs.length

namespace Burst

def values (b : Burst α) : List α := b.items.map (·.value)

/-- The item with which the burst settled. -/
def last? (b : Burst α) : Option α := b.values.getLast?

end Burst

end CodeAtlas.Debounce
