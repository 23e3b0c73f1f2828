import CodeAtlas.Outline.Basic
import Mathlib.Data.List.Nodup
import Mathlib.Logic.Relation

/-!
# Surveys of trees

A survey goes through a tree in pre-order while some of the nodes are shown and others are not. It
counts twice: every node gets its index among all nodes, and a node that is shown also its number
among those that are. With every node it notes the marks of the nodes above it, the nearest first.

So both drawings of a tree can be read off one list, and questions about paths in the drawing of all
nodes become questions about the notes: a node stands above another if its index is noted there, and
the nearest shown node above another is the first noted with a number.
-/

namespace CodeAtlas

/-- The index of a node among all nodes of its tree, and its number among those that are shown. -/
structure Mark where
  index : Nat
  number : Option Nat

namespace Mark

/-- The numbers among some marks. -/
def numbers (l : List Mark) : List Nat := l.filterMap (·.number)

@[simp] theorem numbers_hidden (index : Nat) (l : List Mark) :
    numbers (⟨index, none⟩ :: l) = numbers l := rfl

@[simp] theorem numbers_shown (index n : Nat) (l : List Mark) :
    numbers (⟨index, some n⟩ :: l) = n :: numbers l := rfl

end Mark

/-- A node as a survey meets it. -/
structure Sight (α : Type) where
  value : α
  mark : Mark
  /-- The marks of the nodes above, the nearest first. -/
  above : List Mark

namespace Sight

variable {α : Type}

def path (x : Sight α) : List Mark := x.mark :: x.above

/-- The numbers of the shown nodes above, the nearest first. -/
def numbers (x : Sight α) : List Nat := Mark.numbers x.above

end Sight

/-- A way of choosing the nodes to be shown, with a state that is passed down the tree. -/
structure Selection (σ α : Type) where
  shows : σ → α → Bool
  pass : σ → (parent child : α) → σ

variable {σ α : Type}

def Selection.mark (r : Selection σ α) (state : σ) (v : α) (index number : Nat) : Mark :=
  ⟨index, if r.shows state v then some number else none⟩

/-- The sights that are shown. -/
def Sight.shown (l : List (Sight α)) : List (Sight α) := l.filter (·.mark.number.isSome)

@[simp] theorem Sight.shown_append (l l' : List (Sight α)) :
    shown (l ++ l') = shown l ++ shown l' :=
  List.filter_append ..

open Sight (shown)

namespace Rose

mutual

/-- The sights of a tree whose root has index `next`, below the nodes marked in `above`. The first
node that is shown gets the number `number`. -/
def survey (r : Selection σ α) (state : σ) (above : List Mark) (next number : Nat) :
    Rose α → List (Sight α)
  | .node v ts =>
    let own : Sight α := ⟨v, r.mark state v next number, above⟩
    own :: surveyAll r (r.pass state v) own.path (next + 1) (number + (shown [own]).length) ts

/-- The sights of several trees, one after the other. -/
def surveyAll (r : Selection σ α) (pass : α → σ) (above : List Mark) (next number : Nat) :
    List (Rose α) → List (Sight α)
  | [] => []
  | t :: ts =>
    let first := survey r (pass t.value) above next number t
    first ++ surveyAll r pass above (next + first.length) (number + (shown first).length) ts

end

end Rose

/-! ### What a survey notes -/

/-- A list of sights from index `next` and number `number` on, each noted with the path to the node
above it: the path `above`, or that to an earlier node of the list. -/
structure Surveyed (above : List Mark) (next number : Nat) (l : List (Sight α)) : Prop where
  index : l.map (·.mark.index) = List.range' next l.length
  number : l.filterMap (·.mark.number) = List.range' number (shown l).length
  above : ∀ x ∈ l, x.above = above ∨ ∃ y ∈ l, y.mark.index < x.mark.index ∧ x.above = y.path

namespace Surveyed

variable {above : List Mark} {next number : Nat} {l l' : List (Sight α)}

theorem nil : Surveyed above next number ([] : List (Sight α)) := by
  constructor <;> simp [shown]

theorem append (h : Surveyed above next number l)
    (h' : Surveyed above (next + l.length) (number + (shown l).length) l') :
    Surveyed above next number (l ++ l') where
  index := by rw [List.map_append, h.index, h'.index, List.range'_append_1, List.length_append]
  number := by
    rw [List.filterMap_append, h.number, h'.number, List.range'_append_1, Sight.shown_append,
      List.length_append]
  above := by
    intro x hx
    rcases List.mem_append.1 hx with hx | hx
    · refine (h.above x hx).imp_right ?_
      rintro ⟨y, hy, earlier⟩
      exact ⟨y, List.mem_append_left _ hy, earlier⟩
    · refine (h'.above x hx).imp_right ?_
      rintro ⟨y, hy, earlier⟩
      exact ⟨y, List.mem_append_right _ hy, earlier⟩

/-- What stands below a node is noted with the path to it. -/
theorem cons {own : Sight α} (index : own.mark.index = next)
    (numbered : ∀ n, own.mark.number = some n → n = number) (place : own.above = above)
    (h : Surveyed own.path (next + 1) (number + (shown [own]).length) l) :
    Surveyed above next number (own :: l) where
  index := by rw [List.map_cons, h.index, index, List.length_cons, List.range'_succ]
  number := by
    have := h.number
    cases mark : own.mark.number with
    | none => simpa [shown, mark] using this
    | some n =>
      obtain rfl := numbered n mark
      simpa [shown, mark, List.range'_succ] using this
  above := by
    intro x hx
    rcases List.mem_cons.1 hx with rfl | hx
    · exact .inl place
    · right
      rcases h.above x hx with below | ⟨y, hy, earlier⟩
      · have inside : x.mark.index ∈ l.map (·.mark.index) := List.mem_map_of_mem hx
        rw [h.index, List.mem_range'_1] at inside
        exact ⟨own, List.mem_cons_self, by omega, below⟩
      · exact ⟨y, List.mem_cons_of_mem _ hy, earlier⟩

end Surveyed

namespace Rose

mutual

theorem surveyed_survey (r : Selection σ α) (state : σ) (above : List Mark) (next number : Nat) :
    (t : Rose α) → Surveyed above next number (t.survey r state above next number)
  | .node v ts => by
    rw [survey]
    refine .cons rfl ?_ rfl (surveyed_surveyAll _ _ _ _ _ ts)
    intro n mark
    rw [Selection.mark] at mark
    split at mark
    · exact (Option.some.inj mark).symm
    · cases mark

theorem surveyed_surveyAll (r : Selection σ α) (pass : α → σ) (above : List Mark)
    (next number : Nat) :
    (ts : List (Rose α)) → Surveyed above next number (surveyAll r pass above next number ts)
  | [] => .nil
  | t :: ts => by
    rw [surveyAll]
    exact (surveyed_survey _ _ _ _ _ t).append (surveyed_surveyAll _ _ _ _ _ ts)

end

mutual

/-- A survey meets every node. -/
theorem map_value_survey (r : Selection σ α) (state : σ) (above : List Mark) (next number : Nat) :
    (t : Rose α) → (t.survey r state above next number).map (·.value) = t.preorder
  | .node v ts => by rw [survey, List.map_cons, map_value_surveyAll, preorder]

theorem map_value_surveyAll (r : Selection σ α) (pass : α → σ) (above : List Mark)
    (next number : Nat) :
    (ts : List (Rose α)) →
      (surveyAll r pass above next number ts).map (·.value) = preorderAll ts
  | [] => rfl
  | t :: ts => by
    rw [surveyAll, List.map_append, map_value_survey, map_value_surveyAll, preorderAll]

end

end Rose

/-! ### Nodes above nodes -/

namespace Sight

/-- The node with index `p` stands right above the one with index `c`. -/
def Parent (l : List (Sight α)) (p c : Nat) : Prop :=
  ∃ x ∈ l, x.mark.index = c ∧ (x.above.head?.map (·.index)) = some p

/-- The node with index `a` stands somewhere above the one with index `c`. -/
def Above (l : List (Sight α)) : Nat → Nat → Prop := Relation.TransGen (Parent l)

/-- The index of the node that has a number. -/
def indexOf (l : List (Sight α)) (number : Nat) : Nat :=
  ((shown l)[number]?.map (·.mark.index)).getD 0

end Sight

namespace Surveyed

open Sight (Parent Above indexOf)

variable {l : List (Sight α)} {x y : Sight α}

theorem index_of_getElem? (h : Surveyed [] 0 0 l) {i : Nat} (here : l[i]? = some x) :
    x.mark.index = i := by
  obtain ⟨inside, rfl⟩ := List.getElem?_eq_some_iff.1 here
  have := congrArg (·[i]?) h.index
  simpa [inside] using this

theorem getElem?_index (h : Surveyed [] 0 0 l) (hx : x ∈ l) : l[x.mark.index]? = some x := by
  obtain ⟨i, here⟩ := List.mem_iff_getElem?.1 hx
  rwa [h.index_of_getElem? here]

theorem eq_of_index_eq (h : Surveyed [] 0 0 l) (hx : x ∈ l) (hy : y ∈ l)
    (same : x.mark.index = y.mark.index) : x = y := by
  have := h.getElem?_index hx
  rw [same, h.getElem?_index hy] at this
  exact (Option.some.inj this).symm

/-- Every mark noted with a node is that of an earlier node, and what is noted behind it is what is
noted with that node. -/
theorem exists_of_above_eq (h : Surveyed [] 0 0 l) {before rest : List Mark} {mark : Mark}
    (hx : x ∈ l) (eq : x.above = before ++ mark :: rest) :
    ∃ y ∈ l, y.mark = mark ∧ y.above = rest ∧ y.mark.index < x.mark.index := by
  induction before generalizing x with
  | nil =>
    rcases h.above x hx with root | ⟨y, hy, lt, path⟩
    · simp [eq] at root
    · rw [eq] at path
      obtain ⟨rfl, rfl⟩ := List.cons.inj path
      exact ⟨y, hy, rfl, rfl, lt⟩
  | cons first before ih =>
    rcases h.above x hx with root | ⟨y, hy, lt, path⟩
    · simp [eq] at root
    · rw [eq] at path
      obtain ⟨-, tail⟩ := List.cons.inj path
      obtain ⟨z, hz, mark, rest, lt'⟩ := ih hy tail.symm
      exact ⟨z, hz, mark, rest, Nat.lt_trans lt' lt⟩

theorem exists_of_mem_above (h : Surveyed [] 0 0 l) {mark : Mark} (hx : x ∈ l)
    (hm : mark ∈ x.above) :
    ∃ y ∈ l, y.mark = mark ∧ y.mark.index < x.mark.index ∧
      ∃ before, x.above = before ++ y.path := by
  obtain ⟨before, rest, eq⟩ := List.append_of_mem hm
  obtain ⟨y, hy, rfl, rfl, lt⟩ := h.exists_of_above_eq hx eq
  exact ⟨y, hy, rfl, lt, before, eq⟩

/-- What stands above a node is what is noted with it. -/
theorem above_iff (h : Surveyed [] 0 0 l) (hx : x ∈ l) {a : Nat} :
    Above l a x.mark.index ↔ ∃ mark ∈ x.above, mark.index = a := by
  constructor
  · intro path
    generalize index : x.mark.index = c at path
    induction path generalizing x with
    | single step =>
      obtain ⟨z, hz, same, head⟩ := step
      obtain rfl := h.eq_of_index_eq hz hx (same.trans index.symm)
      obtain ⟨mark, first, rfl⟩ := Option.map_eq_some_iff.1 head
      exact ⟨mark, List.mem_of_mem_head? first, rfl⟩
    | tail path step ih =>
      obtain ⟨z, hz, same, head⟩ := step
      obtain rfl := h.eq_of_index_eq hz hx (same.trans index.symm)
      obtain ⟨mark, first, rfl⟩ := Option.map_eq_some_iff.1 head
      obtain ⟨y, hy, rfl, -, before, eq⟩ := h.exists_of_mem_above hz (List.mem_of_mem_head? first)
      obtain ⟨mark', hm, index'⟩ := ih hy rfl
      exact ⟨mark', by rw [eq]; exact List.mem_append_right _ (List.mem_cons_of_mem _ hm), index'⟩
  · rintro ⟨mark, hm, rfl⟩
    obtain ⟨before, rest, eq⟩ := List.append_of_mem hm
    induction before generalizing x with
    | nil => exact .single ⟨x, hx, rfl, by simp [eq]⟩
    | cons first before ih =>
      have front : x.above = [] ++ first :: (before ++ mark :: rest) := eq
      obtain ⟨y, hy, rfl, tail, -⟩ := h.exists_of_above_eq hx front
      have above : mark ∈ y.above := by simp [tail]
      exact (ih hy above tail).tail ⟨x, hx, rfl, by simp [eq]⟩

/-- The marks noted with a node are in the order of the nodes, the last first. -/
theorem pairwise_above (h : Surveyed [] 0 0 l) (hx : x ∈ l) :
    x.above.Pairwise fun a b => b.index < a.index := by
  induction index : x.mark.index using Nat.strongRecOn generalizing x with
  | ind n ih =>
    rcases h.above x hx with root | ⟨y, hy, lt, path⟩
    · simp [root]
    · rw [path, Sight.path, List.pairwise_cons]
      refine ⟨?_, ih _ (index ▸ lt) hy rfl⟩
      intro mark hm
      obtain ⟨z, -, rfl, lt', -⟩ := h.exists_of_mem_above hy hm
      exact lt'

/-! ### Shown nodes above nodes -/

/-- The shown nodes are numbered in their order. -/
theorem mark_of_getElem?_shown (h : Surveyed [] 0 0 l) {i : Nat} (here : (shown l)[i]? = some x) :
    x ∈ l ∧ x.mark = ⟨indexOf l i, some i⟩ := by
  have numbers : (shown l).map (·.mark.number) = (List.range' 0 (shown l).length).map some := by
    rw [← h.number]
    clear h here
    induction l with
    | nil => rfl
    | cons y l ih =>
      cases mark : y.mark.number <;> simpa [shown, mark] using ih
  obtain ⟨inside, rfl⟩ := List.getElem?_eq_some_iff.1 here
  have number : (shown l)[i].mark.number = some i := by
    have := congrArg (·[i]?) numbers
    simpa [inside] using this
  refine ⟨(List.mem_filter.1 (List.mem_of_getElem? here)).1, ?_⟩
  rw [← number, indexOf, here]
  rfl

theorem getElem?_shown (h : Surveyed [] 0 0 l) {i : Nat} (hx : x ∈ l)
    (number : x.mark.number = some i) : (shown l)[i]? = some x := by
  have member : x ∈ shown l := List.mem_filter.2 ⟨hx, by simp [number]⟩
  obtain ⟨j, here⟩ := List.mem_iff_getElem?.1 member
  have mark := (h.mark_of_getElem?_shown here).2
  rw [mark] at number
  obtain rfl := Option.some.inj number
  exact here

theorem exists_of_lt_length_shown (h : Surveyed [] 0 0 l) {i : Nat}
    (inside : i < (shown l).length) :
    ∃ x ∈ l, (shown l)[i]? = some x ∧ x.mark = ⟨indexOf l i, some i⟩ := by
  have here := List.getElem?_eq_getElem inside
  obtain ⟨hx, mark⟩ := h.mark_of_getElem?_shown here
  exact ⟨_, hx, here, mark⟩

theorem indexOf_lt_length (h : Surveyed [] 0 0 l) {i : Nat} (inside : i < (shown l).length) :
    indexOf l i < l.length := by
  obtain ⟨x, hx, -, mark⟩ := h.exists_of_lt_length_shown inside
  have here := h.getElem?_index hx
  rw [mark] at here
  exact (List.getElem?_eq_some_iff.1 here).1

theorem indexOf_lt_indexOf (h : Surveyed [] 0 0 l) {i j : Nat} (lt : i < j)
    (inside : j < (shown l).length) : indexOf l i < indexOf l j := by
  have ordered : l.Pairwise fun x y => x.mark.index < y.mark.index := by
    rw [← List.pairwise_map, h.index]
    exact List.pairwise_lt_range'
  have ordered : (shown l).Pairwise fun x y => x.mark.index < y.mark.index := ordered.filter _
  have inside' := Nat.lt_trans lt inside
  simpa [indexOf, inside, inside'] using List.pairwise_iff_getElem.1 ordered i j inside' inside lt

theorem mem_numbers_iff (h : Surveyed [] 0 0 l) (hx : x ∈ l) {q : Nat} :
    q ∈ x.numbers ↔ q < (shown l).length ∧ Above l (indexOf l q) x.mark.index := by
  rw [h.above_iff hx, Sight.numbers, Mark.numbers, List.mem_filterMap]
  constructor
  · rintro ⟨mark, hm, number⟩
    obtain ⟨y, hy, rfl, -⟩ := h.exists_of_mem_above hx hm
    have here := h.getElem?_shown hy number
    refine ⟨(List.getElem?_eq_some_iff.1 here).1, y.mark, hm, ?_⟩
    rw [(h.mark_of_getElem?_shown here).2]
  · rintro ⟨inside, mark, hm, index⟩
    obtain ⟨z, hz, -, mark'⟩ := h.exists_of_lt_length_shown inside
    obtain ⟨y, hy, rfl, -⟩ := h.exists_of_mem_above hx hm
    obtain rfl := h.eq_of_index_eq hy hz (by rw [index, mark'])
    exact ⟨y.mark, hm, by rw [mark']⟩

theorem nodup_numbers (h : Surveyed [] 0 0 l) (hx : x ∈ l) : x.numbers.Nodup := by
  refine List.pairwise_filterMap.2 ((h.pairwise_above hx).imp_of_mem ?_)
  intro a b ha hb lt n hn m hm same
  obtain ⟨y, hy, rfl, -⟩ := h.exists_of_mem_above hx ha
  obtain ⟨z, hz, rfl, -⟩ := h.exists_of_mem_above hx hb
  have first := h.getElem?_shown hy hn
  have second := h.getElem?_shown hz hm
  rw [same, second] at first
  obtain rfl := Option.some.inj first
  exact Nat.lt_irrefl _ lt

/-- Behind the number of a shown node stand the numbers noted with that node. -/
theorem exists_numbers_eq (h : Surveyed [] 0 0 l) (hx : x ∈ l) {q : Nat} (hq : q ∈ x.numbers) :
    ∃ y ∈ l, y.mark.index = indexOf l q ∧ ∃ before, x.numbers = before ++ q :: y.numbers := by
  obtain ⟨mark, hm, number⟩ := List.mem_filterMap.1 hq
  obtain ⟨y, hy, rfl, -, before, eq⟩ := h.exists_of_mem_above hx hm
  have mark := (h.mark_of_getElem?_shown (h.getElem?_shown hy number)).2
  refine ⟨y, hy, by rw [mark], Mark.numbers before, ?_⟩
  rw [Sight.numbers, eq, Mark.numbers, List.filterMap_append, Sight.path, mark]
  rfl

/-- The first number noted with a node is that of the nearest shown node above it: no shown node
stands between the two. -/
theorem head?_numbers_iff (h : Surveyed [] 0 0 l) (hx : x ∈ l) {p : Nat} :
    x.numbers.head? = some p ↔ p ∈ x.numbers ∧
      ∀ q < (shown l).length,
        Above l (indexOf l p) (indexOf l q) → ¬ Above l (indexOf l q) x.mark.index := by
  have nodup := h.nodup_numbers hx
  constructor
  · intro head
    have member := List.mem_of_mem_head? head
    refine ⟨member, ?_⟩
    intro q inside higher lower
    obtain ⟨y, hy, index, before, eq⟩ :=
      h.exists_numbers_eq hx ((h.mem_numbers_iff hx).2 ⟨inside, lower⟩)
    -- The number of the first is noted a second time, behind that of the node between.
    have again : p ∈ y.numbers :=
      (h.mem_numbers_iff hy).2 ⟨((h.mem_numbers_iff hx).1 member).1, by rwa [index]⟩
    rw [eq] at head nodup
    cases before with
    | nil =>
      obtain rfl := Option.some.inj head
      exact (List.nodup_cons.1 nodup).1 again
    | cons first before =>
      obtain rfl := Option.some.inj head
      exact (List.nodup_cons.1 nodup).1 (by simp [again])
  · rintro ⟨member, nearest⟩
    cases numbers : x.numbers with
    | nil => simp [numbers] at member
    | cons q more =>
      by_contra different
      have first : q ∈ x.numbers := by simp [numbers]
      obtain ⟨y, hy, index, before, eq⟩ := h.exists_numbers_eq hx first
      obtain ⟨inside, lower⟩ := (h.mem_numbers_iff hx).1 first
      -- Being noted but not first, the number is noted with the first.
      have behind : p ∈ y.numbers := by
        rw [eq] at numbers member nodup
        cases before with
        | nil => simpa [show p ≠ q by rintro rfl; exact different rfl] using member
        | cons other before =>
          obtain ⟨rfl, -⟩ := List.cons.inj numbers
          simp at nodup
      refine nearest q inside ?_ lower
      rw [← index]
      exact ((h.mem_numbers_iff hy).1 behind).2

end Surveyed

end CodeAtlas
