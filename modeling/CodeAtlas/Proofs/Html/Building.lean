import CodeAtlas.Proofs.Html.Rendering
import Mathlib.Data.Nat.Find

/-!
# Elements that stay open

A document is built by actions: an element is entered, a node is put in place, a name is left. An
element that is entered is known by the place of that action among the others, and it is open as
long as the depth stays above the one at which it was entered.

What is done while an element stays open is done inside it: the document below it is just the one
that those actions build on their own, and what lies around it is not touched. So leaving its name,
when nothing inside has that name, gives the document from before with one node more, and the same
elements are open as then.
-/

namespace CodeAtlas.Html

/-- Names are compared letter by letter. -/
theorem sameName_eq (a b : String) :
    sameName a b = decide (a.toList.map Char.toUpper = b.toList.map Char.toUpper) := by
  rw [Bool.eq_iff_iff, sameName, beq_iff_eq, ← String.toList_inj, upper, upper, String.toList_map,
    String.toList_map, decide_eq_true_iff]

/-- What is done to a document that is being built. -/
inductive Action where
  | enter (tag : String)
  | place (node : Dom)
  | leave (name : String)

namespace OpenTags

/-! ### Running actions -/

def act (o : OpenTags) : Action → OpenTags
  | .enter tag => o.open tag
  | .place node => o.push node
  | .leave name => o.close name

def run (o : OpenTags) (actions : List Action) : OpenTags := actions.foldl act o

@[simp] theorem run_nil (o : OpenTags) : o.run [] = o := rfl

@[simp] theorem run_cons (o : OpenTags) (a : Action) (actions : List Action) :
    o.run (a :: actions) = (o.act a).run actions := rfl

theorem run_append (o : OpenTags) (actions others : List Action) :
    o.run (actions ++ others) = (o.run actions).run others := List.foldl_append

/-- The document that some actions build from nothing. -/
def after (actions : List Action) : OpenTags := run {} actions

theorem after_append (actions others : List Action) :
    after (actions ++ others) = (after actions).run others :=
  run_append {} actions others

/-! ### Depth -/

@[simp] theorem length_opened_closeOne (o : OpenTags) :
    o.closeOne.opened.length = o.opened.length - 1 := by
  obtain ⟨opened, done⟩ := o
  cases opened with
  | nil => rfl
  | cons inner outer => rw [closeOne, length_opened_push, List.length_cons, Nat.add_sub_cancel]

@[simp] theorem length_opened_closeMany (o : OpenTags) (n : Nat) :
    (o.closeMany n).opened.length = o.opened.length - n := by
  induction n generalizing o with
  | zero => rfl
  | succ n ih =>
    rw [closeMany, ih, length_opened_closeOne]
    omega

/-- Only entering an element leads further down. -/
theorem length_opened_act (o : OpenTags) (a : Action) :
    (∃ tag, a = .enter tag ∧ (o.act a).opened.length = o.opened.length + 1) ∨
      (o.act a).opened.length ≤ o.opened.length := by
  cases a with
  | enter tag => exact .inl ⟨tag, rfl, rfl⟩
  | place node => exact .inr (Nat.le_of_eq (length_opened_push o node))
  | leave name =>
    refine .inr ?_
    show (o.close name).opened.length ≤ o.opened.length
    rw [close]
    split
    · rw [length_opened_closeMany]
      exact Nat.sub_le _ _
    · exact Nat.le_refl _

/-- How many elements are open after the first actions. -/
def depthAt (actions : List Action) (i : Nat) : Nat := (after (actions.take i)).opened.length

theorem depthAt_length (actions : List Action) :
    depthAt actions actions.length = (after actions).opened.length := by
  rw [depthAt, List.take_length]

theorem depthAt_append {actions : List Action} {i : Nat} (le : i ≤ actions.length)
    (others : List Action) : depthAt (actions ++ others) i = depthAt actions i := by
  rw [depthAt, depthAt, List.take_append_of_le_length le]

theorem depthAt_take {i j : Nat} (le : i ≤ j) (actions : List Action) :
    depthAt (actions.take j) i = depthAt actions i := by
  rw [depthAt, depthAt, List.take_take, Nat.min_eq_left le]

/-- The element that is entered by the action at a place is open in the end. -/
structure IsOpen (actions : List Action) (i : Nat) (tag : String) : Prop where
  entered : actions[i]? = some (.enter tag)
  stays : ∀ j, i < j → j ≤ actions.length → depthAt actions i < depthAt actions j

theorem IsOpen.lt_length {actions : List Action} {i : Nat} {tag : String}
    (h : IsOpen actions i tag) :
    i < actions.length := (List.getElem?_eq_some_iff.1 h.entered).1

/-- There is a last place at which a depth is not exceeded. -/
theorem exists_last_depthAt_le (actions : List Action) (d : Nat) :
    ∃ i ≤ actions.length, depthAt actions i ≤ d ∧ ∀ j, i < j → j ≤ actions.length →
      d < depthAt actions j := by
  let P := fun j => depthAt actions j ≤ d
  have start : P 0 := Nat.zero_le d
  refine ⟨Nat.findGreatest P actions.length, Nat.findGreatest_le _, ?_, ?_⟩
  · exact Nat.findGreatest_spec (P := P) (Nat.zero_le _) start
  · intro j above le
    exact Nat.lt_of_not_le (Nat.findGreatest_is_greatest (P := P) above le)

/-- The element at each level of depth is the one that was last entered there. -/
theorem exists_isOpen {actions : List Action} {d : Nat} (lt : d < (after actions).opened.length) :
    ∃ i tag, IsOpen actions i tag ∧ depthAt actions i = d := by
  obtain ⟨i, i_le, low, high⟩ := exists_last_depthAt_le actions d
  have i_lt : i < actions.length := by
    refine Nat.lt_of_le_of_ne i_le fun eq => ?_
    rw [eq, depthAt_length] at low
    omega
  have next :
      depthAt actions (i + 1) = ((after (actions.take i)).act actions[i]).opened.length := by
    rw [depthAt, List.take_succ_eq_append_getElem i_lt, after_append]
    rfl
  have rises : d < depthAt actions (i + 1) := high (i + 1) (Nat.lt_succ_self i) i_lt
  rcases length_opened_act (after (actions.take i)) actions[i] with ⟨tag, entered, depth⟩ | stays
  · have here : depthAt actions i = d := by
      rw [next, depth] at rises
      have : depthAt actions i = (after (actions.take i)).opened.length := rfl
      omega
    refine ⟨i, tag, ⟨?_, ?_⟩, here⟩
    · rw [List.getElem?_eq_getElem i_lt, entered]
    · rw [here]
      exact high
  · rw [next] at rises
    exact absurd (Nat.le_trans stays low) (Nat.not_le_of_lt rises)

/-! ### Inside an element -/

/-- A document that is being built inside an open element of another one. -/
def within (o : OpenTags) (tag : String) (inside : OpenTags) : OpenTags :=
  ⟨inside.opened ++ ⟨tag, inside.done⟩ :: o.opened, o.done⟩

variable {o inside : OpenTags} {tag name : String}

theorem push_within (o : OpenTags) (tag : String) (inside : OpenTags) (d : Dom) :
    (o.within tag inside).push d = o.within tag (inside.push d) := by
  obtain ⟨opened, done⟩ := inside
  cases opened <;> rfl

theorem closeOne_within (ne : inside.opened ≠ []) :
    (o.within tag inside).closeOne = o.within tag inside.closeOne := by
  obtain ⟨opened, done⟩ := inside
  cases opened with
  | nil => exact absurd rfl ne
  | cons inner outer => exact push_within o tag ⟨outer, done⟩ _

theorem closeMany_within {n : Nat} (le : n ≤ inside.opened.length) :
    (o.within tag inside).closeMany n = o.within tag (inside.closeMany n) := by
  induction n generalizing inside with
  | zero => rfl
  | succ n ih =>
    have ne : inside.opened ≠ [] := List.ne_nil_of_length_pos (by omega)
    rw [closeMany, closeOne_within ne, ih (by rw [length_opened_closeOne]; omega)]
    rfl

theorem closeMany_add (o : OpenTags) (m n : Nat) :
    o.closeMany (m + n) = (o.closeMany m).closeMany n := by
  induction m generalizing o with
  | zero => rw [Nat.zero_add, closeMany]
  | succ m ih => rw [Nat.succ_add, closeMany, ih, closeMany]

/-- The elements that a name closes, if any. -/
theorem close_eq (o : OpenTags) (name : String) :
    o.close name = ((o.opened.findIdx? fun t => sameName t.tag name).map fun n =>
      o.closeMany (n + 1)).getD o := by
  rw [close]
  split <;> simp [*]

theorem findIdx?_of_unmatched {opened : List OpenTag}
    (h : ∀ t ∈ opened, sameName t.tag name = false) :
    (opened.findIdx? fun t => sameName t.tag name) = none :=
  List.findIdx?_eq_none_iff.2 h

theorem close_of_unmatched (h : ∀ t ∈ o.opened, sameName t.tag name = false) :
    o.close name = o := by
  rw [close_eq, findIdx?_of_unmatched h]
  rfl

/-- A name closes elements inside of an open element only, or that element too. -/
theorem close_within (o : OpenTags) (tag : String) (inside : OpenTags) (name : String) :
    (o.within tag inside).close name = o.within tag (inside.close name) ∨
      ((o.within tag inside).close name).opened.length ≤ o.opened.length := by
  have search : ((o.within tag inside).opened.findIdx? fun t => sameName t.tag name) =
      (inside.opened.findIdx? fun t => sameName t.tag name).or
        (((⟨tag, inside.done⟩ :: o.opened).findIdx? fun t => sameName t.tag name).map
          (· + inside.opened.length)) :=
    List.findIdx?_append
  rw [close_eq, search]
  cases found : inside.opened.findIdx? fun t => sameName t.tag name with
  | some n =>
    have lt : n < inside.opened.length := (List.findIdx?_eq_some_iff_findIdx_eq.1 found).1
    rw [close_eq inside, found]
    exact .inl (closeMany_within lt)
  | none =>
    cases around : (⟨tag, inside.done⟩ :: o.opened).findIdx? fun t => sameName t.tag name with
    | none =>
      rw [close_eq inside, found]
      exact .inl rfl
    | some n =>
      refine .inr ?_
      show ((o.within tag inside).closeMany (n + inside.opened.length + 1)).opened.length ≤
        o.opened.length
      rw [length_opened_closeMany]
      have total :
          (o.within tag inside).opened.length = inside.opened.length + (o.opened.length + 1) :=
        List.length_append
      omega

theorem act_within (a : Action)
    (deep : o.opened.length < ((o.within tag inside).act a).opened.length) :
    (o.within tag inside).act a = o.within tag (inside.act a) := by
  cases a with
  | enter other => rfl
  | place node => exact push_within o tag inside node
  | leave name =>
    rcases close_within o tag inside name with same | shallow
    · exact same
    · exact absurd deep (Nat.not_lt_of_le shallow)

/-- Actions that never come back to the depth of an element are done inside it. -/
theorem run_within {actions : List Action}
    (deep : ∀ part, part <+: actions →
      o.opened.length < ((o.within tag inside).run part).opened.length) :
    (o.within tag inside).run actions = o.within tag (inside.run actions) := by
  induction actions generalizing inside with
  | nil => rfl
  | cons a actions ih =>
    have first := deep [a] (List.prefix_append [a] actions)
    have step : (o.within tag inside).act a = o.within tag (inside.act a) := act_within a first
    rw [run_cons, step, run_cons]
    refine ih fun part starts => ?_
    rw [← step]
    exact deep (a :: part) (List.cons_prefix_cons.2 ⟨rfl, starts⟩)

/-- The document inside an element that is open is what the later actions build on their own. -/
theorem IsOpen.after_eq {actions : List Action} {i : Nat} (h : IsOpen actions i tag) :
    after actions = (after (actions.take i)).within tag (after (actions.drop (i + 1))) := by
  obtain ⟨lt, entered⟩ := List.getElem?_eq_some_iff.1 h.entered
  have upTo (n : Nat) :
      actions.take (i + 1 + n) = actions.take i ++ .enter tag :: (actions.drop (i + 1)).take n := by
    rw [List.take_add, List.take_succ_eq_append_getElem lt, entered, List.append_assoc]
    rfl
  have split : actions = actions.take i ++ .enter tag :: actions.drop (i + 1) := by
    rw [← entered, List.getElem_cons_drop, List.take_append_drop]
  have build (others : List Action) : after (actions.take i ++ .enter tag :: others) =
      ((after (actions.take i)).within tag {}).run others := after_append _ _
  conv_lhs => rw [split]
  rw [build]
  refine run_within fun part starts => ?_
  rw [← build, List.prefix_iff_eq_take.1 starts, ← upTo]
  have le := starts.length_le
  rw [List.length_drop] at le
  exact h.stays _ (by omega) (by omega)

/-! ### Leaving an element -/

theorem opened_closeMany_length (o : OpenTags) : (o.closeMany o.opened.length).opened = [] :=
  List.eq_nil_of_length_eq_zero (by rw [length_opened_closeMany, Nat.sub_self])

/-- Leaving an element puts it as a whole where it was entered. -/
theorem close_within_self (same : sameName tag name = true)
    (inner : ∀ t ∈ inside.opened, sameName t.tag name = false) :
    (o.within tag inside).close name = o.push (.element tag inside.finish) := by
  have found :
      ((o.within tag inside).opened.findIdx? fun t => sameName t.tag name) =
        some inside.opened.length := by
    rw [within, List.findIdx?_append, findIdx?_of_unmatched inner, List.findIdx?_cons, same]
    simp
  have emptied := opened_closeMany_length inside
  rw [close_eq, found]
  show (o.within tag inside).closeMany (inside.opened.length + 1) = _
  rw [closeMany_add, closeMany_within (Nat.le_refl _), within, emptied]
  rfl

/-! ### Which elements stay open -/

/-- The innermost open element of a name. -/
structure IsInnermost (actions : List Action) (name : String) (i : Nat) (tag : String) : Prop where
  isOpen : IsOpen actions i tag
  same : sameName tag name = true
  inner : ∀ k other, i < k → IsOpen actions k other → sameName other name = false

variable {actions : List Action} {other : String} {i k : Nat}

theorem IsOpen.opened_eq (h : IsOpen actions i tag) :
    (after actions).opened = (after (actions.drop (i + 1))).opened ++
      ⟨tag, (after (actions.drop (i + 1))).done⟩ :: (after (actions.take i)).opened := by
  rw [h.after_eq]
  rfl

/-- An open element that was entered later lies inside. -/
theorem IsOpen.exists_mem_inside (h : IsOpen actions i tag) (h' : IsOpen actions k other)
    (lt : i < k) : ∃ t ∈ (after (actions.drop (i + 1))).opened, t.tag = other := by
  have deeper : (after (actions.take i)).opened.length < (after (actions.take k)).opened.length :=
    h.stays k lt (Nat.le_of_lt h'.lt_length)
  have levels := h.opened_eq.symm.trans h'.opened_eq
  rcases List.append_eq_append_iff.1 levels with ⟨between, -, rest⟩ | ⟨between, inside, rest⟩
  · have lengths := congrArg List.length rest
    simp only [List.length_cons, List.length_append] at lengths
    omega
  · cases between with
    | nil =>
      have lengths := congrArg List.length rest
      simp only [List.nil_append, List.length_cons] at lengths
      omega
    | cons t between =>
      rw [List.cons_append, List.cons.injEq] at rest
      refine ⟨t, ?_, by rw [← rest.1]⟩
      rw [inside]
      exact List.mem_append_right _ List.mem_cons_self

/-- The innermost element of a name was entered by an action, and nothing inside it has the name. -/
theorem exists_isInnermost (matched : ∃ t ∈ (after actions).opened, sameName t.tag name = true) :
    ∃ i tag, IsInnermost actions name i tag ∧
      ∀ t ∈ (after (actions.drop (i + 1))).opened, sameName t.tag name = false := by
  have isSome := List.find?_isSome.2 matched
  obtain ⟨t, found⟩ := Option.isSome_iff_exists.1 isSome
  obtain ⟨same, inner, outer, levels, unmatched⟩ := List.find?_eq_some_iff_append.1 found
  have lt : outer.length < (after actions).opened.length := by
    rw [levels, List.length_append, List.length_cons]
    omega
  obtain ⟨i, tag, isOpen, depth⟩ := exists_isOpen lt
  have outside : (t :: outer).length = (⟨tag, (after (actions.drop (i + 1))).done⟩ ::
      (after (actions.take i)).opened).length := by
    rw [List.length_cons, List.length_cons]
    exact congrArg (· + 1) depth.symm
  obtain ⟨inside, rest⟩ := List.append_inj' (levels.symm.trans isOpen.opened_eq) outside
  have tagged : t.tag = tag := by rw [(List.cons.inj rest).1]
  have free : ∀ t ∈ (after (actions.drop (i + 1))).opened, sameName t.tag name = false := by
    intro t mem
    rw [← inside] at mem
    simpa using unmatched t mem
  refine ⟨i, tag, ⟨isOpen, tagged ▸ same, ?_⟩, free⟩
  intro k other lt isOther
  obtain ⟨t, mem, rfl⟩ := isOpen.exists_mem_inside isOther lt
  exact free t mem

/-- What is open at the end was open before. -/
theorem IsOpen.take (h : IsOpen actions k tag) (lt : k < i) : IsOpen (actions.take i) k tag := by
  refine ⟨?_, ?_⟩
  · rw [List.getElem?_take_of_lt lt, h.entered]
  · intro j k_lt le
    rw [List.length_take] at le
    rw [depthAt_take (by omega), depthAt_take (by omega)]
    exact h.stays j k_lt (by omega)

/-- What is open at some time stays open as long as the depth is not below the one of that time. -/
theorem IsOpen.of_take (h : IsOpen (actions.take i) k tag)
    (deep : ∀ j, i < j → j ≤ actions.length → depthAt actions i ≤ depthAt actions j) :
    IsOpen actions k tag := by
  have before : k < i := Nat.lt_of_lt_of_le h.lt_length (List.length_take_le i actions)
  have upTo : ∀ j, k < j → j ≤ i → j ≤ actions.length → depthAt actions k < depthAt actions j := by
    intro j k_lt le le_length
    have rises := h.stays j k_lt (by rw [List.length_take]; omega)
    rwa [depthAt_take (by omega), depthAt_take le] at rises
  refine ⟨?_, ?_⟩
  · rw [← List.getElem?_take_of_lt before, h.entered]
  · intro j k_lt le
    rcases Nat.lt_or_ge i j with later | earlier
    · exact Nat.lt_of_lt_of_le (upTo i before (Nat.le_refl i) (by omega)) (deep j later le)
    · exact upTo j k_lt earlier le

/-- An action that leads back to where an element was entered leaves open what was open then. -/
theorem isOpen_concat_iff (h : IsOpen actions i tag) {a : Action}
    (back : (after (actions ++ [a])).opened.length = depthAt actions i) :
    IsOpen (actions ++ [a]) k other ↔ IsOpen (actions.take i) k other := by
  have i_le : i ≤ actions.length := Nat.le_of_lt h.lt_length
  have deep :
      ∀ j, i < j → j ≤ (actions ++ [a]).length →
        depthAt (actions ++ [a]) i ≤ depthAt (actions ++ [a]) j := by
    intro j lt le
    rw [depthAt_append i_le]
    rcases Nat.lt_or_ge actions.length j with beyond | inside
    · have last : j = (actions ++ [a]).length := by
        rw [List.length_append, List.length_singleton] at le ⊢
        omega
      rw [last, depthAt_length, back]
    · rw [depthAt_append inside]
      exact Nat.le_of_lt (h.stays j lt inside)
  have start : (actions ++ [a]).take i = actions.take i := List.take_append_of_le_length i_le
  rw [← start]
  constructor
  · intro isOpen
    have below := isOpen.stays _ isOpen.lt_length (Nat.le_refl _)
    rw [depthAt_length, back, ← depthAt_append i_le [a]] at below
    -- an element entered later lies at least as deep as the end
    refine isOpen.take (Nat.lt_of_not_le fun le => ?_)
    rcases Nat.eq_or_lt_of_le le with rfl | lt
    · exact Nat.lt_irrefl _ below
    · exact Nat.not_lt_of_le (deep k lt (Nat.le_of_lt isOpen.lt_length)) below
  · intro isOpen
    exact isOpen.of_take deep

end OpenTags

end CodeAtlas.Html
