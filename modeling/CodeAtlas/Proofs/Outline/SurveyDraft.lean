import CodeAtlas.Proofs.Outline.Draft
import CodeAtlas.Proofs.Outline.Survey
import Mathlib.Data.List.Forall2

/-!
# Drafts along a survey

The drawings of a tree are made by different walks. A survey of the tree goes along with each of
them: the draft of the advanced drawing has an entry for every sight, and that of a simple one an
entry for every sight that is shown. What an entry hangs below can be read off the notes of its
sight.

In the conceptual drawings of scripts and of Python everything hangs below the nearest node shown
above it. Java is looser. Nothing links a class to what it is declared in, and a method hangs below
the innermost class even where other methods stand between. Still, an entry hangs below one whose
node stands above.
-/

namespace CodeAtlas

open Sight (shown)

/-- The anchor of what hangs below the entry of that number. Without one it hangs below what the
draft is attached to, if that is anything. -/
def Anchor.below (attached : Bool) : Option Nat → Anchor
  | some k => .entry k
  | none => if attached then .outer else .loose

theorem Anchor.below_eq_entry_iff {attached : Bool} {o : Option Nat} {k : Nat} :
    Anchor.below attached o = .entry k ↔ o = some k := by
  cases o <;> cases attached <;> simp [Anchor.below]

theorem Anchor.below_eq_loose_iff {o : Option Nat} : Anchor.below false o = .loose ↔ o = none := by
  cases o <;> simp [Anchor.below]

namespace Sight

variable {α : Type}

/-- An entry of the advanced drawing. -/
structure IsDrawn (label : α → String) (x : Sight α) (e : Entry) : Prop where
  label : e.label = label x.value
  anchor : e.anchor = .below true (x.above.head?.map (·.index))

/-- An entry of a simple drawing in which everything hangs below the nearest node shown above it. -/
structure IsContracted (concept : α → Option (String × Bool)) (x : Sight α) (e : Entry) : Prop where
  label : ∃ highlighted, concept x.value = some (e.label, highlighted)
  anchor : e.anchor = .below true x.numbers.head?
  depth : e.hint.depth = x.numbers.length

end Sight

namespace Rose

variable {σ α : Type}

mutual

/-- Where nothing is ever shown, a survey shows nothing. -/
theorem shown_survey_eq_nil {r : Selection σ α} {state : σ} (hidden : ∀ v, r.shows state v = false)
    (kept : ∀ v child, r.pass state v child = state) (above : List Mark) (next number : Nat) :
    (t : Rose α) → shown (t.survey r state above next number) = []
  | .node v ts => by
    have rest := shown_surveyAll_eq_nil hidden kept (r.pass state v) (kept v)
      (⟨next, none⟩ :: above) (next + 1) number ts
    simpa [survey, shown, Selection.mark, hidden, Sight.path] using rest

theorem shown_surveyAll_eq_nil {r : Selection σ α} {state : σ}
    (hidden : ∀ v, r.shows state v = false) (kept : ∀ v child, r.pass state v child = state)
    (pass : α → σ) (same : ∀ child, pass child = state) (above : List Mark) (next number : Nat) :
    (ts : List (Rose α)) → shown (surveyAll r pass above next number ts) = []
  | [] => rfl
  | t :: ts => by
    rw [surveyAll, Sight.shown_append, same, shown_survey_eq_nil hidden kept _ _ _ t,
      shown_surveyAll_eq_nil hidden kept pass same _ _ _ ts, List.append_nil]

end

mutual

theorem isDrawn_draft (r : Selection σ α) (label : α → String) (state : σ) (above : List Mark)
    (depth place next number : Nat) :
    (t : Rose α) → List.Forall₂ (Sight.IsDrawn label) (t.survey r state above next number)
      ((t.itemize label place).draft depth (.below true (above.head?.map (·.index))) next)
  | .node v ts => by
    rw [survey, itemize, draft]
    exact .cons ⟨rfl, rfl⟩ (isDrawn_draftAll r label _ (Sight.path ⟨v, _, above⟩) ..)

theorem isDrawn_draftAll (r : Selection σ α) (label : α → String) (pass : α → σ) (above : List Mark)
    (depth place next number : Nat) :
    (ts : List (Rose α)) →
      List.Forall₂ (Sight.IsDrawn label) (surveyAll r pass above next number ts)
        (draftAll depth (.below true (above.head?.map (·.index))) next (itemizeAll label place ts))
  | [] => .nil
  | t :: ts => by
    have first := isDrawn_draft r label (pass t.value) above depth place next number t
    rw [surveyAll, itemizeAll, draftAll]
    refine List.rel_append first ?_
    rw [← first.length_eq]
    exact isDrawn_draftAll r label pass above depth (place + 1) _ _ ts

end

theorem draftAll_append (depth : Nat) (anchor : Anchor) (next : Nat) (a b : List (Rose Item)) :
    draftAll depth anchor next (a ++ b) =
      draftAll depth anchor next a ++
        draftAll depth anchor (next + (draftAll depth anchor next a).length) b := by
  induction a generalizing next with
  | nil => simp [draftAll]
  | cons t a ih => simp [draftAll, ih, Nat.add_assoc]

/-- What a conceptual drawing shows: the concepts that are visited. The state says whether a node
is. -/
def ConceptRules.selection (r : ConceptRules α) : Selection Bool α where
  shows visited v := visited && (r.concept v).isSome
  pass visited v child := visited && r.visits v child

mutual

theorem isContracted_concepts (r : ConceptRules α) (above : List Mark) (place next number : Nat) :
    (t : Rose α) → List.Forall₂ (Sight.IsContracted r.concept)
      (shown (t.survey r.selection true above next number))
      (draftAll (Mark.numbers above).length (.below true (Mark.numbers above).head?) number
        (t.concepts r place))
  | .node v ts => by
    rw [survey, concepts]
    cases concept : r.concept v with
    | none =>
      have rest := isContracted_conceptsAll r (r.visits v) (⟨next, none⟩ :: above)
        (if r.inPlace v then place else 0) (next + 1) number ts
      simpa [shown, Selection.mark, ConceptRules.selection, concept, Sight.path] using rest
    | some c =>
      obtain ⟨label, highlighted⟩ := c
      have rest := isContracted_conceptsAll r (r.visits v) (⟨next, some number⟩ :: above)
        (if r.inPlace v then place else 0) (next + 1) (number + 1) ts
      have own : Sight.IsContracted r.concept ⟨v, ⟨next, some number⟩, above⟩
          ⟨label, Item.role ⟨label, highlighted, place⟩ (Mark.numbers above).length,
            ⟨(Mark.numbers above).length, place⟩, .below true (Mark.numbers above).head?⟩ :=
        ⟨⟨highlighted, concept⟩, rfl, rfl⟩
      simpa [shown, Selection.mark, ConceptRules.selection, concept, Sight.path, draftAll,
        draft] using
        ⟨own, rest⟩

theorem isContracted_conceptsAll (r : ConceptRules α) (visited : α → Bool) (above : List Mark)
    (place next number : Nat) :
    (ts : List (Rose α)) → List.Forall₂ (Sight.IsContracted r.concept)
      (shown (surveyAll r.selection visited above next number ts))
      (draftAll (Mark.numbers above).length (.below true (Mark.numbers above).head?) number
        (conceptsAll r visited place ts))
  | [] => .nil
  | t :: ts => by
    rw [surveyAll, conceptsAll, Sight.shown_append]
    cases visit : visited t.value with
    | false =>
      have hidden (v : α) : r.selection.shows false v = false := rfl
      have first := shown_survey_eq_nil hidden (fun _ _ => rfl) above next number t
      simpa [first] using isContracted_conceptsAll r visited above place _ number ts
    | true =>
      have first := isContracted_concepts r above place next number t
      rw [if_pos rfl, draftAll_append]
      refine List.rel_append first ?_
      rw [← first.length_eq]
      exact isContracted_conceptsAll r visited above (place + 1) _ _ ts

end

end Rose

namespace Java

def Concept.label : Concept → String
  | .classDeclaration label | .field label | .method label | .variable label | .call label => label

/-- An entry of the conceptual drawing. It hangs below a node shown above it, if below any. -/
structure IsListed (x : Sight Json) (e : Entry) : Prop where
  label : (concept? x.value).map Concept.label = some e.label
  anchor : ∀ k, e.anchor = .entry k → k ∈ x.numbers

/-- What the conceptual drawing shows. The state says whether a node is inside a class, and is
`none` where nodes are not visited. -/
def selection : Selection (Option Bool) Json where
  shows state v :=
    match state, concept? v with
    | some _, some (.classDeclaration _) => true
    | some inClass, some _ => inClass
    | _, _ => false
  pass state v _ :=
    match state, concept? v with
    | some _, some (.classDeclaration _) => some true
    | some true, some (.field _) | some true, some (.variable _) | some true, some (.call _) => none
    | state, _ => state

/-- The surroundings of a node below shown nodes of these numbers. -/
def Scope.Fits (numbers : List Nat) : Bool → Scope → Prop
  | false, s => s.enclosingClass = none ∧ s.enclosing = .loose
  | true, s => ∃ k ∈ numbers, s.enclosingClass = some k ∧ ∃ j ∈ numbers, s.enclosing = .entry j

theorem Scope.Fits.of_enclosingClass {numbers : List Nat} {inClass : Bool} {s : Scope} {k : Nat}
    (h : s.Fits numbers inClass) (inside : s.enclosingClass = some k) :
    inClass = true ∧ k ∈ numbers := by
  cases inClass with
  | false => simp [h.1] at inside
  | true =>
    obtain ⟨k', member, inside', -⟩ := h
    obtain rfl := Option.some.inj (inside.symm.trans inside')
    exact ⟨rfl, member⟩

theorem Scope.Fits.of_enclosing {numbers : List Nat} {inClass : Bool} {s : Scope}
    (h : s.Fits numbers inClass) (attached : s.enclosing ≠ .loose) :
    inClass = true ∧ ∃ j ∈ numbers, s.enclosing = .entry j := by
  cases inClass with
  | false => exact absurd h.2 attached
  | true =>
    obtain ⟨-, -, -, enclosing⟩ := h
    exact ⟨rfl, enclosing⟩

theorem isListed_own {inClass : Bool} {v : Json} {c : Concept} {above : List Mark} {e : Entry}
    (shows : selection.shows (some inClass) v = true) (means : concept? v = some c)
    (label : c.label = e.label) (anchor : ∀ k, e.anchor = .entry k → k ∈ Mark.numbers above)
    (index next : Nat) :
    List.Forall₂ IsListed (shown [⟨v, selection.mark (some inClass) v index next, above⟩]) [e] := by
  have listed : IsListed ⟨v, ⟨index, some next⟩, above⟩ e := ⟨by simp [means, label], anchor⟩
  simpa [shown, Selection.mark, shows] using listed

/-- One node of the walk and one step of the survey. -/
theorem Visited.fits {scope : Scope} {place classes next : Nat} {v : Json} {seen : Visit}
    (h : Visited scope place classes next v seen) {above : List Mark} {inClass : Bool}
    (fits : scope.Fits (Mark.numbers above) inClass) (index : Nat) :
    let own : Sight Json := ⟨v, selection.mark (some inClass) v index next, above⟩
    List.Forall₂ IsListed (shown [own]) seen.entry.toList ∧
      match seen.inner with
      | none => ∀ child, selection.pass (some inClass) v child = none
      | some inner => ∃ inClass', inner.Fits (Mark.numbers own.path) inClass' ∧
          ∀ child, selection.pass (some inClass) v child = some inClass' := by
  cases h with
  | classDeclaration label means =>
    have shows : selection.shows (some inClass) v = true := by simp [selection, means]
    refine ⟨isListed_own shows means rfl (by simp) index next, true, ?_, by simp [selection, means]⟩
    simp [Scope.Fits, Sight.path, Selection.mark, shows]
  | field label k means inside =>
    obtain ⟨rfl, member⟩ := fits.of_enclosingClass inside
    have shows : selection.shows (some true) v = true := by simp [selection, means]
    exact ⟨isListed_own shows means rfl (by simpa using member) index next,
      by simp [selection, means]⟩
  | method label k means inside =>
    obtain ⟨rfl, member⟩ := fits.of_enclosingClass inside
    have shows : selection.shows (some true) v = true := by simp [selection, means]
    refine ⟨isListed_own shows means rfl (by simpa using member) index next, true, ?_,
      by simp [selection, means]⟩
    simp [Scope.Fits, Sight.path, Selection.mark, shows, member]
  | leaf label means attached =>
    obtain ⟨rfl, j, member, enclosing⟩ := fits.of_enclosing attached
    rw [enclosing]
    rcases means with means | means
    all_goals
      have shows : selection.shows (some true) v = true := by simp [selection, means]
      exact ⟨isListed_own shows means rfl (by simpa using member) index next,
        by simp [selection, means]⟩
  | through hidden =>
    -- Inside a class every concept is shown, outside only classes are.
    have kept : selection.shows (some inClass) v = false ∧
        ∀ child, selection.pass (some inClass) v child = some inClass := by
      cases means : concept? v with
      | none => simp [selection, means]
      | some c =>
        have hidden := hidden c means
        cases inClass with
        | false => cases c <;> simp_all [selection, Concept.HiddenIn]
        | true =>
          obtain ⟨k, -, inside, j, -, enclosing⟩ := fits
          cases c <;> simp [Concept.HiddenIn, inside, enclosing] at hidden
    obtain ⟨shows, pass⟩ := kept
    refine ⟨by simp [shown, Selection.mark, shows], inClass, ?_, pass⟩
    simpa [Sight.path, Selection.mark, shows] using fits

mutual

theorem isListed_entries {scope : Scope} {above : List Mark} {inClass : Bool}
    (fits : scope.Fits (Mark.numbers above) inClass) (place classes index next : Nat) :
    (t : Rose Json) → List.Forall₂ IsListed
      (shown (t.survey selection (some inClass) above index next))
      (entries scope place classes next t).1
  | .node v ts => by
    obtain ⟨own, below⟩ := (visited scope place classes next v).fits fits index
    rw [Rose.survey, entries, ← List.singleton_append, Sight.shown_append]
    cases seen : (visit scope place classes next v).inner with
    | none =>
      rw [seen] at below
      have hidden (v : Json) : selection.shows none v = false := by simp [selection]
      have kept (v child : Json) : selection.pass none v child = none := by simp [selection]
      rw [Rose.shown_surveyAll_eq_nil hidden kept _ below, List.append_nil]
      exact own
    | some inner =>
      rw [seen] at below
      obtain ⟨inClass', fits', pass⟩ := below
      refine List.rel_append own ?_
      rw [own.length_eq]
      exact isListed_entriesOfAll fits' pass _ _ _ _ ts

theorem isListed_entriesOfAll {scope : Scope} {above : List Mark} {inClass : Bool}
    (fits : scope.Fits (Mark.numbers above) inClass) {pass : Json → Option Bool}
    (inside : ∀ child, pass child = some inClass) (place classes index next : Nat) :
    (ts : List (Rose Json)) → List.Forall₂ IsListed
      (shown (Rose.surveyAll selection pass above index next ts))
      (entriesOfAll scope place classes next ts).1
  | [] => .nil
  | t :: ts => by
    have first := isListed_entries fits place classes index next t
    rw [Rose.surveyAll, entriesOfAll, Sight.shown_append, inside]
    refine List.rel_append first ?_
    rw [first.length_eq]
    exact isListed_entriesOfAll fits inside _ _ _ _ ts

end

end Java

end CodeAtlas
