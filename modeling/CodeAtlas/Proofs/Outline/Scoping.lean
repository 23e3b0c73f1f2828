import CodeAtlas.Proofs.Outline.Enclosure
import CodeAtlas.Proofs.Outline.Unfolding

/-!
# Scopes in Java drawings

The conceptual drawing of a Java file is made in one walk that carries the surroundings of a node
down and the number of classes back up. This module says what comes of the walk without following
it, by the addresses of the nodes that are shown: which nodes they are, which of them a node hangs
below, and where classes stand.

Whether a node is shown depends on the shown nodes that enclose it, and so does the scope that the
walk comes with. So the walk is compared with a survey of the tree for which it is known what the
shown nodes mean: the surroundings of a node are then the first class and the first class or method
noted with it.
-/

namespace CodeAtlas

namespace Java

namespace Concept

def isClass : Concept → Bool
  | .classDeclaration _ => true
  | .field _ | .method _ | .variable _ | .call _ => false

/-- Declared by a class. -/
def isMember : Concept → Bool
  | .field _ | .method _ => true
  | .classDeclaration _ | .variable _ | .call _ => false

/-- Surrounds the variables and calls in its body. -/
def isOwner : Concept → Bool
  | .classDeclaration _ | .method _ => true
  | .field _ | .variable _ | .call _ => false

/-- Hides all that it encloses. -/
def isLeaf : Concept → Bool
  | .field _ | .variable _ | .call _ => true
  | .classDeclaration _ | .method _ => false

/-- What a concept that is no class hangs below. -/
def hangsBelow (c : Concept) : Concept → Bool := if c.isMember then isClass else isOwner

def role (c : Concept) : Role := if c.isClass then .input else .default

end Concept

/-- The node in place `p` is the nearest of a kind that encloses the one in place `i`. -/
structure IsNearest {n : Nat} (site : Fin n → List Nat) (concept : Fin n → Concept)
    (kind : Concept → Bool) (p i : Fin n) : Prop where
  kind_eq : kind (concept p) = true
  encloses : Encloses (site p) (site i)
  nearest :
    ∀ q, kind (concept q) = true → Encloses (site q) (site i) → q = p ∨ Encloses (site q) (site p)

/-- A drawing of the nodes of `t` at the addresses `site`, which mean what `concept` says. -/
structure IsScoped (t : Rose Json) (g : Graph) (site : Fin g.nodes.length → List Nat)
    (concept : Fin g.nodes.length → Concept) : Prop where
  means : ∀ i, ∃ v, (site i, v) ∈ t.visits ∧ concept? v = some (concept i)
  label_eq : ∀ i, (g.nodes.get i).label = (concept i).label
  ordered : ∀ i j, i < j → t.addresses.idxOf (site i) < t.addresses.idxOf (site j)
  /-- Classes are shown, and the rest inside of classes, unless a field, a variable or a call
  encloses it. -/
  shown_iff : ∀ address v c, (address, v) ∈ t.visits → concept? v = some c →
    ((∃ i, site i = address) ↔
      (c.isClass = true ∨ ∃ p, (concept p).isClass = true ∧ Encloses (site p) address) ∧
        ¬ ∃ p, (concept p).isLeaf = true ∧ Encloses (site p) address)
  inside :
    ∀ i, (concept i).isClass = false → ∃ p, (concept p).isClass = true ∧ Encloses (site p) (site i)
  incoming :
    ∀ i, (g.edges.map (·.target)).count (g.nodes.get i).id = if (concept i).isClass then 0 else 1
  member_source : ∀ i, (concept i).isMember = true → ∀ e ∈ g.edges, e.target = (g.nodes.get i).id →
    ∃ p, e.source = (g.nodes.get p).id ∧ IsNearest site concept Concept.isClass p i
  body_source : ∀ i, (concept i).isClass = false → (concept i).isMember = false →
    ∀ e ∈ g.edges, e.target = (g.nodes.get i).id →
      ∃ p, e.source = (g.nodes.get p).id ∧ IsNearest site concept Concept.isOwner p i
  outgoing : ∀ i, (concept i).isLeaf = true → ∀ e ∈ g.edges, e.source ≠ (g.nodes.get i).id
  classes_in_row : ∃ k, ((List.finRange _).filter fun i => (concept i).isClass).map
    (fun i => (g.nodes.get i).layoutHint) = (List.range k).map fun column => ⟨0, column⟩

/-! ### The walk along a survey -/

open Sight (shown)

section

variable (κ : Nat → Option Concept)

/-- The first of some numbers that stands for a concept of a kind. -/
def nearest (kind : Concept → Bool) (numbers : List Nat) : Option Nat :=
  numbers.find? fun n => (κ n).any kind

/-- The state of the selection below shown nodes of these numbers. -/
def stateOf (numbers : List Nat) : Option Bool :=
  match nearest κ Concept.isLeaf numbers with
  | some _ => none
  | none => some (nearest κ Concept.isClass numbers).isSome

/-- The row below shown nodes of these numbers: that below a class, and one further down for every
method. -/
def rowBelow : List Nat → Nat
  | [] => 0
  | n :: numbers => if (κ n).any Concept.isClass then 1 else rowBelow numbers + 1

/-- The surroundings of a node below shown nodes of these numbers. -/
structure Scope.Matches (numbers : List Nat) (s : Scope) : Prop where
  enclosingClass : s.enclosingClass = nearest κ Concept.isClass numbers
  enclosing : s.enclosing = .below false (nearest κ Concept.isOwner numbers)
  isSome_eq :
    (nearest κ Concept.isOwner numbers).isSome = (nearest κ Concept.isClass numbers).isSome
  visible : nearest κ Concept.isLeaf numbers = none
  depth : s.depth = rowBelow κ numbers

/-- An entry of the conceptual drawing, made of a node with that meaning. -/
structure IsPlaced (c : Concept) (x : Sight Json) (e : Entry) : Prop where
  means : concept? x.value = some c
  label : e.label = c.label
  kind : e.kind = c.role
  loose : c.isClass = true → e.anchor = .loose
  anchor : c.isClass = false → ∃ k, nearest κ c.hangsBelow x.numbers = some k ∧ e.anchor = .entry k
  depth : e.hint.depth = if c.isClass then 0 else rowBelow κ x.numbers

end

variable {κ : Nat → Option Concept}

theorem nearest_cons (kind : Concept → Bool) {n : Nat} (numbers : List Nat) {c : Concept}
    (h : κ n = some c) :
    nearest κ kind (n :: numbers) = if kind c then some n else nearest κ kind numbers := by
  cases own : kind c <;> simp [nearest, h, own]

theorem rowBelow_cons {n : Nat} (numbers : List Nat) {c : Concept} (h : κ n = some c) :
    rowBelow κ (n :: numbers) = if c.isClass then 1 else rowBelow κ numbers + 1 := by
  rw [rowBelow, h, Option.any_some]

theorem isSome_nearest_iff (kind : Concept → Bool) (numbers : List Nat) :
    (nearest κ kind numbers).isSome = true ↔ ∃ n ∈ numbers, ∃ c, κ n = some c ∧ kind c = true := by
  simp [nearest, Option.any_eq_true]

theorem stateOf_leaf_cons {n : Nat} (numbers : List Nat) {c : Concept} (h : κ n = some c)
    (leaf : c.isLeaf = true) : stateOf κ (n :: numbers) = none := by
  rw [stateOf, nearest_cons _ _ h, if_pos leaf]

/-- The numbers of shown nodes stand for what the nodes mean. -/
def Means (κ : Nat → Option Concept) (l : List (Sight Json)) : Prop :=
  ∀ x ∈ l, ∀ n, x.mark.number = some n → κ n = concept? x.value

theorem Means.left {l l' : List (Sight Json)} (h : Means κ (l ++ l')) : Means κ l :=
  fun x hx => h x (List.mem_append_left _ hx)

theorem Means.right {l l' : List (Sight Json)} (h : Means κ (l ++ l')) : Means κ l' :=
  fun x hx => h x (List.mem_append_right _ hx)

theorem shows_eq {v : Json} {c : Concept} (numbers : List Nat) (means : concept? v = some c) :
    selection.shows (stateOf κ numbers) v =
      ((c.isClass || (nearest κ Concept.isClass numbers).isSome) &&
        (nearest κ Concept.isLeaf numbers).isNone) := by
  unfold stateOf
  cases nearest κ Concept.isLeaf numbers <;> cases c <;> simp [selection, means, Concept.isClass]

theorem shows_of_visible {v : Json} {c : Concept} {numbers : List Nat} (means : concept? v = some c)
    (visible : nearest κ Concept.isLeaf numbers = none)
    (inside : c.isClass = true ∨ (nearest κ Concept.isClass numbers).isSome = true) :
    selection.shows (stateOf κ numbers) v = true := by
  rw [shows_eq numbers means, visible]
  simpa using inside

/-- What is passed down from a node is the state below it. -/
theorem pass_eq {above : List Mark} {v : Json} {index next : Nat}
    (h : ∀ n, (selection.mark (stateOf κ (Mark.numbers above)) v index next).number = some n →
      κ n = concept? v) (child : Json) :
    selection.pass (stateOf κ (Mark.numbers above)) v child =
      stateOf κ
        (Mark.numbers (selection.mark (stateOf κ (Mark.numbers above)) v index next :: above)) := by
  cases shows : selection.shows (stateOf κ (Mark.numbers above)) v with
  | false =>
    simp only [Selection.mark, shows, Mark.numbers_hidden, Bool.false_eq_true, if_false]
    generalize stateOf κ (Mark.numbers above) = state at shows
    cases means : concept? v with
    | none => simp [selection, means]
    | some c => rcases state with _ | _ | _ <;> cases c <;> simp_all [selection]
  | true =>
    simp only [Selection.mark, shows, if_true, Option.some.injEq, forall_eq'] at h
    simp only [Selection.mark, shows, Mark.numbers_shown, if_true]
    cases means : concept? v with
    | none => simp [selection, means] at shows
    | some c =>
      rw [means] at h
      rw [shows_eq _ means, Bool.and_eq_true, Option.isNone_iff_eq_none] at shows
      obtain ⟨inside, visible⟩ := shows
      simp only [stateOf, visible, nearest_cons _ _ h]
      cases c <;> simp_all [selection, Concept.isLeaf, Concept.isClass]

theorem isPlaced_own {above : List Mark} {state : Option Bool} {v : Json} {c : Concept} {e : Entry}
    (shows : selection.shows state v = true) (index next : Nat)
    (placed : IsPlaced κ c ⟨v, ⟨index, some next⟩, above⟩ e) :
    List.Forall₂ (fun x e => ∃ c, IsPlaced κ c x e)
      (shown [⟨v, selection.mark state v index next, above⟩]) [e] := by
  simpa [shown, Selection.mark, shows] using ⟨c, placed⟩

/-- A node that is shown is the first noted with what it encloses. -/
theorem numbers_own (above : List Mark) {state : Option Bool} {v : Json} {c : Concept}
    {index next : Nat} (shows : selection.shows state v = true) (means : concept? v = some c)
    (known : ∀ n, (selection.mark state v index next).number = some n → κ n = concept? v) :
    κ next = some c ∧
      Mark.numbers (selection.mark state v index next :: above) = next :: Mark.numbers above := by
  simp only [Selection.mark, shows, if_true, Option.some.injEq, forall_eq',
    Mark.numbers_shown, and_true]
    at known ⊢
  rw [known, means]

namespace Scope.Matches

variable {numbers : List Nat} {s : Scope}

theorem enterClass (fits : s.Matches κ numbers) {n : Nat} {label : String}
    (h : κ n = some (.classDeclaration label)) :
    Scope.Matches κ (n :: numbers) ⟨some n, .entry n, 1⟩ := by
  constructor <;>
    simp [nearest_cons _ _ h, rowBelow_cons _ h, Concept.isClass, Concept.isOwner, Concept.isLeaf,
      Anchor.below, fits.visible]

theorem enterMethod (fits : s.Matches κ numbers) {n k : Nat} {label : String}
    (inside : nearest κ Concept.isClass numbers = some k) (h : κ n = some (.method label)) :
    Scope.Matches κ (n :: numbers) ⟨some k, .entry n, s.depth + 1⟩ := by
  constructor <;>
    simp [nearest_cons _ _ h, rowBelow_cons _ h, Concept.isClass, Concept.isOwner, Concept.isLeaf,
      Anchor.below, inside, fits.visible, fits.depth]

theorem exists_owner (fits : s.Matches κ numbers) (attached : s.enclosing ≠ .loose) :
    ∃ j, nearest κ Concept.isOwner numbers = some j ∧ s.enclosing = .entry j ∧
      (nearest κ Concept.isClass numbers).isSome = true := by
  cases owner : nearest κ Concept.isOwner numbers with
  | none => exact absurd (fits.enclosing.trans (Anchor.below_eq_loose_iff.2 owner)) attached
  | some j =>
    refine ⟨j, rfl, fits.enclosing.trans (Anchor.below_eq_entry_iff.2 owner), ?_⟩
    rw [← fits.isSome_eq, owner]
    rfl

/-- What the surroundings hide is outside of all classes. -/
theorem shows_of_hidden (fits : s.Matches κ numbers) {v : Json}
    (hidden : ∀ c, concept? v = some c → c.HiddenIn s) :
    selection.shows (stateOf κ numbers) v = false := by
  cases means : concept? v with
  | none => simp [selection, means]
  | some c =>
    have hidden := hidden c means
    have outside : nearest κ Concept.isClass numbers = none ∧ c.isClass = false := by
      cases c with
      | classDeclaration label => exact hidden.elim
      | field label | method label => exact ⟨fits.enclosingClass.symm.trans hidden, rfl⟩
      | «variable» label | call label =>
        have owner := Anchor.below_eq_loose_iff.1 (fits.enclosing.symm.trans hidden)
        have isSome_eq := fits.isSome_eq
        rw [owner, Option.isSome_none, eq_comm, Option.isSome_eq_false_iff] at isSome_eq
        exact ⟨Option.isNone_iff_eq_none.1 isSome_eq, rfl⟩
    rw [shows_eq _ means, outside.1, outside.2]
    rfl

end Scope.Matches

/-- One node of the walk and one step of the survey. -/
theorem Visited.matches {scope : Scope} {place classes next : Nat} {v : Json} {seen : Visit}
    (h : Visited scope place classes next v seen) {above : List Mark}
    (fits : scope.Matches κ (Mark.numbers above)) (index : Nat)
    (known : ∀ n, (selection.mark (stateOf κ (Mark.numbers above)) v index next).number = some n →
      κ n = concept? v) :
    let own : Sight Json := ⟨v, selection.mark (stateOf κ (Mark.numbers above)) v index next, above⟩
    List.Forall₂ (fun x e => ∃ c, IsPlaced κ c x e) (shown [own]) seen.entry.toList ∧
      match seen.inner with
      | none => stateOf κ (Mark.numbers own.path) = none
      | some inner => inner.Matches κ (Mark.numbers own.path) := by
  simp only [Sight.path]
  cases h with
  | classDeclaration label means =>
    have shows := shows_of_visible means fits.visible (.inl rfl)
    obtain ⟨known, path⟩ := numbers_own above shows means known
    refine ⟨isPlaced_own shows index next ⟨means, rfl, rfl, fun _ => rfl,
      by simp [Concept.isClass], rfl⟩, ?_⟩
    simpa only [path] using fits.enterClass known
  | field label k means inside =>
    have inside := fits.enclosingClass.symm.trans inside
    have shows := shows_of_visible means fits.visible (.inr (by rw [inside]; rfl))
    obtain ⟨known, path⟩ := numbers_own above shows means known
    refine ⟨isPlaced_own shows index next ⟨means, rfl, rfl, by simp [Concept.isClass],
      fun _ => ⟨k, inside, rfl⟩, fits.depth⟩, ?_⟩
    simpa only [path] using stateOf_leaf_cons _ known rfl
  | method label k means inside =>
    have inside := fits.enclosingClass.symm.trans inside
    have shows := shows_of_visible means fits.visible (.inr (by rw [inside]; rfl))
    obtain ⟨known, path⟩ := numbers_own above shows means known
    refine ⟨isPlaced_own shows index next ⟨means, rfl, rfl, by simp [Concept.isClass],
      fun _ => ⟨k, inside, rfl⟩, fits.depth⟩, ?_⟩
    simpa only [path] using fits.enterMethod inside known
  | leaf label means attached =>
    obtain ⟨j, owner, enclosing, inside⟩ := fits.exists_owner attached
    rcases means with means | means
    all_goals
      have shows := shows_of_visible means fits.visible (.inr inside)
      obtain ⟨known, path⟩ := numbers_own above shows means known
      refine ⟨isPlaced_own shows index next ⟨means, rfl, rfl, by simp [Concept.isClass],
        fun _ => ⟨j, owner, enclosing⟩, fits.depth⟩, ?_⟩
      simpa only [path] using stateOf_leaf_cons _ known rfl
  | through hidden =>
    have shows := fits.shows_of_hidden hidden
    simpa [shown, Selection.mark, shows] using fits

mutual

/-- A node is shown as the shown nodes above it say. -/
theorem isSome_number_survey (above : List Mark) {index next : Nat} {x : Sight Json} :
    (t : Rose Json) →
      Means κ (t.survey selection (stateOf κ (Mark.numbers above)) above index next) →
      x ∈ t.survey selection (stateOf κ (Mark.numbers above)) above index next →
      x.mark.number.isSome = selection.shows (stateOf κ x.numbers) x.value
  | .node v ts, known, hx => by
    rw [Rose.survey] at known hx
    rcases List.mem_cons.1 hx with rfl | hx
    · simp only [Selection.mark, Sight.numbers]
      split <;> simp_all
    · have pass := pass_eq (known _ List.mem_cons_self)
      exact isSome_number_surveyAll pass ts (known.right (l := [_])) hx

theorem isSome_number_surveyAll {above : List Mark} {index next : Nat} {x : Sight Json}
    {pass : Json → Option Bool} (inside : ∀ child, pass child = stateOf κ (Mark.numbers above)) :
    (ts : List (Rose Json)) → Means κ (Rose.surveyAll selection pass above index next ts) →
      x ∈ Rose.surveyAll selection pass above index next ts →
      x.mark.number.isSome = selection.shows (stateOf κ x.numbers) x.value
  | [], _, hx => by simp [Rose.surveyAll] at hx
  | t :: ts, known, hx => by
    rw [Rose.surveyAll, inside] at known hx
    rcases List.mem_append.1 hx with hx | hx
    · exact isSome_number_survey above t known.left hx
    · exact isSome_number_surveyAll inside ts known.right hx

end

mutual

/-- The entries of the walk are the shown nodes, each where its surroundings say. -/
theorem isPlaced_entries {scope : Scope} {above : List Mark}
    (fits : scope.Matches κ (Mark.numbers above)) (place classes index next : Nat) :
    (t : Rose Json) →
      Means κ (t.survey selection (stateOf κ (Mark.numbers above)) above index next) →
      List.Forall₂ (fun x e => ∃ c, IsPlaced κ c x e)
        (shown (t.survey selection (stateOf κ (Mark.numbers above)) above index next))
        (entries scope place classes next t).1
  | .node v ts, known => by
    rw [Rose.survey] at known
    have own := known _ List.mem_cons_self
    have pass := pass_eq own
    obtain ⟨first, below⟩ := (visited scope place classes next v).matches fits index own
    rw [Rose.survey, entries, ← List.singleton_append, Sight.shown_append]
    cases seen : (visit scope place classes next v).inner with
    | none =>
      rw [seen] at below
      have hidden (v : Json) : selection.shows none v = false := by simp [selection]
      have kept (v child : Json) : selection.pass none v child = none := by simp [selection]
      rw [Rose.shown_surveyAll_eq_nil hidden kept _ (fun child => (pass child).trans below),
        List.append_nil]
      exact first
    | some inner =>
      rw [seen] at below
      refine List.rel_append first ?_
      have rest := known.right (l := [_])
      rw [first.length_eq] at rest ⊢
      exact isPlaced_entriesOfAll below pass _ _ _ _ ts rest

theorem isPlaced_entriesOfAll {scope : Scope} {above : List Mark}
    (fits : scope.Matches κ (Mark.numbers above)) {pass : Json → Option Bool}
    (inside : ∀ child, pass child = stateOf κ (Mark.numbers above))
    (place classes index next : Nat) :
    (ts : List (Rose Json)) → Means κ (Rose.surveyAll selection pass above index next ts) →
      List.Forall₂ (fun x e => ∃ c, IsPlaced κ c x e)
        (shown (Rose.surveyAll selection pass above index next ts))
        (entriesOfAll scope place classes next ts).1
  | [], _ => .nil
  | t :: ts, known => by
    rw [Rose.surveyAll, inside] at known
    have first := isPlaced_entries fits place classes index next t known.left
    rw [Rose.surveyAll, entriesOfAll, Sight.shown_append, inside]
    refine List.rel_append first ?_
    have rest := known.right
    rw [first.length_eq] at rest ⊢
    exact isPlaced_entriesOfAll fits inside _ _ _ _ ts rest

end

/-! ### Classes in a row -/

/-- The entries of classes in a draft. -/
def classHints (d : Draft) : List LayoutHint := (d.filter (·.kind = .input)).map (·.hint)

/-- The draft adds `k` classes to the row, next to the ones that are there. -/
def AddsClasses (classes : Nat) (d : Draft × Nat) : Prop :=
  ∃ k, d.2 = classes + k ∧ classHints d.1 = (List.range' classes k).map fun column => ⟨0, column⟩

theorem AddsClasses.append {classes : Nat} {a b : Draft × Nat} (ha : AddsClasses classes a)
    (hb : AddsClasses a.2 b) : AddsClasses classes (a.1 ++ b.1, b.2) := by
  obtain ⟨k, count, hints⟩ := ha
  obtain ⟨k', count', hints'⟩ := hb
  refine ⟨k + k', by rw [count', count, Nat.add_assoc], ?_⟩
  rw [count] at hints'
  rw [classHints, List.filter_append, List.map_append, ← classHints, ← classHints, hints, hints',
    ← List.map_append, List.range'_append_1]

theorem Visited.addsClasses {scope : Scope} {place classes next : Nat} {v : Json} {seen : Visit}
    (h : Visited scope place classes next v seen) :
    AddsClasses classes (seen.entry.toList, if seen.isClass then classes + 1 else classes) := by
  cases h with
  | classDeclaration label => exact ⟨1, rfl, rfl⟩
  | field label | method label | leaf label | through => exact ⟨0, rfl, rfl⟩

mutual

theorem addsClasses_entries (scope : Scope) (place classes next : Nat) :
    (t : Rose Json) → AddsClasses classes (entries scope place classes next t)
  | .node v ts => by
    have own := (visited scope place classes next v).addsClasses
    rw [entries]
    cases seen : (visit scope place classes next v).inner with
    | none => simpa only [seen] using own
    | some inner => exact own.append (addsClasses_entriesOfAll inner _ _ _ ts)

theorem addsClasses_entriesOfAll (scope : Scope) (place classes next : Nat) :
    (ts : List (Rose Json)) → AddsClasses classes (entriesOfAll scope place classes next ts)
  | [] => ⟨0, rfl, rfl⟩
  | t :: ts => by
    rw [entriesOfAll]
    exact (addsClasses_entries scope place classes next t).append
      (addsClasses_entriesOfAll scope _ _ _ ts)

end

/-! ### Reading the drawing off the tree -/

open Sight (indexOf)

/-- The survey that goes along with the conceptual drawing. -/
def scan (t : Rose Json) : List (Sight Json) := t.survey selection (some false) [] 0 0

theorem surveyed_scan (t : Rose Json) : Surveyed [] 0 0 (scan t) := Rose.surveyed_survey ..

/-- What the shown node of a number means. -/
def meaningAt (t : Rose Json) (n : Nat) : Option Concept :=
  (shown (scan t))[n]?.bind (concept? ·.value)

theorem means_meaningAt (t : Rose Json) : Means (meaningAt t) (scan t) := by
  intro x hx n number
  rw [meaningAt, (surveyed_scan t).getElem?_shown hx number]
  rfl

/-- The draft of a tree of its own. -/
def draftOf (t : Rose Json) : Draft := (entries ⟨none, .loose, 0⟩ 0 0 0 t).1

theorem isPlaced_draftOf (t : Rose Json) :
    List.Forall₂ (fun x e => ∃ c, IsPlaced (meaningAt t) c x e) (shown (scan t)) (draftOf t) :=
  have outset : Scope.Matches (meaningAt t) (Mark.numbers []) ⟨none, .loose, 0⟩ :=
    ⟨rfl, rfl, rfl, rfl, rfl⟩
  isPlaced_entries outset 0 0 0 0 t (means_meaningAt t)

/-- The sights and entries of all nodes that are shown, with their addresses and meanings. -/
structure IsChart (t : Rose Json) {n : Nat} (sight : Fin n → Sight Json) (entry : Fin n → Entry)
    (site : Fin n → List Nat) (concept : Fin n → Concept) : Prop where
  length_eq : (shown (scan t)).length = n
  mem : ∀ i : Fin n, sight i ∈ scan t
  mark : ∀ i : Fin n, (sight i).mark = ⟨indexOf (scan t) i, some (i : Nat)⟩
  visit : ∀ i : Fin n, t.visits[indexOf (scan t) i]? = some (site i, (sight i).value)
  entry_eq : ∀ i : Fin n, (draftOf t)[(i : Nat)]? = some (entry i)
  placed : ∀ i : Fin n, IsPlaced (meaningAt t) (concept i) (sight i) (entry i)

theorem exists_isChart (t : Rose Json) {n : Nat} (length_eq : n = (draftOf t).length) :
    ∃ (sight : Fin n → Sight Json) (entry : Fin n → Entry) (site : Fin n → List Nat)
      (concept : Fin n → Concept), IsChart t sight entry site concept := by
  have length : (shown (scan t)).length = n := by rw [(isPlaced_draftOf t).length_eq, length_eq]
  have chart (i : Fin n) : ∃ x e a c, x ∈ scan t ∧ x.mark = ⟨indexOf (scan t) i, some (i : Nat)⟩ ∧
      t.visits[indexOf (scan t) i]? = some (a, x.value) ∧ (draftOf t)[(i : Nat)]? = some e ∧
      IsPlaced (meaningAt t) c x e := by
    obtain ⟨x, hx, here, mark⟩ :=
      (surveyed_scan t).exists_of_lt_length_shown (i.2.trans_eq length.symm)
    obtain ⟨e, entry, c, placed⟩ := exists_of_getElem?_left (isPlaced_draftOf t) here
    obtain ⟨a, visit⟩ := Rose.exists_address selection (some false) hx
    rw [mark] at visit
    exact ⟨x, e, a, c, hx, mark, visit, entry, placed⟩
  choose sight entry site concept mem mark visit here placed using chart
  exact ⟨sight, entry, site, concept, length, mem, mark, visit, here, placed⟩

namespace IsChart

variable {t : Rose Json} {n : Nat} {sight : Fin n → Sight Json} {entry : Fin n → Entry}
  {site : Fin n → List Nat} {concept : Fin n → Concept}

theorem meaningAt_eq (h : IsChart t sight entry site concept) (i : Fin n) :
    meaningAt t i = some (concept i) := by
  rw [means_meaningAt t _ (h.mem i) i (by rw [h.mark]), (h.placed i).means]

theorem address_eq (h : IsChart t sight entry site concept) (i : Fin n) :
    t.addresses[indexOf (scan t) i]? = some (site i) := Rose.getElem?_addresses (h.visit i)

theorem mem_numbers_iff (h : IsChart t sight entry site concept) {y : Sight Json} (hy : y ∈ scan t)
    {address : List Nat} (here : t.addresses[y.mark.index]? = some address) (q : Fin n) :
    (q : Nat) ∈ y.numbers ↔ Encloses (site q) address := by
  rw [(surveyed_scan t).mem_numbers_iff hy, h.length_eq, and_iff_right q.2]
  exact Rose.above_survey_iff selection (some false) t (h.address_eq q) here

theorem isSome_nearest_iff (h : IsChart t sight entry site concept) {y : Sight Json}
    (hy : y ∈ scan t) {address : List Nat} (here : t.addresses[y.mark.index]? = some address)
    (kind : Concept → Bool) :
    (nearest (meaningAt t) kind y.numbers).isSome = true ↔
      ∃ p, kind (concept p) = true ∧ Encloses (site p) address := by
  rw [Java.isSome_nearest_iff]
  constructor
  · rintro ⟨q, member, c, means, hc⟩
    have inside := ((surveyed_scan t).mem_numbers_iff hy).1 member
    rw [h.length_eq] at inside
    obtain rfl := Option.some.inj (means.symm.trans (h.meaningAt_eq ⟨q, inside.1⟩))
    exact ⟨⟨q, inside.1⟩, hc, (h.mem_numbers_iff hy here ⟨q, inside.1⟩).1 member⟩
  · rintro ⟨p, hp, encloses⟩
    exact ⟨p, (h.mem_numbers_iff hy here p).2 encloses, concept p, h.meaningAt_eq p, hp⟩

/-- The first number of a kind that is noted with a node is that of the nearest node of that
kind. -/
theorem isNearest (h : IsChart t sight entry site concept) {kind : Concept → Bool}
    {i : Fin n} {k : Nat} (found : nearest (meaningAt t) kind (sight i).numbers = some k) :
    ∃ p : Fin n, (p : Nat) = k ∧ IsNearest site concept kind p i := by
  have surveyed := surveyed_scan t
  have here : t.addresses[(sight i).mark.index]? = some (site i) := by rw [h.mark, h.address_eq]
  have member := List.mem_of_find?_eq_some found
  have inside := ((surveyed.mem_numbers_iff (h.mem i)).1 member).1
  rw [h.length_eq] at inside
  let p : Fin n := ⟨k, inside⟩
  refine ⟨p, rfl, ?_, (h.mem_numbers_iff (h.mem i) here p).1 member, ?_⟩
  · have means : meaningAt t k = some (concept p) := h.meaningAt_eq p
    simpa [means] using List.find?_some found
  · intro q hq encloses
    have noted := (h.mem_numbers_iff (h.mem i) here q).2 encloses
    rcases surveyed.above_of_find?_numbers (h.mem i) found noted
      (by simpa [h.meaningAt_eq q] using hq) with
      same | above
    · exact .inl (Fin.ext same)
    · exact .inr
        ((Rose.above_survey_iff selection (some false) t (h.address_eq q) (h.address_eq p)).1 above)

theorem shown_iff (h : IsChart t sight entry site concept) {address : List Nat} {v : Json}
    {c : Concept} (visit : (address, v) ∈ t.visits) (means : concept? v = some c) :
    (∃ i, site i = address) ↔
      (c.isClass = true ∨ ∃ p, (concept p).isClass = true ∧ Encloses (site p) address) ∧
        ¬ ∃ p, (concept p).isLeaf = true ∧ Encloses (site p) address := by
  have surveyed := surveyed_scan t
  obtain ⟨m, here⟩ := List.mem_iff_getElem?.1 visit
  -- The sight of the node at this address.
  obtain ⟨y, hy, index, value⟩ : ∃ y ∈ scan t, y.mark.index = m ∧ y.value = v := by
    have value : ((scan t).map (·.value))[m]? = some v := by
      rw [scan, Rose.map_value_survey, ← Rose.map_snd_visits, List.getElem?_map, here]
      rfl
    rw [List.getElem?_map] at value
    obtain ⟨y, place, value⟩ := Option.map_eq_some_iff.1 value
    exact ⟨y, List.mem_of_getElem? place, surveyed.index_of_getElem? place, value⟩
  have address_eq : t.addresses[y.mark.index]? = some address :=
    index ▸ Rose.getElem?_addresses here
  have shows := isSome_number_survey [] t (means_meaningAt t) hy
  rw [value, shows_eq _ means] at shows
  rw [← h.isSome_nearest_iff hy address_eq, ← h.isSome_nearest_iff hy address_eq, ← Bool.or_eq_true,
    Bool.not_eq_true, Option.isSome_eq_false_iff, ← Bool.and_eq_true, ← shows]
  constructor
  · rintro ⟨i, rfl⟩
    have same : y = sight i := by
      refine surveyed.eq_of_index_eq hy (h.mem i) ?_
      rw [h.mark, ← (Rose.getElem?_addresses_iff.1 address_eq).2,
        (Rose.getElem?_addresses_iff.1 (h.address_eq i)).2]
    rw [same, h.mark]
    rfl
  · intro shown
    obtain ⟨k, number⟩ := Option.isSome_iff_exists.1 shown
    have place := surveyed.getElem?_shown hy number
    have inside := (List.getElem?_eq_some_iff.1 place).1
    rw [h.length_eq] at inside
    have index := (surveyed.mark_of_getElem?_shown place).2
    rw [index, h.address_eq ⟨k, inside⟩] at address_eq
    exact ⟨⟨k, inside⟩, Option.some.inj address_eq⟩

/-- What a node hangs below. -/
theorem exists_isNearest (h : IsChart t sight entry site concept) {i : Fin n}
    (rest : (concept i).isClass = false) :
    ∃ p : Fin n, (entry i).anchor = .entry p ∧
      IsNearest site concept (concept i).hangsBelow p i := by
  obtain ⟨k, found, anchor⟩ := (h.placed i).anchor rest
  obtain ⟨p, rfl, isNearest⟩ := h.isNearest found
  exact ⟨p, anchor, isNearest⟩

/-- The entries of classes are those of the nodes that mean classes. -/
theorem classHints_eq (h : IsChart t sight entry site concept)
    (length_eq : n = (draftOf t).length) :
    classHints (draftOf t) =
      ((List.finRange n).filter fun i => (concept i).isClass).map fun i => (entry i).hint := by
  have list : draftOf t = (List.finRange n).map entry := by
    refine List.ext_getElem? ?_
    intro i
    by_cases inside : i < n
    · simpa [inside] using h.entry_eq ⟨i, inside⟩
    · rw [List.getElem?_eq_none (by omega), List.getElem?_eq_none (by simpa using inside)]
  have kind (i : Fin n) : decide ((entry i).kind = .input) = (concept i).isClass := by
    rw [(h.placed i).kind, Concept.role]
    cases (concept i).isClass <;> rfl
  rw [classHints, list, List.filter_map, List.map_map]
  simp only [Function.comp_def, kind]

end IsChart

/-! ### The drawing of a tree -/

theorem Concept.isLeaf_of_hangsBelow {c owner : Concept} (h : c.hangsBelow owner = true) :
    owner.isLeaf = false := by
  unfold Concept.hangsBelow at h
  split at h <;> cases owner <;> simp_all [Concept.isClass, Concept.isOwner, Concept.isLeaf]

def graphOf (t : Rose Json) : Graph := .ofDraft .javaConcepts (draftOf t)

theorem isForest_graphOf (t : Rose Json) : (graphOf t).IsForest .javaConcepts :=
  Graph.isForest_ofDraft _ (anchored_entries ⟨by simp, by trivial⟩ t)

namespace IsChart

variable {t : Rose Json} {sight : Fin (graphOf t).nodes.length → Sight Json}
  {entry : Fin (graphOf t).nodes.length → Entry} {site : Fin (graphOf t).nodes.length → List Nat}
  {concept : Fin (graphOf t).nodes.length → Concept}

theorem node_eq (h : IsChart t sight entry site concept) (i : Fin (graphOf t).nodes.length) :
    (graphOf t).nodes.get i = (entry i).toNode .javaConcepts i :=
  Graph.get_nodes_ofDraft i (h.entry_eq i)

/-- Edges lead into nodes from what their entries hang below. -/
theorem mem_edges_iff (h : IsChart t sight entry site concept) {e : Edge} :
    e ∈ (graphOf t).edges ↔ ∃ p i, (entry i).anchor = .entry p ∧
      e = .between (Family.javaConcepts.nodeName p) (Family.javaConcepts.nodeName i) := by
  refine Graph.mem_edges_ofDraft_iff.trans ?_
  constructor
  · rintro ⟨p, i, own, here, anchor, rfl⟩
    have inside : i < (graphOf t).nodes.length := by
      rw [graphOf, Graph.length_nodes_ofDraft]
      exact (List.getElem?_eq_some_iff.1 here).1
    obtain rfl := Option.some.inj (here.symm.trans (h.entry_eq ⟨i, inside⟩))
    exact ⟨p, ⟨i, inside⟩, anchor, rfl⟩
  · rintro ⟨p, i, anchor, rfl⟩
    exact ⟨p, i, _, h.entry_eq i, anchor, rfl⟩

/-- An edge into a node that is no class comes from the nearest that it can hang below. -/
theorem exists_source (h : IsChart t sight entry site concept) {e : Edge}
    (he : e ∈ (graphOf t).edges) {i : Fin (graphOf t).nodes.length}
    (target : e.target = ((graphOf t).nodes.get i).id) :
    ∃ p, e.source = ((graphOf t).nodes.get p).id ∧
      IsNearest site concept (concept i).hangsBelow p i := by
  obtain ⟨k, j, anchor, rfl⟩ := h.mem_edges_iff.1 he
  rw [h.node_eq] at target
  obtain rfl := Fin.ext (Family.nodeName_inj.1 target)
  cases rest : (concept j).isClass with
  | true => simp [(h.placed j).loose rest] at anchor
  | false =>
    obtain ⟨p, below, isNearest⟩ := h.exists_isNearest rest
    obtain rfl := Anchor.entry.inj (anchor.symm.trans below)
    exact ⟨p, by rw [h.node_eq]; rfl, isNearest⟩

theorem count_targets (h : IsChart t sight entry site concept) (i : Fin (graphOf t).nodes.length) :
    ((graphOf t).edges.map (·.target)).count ((graphOf t).nodes.get i).id =
      if (concept i).isClass then 0 else 1 := by
  have target_iff : ((graphOf t).nodes.get i).id ∈ (graphOf t).edges.map (·.target) ↔
      ∃ p, (entry i).anchor = .entry p := by
    rw [List.mem_map, h.node_eq]
    constructor
    · rintro ⟨e, he, target⟩
      obtain ⟨p, j, anchor, rfl⟩ := h.mem_edges_iff.1 he
      obtain rfl := Fin.ext (Family.nodeName_inj.1 target)
      exact ⟨p, anchor⟩
    · rintro ⟨p, anchor⟩
      exact ⟨_, h.mem_edges_iff.2 ⟨p, i, anchor, rfl⟩, rfl⟩
  cases rest : (concept i).isClass with
  | true =>
    refine List.count_eq_zero.2 ?_
    rw [target_iff]
    simp [(h.placed i).loose rest]
  | false =>
    obtain ⟨p, anchor, -⟩ := h.exists_isNearest rest
    exact List.count_eq_one_of_mem (isForest_graphOf t).nodup_targets (target_iff.2 ⟨p, anchor⟩)

/-- The drawing keeps to the scopes of the tree. -/
theorem isScoped (h : IsChart t sight entry site concept) :
    IsScoped t (graphOf t) site concept where
  means i := ⟨_, List.mem_of_getElem? (h.visit i), (h.placed i).means⟩
  label_eq i := by
    rw [h.node_eq, ← (h.placed i).label]
    rfl
  ordered i j lt := by
    rw [(Rose.getElem?_addresses_iff.1 (h.address_eq i)).2,
      (Rose.getElem?_addresses_iff.1 (h.address_eq j)).2]
    exact (surveyed_scan t).indexOf_lt_indexOf lt (j.2.trans_eq h.length_eq.symm)
  shown_iff _ _ _ := h.shown_iff
  inside i rest := by
    have shown := (h.shown_iff (List.mem_of_getElem? (h.visit i)) (h.placed i).means).1 ⟨i, rfl⟩
    simpa [rest] using shown.1
  incoming := h.count_targets
  member_source i member e he target := by
    simpa [Concept.hangsBelow, member] using h.exists_source he target
  body_source i _ body e he target := by
    simpa [Concept.hangsBelow, body] using h.exists_source he target
  outgoing i leaf e he source := by
    obtain ⟨k, j, anchor, rfl⟩ := h.mem_edges_iff.1 he
    obtain ⟨p, same, isNearest⟩ := h.exists_source (i := j) he (by rw [h.node_eq]; rfl)
    rw [source, h.node_eq, h.node_eq] at same
    obtain rfl := Fin.ext (Family.nodeName_inj.1 same)
    simp [Concept.isLeaf_of_hangsBelow isNearest.kind_eq] at leaf
  classes_in_row := by
    obtain ⟨k, -, hints⟩ := addsClasses_entries ⟨none, .loose, 0⟩ 0 0 0 t
    refine ⟨k, ?_⟩
    rw [List.range_eq_range', ← hints]
    refine Eq.trans ?_ (h.classHints_eq (Graph.length_nodes_ofDraft ..)).symm
    simp only [h.node_eq, Entry.toNode]

end IsChart

theorem draft_conceptual (root : Json) :
    conceptual.draft root 0 0 false = draftOf (anatomy.unfold root) := by
  cases object : isObject root with
  | true => simp [conceptual, tree?, trees_eq, object, draftOf]
  | false =>
    -- A value that is no object means nothing and has no children.
    cases root with
    | obj fields => cases object
    | null | bool | num | str | arr =>
      rw [draftOf, Anatomy.unfold_eq]
      rfl

/-- In the conceptual drawing of any value classes stand side by side with no edge into them, and
everything else hangs below the nearest class, or class or method, that encloses it. -/
theorem conceptual_drawing_follows_scopes (root : Json) :
    ∃ site concept, IsScoped (anatomy.unfold root) (conceptual.draw root) site concept := by
  have draw : conceptual.draw root = graphOf (anatomy.unfold root) :=
    congrArg (Graph.ofDraft .javaConcepts) (draft_conceptual root)
  rw [draw]
  obtain ⟨sight, entry, site, concept, chart⟩ :=
    exists_isChart (anatomy.unfold root) (Graph.length_nodes_ofDraft .javaConcepts _)
  exact ⟨site, concept, chart.isScoped⟩

end Java

end CodeAtlas
