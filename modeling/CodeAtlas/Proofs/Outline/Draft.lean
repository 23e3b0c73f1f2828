import CodeAtlas.Outline.Concepts
import CodeAtlas.Outline.Java

/-!
# Drafts hang below what comes before

An entry of a draft hangs below an earlier entry, or below nothing in the draft. This is all that
the graph of a draft needs to be a forest, and it holds of the drafts of all drawings: of a tree
that is shown in full, of the concepts of a tree, and of the classes of a Java tree with their
members.
-/

namespace CodeAtlas

/-- An anchor that refers to no entry from number `next` on. -/
def Anchor.Before (next : Nat) : Anchor → Prop
  | .entry k => k < next
  | .loose | .outer => True

theorem Anchor.Before.mono {a : Anchor} {n m : Nat} (h : a.Before n) (le : n ≤ m) : a.Before m := by
  cases a with
  | loose => trivial
  | outer => trivial
  | entry k => exact Nat.lt_of_lt_of_le h le

namespace Draft

/-- A draft whose first entry is number `next`, and in which every entry hangs below an earlier
one. -/
def Anchored (next : Nat) : Draft → Prop
  | [] => True
  | e :: rest => e.anchor.Before next ∧ Anchored (next + 1) rest

theorem anchored_append {next : Nat} {a b : Draft} :
    Anchored next (a ++ b) ↔ Anchored next a ∧ Anchored (next + a.length) b := by
  induction a generalizing next with
  | nil => simp [Anchored]
  | cons e a ih =>
    rw [List.cons_append, Anchored, Anchored, ih, and_assoc, List.length_cons,
      Nat.add_right_comm, ← Nat.add_assoc]

end Draft

/-! ### Trees of items -/

namespace Rose

mutual

theorem anchored_draft {depth next : Nat} {anchor : Anchor} (h : anchor.Before next) :
    (t : Rose Item) → Draft.Anchored next (t.draft depth anchor next)
  | .node item ts => by
    have below : (Anchor.entry next).Before (next + 1) := Nat.lt_succ_self next
    rw [draft]
    exact ⟨h, anchored_draftAll below ts⟩

theorem anchored_draftAll {depth next : Nat} {anchor : Anchor} (h : anchor.Before next) :
    (ts : List (Rose Item)) → Draft.Anchored next (draftAll depth anchor next ts)
  | [] => trivial
  | t :: ts => by
    rw [draftAll]
    exact Draft.anchored_append.2
      ⟨anchored_draft h t, anchored_draftAll (h.mono (Nat.le_add_right ..)) ts⟩

end

end Rose

/-! ### Java -/

namespace Java

/-- The surroundings refer to no entry from number `next` on. -/
def Scope.Before (next : Nat) (s : Scope) : Prop :=
  (∀ k, s.enclosingClass = some k → k < next) ∧ s.enclosing.Before next

theorem Scope.Before.mono {s : Scope} {n m : Nat} (h : s.Before n) (le : n ≤ m) : s.Before m :=
  ⟨fun k hk => Nat.lt_of_lt_of_le (h.1 k hk) le, h.2.mono le⟩

/-- A concept that is not shown in these surroundings. -/
def Concept.HiddenIn (scope : Scope) : Concept → Prop
  | .classDeclaration _ => False
  | .field _ | .method _ => scope.enclosingClass = none
  | .variable _ | .call _ => scope.enclosing = .loose

/-- The outcome of one node, case by case. -/
inductive Visited (scope : Scope) (place classes next : Nat) (v : Json) : Visit → Prop where
  | classDeclaration (label : String) (means : concept? v = some (.classDeclaration label)) :
      Visited scope place classes next v
        { entry := some ⟨label, .input, ⟨0, classes⟩, .loose⟩
          inner := some ⟨some next, .entry next, 1⟩
          isClass := true }
  | field (label : String) (k : Nat) (means : concept? v = some (.field label))
      (inside : scope.enclosingClass = some k) :
      Visited scope place classes next v
        { entry := some ⟨label, .default, ⟨scope.depth, place⟩, .entry k⟩, inner := none }
  | method (label : String) (k : Nat) (means : concept? v = some (.method label))
      (inside : scope.enclosingClass = some k) :
      Visited scope place classes next v
        { entry := some ⟨label, .default, ⟨scope.depth, place⟩, .entry k⟩
          inner := some ⟨some k, .entry next, scope.depth + 1⟩ }
  | leaf (label : String)
      (means : concept? v = some (.variable label) ∨ concept? v = some (.call label))
      (attached : scope.enclosing ≠ .loose) :
      Visited scope place classes next v
        { entry := some ⟨label, .default, ⟨scope.depth, place⟩, scope.enclosing⟩, inner := none }
  | through (hidden : ∀ c, concept? v = some c → c.HiddenIn scope) :
      Visited scope place classes next v { inner := some scope }

theorem visited (scope : Scope) (place classes next : Nat) (v : Json) :
    Visited scope place classes next v (visit scope place classes next v) := by
  obtain ⟨enclosingClass, enclosing, depth⟩ := scope
  unfold visit
  cases means : concept? v with
  | none => exact .through (by simp [means])
  | some c =>
    cases c with
    | classDeclaration label => exact .classDeclaration label means
    | field label =>
      cases enclosingClass with
      | none => exact .through (by simp [means, Concept.HiddenIn])
      | some k => exact .field label k means rfl
    | method label =>
      cases enclosingClass with
      | none => exact .through (by simp [means, Concept.HiddenIn])
      | some k => exact .method label k means rfl
    | «variable» label =>
      cases enclosing with
      | loose => exact .through (by simp [means, Concept.HiddenIn])
      | outer => exact .leaf label (.inl means) (by simp)
      | entry k => exact .leaf label (.inl means) (by simp)
    | call label =>
      cases enclosing with
      | loose => exact .through (by simp [means, Concept.HiddenIn])
      | outer => exact .leaf label (.inr means) (by simp)
      | entry k => exact .leaf label (.inr means) (by simp)

/-- What one node adds hangs below its surroundings, and it surrounds what comes next. -/
theorem Visited.before {scope : Scope} {place classes next : Nat} {v : Json} {seen : Visit}
    (h : Visited scope place classes next v seen) (before : scope.Before next) :
    Draft.Anchored next seen.entry.toList ∧
      ∀ inner, seen.inner = some inner → inner.Before (next + seen.entry.toList.length) := by
  cases h with
  | classDeclaration label =>
    refine ⟨⟨trivial, trivial⟩, ?_⟩
    rintro _ ⟨⟩
    exact ⟨by simp, Nat.lt_succ_self next⟩
  | field label k _ inside => exact ⟨⟨before.1 k inside, trivial⟩, by simp⟩
  | method label k _ inside =>
    refine ⟨⟨before.1 k inside, trivial⟩, ?_⟩
    rintro _ ⟨⟩
    have := before.1 k inside
    refine ⟨?_, Nat.lt_succ_self next⟩
    rintro _ ⟨⟩
    exact Nat.lt_succ_of_lt this
  | leaf => exact ⟨⟨before.2, trivial⟩, by simp⟩
  | through =>
    refine ⟨trivial, ?_⟩
    rintro _ ⟨⟩
    exact before

mutual

theorem anchored_entries {scope : Scope} {place classes next : Nat} (h : scope.Before next) :
    (t : Rose Json) → Draft.Anchored next (entries scope place classes next t).1
  | .node v ts => by
    obtain ⟨own, surrounds⟩ := (visited scope place classes next v).before h
    rw [entries]
    cases inner : (visit scope place classes next v).inner with
    | none => simpa only [inner] using own
    | some inner' =>
      exact Draft.anchored_append.2 ⟨own, anchored_entriesOfAll (surrounds inner' inner) ts⟩

theorem anchored_entriesOfAll {scope : Scope} {place classes next : Nat} (h : scope.Before next) :
    (ts : List (Rose Json)) → Draft.Anchored next (entriesOfAll scope place classes next ts).1
  | [] => trivial
  | t :: ts => by
    rw [entriesOfAll]
    exact Draft.anchored_append.2
      ⟨anchored_entries h t, anchored_entriesOfAll (h.mono (Nat.le_add_right ..)) ts⟩

end

end Java

end CodeAtlas
