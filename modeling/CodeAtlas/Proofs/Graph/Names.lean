import CodeAtlas.Graph.Cycles
import Mathlib.Data.List.Nodup
import Mathlib.Data.String.Basic

/-!
# Lists of names

Of several elements with one key the first is kept where each key may occur only once, as with the
edges of a graph and the names in it. Names are sorted by their texts, and files by their paths.
Names that are sorted and kept once increase strictly.
-/

namespace CodeAtlas

/-! ### The first of every key -/

section FirstOfKey

variable {α β : Type} [BEq β] (key : α → β)

/-- The first elements of every key are found from the front: the head is one, and the others are
those of the tail without the head's key. -/
theorem eraseDupsBy_induction {motive : List α → Prop} (nil : motive [])
    (cons : ∀ a l, motive (l.filter fun b => decide ((key b == key a) = false)) → motive (a :: l))
    (l : List α) : motive l := by
  induction length : l.length using Nat.strongRecOn generalizing l with
  | ind n ih =>
    cases l with
    | nil => exact nil
    | cons a l =>
      apply cons
      refine ih _ ?_ _ rfl
      have shorter := List.length_filter_le (fun b => decide ((key b == key a) = false)) l
      rw [List.length_cons] at length
      omega

theorem eraseDupsBy_sublist (l : List α) :
    (l.eraseDupsBy fun a b => key a == key b).Sublist l := by
  induction l using eraseDupsBy_induction key with
  | nil => simp
  | cons a l ih =>
    rw [List.eraseDupsBy_cons]
    exact (ih.trans List.filter_sublist).cons_cons a

variable [LawfulBEq β]

/-- Every key that occurs is kept. -/
theorem exists_mem_eraseDupsBy {a : α} {l : List α} (h : a ∈ l) :
    ∃ b ∈ l.eraseDupsBy (fun a b => key a == key b), key b = key a := by
  induction l using eraseDupsBy_induction key with
  | nil => simp at h
  | cons first l ih =>
    rw [List.eraseDupsBy_cons]
    by_cases same : key a = key first
    · exact ⟨first, List.mem_cons_self, same.symm⟩
    · rcases List.mem_cons.1 h with rfl | h
      · exact absurd rfl same
      · obtain ⟨b, hb, eq⟩ := ih (List.mem_filter.2 ⟨h, by simpa using same⟩)
        exact ⟨b, List.mem_cons_of_mem _ hb, eq⟩

/-- No key is kept twice. -/
theorem nodup_map_eraseDupsBy (l : List α) :
    ((l.eraseDupsBy fun a b => key a == key b).map key).Nodup := by
  induction l using eraseDupsBy_induction key with
  | nil => simp
  | cons first l ih =>
    rw [List.eraseDupsBy_cons, List.map_cons, List.nodup_cons]
    refine ⟨?_, ih⟩
    intro again
    obtain ⟨b, hb, eq⟩ := List.mem_map.1 again
    have other := (List.mem_filter.1 ((eraseDupsBy_sublist key _).mem hb)).2
    simp [eq] at other

end FirstOfKey

theorem nodup_eraseDups {α : Type} [BEq α] [LawfulBEq α] (l : List α) : l.eraseDups.Nodup := by
  have := nodup_map_eraseDupsBy (fun a : α => a) l
  rwa [List.map_id'] at this

namespace Graph

/-! ### Sorted names -/

theorem textLe_iff {a b : String} : textLe a b = true ↔ a ≤ b := by
  simp only [textLe, Bool.not_eq_true', decide_eq_false_iff_not, not_lt]

/-- Things that are sorted by their names are in the order of these. -/
theorem pairwise_mergeSort {α : Type} (name : α → String) (l : List α) :
    (l.mergeSort fun a b => textLe (name a) (name b)).Pairwise fun a b => name a ≤ name b := by
  have sorted : (l.mergeSort fun a b => textLe (name a) (name b)).Pairwise
      fun a b => textLe (name a) (name b) = true := by
    apply List.pairwise_mergeSort
    · intro a b c
      simp only [textLe_iff]
      exact le_trans
    · intro a b
      simp only [Bool.or_eq_true, textLe_iff]
      exact le_total _ _
  exact sorted.imp textLe_iff.1

/-- Sorting and keeping every name once gives strictly increasing names. -/
theorem pairwise_eraseDups_mergeSort (names : List String) :
    (names.mergeSort textLe).eraseDups.Pairwise (· < ·) := by
  have sorted : (names.mergeSort textLe).Pairwise (· ≤ ·) :=
    pairwise_mergeSort (fun name => name) names
  have kept := sorted.sublist (eraseDupsBy_sublist (fun name => name) _)
  refine (kept.and (nodup_eraseDups _)).imp ?_
  rintro a b ⟨le, ne⟩
  exact lt_of_le_of_ne le ne

end Graph

end CodeAtlas
