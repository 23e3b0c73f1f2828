import CodeAtlas.Proofs.Outline.Address
import CodeAtlas.Proofs.Outline.Contraction

/-!
# What encloses a node

A node encloses another one if its address is where the way to the other one begins. What a survey
notes with a node are the nodes that enclose it, from the inside out, so that the first noted of
some kind is the nearest one that encloses it: any other of that kind encloses that one too.
-/

namespace CodeAtlas

/-- The way to the second address begins with the first one, and goes on. -/
def Encloses (a b : List Nat) : Prop := ∃ i rest, b = a ++ i :: rest

theorem encloses_concat_iff {a up : List Nat} {i : Nat} :
    Encloses a (up ++ [i]) ↔ a = up ∨ Encloses a up := by
  constructor
  · rintro ⟨j, rest, eq⟩
    obtain rfl | ⟨rest, k, rfl⟩ := List.eq_nil_or_concat' rest
    · exact .inl (List.append_inj_left' eq rfl).symm
    · right
      have eq : up ++ [i] = (a ++ j :: rest) ++ [k] := by simpa using eq
      exact ⟨j, rest, List.append_inj_left' eq rfl⟩
  · rintro (rfl | ⟨j, rest, rfl⟩)
    · exact ⟨i, [], rfl⟩
    · exact ⟨j, rest ++ [i], by simp⟩

namespace Rose

variable {σ α : Type}

mutual

theorem map_snd_visits : (t : Rose α) → t.visits.map (·.2) = t.preorder
  | .node v ts => by rw [visits, List.map_cons, map_snd_visitsAll 0 ts, preorder]

theorem map_snd_visitsAll (place : Nat) : (ts : List (Rose α)) →
    (visitsAll place ts).map (·.2) = preorderAll ts
  | [] => by simp [visitsAll, preorderAll]
  | t :: ts => by
    rw [visitsAll, List.map_append, List.map_map, preorderAll, map_snd_visitsAll (place + 1) ts,
      ← map_snd_visits t]
    rfl

end

/-- The sights of a survey are the nodes of the tree in the order of their addresses. -/
theorem exists_address (r : Selection σ α) (state : σ) {t : Rose α} {x : Sight α}
    (hx : x ∈ t.survey r state [] 0 0) :
    ∃ address, t.visits[x.mark.index]? = some (address, x.value) := by
  have here :=
    congrArg (Option.map (·.value)) ((surveyed_survey r state [] 0 0 t).getElem?_index hx)
  rw [← List.getElem?_map, map_value_survey, ← map_snd_visits, List.getElem?_map] at here
  obtain ⟨⟨address, v⟩, here, rfl⟩ := Option.map_eq_some_iff.1 here
  exact ⟨address, here⟩

theorem getElem?_addresses {t : Rose α} {i : Nat} {address : List Nat} {v : α}
    (h : t.visits[i]? = some (address, v)) : t.addresses[i]? = some address := by
  rw [addresses, List.getElem?_map, h]
  rfl

theorem getElem?_addresses_iff {t : Rose α} {i : Nat} {address : List Nat} :
    t.addresses[i]? = some address ↔ address ∈ t.addresses ∧ t.addresses.idxOf address = i := by
  constructor
  · intro h
    obtain ⟨inside, rfl⟩ := List.getElem?_eq_some_iff.1 h
    exact ⟨List.getElem_mem inside, t.nodup_addresses.idxOf_getElem i inside⟩
  · rintro ⟨member, rfl⟩
    exact List.getElem?_idxOf member

/-- The node noted first with another one is where the last step to it is taken. -/
theorem parent_survey_iff (r : Selection σ α) (state : σ) (t : Rose α) {p c : Nat} :
    Sight.Parent (t.survey r state [] 0 0) p c ↔
      ∃ up i, t.addresses[p]? = some up ∧ t.addresses[c]? = some (up ++ [i]) := by
  have surveyed := surveyed_survey r state [] 0 0 t
  have drawn : List.Forall₂ (Sight.IsDrawn fun _ => "") (t.survey r state [] 0 0)
      ((t.itemize (fun _ => "") 0).draft 0 .outer 0) := isDrawn_draft r _ state [] 0 0 0 0 t
  simp only [draft_itemize, entryAt_root] at drawn
  constructor
  · rintro ⟨x, hx, rfl, head⟩
    obtain ⟨address, here⟩ := exists_address r state hx
    obtain ⟨e, entry, drawn⟩ := exists_of_getElem?_left drawn (surveyed.getElem?_index hx)
    have anchor := drawn.anchor
    rw [List.getElem?_map, here] at entry
    obtain rfl := Option.some.inj entry
    rw [head] at anchor
    obtain rfl | ⟨up, i, rfl⟩ := List.eq_nil_or_concat' address
    · simp [Anchor.below] at anchor
    · have index : t.addresses.idxOf up = p := by simpa [Anchor.below] using anchor
      have member := dropLast_mem_addresses t (List.mem_of_getElem? (getElem?_addresses here))
      rw [List.dropLast_concat] at member
      exact ⟨up, i, getElem?_addresses_iff.2 ⟨member, index⟩, getElem?_addresses here⟩
  · rintro ⟨up, i, above, below⟩
    rw [addresses, List.getElem?_map] at below
    obtain ⟨⟨_, v⟩, here, rfl⟩ := Option.map_eq_some_iff.1 below
    obtain ⟨x, place, drawn⟩ :=
      exists_of_getElem?_right drawn (by rw [List.getElem?_map, here]; rfl)
    have anchor := drawn.anchor
    simp only [List.append_eq_nil_iff, List.cons_ne_nil, and_false, if_false, List.dropLast_concat,
      (getElem?_addresses_iff.1 above).2] at anchor
    exact ⟨x, List.mem_of_getElem? place, surveyed.index_of_getElem? place,
      Anchor.below_eq_entry_iff.1 anchor.symm⟩

theorem above_survey_iff (r : Selection σ α) (state : σ) (t : Rose α) {p c : Nat} {a b : List Nat}
    (ha : t.addresses[p]? = some a) (hb : t.addresses[c]? = some b) :
    Sight.Above (t.survey r state [] 0 0) p c ↔ Encloses a b := by
  constructor
  · intro path
    induction path generalizing b with
    | single step =>
      obtain ⟨up, i, above, below⟩ := (parent_survey_iff r state t).1 step
      obtain rfl := Option.some.inj (ha.symm.trans above)
      obtain rfl := Option.some.inj (hb.symm.trans below)
      exact encloses_concat_iff.2 (.inl rfl)
    | tail _ step ih =>
      obtain ⟨up, i, above, below⟩ := (parent_survey_iff r state t).1 step
      obtain rfl := Option.some.inj (hb.symm.trans below)
      exact encloses_concat_iff.2 (.inr (ih above))
  · intro encloses
    induction b using List.reverseRecOn generalizing c with
    | nil =>
      obtain ⟨i, rest, eq⟩ := encloses
      simp at eq
    | append_singleton up i ih =>
      have member := dropLast_mem_addresses t (List.mem_of_getElem? hb)
      rw [List.dropLast_concat] at member
      have above := getElem?_addresses_iff.2 ⟨member, rfl⟩
      have step := (parent_survey_iff r state t).2 ⟨up, i, above, hb⟩
      rcases encloses_concat_iff.1 encloses with rfl | encloses
      · rw [(getElem?_addresses_iff.1 ha).2] at step
        exact .single step
      · exact (ih above encloses).tail step

end Rose

namespace Surveyed

open Sight (indexOf)

variable {α : Type} {l : List (Sight α)} {x : Sight α}

/-- The first number of a kind that is noted with a node is that of the nearest: all others of that
kind stand above it. -/
theorem above_of_find?_numbers (h : Surveyed [] 0 0 l) (hx : x ∈ l) {kind : Nat → Bool} {p q : Nat}
    (found : x.numbers.find? kind = some p) (member : q ∈ x.numbers) (hq : kind q = true) :
    q = p ∨ Sight.Above l (indexOf l q) (indexOf l p) := by
  obtain ⟨y, hy, index, before, eq⟩ := h.exists_numbers_eq hx (List.mem_of_find?_eq_some found)
  have nodup := h.nodup_numbers hx
  rw [eq] at nodup member found
  rcases List.mem_append.1 member with first | rest
  · -- What is found before is the first, so it is noted twice.
    obtain ⟨p', found'⟩ := Option.isSome_iff_exists.1 (List.find?_isSome.2 ⟨q, first, hq⟩)
    rw [List.find?_append, found', Option.some_or] at found
    obtain rfl := Option.some.inj found
    have again := List.mem_of_find?_eq_some found'
    exact absurd rfl ((List.nodup_append.1 nodup).2.2 p' again p' List.mem_cons_self)
  · refine (List.mem_cons.1 rest).imp_right ?_
    intro behind
    rw [← index]
    exact ((h.mem_numbers_iff hy).1 behind).2

end Surveyed

end CodeAtlas
