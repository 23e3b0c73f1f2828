/-!
# Splitting and joining

A text is cut at every occurrence of a separator, so there is always one part more than there are
separators. Joining the parts gives the text back, and splitting what was joined from parts without
separators gives the parts back.
-/

namespace CodeAtlas.Text

/-- The parts of a list of characters between the separators. -/
def splitChars (separator : Char) : List Char → List (List Char)
  | [] => [[]]
  | c :: cs =>
    match splitChars separator cs with
    | [] => [[c]]
    | part :: parts => if c = separator then [] :: part :: parts else (c :: part) :: parts

/-- The parts of a text between the separators. -/
def split (separator : Char) (s : String) : List String :=
  (splitChars separator s.toList).map String.ofList

/-- The parts with a separator between any two of them. -/
def join (separator : String) : List String → String
  | [] => ""
  | [part] => part
  | part :: parts => part ++ separator ++ join separator parts

theorem splitChars_ne_nil (separator : Char) (cs : List Char) : splitChars separator cs ≠ [] := by
  cases cs with
  | nil => simp [splitChars]
  | cons c cs =>
    rw [splitChars]
    split
    · simp
    · split <;> simp

theorem splitChars_cons_self (separator : Char) (cs : List Char) :
    splitChars separator (separator :: cs) = [] :: splitChars separator cs := by
  rw [splitChars]
  split
  · next h => exact absurd h (splitChars_ne_nil separator cs)
  · next h => simp [h]

/-- A text without separators is one part. -/
theorem splitChars_of_notMem {separator : Char} {cs : List Char} (h : separator ∉ cs) :
    splitChars separator cs = [cs] := by
  induction cs with
  | nil => rfl
  | cons c cs ih =>
    have hne : c ≠ separator := fun e => h (e ▸ List.mem_cons_self)
    have hcs : separator ∉ cs := fun m => h (List.mem_cons_of_mem c m)
    simp [splitChars, ih hcs, hne]

/-- The first part ends at the first separator. -/
theorem splitChars_append {separator : Char} {part : List Char} (h : separator ∉ part)
    (cs : List Char) :
    splitChars separator (part ++ separator :: cs) = part :: splitChars separator cs := by
  induction part with
  | nil => exact splitChars_cons_self separator cs
  | cons c part ih =>
    have hne : c ≠ separator := fun e => h (e ▸ List.mem_cons_self)
    have hpart : separator ∉ part := fun m => h (List.mem_cons_of_mem c m)
    simp [splitChars, ih hpart, hne]

/-- Splitting gives back the parts that a text was joined from. -/
theorem split_join (separator : Char) (parts : List String) (hne : parts ≠ [])
    (h : ∀ part ∈ parts, separator ∉ part.toList) :
    split separator (join (String.singleton separator) parts) = parts := by
  induction parts with
  | nil => exact absurd rfl hne
  | cons part parts ih =>
    have hpart := h part List.mem_cons_self
    cases parts with
    | nil => simp [split, join, splitChars_of_notMem hpart]
    | cons next parts =>
      have hrest := ih (by simp) fun p hp => h p (List.mem_cons_of_mem part hp)
      rw [split] at hrest
      have htext : (join (String.singleton separator) (part :: next :: parts)).toList =
          part.toList ++ separator ::
            (join (String.singleton separator) (next :: parts)).toList := by
        simp [join]
      rw [split, htext, splitChars_append hpart, List.map_cons, hrest, String.ofList_toList]

/-- A character in front of the first part stands in front of the text. -/
theorem toList_join_cons (separator : String) (c : Char) (part : List Char) (parts : List String) :
    (join separator (String.ofList (c :: part) :: parts)).toList =
      c :: (join separator (String.ofList part :: parts)).toList := by
  cases parts with
  | nil => simp [join]
  | cons next parts => simp [join]

theorem toList_join_splitChars (separator : Char) (cs : List Char) :
    (join (String.singleton separator) ((splitChars separator cs).map String.ofList)).toList =
      cs := by
  induction cs with
  | nil => simp [splitChars, join]
  | cons c cs ih =>
    by_cases hc : c = separator
    · subst hc
      rw [splitChars_cons_self]
      obtain ⟨part, parts, hparts⟩ := List.exists_cons_of_ne_nil (splitChars_ne_nil c cs)
      rw [hparts] at ih ⊢
      simp only [List.map_cons] at ih ⊢
      simp [join, ih]
    · obtain ⟨part, parts, hparts⟩ := List.exists_cons_of_ne_nil (splitChars_ne_nil separator cs)
      rw [hparts, List.map_cons] at ih
      rw [splitChars, hparts]
      simp only [hc, if_false, List.map_cons]
      rw [toList_join_cons, ih]

/-- Joining the parts of a text gives the text back. -/
theorem join_split (separator : Char) (s : String) :
    join (String.singleton separator) (split separator s) = s := by
  apply String.toList_inj.1
  exact toList_join_splitChars separator s.toList

/-- The characters of the parts come from the text. -/
theorem mem_of_mem_splitChars {separator c : Char} {cs part : List Char}
    (h : part ∈ splitChars separator cs) (mem : c ∈ part) : c ∈ cs := by
  induction cs generalizing part with
  | nil =>
    rw [List.mem_singleton.1 h] at mem
    exact mem
  | cons first cs ih =>
    obtain ⟨next, parts, eq⟩ := List.exists_cons_of_ne_nil (splitChars_ne_nil separator cs)
    rw [eq] at ih
    rw [splitChars, eq] at h
    by_cases cut : first = separator
    · simp only [cut, if_true, List.mem_cons] at h
      rcases h with rfl | h
      · cases mem
      · exact List.mem_cons_of_mem first (ih (List.mem_cons.2 h) mem)
    · simp only [cut, if_false, List.mem_cons] at h
      rcases h with rfl | h
      · rcases List.mem_cons.1 mem with rfl | mem
        · exact List.mem_cons_self
        · exact List.mem_cons_of_mem first (ih List.mem_cons_self mem)
      · exact List.mem_cons_of_mem first (ih (List.mem_cons_of_mem next h) mem)

theorem mem_of_mem_split {separator c : Char} {s part : String} (h : part ∈ split separator s)
    (mem : c ∈ part.toList) : c ∈ s.toList := by
  obtain ⟨chars, found, rfl⟩ := List.mem_map.1 h
  rw [String.toList_ofList] at mem
  exact mem_of_mem_splitChars found mem

/-- Parts that each end with a separator leave nothing after the last one. -/
theorem split_join_terminated (separator : Char) (parts : List String)
    (h : ∀ part ∈ parts, separator ∉ part.toList) :
    split separator (String.join (parts.map (· ++ String.singleton separator))) =
      parts ++ [""] := by
  induction parts with
  | nil => rfl
  | cons part parts ih =>
    have rest := ih fun other mem => h other (List.mem_cons_of_mem part mem)
    rw [split] at rest
    have text : (String.join ((part :: parts).map (· ++ String.singleton separator))).toList =
        part.toList ++ separator ::
          (String.join (parts.map (· ++ String.singleton separator))).toList := by
      simp
    rw [split, text, splitChars_append (h part List.mem_cons_self), List.map_cons, rest,
      String.ofList_toList]
    rfl

end CodeAtlas.Text
