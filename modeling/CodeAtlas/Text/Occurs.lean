/-!
# Parts of a text
-/

namespace CodeAtlas.Text

/-- Some characters occur in others without a gap. -/
def occursIn (part : List Char) : List Char → Bool
  | [] => part.isEmpty
  | c :: cs => part.isPrefixOf (c :: cs) || occursIn part cs

/-- A text contains another one. -/
def contains (s part : String) : Bool := occursIn part.toList s.toList

theorem occursIn_iff {part cs : List Char} : occursIn part cs = true ↔ part <:+: cs := by
  induction cs with
  | nil => simp [occursIn]
  | cons c cs ih => simp [occursIn, List.infix_cons_iff, ih]

theorem contains_iff {s part : String} : contains s part = true ↔ part.toList <:+: s.toList :=
  occursIn_iff

/-- A text starts with another one. -/
def hasStart (s start : String) : Bool := start.toList.isPrefixOf s.toList

/-- A text ends with another one. -/
def hasEnd (s ending : String) : Bool := ending.toList.isSuffixOf s.toList

end CodeAtlas.Text
