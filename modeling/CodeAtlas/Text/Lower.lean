import CodeAtlas.Text.CaseTable

/-!
# Lower-casing

Full lower-casing of a text. Two characters need more than a table: a dotted capital `İ` becomes two
characters, and a capital sigma takes its final form at the end of a word.
-/

namespace CodeAtlas.Text

def inRanges (ranges : List (Nat × Nat)) (c : Char) : Bool :=
  ranges.any fun (low, high) => low ≤ c.toNat && c.toNat ≤ high

/-- Whether a character has case. -/
def isCased (c : Char) : Bool := c.isAlpha || (0x7F < c.toNat && inRanges casedRanges c)

/-- Whether a character is skipped when looking for a cased neighbour. -/
def isCaseIgnorable (c : Char) : Bool := inRanges caseIgnorableRanges c

/-- The lower-case form of a character whose form is one character. -/
def lowerChar (c : Char) : Char :=
  if c.toNat < 0x80 then c.toLower
  else
    match lowerRuns.find? fun r =>
        r.first ≤ c.toNat && c.toNat ≤ r.last && (c.toNat - r.first) % r.step == 0 with
    | some r => Char.ofNat (c.toNat + r.offset).toNat
    | none => c

/-- Whether the first character of `cs` that is not skipped has case. -/
def startsCased (cs : List Char) : Bool :=
  match cs.dropWhile isCaseIgnorable with
  | c :: _ => isCased c
  | [] => false

/-- Lowers `cs`, which stands after the characters `before`, the nearest first. -/
def lowerAfter (before : List Char) : List Char → List Char
  | [] => []
  | c :: cs =>
    let lowered :=
      if c = 'İ' then ['i', '\u0307']
      else if c = 'Σ' then [if startsCased before && !startsCased cs then 'ς' else 'σ']
      else [lowerChar c]
    lowered ++ lowerAfter (c :: before) cs

/-- The lower-case form of a text. -/
def lower (s : String) : String := String.ofList (lowerAfter [] s.toList)

end CodeAtlas.Text
