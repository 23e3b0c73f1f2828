import CodeAtlas.Outline.Selector
import CodeAtlas.Text.Blank
import Mathlib.Data.List.TakeWhile

/-!
# Progressions as text

`An+B` stands for the numbers `a * n + b`. The two coefficients of a node in a selector are given as
numbers or as text, and the text of the node is put together from them by dropping a one and adding
a sign. What comes out must still be read as the same progression, also where a coefficient is zero,
negative, or written with a plus sign or with leading zeros.

The reader below takes the notation as style sheets have it, with `even` and `odd`, letters of
either case, and blanks around the sign between the two parts. Main statement: it gives back the
coefficients of every node that has at least one of them.
-/

namespace CodeAtlas

/-! ### Whole numbers -/

/-- Decimal digits, at least one. -/
def IsDigits (ds : List Char) : Prop := ds ≠ [] ∧ ∀ c ∈ ds, c.isDigit = true

instance (ds : List Char) : Decidable (IsDigits ds) :=
  decidable_of_iff (ds ≠ [] ∧ ds.all Char.isDigit = true)
    ⟨fun h => ⟨h.1, List.all_eq_true.1 h.2⟩, fun h => ⟨h.1, List.all_eq_true.2 h.2⟩⟩

/-- A whole number as it is written: digits, with or without a sign in front. -/
inductive Numeral : List Char → Int → Prop
  | plain {ds : List Char} (digits : IsDigits ds) : Numeral ds (Nat.ofDigitChars 10 ds 0)
  | plus {ds : List Char} (digits : IsDigits ds) : Numeral ('+' :: ds) (Nat.ofDigitChars 10 ds 0)
  | minus {ds : List Char} (digits : IsDigits ds) : Numeral ('-' :: ds) (-Nat.ofDigitChars 10 ds 0)

/-- The numbers `step * n + offset`. -/
structure Progression where
  step : Int
  offset : Int
deriving DecidableEq, Repr

namespace Progression

/-! ### Reading -/

def isSpace (c : Char) : Bool := c == ' ' || c == '\t' || c == '\n' || c == '\r' || c == '\x0c'

def natural? (ds : List Char) : Option Nat :=
  if IsDigits ds then some (Nat.ofDigitChars 10 ds 0) else none

/-- A number that has a sign. -/
def signed? : List Char → Option Int
  | '+' :: ds => (natural? ds).map fun n => n
  | '-' :: ds => (natural? ds).map fun n => -n
  | _ => none

def integer? (cs : List Char) : Option Int := (signed? cs).or ((natural? cs).map fun n => n)

/-- What stands before the `n`. Nothing and a sign alone mean one. -/
def step? (cs : List Char) : Option Int :=
  if cs = [] ∨ cs = ['+'] then some 1
  else if cs = ['-'] then some (-1)
  else integer? cs

/-- What stands after the `n`. Nothing means zero, and anything else has a sign. -/
def offset? (cs : List Char) : Option Int :=
  match cs.dropWhile isSpace with
  | [] => some 0
  | sign :: ds => signed? (sign :: ds.dropWhile isSpace)

/-- Letters count the same in either case, and blanks around the whole do not count. -/
def tidy (cs : List Char) : List Char := (Text.stripWhere isSpace cs).map Char.toLower

/-- The progression that a text stands for. Without an `n` it is a single number. -/
def read? (s : String) : Option Progression :=
  let cs := tidy s.toList
  if cs = "even".toList then some ⟨2, 0⟩
  else if cs = "odd".toList then some ⟨2, 1⟩
  else
    match cs.dropWhile (· != 'n') with
    | [] => (integer? cs).map fun b => ⟨0, b⟩
    | _ :: rest => do return ⟨← step? (cs.takeWhile (· != 'n')), ← offset? rest⟩

example : read? " 2N - 01 " = some ⟨2, -1⟩ := by decide

example : read? "2n+-1" = none ∧ read? "+ 2n" = none ∧ read? "" = none := by decide

/-! ### Texts of signs and digits -/

/-- A sign or a digit. -/
def IsMark (c : Char) : Prop := c.isDigit = true ∨ c = '+' ∨ c = '-'

variable {c : Char} {cs front back : List Char} {n : Int} {s : String}

theorem isSpace_of_isMark (h : IsMark c) : isSpace c = false := by
  have ne {other : Char} (blank : ¬ IsMark other) : (c == other) = false := by
    rw [beq_eq_false_iff_ne]
    rintro rfl
    exact blank h
  rw [isSpace, ne, ne, ne, ne, ne]
  · rfl
  all_goals simp [IsMark]

theorem ne_n_of_isMark (h : IsMark c) : c ≠ 'n' := by
  rintro rfl
  simp [IsMark] at h

theorem toLower_of_isMark (h : IsMark c) : c.toLower = c := by
  rcases h with h | rfl | rfl
  · simp only [Char.isDigit, Bool.and_eq_true, decide_eq_true_eq] at h
    -- the digits stand before the capital letters
    refine dif_neg fun upper => ?_
    exact absurd (UInt32.le_trans upper.1 h.2) (by decide)
  · rfl
  · rfl

theorem dropWhile_isSpace (h : ∀ c ∈ cs, isSpace c = false) : cs.dropWhile isSpace = cs := by
  rw [List.dropWhile_eq_self_iff]
  intro positive
  simp [h _ (List.getElem_mem positive)]

theorem tidy_eq (h : ∀ c ∈ cs, IsMark c ∨ c = 'n') : tidy cs = cs := by
  have solid : ∀ c ∈ cs, isSpace c = false := by
    intro c mem
    rcases h c mem with mark | rfl
    · exact isSpace_of_isMark mark
    · rfl
  have lower : ∀ c ∈ cs, c.toLower = c := by
    intro c mem
    rcases h c mem with mark | rfl
    · exact toLower_of_isMark mark
    · rfl
  rw [tidy, Text.stripWhere, dropWhile_isSpace solid, dropWhile_isSpace (by simpa using solid),
    List.reverse_reverse]
  exact List.map_congr_left lower |>.trans (List.map_id cs)

/-- Such a text is neither of the two words. -/
theorem read?_eq (h : ∀ c ∈ s.toList, IsMark c ∨ c = 'n') :
    read? s = match s.toList.dropWhile (· != 'n') with
      | [] => (integer? s.toList).map fun b => ⟨0, b⟩
      | _ :: rest => do return ⟨← step? (s.toList.takeWhile (· != 'n')), ← offset? rest⟩ := by
  have ne {word : String} (letter : ∃ c ∈ word.toList, ¬ (IsMark c ∨ c = 'n')) :
      s.toList ≠ word.toList := by
    intro same
    obtain ⟨c, mem, other⟩ := letter
    exact other (h c (same ▸ mem))
  rw [read?, tidy_eq h]
  rw [if_neg (ne ⟨'e', by decide, by simp [IsMark]⟩),
    if_neg (ne ⟨'o', by decide, by simp [IsMark]⟩)]

theorem read?_number (marks : ∀ c ∈ s.toList, IsMark c) :
    read? s = (integer? s.toList).map fun b => ⟨0, b⟩ := by
  have all : s.toList.dropWhile (· != 'n') = [] := by
    rw [List.dropWhile_eq_nil_iff]
    intro c mem
    simpa using ne_n_of_isMark (marks c mem)
  rw [read?_eq fun c mem => .inl (marks c mem), all]

theorem read?_parts {a b : Int} (text : s.toList = front ++ 'n' :: back)
    (before : ∀ c ∈ front, IsMark c) (after : ∀ c ∈ back, IsMark c) (step : step? front = some a)
    (offset : offset? back = some b) :
    read? s = some ⟨a, b⟩ := by
  have other : ∀ c ∈ front, (c != 'n') = true := by
    intro c mem
    simpa using ne_n_of_isMark (before c mem)
  have marks : ∀ c ∈ s.toList, IsMark c ∨ c = 'n' := by
    intro c mem
    rw [text, List.mem_append, List.mem_cons] at mem
    rcases mem with mem | rfl | mem
    · exact .inl (before c mem)
    · exact .inr rfl
    · exact .inl (after c mem)
  rw [read?_eq marks, text, List.dropWhile_append_of_pos other, List.takeWhile_append_of_pos other]
  simp [step, offset]

/-! ### Numerals -/

theorem natural?_of_isDigits (h : IsDigits cs) : natural? cs = some (Nat.ofDigitChars 10 cs 0) :=
  if_pos h

/-- Digits start with no sign. -/
theorem signed?_of_isDigits (h : IsDigits cs) : signed? cs = none := by
  unfold signed?
  split
  · simpa using h.2 '+'
  · simpa using h.2 '-'
  · rfl

theorem integer?_of_numeral (h : Numeral cs n) : integer? cs = some n := by
  cases h with
  | plain digits => simp [integer?, signed?_of_isDigits digits, natural?_of_isDigits digits]
  | plus digits => simp [integer?, signed?, natural?_of_isDigits digits]
  | minus digits => simp [integer?, signed?, natural?_of_isDigits digits]

theorem isMark_of_numeral (h : Numeral cs n) : ∀ c ∈ cs, IsMark c := by
  have marks {ds : List Char} (digits : IsDigits ds) : ∀ c ∈ ds, IsMark c :=
    fun c mem => .inl (digits.2 c mem)
  cases h with
  | plain digits => exact marks digits
  | plus digits => exact List.forall_mem_cons.2 ⟨.inr (.inl rfl), marks digits⟩
  | minus digits => exact List.forall_mem_cons.2 ⟨.inr (.inr rfl), marks digits⟩

theorem numeral_toString (n : Int) : Numeral (toString n).toList n := by
  have digits (m : Nat) : IsDigits (Nat.toDigits 10 m) :=
    ⟨Nat.toDigits_ne_nil, fun c mem => Nat.isDigit_of_mem_toDigits (by decide) (by decide) mem⟩
  cases n with
  | ofNat m =>
    have := Numeral.plain (digits m)
    rw [Nat.ofDigitChars_ten_toDigits] at this
    show Numeral (toString m).toList m
    rwa [Nat.toString_eq_ofList_toDigits, String.toList_ofList]
  | negSucc m =>
    have := Numeral.minus (digits (m + 1))
    rw [Nat.ofDigitChars_ten_toDigits] at this
    show Numeral ("-" ++ toString (m + 1)).toList (-(m + 1 : Nat))
    simpa [Nat.toString_eq_ofList_toDigits] using this

/-- A number has a digit, so it is not a sign alone. -/
theorem step?_of_numeral (h : Numeral cs n) : step? cs = some n := by
  have long : cs ≠ [] ∧ cs ≠ ['+'] ∧ cs ≠ ['-'] := by
    cases h with
    | plain digits =>
      refine ⟨digits.1, ?_, ?_⟩
      · rintro rfl
        simpa using digits.2 '+'
      · rintro rfl
        simpa using digits.2 '-'
    | plus digits => simp [digits.1]
    | minus digits => simp [digits.1]
  rw [step?, if_neg (not_or.2 ⟨long.1, long.2.1⟩), if_neg long.2.2, integer?_of_numeral h]

theorem offset?_of_marks (marks : ∀ c ∈ cs, IsMark c) (signed : signed? cs = some n) :
    offset? cs = some n := by
  have solid : ∀ c ∈ cs, isSpace c = false := fun c mem => isSpace_of_isMark (marks c mem)
  rw [offset?, dropWhile_isSpace solid]
  cases cs with
  | nil => simp [signed?] at signed
  | cons sign ds =>
    simpa only [dropWhile_isSpace fun c mem => solid c (List.mem_cons_of_mem _ mem)] using signed

end Progression

namespace Selector

open Progression

/-- What a node gives for a coefficient, and the number that it means. -/
inductive Gives : Option Json → Option Int → Prop
  | missing : Gives none none
  | null : Gives (some .null) none
  | number (n : Int) : Gives (some (.num (.int n))) (some n)
  | text {s : String} {n : Int} (numeral : Numeral s.toList n) : Gives (some (.str s)) (some n)

variable {fields : List (String × Json)} {key a b : String} {n : Int}

/-- A coefficient is written as a number. -/
theorem coefficient?_of_gives {n : Option Int} (h : Gives (Json.lookup fields key) n) :
    Option.Rel (fun s n => Numeral s.toList n) (coefficient? fields key) n := by
  rw [coefficient?]
  generalize Json.lookup fields key = v at h
  cases h with
  | missing => exact .none
  | null => exact .none
  | number n => exact .some (numeral_toString n)
  | text numeral => exact .some numeral

/-- The first part of the text: the coefficient with its `n`. -/
def stepText (a : String) : String :=
  match a with
  | "1" | "+1" => "n"
  | "-1" => "-n"
  | _ => a ++ "n"

/-- The second part of the text: the coefficient with its sign. -/
def offsetText (b : String) : String :=
  if Text.hasStart b "+" || Text.hasStart b "-" then b else "+" ++ b

theorem anPlusB_step (a : String) : anPlusB (some a) none = stepText a := rfl

theorem anPlusB_both (a b : String) : anPlusB (some a) (some b) = stepText a ++ offsetText b := by
  rw [offsetText, apply_ite (stepText a ++ ·), ← String.append_assoc]
  rfl

theorem exists_front (h : Numeral a.toList n) :
    ∃ front, (stepText a).toList = front ++ ['n'] ∧ (∀ c ∈ front, IsMark c) ∧
      step? front = some n := by
  have value := integer?_of_numeral h
  unfold stepText
  -- a one is left out, and what remains of it is read as a one
  split
  · exact ⟨[], rfl, by simp, value⟩
  · exact ⟨[], rfl, by simp, value⟩
  · exact ⟨['-'], rfl, by simp [IsMark], value⟩
  · exact ⟨a.toList, by simp, isMark_of_numeral h, step?_of_numeral h⟩

theorem not_isPrefixOf {sign : Char} {ds : List Char} (digits : IsDigits ds)
    (other : sign.isDigit = false) : [sign].isPrefixOf ds = false := by
  rw [← Bool.not_eq_true, List.isPrefixOf_iff_prefix]
  intro isPrefix
  have digit := digits.2 sign (isPrefix.subset List.mem_cons_self)
  rw [other] at digit
  cases digit

/-- The second part is the same number with a sign for certain. -/
theorem numeral_offsetText (h : Numeral b.toList n) :
    Numeral (offsetText b).toList n ∧ signed? (offsetText b).toList = some n := by
  generalize text : b.toList = cs at h
  cases h with
  | plain digits =>
    have bare : (Text.hasStart b "+" || Text.hasStart b "-") = false := by
      rw [Text.hasStart, Text.hasStart, text]
      exact Bool.or_eq_false_iff.2 ⟨not_isPrefixOf digits rfl, not_isPrefixOf digits rfl⟩
    rw [offsetText, bare, if_neg Bool.false_ne_true, String.toList_append, text]
    exact ⟨.plus digits, by simp [signed?, natural?_of_isDigits digits]⟩
  | plus digits =>
    have sign : Text.hasStart b "+" = true := by simp [Text.hasStart, text]
    rw [offsetText, sign, Bool.true_or, if_pos rfl, text]
    exact ⟨.plus digits, by simp [signed?, natural?_of_isDigits digits]⟩
  | minus digits =>
    have sign : Text.hasStart b "-" = true := by simp [Text.hasStart, text]
    rw [offsetText, sign, Bool.or_true, if_pos rfl, text]
    exact ⟨.minus digits, by simp [signed?, natural?_of_isDigits digits]⟩

/-- Reading undoes writing. -/
theorem read?_anPlusB {a b : Option String} {x y : Option Int}
    (step : Option.Rel (fun s n => Numeral s.toList n) a x)
    (offset : Option.Rel (fun s n => Numeral s.toList n) b y) (present : x ≠ none ∨ y ≠ none) :
    read? (anPlusB a b) = some ⟨x.getD 0, y.getD 0⟩ := by
  cases step with
  | none =>
    cases offset with
    | none => simp at present
    | @some b y numeral =>
      show read? b = _
      rw [read?_number (isMark_of_numeral numeral), integer?_of_numeral numeral]
      rfl
  | @some a x numeral =>
    obtain ⟨front, text, marks, step⟩ := exists_front numeral
    cases offset with
    | none =>
      rw [anPlusB_step]
      exact read?_parts text marks (by simp) step rfl
    | @some b y numeral =>
      obtain ⟨numeral, signed⟩ := numeral_offsetText numeral
      have after := isMark_of_numeral numeral
      have both : (stepText a ++ offsetText b).toList = front ++ 'n' :: (offsetText b).toList := by
        rw [String.toList_append, text, List.append_assoc, List.singleton_append]
      rw [anPlusB_both]
      exact read?_parts both marks after step (offset?_of_marks after signed)

/-- The text of a node with coefficients, at least one of them given, is read as the progression of
these coefficients. -/
theorem progression_reads_back (fields : List (String × Json)) (a b : Option Int)
    (type : Json.lookup fields "type" = some (.str "AnPlusB"))
    (step : Gives (Json.lookup fields "a") a) (offset : Gives (Json.lookup fields "b") b)
    (present : a ≠ none ∨ b ≠ none) :
    ∃ s, text (.obj fields) = .ok s ∧ read? s = some ⟨a.getD 0, b.getD 0⟩ := by
  refine ⟨anPlusB (coefficient? fields "a") (coefficient? fields "b"), ?_, ?_⟩
  · rw [text, type]
    rfl
  · exact read?_anPlusB (coefficient?_of_gives step) (coefficient?_of_gives offset) present

/-- A one with a plus sign, and a negative number with a leading zero. -/
theorem progression_reads_back_signed :
    let fields : List (String × Json) :=
      [("type", .str "AnPlusB"), ("a", .str "+1"), ("b", .str "-03")]
    Gives (Json.lookup fields "a") (some 1) ∧ Gives (Json.lookup fields "b") (some (-3)) ∧
      ∃ s, text (.obj fields) = .ok s ∧ read? s = some ⟨1, -3⟩ := by
  intro fields
  have step : Gives (Json.lookup fields "a") (some 1) := .text (@Numeral.plus ['1'] (by decide))
  have offset : Gives (Json.lookup fields "b") (some (-3)) :=
    .text (@Numeral.minus ['0', '3'] (by decide))
  exact ⟨step, offset, progression_reads_back fields _ _ rfl step offset (.inl (by decide))⟩

end Selector

end CodeAtlas
