import CodeAtlas.Html.Tag
import CodeAtlas.Html.Token
import Mathlib.Data.List.Chain

/-!
# Written tokens

Tokens can be written one after the other and are read back from the text, if names are names, texts
are free of brackets and of blanks at their ends, comments end only once, and no text follows
another one, which would make one text of them.

Main statement: cutting the written text into tokens gives the tokens that were written.
-/

namespace CodeAtlas.Html

/-! ### What can be written -/

/-- A tag name. -/
structure IsTagName (name : String) : Prop where
  ne_empty : name ≠ ""
  chars : ∀ c ∈ name.toList, isTagChar c = true

instance (name : String) : Decidable (IsTagName name) :=
  decidable_of_iff (name ≠ "" ∧ name.toList.all isTagChar = true)
    ⟨fun h => ⟨h.1, List.all_eq_true.1 h.2⟩, fun h => ⟨h.ne_empty, List.all_eq_true.2 h.chars⟩⟩

/-- A text without brackets and ampersands that no blank begins or ends. -/
structure IsPlainText (content : String) : Prop where
  ne_empty : content ≠ ""
  chars : ∀ c ∈ content.toList, isTextChar c = true
  first : content.toList.head?.any Text.isAsciiBlank = false
  last : content.toList.getLast?.any Text.isAsciiBlank = false

instance (content : String) : Decidable (IsPlainText content) :=
  decidable_of_iff (content ≠ "" ∧ content.toList.all isTextChar = true ∧
      content.toList.head?.any Text.isAsciiBlank = false ∧
        content.toList.getLast?.any Text.isAsciiBlank = false)
    ⟨fun h => ⟨h.1, List.all_eq_true.1 h.2.1, h.2.2.1, h.2.2.2⟩,
      fun h => ⟨h.ne_empty, List.all_eq_true.2 h.chars, h.first, h.last⟩⟩

/-- A comment whose end stands nowhere else in it. -/
def IsComment (content : String) : Prop :=
  ∃ body : List Char, content = "<!--" ++ String.ofList body ∧ ['-', '-', '>'] <:+ body ∧
    ¬ ['-', '-', '>'] <:+: body.dropLast

namespace Token

/-- The blank before the name of a spaced tag. -/
def gap (spaced : Bool) : String := if spaced then " " else ""

def write : Token → String
  | .openTag name spaced => "<" ++ (gap spaced ++ name) ++ ">"
  | .emptyTag name spaced => "<" ++ (gap spaced ++ name) ++ "/>"
  | .closeTag name spaced => "</" ++ (gap spaced ++ name) ++ ">"
  | .text content => content
  | .comment content => content

def writeAll : List Token → String
  | [] => ""
  | t :: ts => t.write ++ writeAll ts

def isText : Token → Bool
  | .text _ => true
  | _ => false

def isEndTag : Token → Bool
  | .closeTag _ _ => true
  | _ => false

/-- A token that can be read back. -/
def IsTidy : Token → Prop
  | .openTag name _ | .emptyTag name _ => IsTagName name ∧ isRaw name = false
  | .closeTag name _ => IsTagName name
  | .text content => IsPlainText content
  | .comment content => IsComment content

/-- Two tokens that stay apart when they are written side by side. -/
def Apart (a b : Token) : Prop := ¬ (a.isText = true ∧ b.isText = true)

theorem writeAll_append (a b : List Token) : writeAll (a ++ b) = writeAll a ++ writeAll b := by
  induction a with
  | nil => simp [writeAll]
  | cons t a ih => rw [List.cons_append, writeAll, ih, writeAll, String.append_assoc]

end Token

open Token (gap write writeAll)

/-! ### Characters -/

theorem not_isAsciiBlank_of_isTagChar {c : Char} (h : isTagChar c = true) :
    Text.isAsciiBlank c = false := by
  rw [Bool.eq_false_iff]
  intro blank
  simp only [Text.isAsciiBlank, Bool.or_eq_true, beq_iff_eq] at blank
  rcases blank with ((((rfl | rfl) | rfl) | rfl) | rfl) | rfl <;> revert h <;> decide

theorem isTextChar_iff {c : Char} : isTextChar c = true ↔ c ≠ '<' ∧ c ≠ '>' ∧ c ≠ '&' := by
  simp [isTextChar, and_assoc]

/-! ### Tags -/

section Tags

variable {name : String} {rest : List Char}

/-- A name is read up to what cannot belong to it. -/
theorem readName_append (h : IsTagName name) (spaced : Bool) {c : Char} (stop : isTagChar c = false)
    (rest : List Char) :
    readName ((gap spaced ++ name).toList ++ c :: rest) = (name, spaced, c :: rest) := by
  obtain ⟨first, others, eq⟩ :=
    List.exists_cons_of_ne_nil (mt String.toList_eq_nil_iff.1 h.ne_empty)
  have firstChar : Text.isAsciiBlank first = false :=
    not_isAsciiBlank_of_isTagChar (h.chars first (by simp [eq]))
  have blank : Text.isAsciiBlank ' ' = true := rfl
  have body :
      ((gap spaced ++ name).toList ++ c :: rest).dropWhile Text.isAsciiBlank =
        name.toList ++ c :: rest := by
    cases spaced <;> simp [gap, eq, firstChar, blank]
  have taken : (name.toList ++ c :: rest).takeWhile isTagChar = name.toList := by
    rw [List.takeWhile_append_of_pos h.chars]
    simp [stop]
  have left : (name.toList ++ c :: rest).dropWhile isTagChar = c :: rest := by
    rw [List.dropWhile_append_of_pos h.chars]
    simp [stop]
  have isSpaced :
      ((((gap spaced ++ name).toList ++ c :: rest).head?).map Text.isAsciiBlank).getD false =
        spaced := by
    cases spaced <;> simp [gap, eq, firstChar, blank]
  rw [readName, isSpaced, body, taken, left, String.ofList_toList]

theorem tokens_bracket (cs : List Char) :
    tokens ('<' :: cs) = (readMarkup cs).1 ++ tokens (readMarkup cs).2 := by
  rw [tokens]
  simp [Text.isAsciiBlank]

/-- Neither a blank nor a name begins with a mark or a slash. -/
theorem head?_gap_append (h : IsTagName name) (spaced : Bool) (cs : List Char) {c : Char}
    (other : isTagChar c = false) (notBlank : c ≠ ' ') :
    ((gap spaced ++ name).toList ++ cs).head? ≠ some c := by
  obtain ⟨first, others, eq⟩ :=
    List.exists_cons_of_ne_nil (mt String.toList_eq_nil_iff.1 h.ne_empty)
  have firstChar : isTagChar first = true := h.chars first (by simp [eq])
  cases spaced with
  | false =>
    have ne : first ≠ c := by
      rintro rfl
      rw [firstChar] at other
      cases other
    simpa [gap, eq] using ne
  | true => simpa [gap] using notBlank.symm

/-- A start tag is empty if a slash stands before its end. -/
theorem readMarkup_startTag (h : IsTagName name) (notRaw : isRaw name = false)
    (spaced : Bool) {c : Char} (stop : isTagChar c = false) {cs : List Char} {finish : TagEnd}
    (scanned : scanTag .between (c :: cs) = (finish, rest)) :
    readMarkup ((gap spaced ++ name).toList ++ c :: cs) =
      ([if finish = .selfClosed then .emptyTag name spaced else .openTag name spaced], rest) := by
  have mark := head?_gap_append h spaced (c :: cs) (c := '!') (by decide) (by decide)
  have slash := head?_gap_append h spaced (c :: cs) (c := '/') (by decide) (by decide)
  have some_char : name.isEmpty = false := by simpa [String.isEmpty_iff] using h.ne_empty
  have notScript : ¬ (name.map Char.toUpper = "SCRIPT" ∨ name.map Char.toUpper = "STYLE") := by
    have upperScript : upper "SCRIPT" = "SCRIPT" := by decide +kernel
    have upperStyle : upper "STYLE" = "STYLE" := by decide +kernel
    rw [isRaw, sameName, sameName, upperScript, upperStyle, Bool.or_eq_false_iff,
      beq_eq_false_iff_ne, beq_eq_false_iff_ne] at notRaw
    exact not_or.2 notRaw
  have read := readName_append h spaced stop cs
  generalize (gap spaced ++ name).toList ++ c :: cs = text at mark slash read
  unfold readMarkup
  split
  · exact absurd rfl mark
  · exact absurd rfl mark
  · exact absurd rfl slash
  · simp only [read, scanned, some_char, Bool.false_eq_true, if_false]
    cases finish <;> simp [notScript]

theorem tokens_openTag (h : IsTagName name) (notRaw : isRaw name = false) (spaced : Bool) :
    tokens ((write (.openTag name spaced)).toList ++ rest) =
      .openTag name spaced :: tokens rest := by
  have text :
      (write (.openTag name spaced)).toList ++ rest =
        '<' :: ((gap spaced ++ name).toList ++ '>' :: rest) := by
    simp [write]
  have scanned : scanTag .between ('>' :: rest) = (.complete, rest) := by simp [scanTag]
  rw [text, tokens_bracket, readMarkup_startTag h notRaw spaced (by decide) scanned]
  rfl

theorem tokens_emptyTag (h : IsTagName name) (notRaw : isRaw name = false) (spaced : Bool) :
    tokens ((write (.emptyTag name spaced)).toList ++ rest) =
      .emptyTag name spaced :: tokens rest := by
  have text : (write (.emptyTag name spaced)).toList ++ rest =
      '<' :: ((gap spaced ++ name).toList ++ '/' :: '>' :: rest) := by
    simp [write]
  have scanned : scanTag .between ('/' :: '>' :: rest) = (.selfClosed, rest) := by simp [scanTag]
  rw [text, tokens_bracket, readMarkup_startTag h notRaw spaced (by decide) scanned]
  rfl

theorem tokens_closeTag (h : IsTagName name) (spaced : Bool) :
    tokens ((write (.closeTag name spaced)).toList ++ rest) =
      .closeTag name spaced :: tokens rest := by
  have text : (write (.closeTag name spaced)).toList ++ rest =
      '<' :: '/' :: ((gap spaced ++ name).toList ++ '>' :: rest) := by
    simp [write]
  have some_char : name.isEmpty = false := by simpa [String.isEmpty_iff] using h.ne_empty
  have markup : readMarkup ('/' :: ((gap spaced ++ name).toList ++ '>' :: rest)) =
      ([.closeTag name spaced], rest) := by
    have after : afterClose ('>' :: rest) = rest := by simp [afterClose]
    rw [readMarkup]
    simp only [readName_append h spaced (c := '>') (by decide) rest, some_char, after,
      Bool.false_eq_true, if_false]
  rw [text, tokens_bracket, markup]
  rfl

end Tags

/-! ### Texts and comments -/

theorem trimEnd_eq {cs : List Char} (last : cs.getLast?.any Text.isAsciiBlank = false) :
    trimEnd cs = cs := by
  rcases List.eq_nil_or_concat' cs with rfl | ⟨front, c, rfl⟩
  · rfl
  · rw [List.getLast?_concat, Option.any_some] at last
    simp [trimEnd, last]

/-- A text is read up to the next bracket. -/
theorem tokens_text {content : String} (h : IsPlainText content) {rest : List Char}
    (stop : ∀ c ∈ rest.head?, isTextChar c = false) :
    tokens (content.toList ++ rest) = .text content :: tokens rest := by
  obtain ⟨first, others, eq⟩ :=
    List.exists_cons_of_ne_nil (mt String.toList_eq_nil_iff.1 h.ne_empty)
  have notBlank : Text.isAsciiBlank first = false := by simpa [eq] using h.first
  obtain ⟨notOpen, notClose, notAnd⟩ := isTextChar_iff.1 (h.chars first (by simp [eq]))
  have inside : ∀ c ∈ others, isTextChar c = true := fun c mem => h.chars c (by simp [eq, mem])
  have taken : (others ++ rest).takeWhile isTextChar = others := by
    rw [List.takeWhile_append_of_pos inside]
    cases rest with
    | nil => simp
    | cons c rest => simp [stop c rfl]
  have left : (others ++ rest).dropWhile isTextChar = rest := by
    rw [List.dropWhile_append_of_pos inside]
    cases rest with
    | nil => rfl
    | cons c rest => simp [stop c rfl]
  have trimmed : trimEnd (first :: others) = first :: others := trimEnd_eq (eq ▸ h.last)
  rw [eq, List.cons_append, tokens]
  simp only [notBlank, notOpen, notClose, notAnd, taken, left, trimmed, Bool.false_or, decide_false,
    Bool.false_eq_true, if_false]
  rw [← eq, String.ofList_toList]

theorem two_dashes {done : List Char} (h : 2 ≤ (done.takeWhile (· == '-')).length) :
    ∃ before, done = '-' :: '-' :: before := by
  match done with
  | [] => simp at h
  | [c] =>
    have := (List.takeWhile_sublist (· == '-') (l := [c])).length_le
    simp at this
    omega
  | c :: d :: before =>
    by_cases first : c = '-'
    · by_cases second : d = '-'
      · exact ⟨before, by rw [first, second]⟩
      · simp [first, second] at h
    · simp [first] at h

/-- The body of a comment is read up to the end that stands nowhere else in it. `done` has been read
already. -/
theorem readComment_append (done : List Char) {cs : List Char} (some_char : cs ≠ [])
    (ends : ['-', '-', '>'] <:+ done.reverse ++ cs)
    (once : ¬ ['-', '-', '>'] <:+: (done.reverse ++ cs).dropLast) (rest : List Char) :
    readComment (done.takeWhile (· == '-')).length done (cs ++ rest) =
      some (done.reverse ++ cs, rest) := by
  induction cs generalizing done with
  | nil => exact absurd rfl some_char
  | cons c cs ih =>
    rw [List.cons_append, readComment]
    by_cases last : cs = []
    · subst last
      obtain ⟨before, eq⟩ := ends
      obtain ⟨rfl, rfl⟩ : '>' = c ∧ '-' :: '-' :: before.reverse = done := by
        simpa using congrArg List.reverse eq
      simp
    · have goesOn : ¬ (c = '>' ∧ 2 ≤ (done.takeWhile (· == '-')).length) := by
        rintro ⟨rfl, dashes⟩
        obtain ⟨before, rfl⟩ := two_dashes dashes
        apply once
        refine ⟨before.reverse, cs.dropLast, ?_⟩
        rw [List.dropLast_append_of_ne_nil (by simp), List.dropLast_cons_of_ne_nil last]
        simp
      have dashes : (if c = '-' then (done.takeWhile (· == '-')).length + 1 else 0) =
          ((c :: done).takeWhile (· == '-')).length := by
        by_cases dash : c = '-' <;> simp [dash]
      have further := ih (c :: done) last (by simpa using ends) (by simpa using once)
      rw [dashes, if_neg (by simpa using goesOn), further]
      simp

theorem tokens_comment {content : String} (h : IsComment content) (rest : List Char) :
    tokens (content.toList ++ rest) = .comment content :: tokens rest := by
  obtain ⟨body, rfl, ends, once⟩ := h
  have some_char : body ≠ [] := by
    rintro rfl
    simp at ends
  have text :
      ("<!--" ++ String.ofList body).toList ++ rest =
        '<' :: '!' :: '-' :: '-' :: (body ++ rest) := by simp
  have markup : readMarkup ('!' :: '-' :: '-' :: (body ++ rest)) =
      ([.comment ("<!--" ++ String.ofList body)], rest) := by
    have read : readComment 0 [] (body ++ rest) = some (body, rest) :=
      readComment_append [] some_char ends once rest
    rw [readMarkup, read]
  rw [text, tokens_bracket, markup]
  rfl

/-! ### Sequences -/

/-- What is not a text begins with a bracket. -/
theorem head?_write {t : Token} (tidy : t.IsTidy) (other : t.isText = false) :
    t.write.toList.head? = some '<' := by
  cases t with
  | text content => cases other
  | comment content =>
    obtain ⟨body, rfl, -⟩ := tidy
    simp [write]
  | openTag name spaced => simp [write]
  | emptyTag name spaced => simp [write]
  | closeTag name spaced => simp [write]

/-- Tokens are read back from the text that they make. -/
theorem tokens_writeAll {ts : List Token} (tidy : ∀ t ∈ ts, t.IsTidy)
    (apart : ts.IsChain Token.Apart) : tokens (writeAll ts).toList = ts := by
  induction ts with
  | nil => rw [writeAll, String.toList_empty, tokens]
  | cons t ts ih =>
    have here : t.IsTidy := tidy t List.mem_cons_self
    have rest := ih (fun t mem => tidy t (List.mem_cons_of_mem _ mem)) apart.tail
    rw [writeAll, String.toList_append]
    cases t with
    | openTag name spaced => rw [tokens_openTag here.1 here.2, rest]
    | emptyTag name spaced => rw [tokens_emptyTag here.1 here.2, rest]
    | closeTag name spaced => rw [tokens_closeTag here, rest]
    | comment content => rw [write, tokens_comment here, rest]
    | text content =>
      have stop : ∀ c ∈ (writeAll ts).toList.head?, isTextChar c = false := by
        cases ts with
        | nil => simp [writeAll]
        | cons next ts =>
          have separate : Token.Apart (.text content) next := (List.isChain_cons_cons.1 apart).1
          have other : next.isText = false :=
            Bool.eq_false_iff.2 fun isText => separate ⟨rfl, isText⟩
          have bracket := head?_write (tidy next (by simp)) other
          intro c first
          rw [writeAll, String.toList_append, List.head?_append, bracket] at first
          cases first
          decide
      rw [write, tokens_text here stop, rest]

end CodeAtlas.Html
