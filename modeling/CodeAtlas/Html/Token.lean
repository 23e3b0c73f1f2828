import CodeAtlas.Text.Blank

/-!
# Markup tokens

Markup text is cut into tags, texts and comments without regard to how they nest. Doctypes, entities
and stray brackets leave no token, and blanks around a text do not belong to it. A tag that is never
finished counts as if it were. The content of a script or a style is one token, whatever it holds.
-/

namespace CodeAtlas.Html

/-- A piece of markup. A tag is *spaced* when blanks stand before its name; such a tag does not end
other elements on its way. -/
inductive Token where
  | openTag (name : String) (spaced : Bool)
  | emptyTag (name : String) (spaced : Bool)
  | closeTag (name : String) (spaced : Bool)
  | text (content : String)
  | comment (content : String)
deriving DecidableEq, Repr

def isTagChar (c : Char) : Bool := c.isAlphanum || c == ':' || c == '-'

/-- A character that can stand in a text. -/
def isTextChar (c : Char) : Bool := c != '<' && c != '>' && c != '&'

/-- How a start tag ends. -/
inductive TagEnd where
  | complete
  | selfClosed
  | unfinished
deriving DecidableEq, Repr

/-- Where a start tag is being read. -/
inductive TagPart where
  | between
  | afterEquals
  | value
  | quoted (quote : Char)
deriving DecidableEq, Repr

/-- A character of an attribute's value without quotes. -/
def isValueChar (c : Char) : Bool :=
  !(Text.isAsciiBlank c || c == '<' || c == '>' || c == '"' || c == '\'' || c == '=')

/-- Passes over the attributes of a start tag. A bracket that opens another tag ends this one. -/
def scanTag : TagPart → List Char → TagEnd × List Char
  | _, [] => (.unfinished, [])
  | .quoted q, c :: cs => if c = q then scanTag .between cs else scanTag (.quoted q) cs
  | part, c :: cs =>
    if (part = .value || part = .afterEquals) && isValueChar c then scanTag .value cs
    else if part = .afterEquals && Text.isAsciiBlank c then scanTag .afterEquals cs
    else if part = .afterEquals && (c = '"' || c = '\'') then scanTag (.quoted c) cs
    else
      match c, cs with
      | '>', _ => (.complete, cs)
      | '/', '>' :: rest => (.selfClosed, rest)
      | '<', _ => (.unfinished, c :: cs)
      | '=', _ => scanTag .afterEquals cs
      | _, _ => scanTag .between cs

/-- The text after the end of an end tag. -/
def afterClose (cs : List Char) : List Char :=
  match cs.dropWhile fun c => c != '>' && c != '<' with
  | '>' :: rest => rest
  | rest => rest

/-- The body of a comment and the text after it. It ends at the first `>` after two dashes; `dashes`
counts those just before. -/
def readComment (dashes : Nat) (done : List Char) : List Char → Option (List Char × List Char)
  | [] => none
  | c :: cs =>
    if c = '>' && 2 ≤ dashes then some ((c :: done).reverse, cs)
    else readComment (if c = '-' then dashes + 1 else 0) (c :: done) cs

/-- The raw text before an end tag. `rest` is what is left of the delimiter to match, and `held` the
part matched so far. A character that breaks a match is not tried as the start of another one. -/
def readRaw (delimiter rest held done : List Char) : List Char → List Char × List Char
  | [] => (done.reverse, held.reverse)
  | c :: cs =>
    match rest with
    | d :: rest =>
      if c.toUpper = d then
        if rest.isEmpty then (done.reverse, held.reverse ++ c :: cs)
        else readRaw delimiter rest (c :: held) done cs
      else readRaw delimiter delimiter [] (c :: (held ++ done)) cs
    | [] => (done.reverse, held.reverse ++ c :: cs)

def isHexDigit (c : Char) : Bool :=
  c.isDigit || ('a' ≤ c && c ≤ 'f') || ('A' ≤ c && c ≤ 'F')

/-- The text after the body of an entity: up to `most` characters and a semicolon, if there is
one. -/
def afterEntityBody? (p : Char → Bool) (most : Nat) (cs : List Char) : Option (List Char) :=
  let n := min (cs.takeWhile p).length most
  if n = 0 then none
  else
    match cs.drop n with
    | ';' :: rest => some rest
    | rest => some rest

/-- The text after an entity, whose ampersand has been read. What is not an entity is not passed
over. -/
def afterEntity (cs : List Char) : List Char :=
  match cs with
  | '#' :: 'x' :: rest | '#' :: 'X' :: rest => (afterEntityBody? isHexDigit 6 rest).getD cs
  | '#' :: rest => (afterEntityBody? Char.isDigit 5 rest).getD cs
  | _ => (afterEntityBody? Char.isAlpha 30 cs).getD cs

/-- The text after a doctype, whose opening has been read; anything else is not passed over. -/
def afterDoctype (cs : List Char) : List Char :=
  if (cs.take 7).map Char.toUpper = "DOCTYPE".toList then (cs.dropWhile (· != '>')).drop 1 else cs

/-- A tag name, whether blanks stood before it, and the text after it. -/
def readName (cs : List Char) : String × Bool × List Char :=
  let body := cs.dropWhile Text.isAsciiBlank
  (String.ofList (body.takeWhile isTagChar), (cs.head?.map Text.isAsciiBlank).getD false,
    body.dropWhile isTagChar)

def trimEnd (cs : List Char) : List Char := (cs.reverse.dropWhile Text.isAsciiBlank).reverse

/-- The tokens that a bracket starts, and the text after them. `cs` stands after the bracket. -/
def readMarkup (cs : List Char) : List Token × List Char :=
  match cs with
  | '!' :: '-' :: '-' :: body =>
    match readComment 0 [] body with
    | some (content, rest) => ([.comment ("<!--" ++ String.ofList content)], rest)
    | none => ([], '-' :: '-' :: body)
  | '!' :: rest => ([], afterDoctype rest)
  | '/' :: rest =>
    let (name, spaced, after) := readName rest
    if name.isEmpty then ([], rest) else ([.closeTag name spaced], afterClose after)
  | _ =>
    let (name, spaced, after) := readName cs
    if name.isEmpty then ([], cs)
    else
      match scanTag .between after with
      | (.selfClosed, rest) => ([.emptyTag name spaced], rest)
      | (.unfinished, rest) => ([.openTag name spaced], rest)
      | (.complete, rest) =>
        let upper := name.map Char.toUpper
        if upper = "SCRIPT" || upper = "STYLE" then
          let delimiter := ("</" ++ upper).toList
          let (content, rest) := readRaw delimiter delimiter [] [] rest
          ([.openTag name spaced, .text (String.ofList content)], rest)
        else ([.openTag name spaced], rest)

theorem length_scanTag_le (part : TagPart) (cs : List Char) :
    (scanTag part cs).2.length ≤ cs.length := by
  fun_induction scanTag part cs <;> grind

theorem length_afterClose_le (cs : List Char) : (afterClose cs).length ≤ cs.length := by
  have := (List.dropWhile_sublist (l := cs) fun c => c != '>' && c != '<').length_le
  unfold afterClose
  split <;> simp_all
  omega

theorem length_readComment_le {dashes : Nat} {done cs content rest : List Char}
    (h : readComment dashes done cs = some (content, rest)) : rest.length ≤ cs.length := by
  fun_induction readComment dashes done cs <;> grind

theorem length_readRaw_le (delimiter rest held done cs : List Char) :
    (readRaw delimiter rest held done cs).2.length ≤ held.length + cs.length := by
  fun_induction readRaw delimiter rest held done cs <;> grind

theorem length_afterEntityBody?_le {p : Char → Bool} {most : Nat} {cs rest : List Char}
    (h : afterEntityBody? p most cs = some rest) : rest.length ≤ cs.length := by
  simp only [afterEntityBody?] at h
  split at h
  · simp at h
  · have hd : (cs.drop (min (cs.takeWhile p).length most)).length ≤ cs.length := by simp
    split at h <;> grind

theorem length_afterEntity_le (cs : List Char) : (afterEntity cs).length ≤ cs.length := by
  unfold afterEntity
  split
  all_goals
    cases h : afterEntityBody? _ _ _ with
    | none => simp
    | some rest =>
      have := length_afterEntityBody?_le h
      simp at this ⊢
      omega

theorem length_afterDoctype_le (cs : List Char) : (afterDoctype cs).length ≤ cs.length := by
  have := (List.dropWhile_sublist (l := cs) (· != '>')).length_le
  unfold afterDoctype
  split
  · simp
    omega
  · simp

theorem length_readName_le (cs : List Char) : (readName cs).2.2.length ≤ cs.length :=
  ((List.dropWhile_sublist _).trans (List.dropWhile_sublist _)).length_le

theorem length_readMarkup_le (cs : List Char) : (readMarkup cs).2.length ≤ cs.length := by
  unfold readMarkup
  split
  · next body =>
    cases h : readComment 0 [] body with
    | none => simp
    | some p =>
      obtain ⟨content, rest⟩ := p
      have := length_readComment_le h
      simp
      omega
  · next rest _ =>
    have := length_afterDoctype_le rest
    simp
    omega
  · next rest =>
    have := length_readName_le rest
    have := length_afterClose_le (readName rest).2.2
    grind
  · have := length_readName_le cs
    have := length_scanTag_le .between (readName cs).2.2
    simp only []
    split
    · simp
    · split
      · grind
      · grind
      · next rest h =>
        split
        · have := length_readRaw_le ("</" ++ (readName cs).1.map Char.toUpper).toList
            ("</" ++ (readName cs).1.map Char.toUpper).toList [] [] rest
          grind
        · grind

/-- Cuts a text into tokens. -/
def tokens (cs : List Char) : List Token :=
  match cs with
  | [] => []
  | c :: rest =>
    if Text.isAsciiBlank c || c = '>' then tokens rest
    else if c = '<' then
      have := length_readMarkup_le rest
      (readMarkup rest).1 ++ tokens (readMarkup rest).2
    else if c = '&' then
      have := length_afterEntity_le rest
      tokens (afterEntity rest)
    else
      have := (List.dropWhile_sublist (l := rest) isTextChar).length_le
      .text (String.ofList (trimEnd (c :: rest.takeWhile isTextChar)))
        :: tokens (rest.dropWhile isTextChar)
termination_by cs.length
decreasing_by all_goals (simp only [List.length_cons]; omega)

end CodeAtlas.Html
