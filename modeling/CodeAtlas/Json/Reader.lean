import CodeAtlas.Json.Number

/-!
# Reading JSON text

Reading takes two steps. `Json.tokens` cuts the text into brackets, commas, colons and scalars, and
`Json.assemble` builds the value from the tokens, keeping the containers that are still open on a
stack. Both are plain recursion on what is left, so reading ends on every text.
-/

namespace CodeAtlas.Json

/-- Why a text is not JSON. -/
inductive Reason where
  | endOfText
  | expectedValue
  | expectedWord
  | badNumber
  | numberOutOfRange
  | badString
  | expectedKey
  | expectedColon
  | expectedCommaOrEnd
  | trailingComma
  | trailingText
  | tooDeep
deriving DecidableEq, Repr

def Reason.message : Reason → String
  | .endOfText => "EOF while parsing a value"
  | .expectedValue => "expected value"
  | .expectedWord => "expected ident"
  | .badNumber => "invalid number"
  | .numberOutOfRange => "number out of range"
  | .badString => "invalid string"
  | .expectedKey => "key must be a string"
  | .expectedColon => "expected a colon"
  | .expectedCommaOrEnd => "expected a comma or the end of a container"
  | .trailingComma => "trailing comma"
  | .trailingText => "trailing characters"
  | .tooDeep => "recursion limit exceeded"

/-- A reason with the place of the character it was found at. -/
structure Fault where
  reason : Reason
  line : Nat
  column : Nat
deriving DecidableEq, Repr

def Fault.message (f : Fault) : String :=
  f.reason.message ++ " at line " ++ toString f.line ++ " column " ++ toString f.column

/-- A reason with the text that is left where it was found. -/
abbrev Failure := Reason × List Char

/-- The place in `text` where only `rest` is left. -/
def Fault.locate (text : List Char) (failure : Failure) : Fault :=
  let (reason, rest) := failure
  let done := text.take (text.length - rest.length)
  let onLine := (done.reverse.takeWhile (· != '\n')).foldl (fun n c => n + c.utf8Size) 0
  ⟨reason, (done.filter (· == '\n')).length + 1, if rest.isEmpty then onLine else onLine + 1⟩

/-- The deepest nesting of containers that is read. -/
def maxDepth : Nat := 127

inductive Token where
  | openArray
  | closeArray
  | openObject
  | closeObject
  | comma
  | colon
  | scalar (v : Json)

def isSpace (c : Char) : Bool := c == ' ' || c == '\t' || c == '\n' || c == '\r'

def hexValue? (c : Char) : Option Nat :=
  if '0' ≤ c && c ≤ '9' then some (c.toNat - '0'.toNat)
  else if 'a' ≤ c && c ≤ 'f' then some (c.toNat - 'a'.toNat + 10)
  else if 'A' ≤ c && c ≤ 'F' then some (c.toNat - 'A'.toNat + 10)
  else none

/-- The code unit written by four hexadecimal digits. -/
def unit? (a b c d : Char) : Option Nat := do
  let a ← hexValue? a
  let b ← hexValue? b
  let c ← hexValue? c
  let d ← hexValue? d
  return ((a * 16 + b) * 16 + c) * 16 + d

/-- The rest of a string after its opening quote: its characters, put before `done` in reverse, and
what follows the closing quote. -/
def readString (done : List Char) : List Char → Except Failure (String × List Char)
  | [] => .error (.endOfText, [])
  | '"' :: rest => .ok (String.ofList done.reverse, rest)
  | '\\' :: 'u' :: a :: b :: c :: d :: rest =>
    match unit? a b c d with
    | none => .error (.badString, rest)
    | some n =>
      if 0xDC00 ≤ n && n ≤ 0xDFFF then .error (.badString, rest)
      else if 0xD800 ≤ n && n ≤ 0xDBFF then
        match rest with
        | '\\' :: 'u' :: a' :: b' :: c' :: d' :: rest' =>
          match unit? a' b' c' d' with
          | some m =>
            if 0xDC00 ≤ m && m ≤ 0xDFFF then
              readString (Char.ofNat (0x10000 + (n - 0xD800) * 0x400 + (m - 0xDC00)) :: done) rest'
            else .error (.badString, rest)
          | none => .error (.badString, rest)
        | _ => .error (.badString, rest)
      else readString (Char.ofNat n :: done) rest
  | '\\' :: c :: rest =>
    match c with
    | '"' => readString ('"' :: done) rest
    | '\\' => readString ('\\' :: done) rest
    | '/' => readString ('/' :: done) rest
    | 'b' => readString ('\x08' :: done) rest
    | 'f' => readString ('\x0c' :: done) rest
    | 'n' => readString ('\n' :: done) rest
    | 'r' => readString ('\r' :: done) rest
    | 't' => readString ('\t' :: done) rest
    | _ => .error (.badString, rest)
  | c :: rest =>
    if c = '\\' || c.toNat < 0x20 then .error (.badString, c :: rest)
    else readString (c :: done) rest

/-- The exponent that may follow a number's digits. -/
def readExponent (cs : List Char) : Except Failure (Option (Bool × List Char) × List Char) :=
  let digitsAfter (minus : Bool) (cs : List Char) :=
    let ds := cs.takeWhile Char.isDigit
    if ds.isEmpty then .error (.badNumber, cs)
    else .ok (some (minus, ds), cs.dropWhile Char.isDigit)
  match cs with
  | c :: rest =>
    if c = 'e' || c = 'E' then
      match rest with
      | '+' :: rest => digitsAfter false rest
      | '-' :: rest => digitsAfter true rest
      | _ => digitsAfter false rest
    else .ok (none, cs)
  | [] => .ok (none, [])

/-- The fraction that may follow a number's whole part. -/
def readFraction (cs : List Char) : Except Failure (List Char × List Char) :=
  match cs with
  | '.' :: rest =>
    if (rest.takeWhile Char.isDigit).isEmpty then .error (.badNumber, rest)
    else .ok (rest.takeWhile Char.isDigit, rest.dropWhile Char.isDigit)
  | _ => .ok ([], cs)

/-- A number whose sign has been read. -/
def readUnsigned (negative : Bool) (cs : List Char) : Except Failure (Json × List Char) :=
  let whole := cs.takeWhile Char.isDigit
  if whole.isEmpty || (whole.head? == some '0' && 1 < whole.length) then .error (.badNumber, cs)
  else
    match readFraction (cs.dropWhile Char.isDigit) with
    | .error e => .error e
    | .ok (fraction, rest) =>
      match readExponent rest with
      | .error e => .error e
      | .ok (exponent, rest) =>
        match JsonNumber.ofParts ⟨negative, whole, fraction, exponent⟩ with
        | some n => .ok (.num n, rest)
        | none => .error (.numberOutOfRange, rest)

/-- The token that starts with `c`, and the text after it. -/
def readToken (c : Char) (rest : List Char) : Except Failure (Token × List Char) :=
  match c, rest with
  | '[', _ => .ok (.openArray, rest)
  | ']', _ => .ok (.closeArray, rest)
  | '\x7b', _ => .ok (.openObject, rest)
  | '\x7d', _ => .ok (.closeObject, rest)
  | ',', _ => .ok (.comma, rest)
  | ':', _ => .ok (.colon, rest)
  | '"', _ => (readString [] rest).map fun (s, rest) => (.scalar (.str s), rest)
  | 'n', 'u' :: 'l' :: 'l' :: rest => .ok (.scalar .null, rest)
  | 't', 'r' :: 'u' :: 'e' :: rest => .ok (.scalar (.bool true), rest)
  | 'f', 'a' :: 'l' :: 's' :: 'e' :: rest => .ok (.scalar (.bool false), rest)
  | _, _ =>
    if c.isDigit then
      -- the first digit is given back, since it is part of the number
      match readUnsigned false (c :: rest) with
      | .ok (v, after) => .ok (.scalar v, after)
      | .error e => .error e
    else if c = '-' then (readUnsigned true rest).map fun (v, rest) => (.scalar v, rest)
    else if c = 'n' || c = 't' || c = 'f' then .error (.expectedWord, rest)
    else .error (.expectedValue, c :: rest)

theorem length_readString_le {done cs rest : List Char} {s : String}
    (h : readString done cs = .ok (s, rest)) : rest.length ≤ cs.length := by
  fun_induction readString done cs <;> (try simp only [List.length_cons]) <;> grind

theorem length_readExponent_le {cs rest : List Char} {e : Option (Bool × List Char)}
    (h : readExponent cs = .ok (e, rest)) : rest.length ≤ cs.length := by
  unfold readExponent at h
  grind [List.dropWhile_sublist, List.Sublist.length_le]

theorem length_readFraction_le {cs rest ds : List Char}
    (h : readFraction cs = .ok (ds, rest)) : rest.length ≤ cs.length := by
  unfold readFraction at h
  grind [List.dropWhile_sublist, List.Sublist.length_le]

theorem length_readUnsigned_le {negative : Bool} {cs rest : List Char} {v : Json}
    (h : readUnsigned negative cs = .ok (v, rest)) :
    rest.length ≤ (cs.dropWhile Char.isDigit).length := by
  simp only [readUnsigned] at h
  split at h
  · simp at h
  · split at h
    · simp at h
    · next hf =>
      split at h
      · simp at h
      · next he =>
        have := length_readFraction_le hf
        have := length_readExponent_le he
        split at h <;> grind

theorem length_readToken_le {c : Char} {cs rest : List Char} {t : Token}
    (h : readToken c cs = .ok (t, rest)) : rest.length ≤ cs.length := by
  unfold readToken at h
  split at h
  all_goals try (simp at h; grind)
  · cases hs : readString [] cs with
    | error e => simp [hs, Except.map] at h
    | ok p =>
      obtain ⟨s, after⟩ := p
      have := length_readString_le hs
      simp [hs, Except.map] at h
      grind
  · split at h
    · next hc =>
      split at h
      · next hn =>
        have := length_readUnsigned_le hn
        rw [List.dropWhile_cons_of_pos hc] at this
        have := (List.dropWhile_sublist (l := cs) Char.isDigit).length_le
        grind
      · simp at h
    · split at h
      · cases hn : readUnsigned true cs with
        | error e => simp [hn, Except.map] at h
        | ok p =>
          obtain ⟨v, after⟩ := p
          have := length_readUnsigned_le hn
          have := (List.dropWhile_sublist (l := cs) Char.isDigit).length_le
          simp [hn, Except.map] at h
          grind
      · split at h <;> simp at h

/-- Cuts a text into tokens, each with the text from its first character on, and puts them in
reverse before `done`. -/
def tokensOnto (done : List (Token × List Char)) (cs : List Char) :
    Except Failure (List (Token × List Char)) :=
  match cs with
  | [] => .ok done
  | c :: rest =>
    if isSpace c then tokensOnto done rest
    else
      match h : readToken c rest with
      | .error e => .error e
      | .ok (t, after) =>
        have := length_readToken_le h
        tokensOnto ((t, c :: rest) :: done) after
termination_by cs.length
decreasing_by all_goals (simp only [List.length_cons]; omega)

/-- Cuts a text into tokens, each with the text from its first character on. -/
def tokens (cs : List Char) : Except Failure (List (Token × List Char)) :=
  (tokensOnto [] cs).map List.reverse

/-- A container that is still open: its items, the last first, or its fields and the key whose value
is being read. -/
inductive Frame where
  | array (items : List Json)
  | object (fields : List (String × Json)) (key : String)

/-- What the tokens read so far ask for next. -/
inductive Expected where
  | value
  | valueOrEnd
  | key (fields : List (String × Json))
  | keyOrEnd
  | colon (fields : List (String × Json)) (key : String)
  | more (v : Json)

/-- Sets a field in a list that holds the last field first. -/
def pushField (fields : List (String × Json)) (key : String) (v : Json) : List (String × Json) :=
  if fields.any (·.1 == key) then fields.map fun (k, w) => if k == key then (k, v) else (k, w)
  else (key, v) :: fields

/-- One token. `stack` holds the open containers, the innermost first. -/
def assembleStep (stack : List Frame) (expected : Expected) (t : Token) :
    Except Reason (List Frame × Expected) :=
  let openArray :=
    if stack.length < maxDepth then .ok (.array [] :: stack, .valueOrEnd) else .error .tooDeep
  let openObject := if stack.length < maxDepth then .ok (stack, .keyOrEnd) else .error .tooDeep
  match expected, t with
  | .value, .openArray | .valueOrEnd, .openArray => openArray
  | .value, .openObject | .valueOrEnd, .openObject => openObject
  | .value, .scalar v | .valueOrEnd, .scalar v => .ok (stack, .more v)
  | .valueOrEnd, .closeArray =>
    match stack with
    | .array items :: outer => .ok (outer, .more (.arr items.reverse))
    | _ => .error .expectedValue
  | .value, .closeArray => .error .trailingComma
  | .value, _ | .valueOrEnd, _ => .error .expectedValue
  | .keyOrEnd, .closeObject => .ok (stack, .more (.obj []))
  | .keyOrEnd, .scalar (.str k) => .ok (stack, .colon [] k)
  | .key fields, .scalar (.str k) => .ok (stack, .colon fields k)
  | .key _, .closeObject => .error .trailingComma
  | .keyOrEnd, _ | .key _, _ => .error .expectedKey
  | .colon fields k, .colon => .ok (.object fields k :: stack, .value)
  | .colon _ _, _ => .error .expectedColon
  | .more v, t =>
    match stack, t with
    | .array items :: outer, .comma => .ok (.array (v :: items) :: outer, .value)
    | .array items :: outer, .closeArray => .ok (outer, .more (.arr (v :: items).reverse))
    | .object fields k :: outer, .comma => .ok (outer, .key (pushField fields k v))
    | .object fields k :: outer, .closeObject =>
      .ok (outer, .more (.obj (pushField fields k v).reverse))
    | [], _ => .error .trailingText
    | _ :: _, _ => .error .expectedCommaOrEnd

/-- Builds the one value that the tokens spell. -/
def assemble (stack : List Frame) (expected : Expected) :
    List (Token × List Char) → Except Failure Json
  | [] =>
    match stack, expected with
    | [], .more v => .ok v
    | _, _ => .error (.endOfText, [])
  | (t, rest) :: ts =>
    match assembleStep stack expected t with
    | .ok (stack, expected) => assemble stack expected ts
    | .error reason => .error (reason, rest)

/-- Reads a text that holds exactly one JSON value. -/
def parse (s : String) : Except Fault Json :=
  let cs := s.toList
  match tokens cs with
  | .error failure => .error (.locate cs failure)
  | .ok ts =>
    match assemble [] .value ts with
    | .error failure => .error (.locate cs failure)
    | .ok v => .ok v

end CodeAtlas.Json
