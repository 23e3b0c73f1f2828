import CodeAtlas.Path
import CodeAtlas.Text.Blank

/-!
# Imports in the text of scripts

Only import declarations at the top level of a script count. So that none is taken from inside a
block, a string, a template, a comment, a regular expression or markup, the text is cut into tokens
with a stack of what is open, and only tokens outside of everything are kept. Brackets that enclose
something stand in the list as a pair with nothing between.
-/

namespace CodeAtlas.ScriptText

/-- Something that is open. -/
inductive Context where
  | brace
  /-- Parentheses. After those of a condition a statement starts. -/
  | paren (isCondition : Bool)
  | bracket
  | template
  | substitution
  /-- Inside a start tag of markup. -/
  | tag
  /-- Between the tags of a markup element. -/
  | content
deriving DecidableEq, Repr

/-- A token at the top level. -/
inductive Token where
  | word (s : String)
  /-- A string with its quotes. -/
  | string (raw : List Char)
  | mark (c : Char)
  | other
deriving DecidableEq, Repr

structure State where
  stack : List Context := []
  /-- The last token wants something after it, so a slash starts a regular expression and an angle
  bracket starts markup. -/
  wanting : Bool := true
  /-- The last token is a word that a condition in parentheses follows. -/
  conditional : Bool := false
  /-- The tokens at the top level, the last first. -/
  tokens : List Token := []

def isWordStart (c : Char) : Bool :=
  c.isAlpha || c == '_' || c == '$' || c == '#' || c == '@' || 0x7F < c.toNat

def isWordChar (c : Char) : Bool := isWordStart c || c.isDigit

/-- Words after which an expression starts. -/
def wantingWords : List String :=
  ["return", "typeof", "instanceof", "in", "of", "new", "delete", "void", "throw", "case",
    "do", "else", "await", "yield", "default", "extends"]

/-- Words that a condition in parentheses follows. -/
def conditionWords : List String := ["if", "while", "for", "with"]

namespace State

/-- Keeps a token if it stands at the top level. -/
def emit (st : State) (t : Token) (wanting : Bool) : State :=
  { st with
    tokens := if st.stack.isEmpty then t :: st.tokens else st.tokens
    wanting
    conditional := false }

def enter (st : State) (c : Context) : State := { st with stack := c :: st.stack, wanting := true }

/-- Leaves the innermost context. -/
def leave (st : State) (wanting : Bool) : State := { st with stack := st.stack.drop 1, wanting }

/-- A closing bracket. One that closes nothing is passed over. -/
def shut (st : State) (c : Char) (context : Context) (wanting : Bool) : State :=
  if st.stack.head? = some context then (st.leave wanting).emit (.mark c) wanting else st

/-- A closing parenthesis. -/
def shutParen (st : State) : State :=
  match st.stack.head? with
  | some (.paren isCondition) => st.shut ')' (.paren isCondition) isCondition
  | _ => st

/-- Keeps a word. -/
def emitWord (st : State) (word : String) : State :=
  { st.emit (.word word) (wantingWords.contains word) with
    conditional := conditionWords.contains word }

end State

/-- The text after a string whose opening quote has been read, and the string's characters. A line
break ends it. -/
def readQuoted (quote : Char) (done : List Char) : List Char → List Char × List Char
  | [] => (done.reverse, [])
  | '\\' :: c :: rest => readQuoted quote (c :: '\\' :: done) rest
  | c :: rest =>
    if c = quote then ((c :: done).reverse, rest)
    else if c = '\n' then (done.reverse, c :: rest)
    else readQuoted quote (c :: done) rest

/-- The text after a block comment. -/
def afterBlock : List Char → List Char
  | [] => []
  | '*' :: '/' :: rest => rest
  | _ :: rest => afterBlock rest

/-- The text after a regular expression whose slash has been read; nothing if the line ends
first. -/
def afterRegex? (inClass : Bool) : List Char → Option (List Char)
  | [] => none
  | '\\' :: _ :: rest => afterRegex? inClass rest
  | c :: rest =>
    if c = '\n' then none
    else if c = '[' then afterRegex? true rest
    else if c = ']' then afterRegex? false rest
    else if c = '/' && !inClass then some (rest.dropWhile isWordChar)
    else afterRegex? inClass rest

/-- Whether the text after an angle bracket starts markup. A list of type parameters does not. -/
def startsMarkup (cs : List Char) : Bool :=
  match cs with
  | '>' :: _ => true
  | c :: _ =>
    isWordStart c &&
      (let rest := (cs.dropWhile isWordChar).dropWhile Text.isBlank
       rest.head? != some ',' && rest.take 8 != "extends ".toList)
  | [] => false

/-- One step outside of templates and markup. -/
def codeStep (markup : Bool) (st : State) (c : Char) (rest : List Char) : State × List Char :=
  match c, rest with
  | '/', '/' :: rest => (st, rest.dropWhile (· != '\n'))
  | '/', '*' :: rest => (st, afterBlock rest)
  | '\x7b', _ => ((st.emit (.mark c) true).enter .brace, rest)
  | '(', _ => ((st.emit (.mark c) true).enter (.paren st.conditional), rest)
  | '[', _ => ((st.emit (.mark c) true).enter .bracket, rest)
  | ')', _ => (st.shutParen, rest)
  | ']', _ => (st.shut c .bracket false, rest)
  | '\x7d', _ =>
    if st.stack.head? = some .substitution then (st.leave false, rest)
    else (st.shut c .brace true, rest)
  | '\x60', _ => (st.enter .template, rest)
  | _, _ =>
    if Text.isBlank c || c = '﻿' then (st, rest)
    else if c = '"' || c = '\'' then
      let (raw, rest) := readQuoted c [c] rest
      (st.emit (.string raw) false, rest)
    else if c.isDigit then
      (st.emit .other false, rest.dropWhile fun d => isWordChar d || d == '.')
    else if isWordStart c then
      let word := String.ofList (c :: rest.takeWhile isWordChar)
      (st.emitWord word, rest.dropWhile isWordChar)
    else if c = '/' && st.wanting then
      match afterRegex? false rest with
      | some rest => (st.emit .other false, rest)
      | none => (st.emit (.mark c) true, rest)
    else if c = '<' && st.wanting && markup && startsMarkup rest then
      match rest with
      | '>' :: rest => (st.enter .content, rest)
      | _ => (st.enter .tag, rest)
    else if (c = '+' || c = '-') && rest.head? = some c then
      (st.emit (.mark c) st.wanting, rest.drop 1)
    else (st.emit (.mark c) true, rest)

/-- A markup element has ended. -/
def endElement (st : State) : State := (st.leave false).emit .other false

/-- One step. -/
def step (markup : Bool) (st : State) (c : Char) (rest : List Char) : State × List Char :=
  match st.stack.head? with
  | some .template =>
    match c, rest with
    | '\x60', _ => ((st.leave false).emit .other false, rest)
    | '\\', _ :: rest => (st, rest)
    | '$', '\x7b' :: rest => (st.enter .substitution, rest)
    | _, _ => (st, rest)
  | some .tag =>
    match c, rest with
    | '"', _ => (st, (rest.dropWhile (· != '"')).drop 1)
    | '\'', _ => (st, (rest.dropWhile (· != '\'')).drop 1)
    | '\x7b', _ => (st.enter .brace, rest)
    | '/', '>' :: rest => (endElement st, rest)
    | '/', '*' :: rest => (st, afterBlock rest)
    | '>', _ => ((st.leave false).enter .content, rest)
    | _, _ => (st, rest)
  | some .content =>
    match c, rest with
    | '\x7b', _ => (st.enter .brace, rest)
    | '<', '/' :: rest => (endElement st, (rest.dropWhile (· != '>')).drop 1)
    | '<', '>' :: rest => (st.enter .content, rest)
    | '<', _ => (st.enter .tag, rest)
    | _, _ => (st, rest)
  | _ => codeStep markup st c rest

/-- Runs over a text. No step gives more text back than it took, so as many steps as there are
characters are enough. -/
def run (markup : Bool) : (steps : Nat) → State → List Char → State
  | 0, st, _ | _, st, [] => st
  | steps + 1, st, c :: rest =>
    let (st, rest) := step markup st c rest
    run markup steps st rest

/-- The tokens of a text at its top level. -/
def topLevel (markup : Bool) (cs : List Char) : List Token :=
  let body := match cs with
    | '#' :: '!' :: rest => rest.dropWhile (· != '\n')
    | _ => cs
  (run markup body.length {} body).tokens.reverse

/-- What may stand between `import` and `from`. -/
def inClause : Token → Bool
  | .word _ => true
  | .mark c => c == '\x7b' || c == '\x7d' || c == ',' || c == '*'
  | _ => false

/-- The string after the first `from` that one follows, if only parts of an import clause
precede. -/
def fromString? : List Token → Option (List Char)
  | .word "from" :: .string raw :: _ => some raw
  | t :: rest => if inClause t then fromString? rest else none
  | [] => none

/-- The string of a declaration whose `import` has been read. -/
def declared? : List Token → Option (List Char)
  | .string raw :: _ => some raw
  | rest => fromString? rest

/-- The strings of the import declarations among some tokens. -/
def declarations : List Token → List (List Char)
  | [] => []
  | .mark '.' :: .word _ :: rest => declarations rest
  | .word "import" :: rest => (declared? rest).toList ++ declarations rest
  | _ :: rest => declarations rest

def isQuote (c : Char) : Bool := c == '"' || c == '\''

/-- The specifiers of a script's import declarations, in order. Quotes at either end are stripped.
Files with the extension `ts` hold no markup. -/
def imports (path source : String) : List String :=
  (declarations (topLevel (Path.extension? path != some "ts") source.toList)).map fun raw =>
    String.ofList (Text.stripWhere isQuote raw)

end CodeAtlas.ScriptText
