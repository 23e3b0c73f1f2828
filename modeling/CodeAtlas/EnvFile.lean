import CodeAtlas.Text.Blank
import CodeAtlas.Text.Utf8

/-!
# Environment files

An environment file sets variables, one on a line. A value may be quoted, single quotes taking all
inside them literally, and may run over several lines if it is. A dollar sign puts in the value of
a variable. Variables that are set already keep their values. The first line that cannot be read
ends the file.
-/

namespace CodeAtlas

/-- Variables and their values, each name once. -/
abbrev Variables := List (String × String)

namespace EnvFile

/-- Where a line stands after some characters. -/
inductive Mark where
  | plain
  | blank
  | escaped
  | weak
  | weakEscaped
  | strong
  | strongEscaped
deriving DecidableEq, Repr

namespace Mark

/-- The mark after a quote, a backslash or anything else outside of quotes. -/
def outside (c : Char) : Mark :=
  if c = '\\' then .escaped else if c = '"' then .weak else if c = '\'' then .strong else .plain

def next (c : Char) : Mark → Mark
  | .plain => if Text.isBlank c && c != '\n' && c != '\r' then .blank else outside c
  | .blank => outside c
  | .escaped => .plain
  | .weak => if c = '\\' then .weakEscaped else if c = '"' then .plain else .weak
  | .weakEscaped => .weak
  | .strong => if c = '\\' then .strongEscaped else if c = '\'' then .plain else .strong
  | .strongEscaped => .strong

end Mark

/-- The text after the present line. -/
def nextLine (cs : List Char) : List Char := (cs.dropWhile (· != '\n')).drop 1

/-- A line that has been read, without its end. `reversed` is the line backwards. -/
def lineText (reversed : List Char) : List Char :=
  match reversed with
  | '\r' :: before => before.reverse
  | _ => reversed.reverse

/-- The rest of a logical line and what follows it. `done` is what has been read of the line,
backwards. The line goes on over line breaks in quotes; nothing is given if the text ends in the
midst of something. -/
def restOfLine (mark : Mark) (done : List Char) : List Char → Option (List Char × List Char)
  | [] => if mark = .plain then some (done.reverse, []) else none
  | c :: rest =>
    if mark = .blank ∧ c = '#' then some (done.reverse, nextLine rest)
    else if c = '\n' ∧ mark.next c = .plain then some (lineText done, rest)
    else restOfLine (mark.next c) (c :: done) rest

/-- The first logical line of a text and what follows it. A comment is an empty line. -/
def firstLine (cs : List Char) : Option (List Char × List Char) :=
  if ((cs.takeWhile (· != '\n')).dropWhile Text.isBlank).head? = some '#' then
    some ([], nextLine cs)
  else restOfLine .plain [] cs

/-- How far the name of a variable to be put in has been read. -/
inductive Substitution where
  | none
  | bare (name : List Char)
  | braced (name : List Char)

structure Value where
  mark : Mark := .plain
  /-- Only a comment may follow. -/
  ended : Bool := false
  substitution : Substitution := .none
  /-- The value so far, backwards. -/
  output : List Char := []

namespace Value

def push (v : Value) (c : Char) : Value := { v with output := c :: v.output }

/-- Puts in the value of a variable. -/
def insert (env : Variables) (v : Value) (name : List Char) : Value :=
  let value := (env.lookup (String.ofList name.reverse)).getD ""
  { v with output := value.toList.reverse ++ v.output, substitution := .none }

/-- Reads a character that belongs to no name, outside of single quotes. -/
def readPlain (v : Value) (c : Char) : Value :=
  if c = '$' then { v with substitution := .bare [] }
  else if v.mark = .weak then
    if c = '"' then { v with mark := .plain }
    else if c = '\\' then { v with mark := .weakEscaped }
    else v.push c
  else if c = '\'' then { v with mark := .strong }
  else if c = '"' then { v with mark := .weak }
  else if c = '\\' then { v with mark := .escaped }
  else if c = ' ' || c = '\t' then { v with ended := true }
  else v.push c

/-- Reads a character after a backslash. -/
def readEscaped (v : Value) (after : Mark) (c : Char) : Option Value :=
  if c = 'n' then some ({ v with mark := after }.push '\n')
  else if ['\\', '\'', '"', '$', ' '].contains c then some ({ v with mark := after }.push c)
  else none

/-- Reads one character; nothing if it cannot stand there. -/
def step (env : Variables) (v : Value) (c : Char) : Option Value :=
  if v.ended then if c = ' ' || c = '\t' then some v else none
  else
    match v.mark with
    | .escaped => v.readEscaped .plain c
    | .weakEscaped => v.readEscaped .weak c
    | .strong => if c = '\'' then some { v with mark := .plain } else some (v.push c)
    | _ =>
      match v.substitution with
      | .none => some (v.readPlain c)
      | .bare name =>
        if c.isAlphanum then some { v with substitution := .bare (c :: name) }
        else if c = '\x7b' && name.isEmpty then some { v with substitution := .braced [] }
        else
          let v := v.insert env name
          if c = '$' then some { v with substitution := .bare [] } else some (v.push c)
      | .braced name =>
        if c = '\x7d' then some (v.insert env name)
        else some { v with substitution := .braced (c :: name) }

/-- The text of a value that has been read to its end. -/
def finish (env : Variables) (v : Value) : Option String :=
  match v.mark, v.substitution with
  | .strong, _ | .weak, _ | .weakEscaped, _ | _, .braced _ => none
  | _, .bare name => some (String.ofList (v.insert env name).output.reverse)
  | _, .none => some (String.ofList v.output.reverse)

end Value

/-- Reads a value. -/
def readValue (env : Variables) (v : Value) : List Char → Option String
  | [] => v.finish env
  | c :: rest =>
    if v.ended && c = '#' then v.finish env
    else (v.step env c).bind fun v => readValue env v rest

def isNameStart (c : Char) : Bool := c.isAlpha || c == '_'

def isNameChar (c : Char) : Bool := c.isAlphanum || c == '_' || c == '.'

/-- Reads a name and the blanks after it. -/
def readName (cs : List Char) : Option (List Char × List Char) :=
  if (cs.head?.map isNameStart).getD false then
    some (cs.takeWhile isNameChar, (cs.dropWhile isNameChar).dropWhile Text.isBlank)
  else none

/-- The name and the text of the value in an assignment. The word `export` may come first. -/
def readAssignment (cs : List Char) : Option (List Char × List Char) := do
  let (name, rest) ← readName cs
  match rest with
  | '=' :: value => some (name, value)
  | _ =>
    if name = "export".toList then
      let (name, rest) ← readName rest
      match rest with
      | '=' :: value => some (name, value)
      | _ => none
    else none

/-- The assignment on a line. The outer value is missing if the line cannot be read, the inner one
if it says nothing. -/
def assignment (env : Variables) (line : List Char) : Option (Option (String × String)) :=
  match Text.stripWhere Text.isBlank line with
  | [] | '#' :: _ => some none
  | cs =>
    (readAssignment cs).bind fun (name, value) =>
      match value.dropWhile Text.isBlank with
      | [] | '#' :: _ => some (some (String.ofList name, ""))
      | cs => (readValue env {} cs).map fun value => some (String.ofList name, value)

/-- Adds a variable that is not set yet. -/
def define (env : Variables) (entry : String × String) : Variables :=
  if (env.lookup entry.1).isSome then env else env ++ [entry]

/-- Reads the lines of a file. -/
def readLines : (fuel : Nat) → Variables → List Char → Variables
  | 0, env, _ | _, env, [] => env
  | fuel + 1, env, cs =>
    match firstLine cs with
    | none => env
    | some (line, rest) =>
      match assignment env line with
      | none => env
      | some none => readLines fuel env rest
      | some (some entry) => readLines fuel (define env entry) rest

/-- The variables after a file has been read. A byte order mark is passed over. -/
def apply (env : Variables) (bytes : List UInt8) : Variables :=
  let cs := match Utf8.decodeLines bytes with
    | c :: rest => if c = Char.ofNat 0xFEFF then rest else c :: rest
    | [] => []
  readLines cs.length env cs

end EnvFile

end CodeAtlas
