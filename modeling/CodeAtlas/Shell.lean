import CodeAtlas.Parsing.Command
import CodeAtlas.Path

/-!
# A small command interpreter

Parser commands are evaluated here and never by the system, so that their answers depend on nothing
but the input and the files of the directory. The interpreter knows sequences, conditions and pipes
of simple commands with quoting, positional parameters and redirection, and a handful of programs.
-/

namespace CodeAtlas.Shell

/-- Where a command writes. -/
inductive Sink where
  | output
  | complaint
  | nothing
deriving DecidableEq, Repr

inductive Token where
  | word (s : String)
  /-- `;`, a line break, `&&`, `||` or `|`. -/
  | operator (s : String)
  /-- A redirection of an output; the next word is its target. -/
  | redirect (stream : Nat) (duplicate : Bool)
  /-- A redirection of the input; the next word is its source. -/
  | source
deriving DecidableEq, Repr

/-- The word that is being read, if one has been begun. -/
abbrev Current := Option (List Char)

def Current.tokens : Current → List Token
  | some cs => [.word (String.ofList cs.reverse)]
  | none => []

def Current.push (w : Current) (cs : List Char) : Current := some (cs.reverse ++ w.getD [])

/-- The value of a parameter. The process number is of no consequence. -/
def parameter? (arguments : List String) (c : Char) : Option String :=
  if c = '$' then some "1"
  else if c = '#' then some (toString (arguments.length - 1))
  else if c = '@' || c = '*' then some (Text.join " " (arguments.drop 1))
  else if c.isDigit then some (arguments.getD (c.toNat - '0'.toNat) "")
  else none

/-- Reads the inside of double quotes. -/
def readDouble (arguments : List String) (w : Current) : List Char → Current × List Char
  | [] => (w, [])
  | '"' :: rest => (w, rest)
  | '\\' :: c :: rest =>
    if c = '"' || c = '\\' || c = '$' || c = '\x60' then readDouble arguments (w.push [c]) rest
    else readDouble arguments (w.push ['\\', c]) rest
  | '$' :: '\x7b' :: c :: '\x7d' :: rest =>
    readDouble arguments (w.push ((parameter? arguments c).getD "").toList) rest
  | '$' :: c :: rest =>
    match parameter? arguments c with
    | some value => readDouble arguments (w.push value.toList) rest
    | none => readDouble arguments (w.push ['$', c]) rest
  | c :: rest => readDouble arguments (w.push [c]) rest

/-- Adds a value that may fall into several words. -/
def spill (w : Current) (done : List Token) : List Char → Current × List Token
  | [] => (w, done)
  | c :: rest =>
    if c = ' ' || c = '\t' || c = '\n' then spill none (w.tokens ++ done) rest
    else spill (w.push [c]) done rest

/-- The tokens of a script, the last first. -/
def tokensOnto (arguments : List String) :
    (fuel : Nat) → Current → List Token → List Char → List Token
  | 0, w, done, _ | _, w, done, [] => w.tokens ++ done
  | fuel + 1, w, done, c :: rest =>
    let go := tokensOnto arguments fuel
    match c, rest with
    | ' ', _ | '\t', _ => go none (w.tokens ++ done) rest
    | '\n', _ | ';', _ => go none (.operator ";" :: w.tokens ++ done) rest
    | '&', '&' :: rest => go none (.operator "&&" :: w.tokens ++ done) rest
    | '|', '|' :: rest => go none (.operator "||" :: w.tokens ++ done) rest
    | '|', _ => go none (.operator "|" :: w.tokens ++ done) rest
    | '<', _ => go none (.source :: w.tokens ++ done) rest
    | '>', _ =>
      let (stream, done) := match w with
        | some ['2'] => (2, done)
        | some ['1'] => (1, done)
        | _ => (1, w.tokens ++ done)
      match rest with
      | '&' :: rest => go none (.redirect stream true :: done) rest
      | '>' :: rest => go none (.redirect stream false :: done) rest
      | _ => go none (.redirect stream false :: done) rest
    | '\'', _ =>
      go (w.push (rest.takeWhile (· != '\''))) done ((rest.dropWhile (· != '\'')).drop 1)
    | '"', _ =>
      let (w, rest) := readDouble arguments (w.push []) rest
      go w done rest
    | '\\', c :: rest => go (w.push [c]) done rest
    | '$', '\x7b' :: c :: '\x7d' :: rest =>
      let (w, done) := spill w done ((parameter? arguments c).getD "").toList
      go w done rest
    | '$', c :: rest =>
      match parameter? arguments c with
      | some value =>
        let (w, done) := spill w done value.toList
        go w done rest
      | none => go (w.push ['$', c]) done rest
    | '#', _ =>
      if w.isNone then go none done (rest.dropWhile (· != '\n')) else go (w.push ['#']) done rest
    | _, _ => go (w.push [c]) done rest

def tokens (arguments : List String) (script : String) : List Token :=
  (tokensOnto arguments script.length none [] script.toList).reverse

/-- A simple command. -/
structure Command where
  words : List String := []
  output : Sink := .output
  complaint : Sink := .complaint
  /-- The file that stands for the input. -/
  source : Option String := none

/-- The sink that a redirection names. -/
def Command.sink (c : Command) (duplicate : Bool) (target : String) : Sink :=
  if duplicate then
    if target = "2" then c.complaint else if target = "1" then c.output else .nothing
  else if target = "/dev/stderr" then .complaint
  else if target = "/dev/stdout" then .output
  else .nothing

/-- Reads the tokens of a simple command. -/
def Command.ofTokens (c : Command) : List Token → Command
  | [] => c
  | .redirect stream duplicate :: .word target :: rest =>
    let sink := c.sink duplicate target
    (if stream = 2 then { c with complaint := sink } else { c with output := sink }).ofTokens rest
  | .source :: .word path :: rest => { c with source := some path : Command }.ofTokens rest
  | .word w :: rest => { c with words := c.words ++ [w] : Command }.ofTokens rest
  | _ :: rest => c.ofTokens rest

/-- What the interpreter has done so far. -/
structure State where
  input : List UInt8
  output : List UInt8 := []
  complaint : List UInt8 := []
  status : Nat := 0
  /-- An exit or a signal has ended the script. -/
  ended : Bool := false

/-- The characters that an escape stands for, and the rest. -/
def escape (octalZero : Bool) (cs : List Char) : List UInt8 × List Char :=
  match cs with
  | 'n' :: rest => ([10], rest)
  | 't' :: rest => ([9], rest)
  | 'r' :: rest => ([13], rest)
  | 'a' :: rest => ([7], rest)
  | 'b' :: rest => ([8], rest)
  | 'f' :: rest => ([12], rest)
  | 'v' :: rest => ([11], rest)
  | '\\' :: rest => ([92], rest)
  | _ =>
    let digits :=
      (if octalZero then cs.drop 1 else cs).take 3 |>.takeWhile fun c => '0' ≤ c && c ≤ '7'
    let leads := !octalZero || cs.head? = some '0'
    if leads && (octalZero || !digits.isEmpty) then
      let value := digits.foldl (fun n c => n * 8 + (c.toNat - '0'.toNat)) 0
      ([UInt8.ofNat value], cs.drop (digits.length + if octalZero then 1 else 0))
    else ([92], cs)

/-- Writes a text with its escapes carried out. -/
def unescape (octalZero : Bool) : (fuel : Nat) → List Char → List UInt8
  | 0, _ | _, [] => []
  | fuel + 1, '\\' :: rest =>
    let (bytes, rest) := escape octalZero rest
    bytes ++ unescape octalZero fuel rest
  | fuel + 1, c :: rest => Utf8.encode (String.singleton c) ++ unescape octalZero fuel rest

/-- Puts arguments into the places of a format. -/
def fill : List Char → List String → List Char × List String
  | [], arguments => ([], arguments)
  | '%' :: '%' :: rest, arguments =>
    let (text, left) := fill rest arguments
    ('%' :: text, left)
  | '%' :: c :: rest, arguments =>
    let (text, left) := fill rest (arguments.drop 1)
    let value := arguments.head?.getD (if c = 'd' then "0" else "")
    -- A backslash in an argument stands for itself.
    ((value.toList.flatMap fun c => if c = '\\' then ['\\', '\\'] else [c]) ++ text, left)
  | c :: rest, arguments =>
    let (text, left) := fill rest arguments
    (c :: text, left)

/-- Uses a format again until no argument is left. -/
def format (template : List Char) : (fuel : Nat) → List String → List UInt8
  | 0, _ => []
  | fuel + 1, arguments =>
    let (text, left) := fill template arguments
    let bytes := unescape false text.length text
    if left.isEmpty || left.length = arguments.length then bytes
    else bytes ++ format template fuel left

/-- The files that commands may read. -/
abbrev Files := String → Option (List UInt8)

/-- Copies files, or the input, to the output: the output, the complaints, what is left of the input
and the status. -/
def concatenate (files : Files) (input : List UInt8) :
    List String → List UInt8 × List UInt8 × List UInt8 × Nat
  | [] => ([], [], input, 0)
  | "-" :: rest =>
    let (out, err, left, status) := concatenate files [] rest
    (input ++ out, err, left, status)
  | name :: rest =>
    let (out, err, left, status) := concatenate files input rest
    match files name with
    | some bytes => (bytes ++ out, err, left, status)
    | none =>
      (out, Utf8.encode ("cat: " ++ name ++ ": No such file or directory\n") ++ err, left, 1)

/-- What a command does, before its outputs are redirected. `status` is that of the command before
it. -/
def runWords (files : Files) (name : String) (status : Nat)
    (input : List UInt8) : List String → State
  | [] => { input }
  | "cat" :: arguments =>
    let (output, complaint, input, status) :=
      concatenate files input (if arguments.isEmpty then ["-"] else arguments)
    { input, output, complaint, status }
  | "echo" :: "-n" :: arguments =>
    let text := (Text.join " " arguments).toList
    { input, output := unescape true text.length text }
  | "echo" :: arguments =>
    let text := (Text.join " " arguments).toList
    { input, output := unescape true text.length text ++ [10] }
  | "printf" :: template :: arguments =>
    { input, output := format template.toList (arguments.length + 1) arguments }
  | ["exit"] => { input, status, ended := true }
  | "exit" :: status :: _ => { input, status := status.toNat?.getD 2 % 256, ended := true }
  | "kill" :: "-0" :: _ => { input }
  | "kill" :: _ => { input, status := 137, ended := true }
  | "true" :: _ | ":" :: _ | "sleep" :: _ | "set" :: _ => { input }
  | "false" :: _ => { input, status := 1 }
  | other :: _ =>
    { input, complaint := Utf8.encode (name ++ ": 1: " ++ other ++ ": not found\n"), status := 127 }

/-- Sends some bytes to a sink. -/
def State.send (st : State) (bytes : List UInt8) : Sink → State
  | .output => { st with output := st.output ++ bytes }
  | .complaint => { st with complaint := st.complaint ++ bytes }
  | .nothing => st

/-- Runs a simple command. -/
def runCommand (files : Files) (name : String) (st : State) (c : Command) : State :=
  let input := match c.source with
    | some path => (files path).getD []
    | none => st.input
  let done := runWords files name st.status input c.words
  let st := (st.send done.output c.output).send done.complaint c.complaint
  { st with
    input := if c.source.isSome then st.input else done.input
    status := if c.words.isEmpty then st.status else done.status
    ended := done.ended }

/-- Runs the commands of a pipe; each but the first reads what the one before it wrote. -/
def runPipe (files : Files) (name : String) (st : State) : List Command → State
  | [] => st
  | [c] => runCommand files name st c
  | c :: rest =>
    let done := runCommand files name { input := st.input } c
    let next := runPipe files name { input := done.output } rest
    { st with
      input := done.input, output := st.output ++ next.output
      complaint := st.complaint ++ done.complaint ++ next.complaint, status := next.status }

/-- Cuts tokens at an operator. -/
def cut (isCut : String → Bool) (current : List Token) : List Token → List (List Token)
  | [] => [current.reverse]
  | .operator s :: rest =>
    if isCut s then current.reverse :: cut isCut [] rest
    else cut isCut (.operator s :: current) rest
  | t :: rest => cut isCut (t :: current) rest

/-- Runs the parts between operators. A part after `&&` needs a success before it, one after `||` a
failure. -/
def runList (files : Files) (name : String) (st : State) : List (String × List Token) → State
  | [] => st
  | (operator, ts) :: rest =>
    if st.ended then st
    else
      let wanted : Bool := match operator with
        | "&&" => st.status == 0
        | "||" => st.status != 0
        | _ => true
      if wanted then
        let commands := (cut (· == "|") [] ts).map (Command.ofTokens {})
        runList files name (runPipe files name st commands) rest
      else runList files name st rest

/-- The parts of a script with the operator in front of each. -/
def parts (operator : String) (current : List Token) : List Token → List (String × List Token)
  | [] => [(operator, current.reverse)]
  | .operator s :: rest =>
    if s = "|" then parts operator (.operator s :: current) rest
    else (operator, current.reverse) :: parts s [] rest
  | t :: rest => parts operator (t :: current) rest

/-- Runs a script. The first argument is the script's own name. -/
def runScript (files : Files) (script : String) (arguments : List String)
    (input : List UInt8) : ProgramRun :=
  let name := arguments.headD "sh"
  let parameters := if arguments.isEmpty then [name] else arguments
  let st := runList files name { input } (parts ";" [] (tokens parameters script))
  ⟨st.status = 0, st.output, st.complaint⟩

/-- The name of a program without the directory of the system's programs. -/
def programName (program : String) : String :=
  if ["/bin", "/usr/bin"].any fun dir => Path.join dir (Path.basename program) == program then
    Path.basename program
  else program

/-- The programs that can be started. Without a script, the interpreter takes its input for one. -/
def launch (files : Files) : Launcher := fun program arguments input =>
  match programName program, arguments with
  | "sh", "-c" :: script :: arguments => .ok (runScript files script arguments input)
  | "sh", [] => .ok (runScript files (Utf8.decodeLossy input) [] [])
  | name, _ =>
    if ["cat", "echo", "printf", "true", "false", "sleep"].contains name then
      let done := runWords files name 0 input (name :: arguments)
      .ok ⟨done.status = 0, done.output, done.complaint⟩
    else .error "No such file or directory (os error 2)"

end CodeAtlas.Shell
