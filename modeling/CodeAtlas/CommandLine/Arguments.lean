import CodeAtlas.Language
import CodeAtlas.Text.Occurs

/-!
# Arguments

Options stand before the command they belong to or after it, in any order. An option with a value
takes the next argument or what follows an equals sign, and a short one also what follows directly.
No option may be given twice, and a value may not start with a hyphen unless it is one.
-/

namespace CodeAtlas.CommandLine

/-- What is asked for. -/
inductive Command where
  | ast (file : String) (language : Option Language) (mode : Option Fidelity)
      (childKeys : Option String)
  | deps (directory : String)
  | watch (directory : String)
  | readme (directory : String)
  | version
  | help
deriving DecidableEq, Repr

structure Invocation where
  command : Command
  verbose : Bool := false
  config : Option String := none
deriving DecidableEq, Repr

/-- An option that a command knows. -/
structure OptionSpec where
  long : String
  short : Option Char := none
  takesValue : Bool := true

/-- The options and other arguments that have been given. -/
structure Given where
  options : List (String × String) := []
  positionals : List String := []

namespace Given

/-- Records an option, unless it has been given before. -/
def addOption (g : Given) (name value : String) : Option Given :=
  if (g.options.lookup name).isSome then none
  else some { g with options := g.options ++ [(name, value)] }

def addPositional (g : Given) (value : String) : Given :=
  { g with positionals := g.positionals ++ [value] }

def value? (g : Given) (name : String) : Option String := g.options.lookup name

end Given

/-- An argument that can be the value of an option. -/
def isValue (argument : String) : Bool := !Text.hasStart argument "-" || argument == "-"

/-- The text before the first equals sign and the one after it. -/
def splitEquals (cs : List Char) : String × Option String :=
  (String.ofList (cs.takeWhile (· != '=')),
    match cs.dropWhile (· != '=') with
    | [] => none
    | _ :: value => some (String.ofList value))

/-- A step in reading arguments: what is given so far and the arguments that are left. -/
abbrev Reading := Option (Given × List String)

/-- Takes the next argument as the value of an option. -/
def takeValue (g : Given) (name : String) : List String → Reading
  | [] => none
  | value :: rest => if isValue value then (g.addOption name value).map (·, rest) else none

/-- Reads an option with two hyphens. -/
def readLong (specs : List OptionSpec) (g : Given) (text : List Char)
    (rest : List String) : Reading := do
  let (name, value) := splitEquals text
  let spec ← specs.find? (·.long == name)
  match spec.takesValue, value with
  | true, some value => (g.addOption name value).map (·, rest)
  | true, none => takeValue g name rest
  | false, none => (g.addOption name "").map (·, rest)
  | false, some _ => none

/-- Reads options with one hyphen. -/
def readShort (specs : List OptionSpec) (g : Given) (rest : List String) : List Char → Reading
  | [] => some (g, rest)
  | c :: cs => do
    let spec ← specs.find? (·.short == some c)
    if spec.takesValue then
      match cs with
      | [] => takeValue g spec.long rest
      | '=' :: value => (g.addOption spec.long (String.ofList value)).map (·, rest)
      | value => (g.addOption spec.long (String.ofList value)).map (·, rest)
    else readShort specs (← g.addOption spec.long "") rest cs

/-- Reads options up to the first other argument. -/
def readOptions (specs : List OptionSpec) : (fuel : Nat) → Given → List String → Reading
  | 0, _, _ => none
  | _, g, [] => some (g, [])
  | fuel + 1, g, argument :: rest =>
    match argument.toList with
    | '-' :: '-' :: [] => some (g, argument :: rest)
    | '-' :: '-' :: text => do
      let (g, rest) ← readLong specs g text rest
      readOptions specs fuel g rest
    | '-' :: c :: cs => do
      let (g, rest) ← readShort specs g rest (c :: cs)
      readOptions specs fuel g rest
    | _ => some (g, argument :: rest)

/-- Reads all arguments of a command. After two hyphens nothing is an option. -/
def readAll (specs : List OptionSpec) : (fuel : Nat) → Given → List String → Option Given
  | 0, _, _ => none
  | fuel + 1, g, arguments => do
    match ← readOptions specs (arguments.length + 1) g arguments with
    | (g, []) => some g
    | (g, "--" :: rest) => some (rest.foldl Given.addPositional g)
    | (g, argument :: rest) => readAll specs fuel (g.addPositional argument) rest

def helpOption : OptionSpec := ⟨"help", some 'h', false⟩

def astOptions : List OptionSpec :=
  [⟨"lang", some 'l', true⟩, ⟨"mode", some 'm', true⟩, ⟨"visitor-keys", none, true⟩, helpOption]

def mainOptions : List OptionSpec :=
  [⟨"verbose", some 'v', false⟩, ⟨"config", some 'c', true⟩, helpOption]

/-- The only argument that is no option. It may not be empty. -/
def onlyPositional? (g : Given) : Option String :=
  match g.positionals with
  | [value] => if value = "" then none else some value
  | _ => none

/-- A value that has to be understood if it is given. -/
def understood? {α ε : Type} (read : String → Except ε α) : Option String → Option (Option α)
  | none => some none
  | some value =>
    match read value with
    | .ok a => some (some a)
    | .error _ => none

/-- A path that may not be empty if it is given. -/
def path? : Option String → Option (Option String)
  | none => some none
  | some "" => none
  | some path => some (some path)

def readAst (g : Given) : Option Command := do
  if (g.value? "help").isSome then some .help
  else
    let file ← onlyPositional? g
    let language ← understood? Language.ofName (g.value? "lang")
    let mode ← understood? Fidelity.ofName (g.value? "mode")
    let childKeys ← path? (g.value? "visitor-keys")
    some (.ast file language mode childKeys)

/-- Reads the arguments of a command that takes nothing but a directory. -/
def readOnDirectory (command : String → Command) (arguments : List String) : Option Command := do
  let g ← readAll [helpOption] (arguments.length + 1) {} arguments
  if (g.value? "help").isSome then some .help else (onlyPositional? g).map command

def readCommand (name : String) (arguments : List String) : Option Command :=
  match name with
  | "ast" => (readAll astOptions (arguments.length + 1) {} arguments).bind readAst
  | "deps" => readOnDirectory .deps arguments
  | "watch" => readOnDirectory .watch arguments
  | "readme" => readOnDirectory .readme arguments
  | "version" => do
    let g ← readAll [helpOption] (arguments.length + 1) {} arguments
    if (g.value? "help").isSome then some .help
    else if g.positionals.isEmpty then some .version
    else none
  | "help" => some .help
  | _ => none

/-- Reads a command line; nothing if it cannot be understood. -/
def parse? (arguments : List String) : Option Invocation := do
  let (g, rest) ← readOptions mainOptions (arguments.length + 1) {} arguments
  if (g.value? "help").isSome then some { command := .help }
  else
    match rest with
    | [] => none
    | name :: arguments =>
      let config ← path? (g.value? "config")
      let command ← readCommand name arguments
      some { command, verbose := (g.value? "verbose").isSome, config }

end CodeAtlas.CommandLine
