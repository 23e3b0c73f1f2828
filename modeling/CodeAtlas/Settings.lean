import CodeAtlas.Json.Basic
import CodeAtlas.Json.Number
import CodeAtlas.Language
import CodeAtlas.Text.Blank
import CodeAtlas.Toml.Reader

/-!
# Settings

Settings come from a file, every key of which may be left out, and two of them may be overridden by
the environment.
-/

namespace CodeAtlas

structure Settings where
  /-- How long edits must rest before the drawing is made again, in milliseconds. -/
  debounceMs : Nat := 500
  defaultMode : Fidelity := .simple
  /-- Larger files are not loaded. -/
  maxFileBytes : Nat := 1000000
  /-- Names of files and directories that are never entered. -/
  ignore : List String := ["node_modules", ".git", ".DS_Store", "dist", "build", ".env",
    "package-lock.json", "yarn.lock", "__pycache__", ".vscode"]
  /-- Extensions of files that are not loaded. -/
  skipExtensions : List String := ["lock", "png", "jpg"]
  /-- The command lines of parsers by language name, sorted by name. -/
  parsers : List (String × List String) := []
deriving DecidableEq, Repr

namespace Settings

/-- The name of the settings file in a project. -/
def fileName : String := "codeflow.toml"

/-- An environment variable with a value that cannot be used. -/
structure EnvError where
  key : String
  value : String
deriving DecidableEq, Repr

def EnvError.message (e : EnvError) : String := "invalid value for " ++ e.key ++ ": " ++ e.value

/-- The command line for a language name, if it is not empty. -/
def parserCommand? (s : Settings) (language : String) : Option (List String) :=
  match (s.parsers.find? (·.1 == language)).map (·.2) with
  | some [] => none
  | found => found

def textsOf? : Toml → Option (List String)
  | .array items => items.mapM fun
    | .string s => some s
    | _ => none
  | _ => none

def countOf? : Toml → Option Nat
  | .integer (.ofNat n) => some n
  | _ => none

def modeOf? : Toml → Option Fidelity
  | .string "simple" => some .simple
  | .string "advanced" => some .advanced
  | _ => none

/-- Inserts a name in order. -/
def insertSorted (entry : String × List String) :
    List (String × List String) → List (String × List String)
  | [] => [entry]
  | head :: rest =>
    if entry.1 < head.1 then entry :: head :: rest else head :: insertSorted entry rest

def commandsOf? (v : Toml) : Option (List (String × List String)) := do
  let fields ← v.fields?
  let commands ← fields.mapM fun (name, argv) => return (name, ← textsOf? argv)
  return commands.foldr insertSorted []

/-- A key that may be left out. -/
def field {α : Type} (fields : Toml.Fields) (key : String) (standard : α) (read : Toml → Option α) :
    Option α :=
  match Toml.lookup fields key with
  | some v => read v
  | none => some standard

/-- The settings of a document. Unknown keys are ignored; a known key of the wrong type is an
error. -/
def ofToml? (text : String) : Option Settings := do
  let fields ← Toml.parse? text
  let standard : Settings := {}
  return {
    debounceMs := ← field fields "debounce_ms" standard.debounceMs countOf?
    defaultMode := ← field fields "default_mode" standard.defaultMode modeOf?
    maxFileBytes := ← field fields "max_file_bytes" standard.maxFileBytes countOf?
    ignore := ← field fields "ignore" standard.ignore textsOf?
    skipExtensions := ← field fields "skip_extensions" standard.skipExtensions textsOf?
    parsers := ← field fields "parsers" standard.parsers commandsOf? }

/-- A number of 64 bits: digits, with a plus in front or not. -/
def count? (s : String) : Option Nat :=
  let ds := match s.toList with
    | '+' :: rest => rest
    | cs => cs
  if ds.isEmpty || !ds.all Char.isDigit then none
  else
    let n := JsonNumber.ofDigits ds
    if n ≤ JsonNumber.unsignedMax then some n else none

/-- Applies the overrides of an environment. -/
def override (s : Settings) (env : String → Option String) : Except EnvError Settings := do
  let s ← match env "CODEFLOW_DEBOUNCE_MS" with
    | none => pure s
    | some value =>
      match count? (Text.trim value) with
      | some n => pure { s with debounceMs := n }
      | none => throw ⟨"CODEFLOW_DEBOUNCE_MS", value⟩
  match env "CODEFLOW_MODE" with
  | none => pure s
  | some value =>
    match Fidelity.ofName value with
    | .ok mode => pure { s with defaultMode := mode }
    | .error _ => throw ⟨"CODEFLOW_MODE", value⟩

end Settings

end CodeAtlas
