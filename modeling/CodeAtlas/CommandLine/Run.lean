import CodeAtlas.CommandLine.Arguments
import CodeAtlas.EnvFile
import CodeAtlas.Json.Writer
import CodeAtlas.Live.Codec
import CodeAtlas.Project.Load
import CodeAtlas.Project.Readme
import CodeAtlas.Shell

/-!
# The command line

A command is carried out on a directory and the variables of the environment. What it prints and how
it ends depends on nothing else.
-/

namespace CodeAtlas.CommandLine

/-- Why a command came to nothing. -/
inductive Failure where
  | usage
  | unreadableConfig (path reason : String)
  | invalidConfig (path : String)
  | environment (cause : Settings.EnvError)
  | languageRequired
  | unreadable (path : String)
  | notJson (path : String)
  | childKeysNotJson (fault : Json.Fault)
  | invalidChildKeys (path : String)
  | childKeysMisplaced
  | notParserOutput (path : String) (language : Language)
  | projectNotLoaded (path : String)
  | noReadme (cause : Readme.Failure)
  | endless
deriving DecidableEq, Repr

namespace Failure

def message : Failure → String
  | .usage => "usage"
  | .unreadableConfig path reason => "failed to read config " ++ path ++ ": " ++ reason
  | .invalidConfig path => "invalid config " ++ path
  | .environment cause => cause.message
  | .languageRequired => "--lang is required for parser output"
  | .unreadable path => "failed to read " ++ path
  | .notJson path => path ++ " is not valid JSON"
  | .childKeysNotJson fault => fault.message
  | .invalidChildKeys path => "invalid visitor keys in " ++ path
  | .childKeysMisplaced => "--visitor-keys only applies to javascript"
  | .notParserOutput path language => path ++ " is not " ++ language.name ++ " parser output"
  | .projectNotLoaded path => "failed to load project " ++ path
  | .noReadme _ => "failed to generate README"
  | .endless => "a snapshot cannot be watched"

/-- The exit status. -/
def status : Failure → Nat
  | .usage => 2
  | _ => 1

end Failure

/-- What a command prints, or why it came to nothing. -/
abbrev Outcome := Except Failure String

def versionText : String := "CodeFlow v0.1.0\n"

/-- The text of a file. -/
def readText (d : Directory) (path : String) : Except Failure String :=
  match (d.read? path).bind Utf8.decode? with
  | some text => .ok text
  | none => .error (.unreadable path)

/-- The settings in a file; the standard ones if there is no such file. -/
def loadSettings (d : Directory) (path : String) : Except Failure Settings :=
  match d.find? path with
  | none | some (.link _) => .ok {}
  | some .directory => .error (.unreadableConfig path "Is a directory (os error 21)")
  | some (.file content) =>
    match Utf8.decode? content with
    | none => .error (.unreadableConfig path "stream did not contain valid UTF-8")
    | some text =>
      match Settings.ofToml? text with
      | some settings => .ok settings
      | none => .error (.invalidConfig path)

/-- The variables with those of the environment file. -/
def environment (d : Directory) (env : Variables) : Variables :=
  match d.read? ".env" with
  | some content => EnvFile.apply env content
  | none => env

/-- The settings under which a command runs. -/
def settings (d : Directory) (env : Variables) (config : Option String) :
    Except Failure Settings := do
  let loaded ← loadSettings d (config.getD Settings.fileName)
  let env := environment d env
  (loaded.override fun key => env.lookup key).mapError .environment

/-- The tree in the saved output of a parser. -/
def savedTree (d : Directory) (file : String) (language : Language) (childKeys : Option String) :
    Except Failure SourceTree := do
  let text ← readText d file
  let value ← (Json.parse text).mapError fun _ => .notJson file
  match childKeys with
  | some path =>
    if language = .javaScript then
      let keys ← (Json.parse (← readText d path)).mapError .childKeysNotJson
      match ChildKeys.ofJson? keys with
      | some keys => .ok (.script value keys)
      | none => .error (.invalidChildKeys path)
    else .error .childKeysMisplaced
  | none => (SourceTree.ofJson language value).mapError fun _ => .notParserOutput file language

/-- The language that the extension of a source file stands for. A script is left to be guessed. -/
def languageTag? (file : String) : Option Language :=
  match Language.ofPath file with
  | .javaScript => none
  | language => some language

def printed (v : Json) : String := v.pretty ++ "\n"

/-- Draws a source file, or the saved output of a parser. -/
def ast (d : Directory) (s : Settings) (file : String) (language : Option Language)
    (mode : Option Fidelity) (childKeys : Option String) : Outcome := do
  let mode := mode.getD s.defaultMode
  if Path.extension? file = some "json" then
    match language with
    | none => .error .languageRequired
    | some language => return printed ((← savedTree d file language childKeys).toGraph mode).toJson
  else
    let source ← readText d file
    let session : Session :=
      { scratch := source, language := language.or (languageTag? file), mode }
    let studio : Studio := { registry := .ofSettings (Shell.launch d.read?) s }
    let board : Board := {}
    return printed (board.recompute studio session).1.shown.toJson

def loadProject (d : Directory) (s : Settings) (root : String) :
    Except Failure (List ProjectFile) :=
  (d.load s root).mapError fun _ => .projectNotLoaded root

def deps (d : Directory) (s : Settings) (root : String) : Outcome := do
  let files ← loadProject d s root
  return printed (Dependency.build textScanner files).graph.toJson

def readme (d : Directory) (s : Settings) (root : String) : Outcome := do
  let files ← loadProject d s root
  (Readme.ofFiles s.ignore files).mapError .noReadme

/-- Carries out a command. -/
def execute (d : Directory) (s : Settings) : Command → Outcome
  | .ast file language mode childKeys => ast d s file language mode childKeys
  | .deps root => deps d s root
  | .readme root => readme d s root
  | .version => .ok versionText
  | .watch root => do
    let _ ← loadProject d s root
    .error .endless
  | .help => .ok ""

/-- Runs a command line. -/
def run (d : Directory) (env : Variables) (arguments : List String) : Outcome := do
  match parse? arguments with
  | none => .error .usage
  | some { command := .help, .. } => .ok ""
  | some invocation =>
    let s ← settings d env invocation.config
    execute d s invocation.command

end CodeAtlas.CommandLine
