import CodeAtlas.Parsing.Basic
import CodeAtlas.Project.Dependency
import CodeAtlas.Session
import CodeAtlas.Text.Blank

/-!
# Plans

What a session is to show is decided by its state alone: a project is shown as the graph of its
dependencies, a scratch text as the graph of its structure. A plan says which parsers have to be
waited for on the way and what is shown in the end.

A scratch text without a language is tried in turn: markup if it looks like it, else a script, else
a stylesheet.
-/

namespace CodeAtlas

/-- Something to be shown. -/
structure Picture where
  view : View := .scratch
  language : Language := .javaScript
  mode : Fidelity := .simple
  graph : Graph := {}

/-- A call of a parser that has to be waited for. -/
structure Wait where
  language : Language
  /-- What is shown meanwhile if the parser has not started yet. -/
  placeholder : Option Picture
  duration : Nat
  /-- Whether the parser has started once the wait is over. -/
  starts : Bool

structure Plan where
  waits : List Wait := []
  /-- What is shown in the end; nothing if a parser crashes. -/
  outcome : Option Picture

/-- How the imports of a project are found. -/
inductive ImportFinder where
  | text
  | tree (parser : Parser)

def ImportFinder.scanner : ImportFinder → ImportScanner
  | .text => textScanner
  | .tree parser => treeScanner parser

/-- The parsers that pictures are made with. -/
structure Studio where
  registry : Registry := {}
  imports : ImportFinder := .text

namespace Plan

/-- What is said to be loading. -/
def loadingSubject : Language → String
  | .python => "Python runtime"
  | language => language.name ++ " parser"

/-- A text in angle brackets is taken for markup. -/
def looksLikeMarkup (trimmed : String) : Bool :=
  Text.hasStart trimmed "<" && Text.hasEnd trimmed ">"

/-- The graph of a tree, or the message why there is none. -/
def graphOf (mode : Fidelity) : Except ParseError SourceTree → Graph
  | .ok tree => tree.toGraph mode
  | .error e => .syntaxError e.message

/-- Asks the parser for a language. -/
def ask (studio : Studio) (mode : Fidelity) (language : Language) (source : String) :
    List Wait × Option (Except ParseError SourceTree) :=
  match studio.registry.find? language with
  | none => ([], some (.error (.unsupported language)))
  | some parser =>
    let attempt := parser.parse source
    let placeholder : Picture := { language, mode, graph := .loading (loadingSubject language) }
    ([⟨language, if parser.slowStart then some placeholder else none, attempt.duration,
      attempt.started⟩], attempt.result)

/-- The plan for a scratch text in a given language. -/
def tagged (studio : Studio) (mode : Fidelity) (language : Language) (source : String) : Plan :=
  let (waits, result) := ask studio mode language source
  ⟨waits, result.map fun r => { language, mode, graph := graphOf mode r }⟩

/-- The plan for a scratch text that is tried in one last language. If that fails, the text is
plain. -/
def lastTry (studio : Studio) (mode : Fidelity) (language : Language) (source : String) : Plan :=
  let (waits, result) := ask studio mode language source
  ⟨waits, result.map fun r => {
    language := match r with
      | .ok _ => language
      | .error _ => .plainText
    mode, graph := graphOf mode r }⟩

/-- The plan for a text that is a script or else a stylesheet. -/
def scriptOrStylesheet (studio : Studio) (mode : Fidelity) (source : String) : Plan :=
  let (waits, result) := ask studio mode .javaScript source
  match result with
  | none => ⟨waits, none⟩
  | some (.ok tree) => ⟨waits, some { language := .javaScript, mode, graph := tree.toGraph mode }⟩
  | some (.error _) =>
    let second := lastTry studio mode .css source
    ⟨waits ++ second.waits, second.outcome⟩

def scratch (studio : Studio) (s : Session) : Plan :=
  let trimmed := Text.trim s.scratch
  if trimmed = "" then ⟨[], some { language := s.language.getD .javaScript, mode := s.mode }⟩
  else
    match s.language with
    | some .javaScript | some .html | some .css | some .java | some .python =>
      tagged studio s.mode (s.language.getD .javaScript) s.scratch
    | some .plainText | none =>
      if looksLikeMarkup trimmed then lastTry studio s.mode .html s.scratch
      else scriptOrStylesheet studio s.mode s.scratch

/-- The calls of a parser on the scripts of a project, up to a crash, and whether there is none. -/
def scans (parser : Parser) : List ProjectFile → List Wait × Bool
  | [] => ([], true)
  | file :: files =>
    let attempt := parser.parse file.content
    let wait : Wait := ⟨parser.language, none, attempt.duration, false⟩
    match attempt.result with
    | none => ([wait], false)
    | some _ =>
      let (waits, finished) := scans parser files
      (wait :: waits, finished)

def ofProject (studio : Studio) (s : Session) (p : Project) : Plan :=
  let picture : Picture :=
    { view := .project, language := s.activeLanguage?.getD .javaScript, mode := s.mode
      graph := (Dependency.build studio.imports.scanner p.files).graph }
  match studio.imports with
  | .text => ⟨[], some picture⟩
  | .tree parser =>
    let (waits, finished) := scans parser (Dependency.scripts p.files)
    ⟨waits, if finished then some picture else none⟩

/-- What is to be shown for a session. -/
def ofSession (studio : Studio) (s : Session) : Plan :=
  match s.project with
  | some p => ofProject studio s p
  | none => scratch studio s

end Plan

end CodeAtlas
