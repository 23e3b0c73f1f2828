import CodeAtlas.Graph.Cycles
import CodeAtlas.Project.Filter

/-!
# Sessions

A session is what is open in an editor: a scratch text, and possibly a project in front of it. Edits
change it one after the other. The files of a project are kept sorted by path.
-/

namespace CodeAtlas

/-- An open project. -/
structure Project where
  files : List ProjectFile := []
  /-- The path of the file that the editor shows. -/
  active : Option String := none
deriving DecidableEq, Repr

namespace Project

/-- The path of the file that is shown if nothing else is said. -/
def entryPath? (files : List ProjectFile) : Option String := (entryFile? files).map (·.path)

/-- Opens some files. -/
def ofFiles (files : List ProjectFile) : Project :=
  let sorted := files.mergeSort fun a b => Graph.textLe a.path b.path
  ⟨sorted, entryPath? sorted⟩

def activeFile? (p : Project) : Option ProjectFile :=
  p.active.bind fun path => p.files.find? (·.path == path)

/-- Puts a file in its place among sorted files. It replaces the last one with its path. -/
def place (file : ProjectFile) : List ProjectFile → List ProjectFile
  | [] => [file]
  | other :: rest =>
    if file.path < other.path then file :: other :: rest
    else if other.path = file.path ∧ (rest.head?.map (·.path)) ≠ some file.path then file :: rest
    else other :: place file rest

def write (p : Project) (file : ProjectFile) : Project := { p with files := place file p.files }

/-- A path is another one or lies below it. -/
def isAtOrBelow (path : String) (file : ProjectFile) : Bool :=
  file.path == path || Text.hasStart file.path (path ++ "/")

/-- Drops a file, or everything in a directory. If the active file is gone, another one is shown. -/
def remove (p : Project) (path : String) : Project :=
  let kept : Project := { p with files := p.files.filter fun f => !isAtOrBelow path f }
  if kept.activeFile?.isNone then { kept with active := entryPath? kept.files } else kept

/-- Shows a file, if there is one with this path. -/
def activate (p : Project) (path : String) : Project :=
  if p.files.any (·.path == path) then { p with active := some path } else p

/-- Replaces the content of the active file. -/
def edit (p : Project) (content : String) : Project :=
  match p.active with
  | some path => p.write ⟨path, content⟩
  | none => p

end Project

/-- What a session shows. -/
inductive View where
  | scratch
  | project
deriving DecidableEq, Repr

def View.name : View → String
  | .scratch => "scratch"
  | .project => "project"

structure Session where
  scratch : String := ""
  /-- The language of the scratch text, unless it is to be guessed. -/
  language : Option Language := none
  mode : Fidelity := .simple
  project : Option Project := none
deriving DecidableEq, Repr

inductive Edit where
  /-- The text in the editor was replaced. -/
  | buffer (text : String)
  | language (tag : Option Language)
  | mode (mode : Fidelity)
  | openProject (files : List ProjectFile)
  | closeProject
  | activate (path : String)
  | write (file : ProjectFile)
  | remove (path : String)
deriving DecidableEq, Repr

namespace Session

def view (s : Session) : View := if s.project.isSome then .project else .scratch

/-- The language of the active file. -/
def activeLanguage? (s : Session) : Option Language :=
  (s.project.bind (·.active)).map Language.ofPath

/-- Changes the open project, if there is one. -/
def onProject (s : Session) (f : Project → Project) : Session :=
  { s with project := s.project.map f }

def apply (s : Session) : Edit → Session
  | .buffer text =>
    match s.project with
    | some _ => s.onProject (·.edit text)
    | none => { s with scratch := text }
  | .language tag => { s with language := tag }
  | .mode mode => { s with mode }
  | .openProject files => { s with project := some (.ofFiles files) }
  | .closeProject => { s with project := none }
  | .activate path => s.onProject (·.activate path)
  | .write file => s.onProject (·.write file)
  | .remove path => s.onProject (·.remove path)

end Session

end CodeAtlas
