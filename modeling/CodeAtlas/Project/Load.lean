import CodeAtlas.Directory
import CodeAtlas.Graph.Cycles
import CodeAtlas.Ignore.Rules
import CodeAtlas.Project.Filter

/-!
# Loading projects

All files below a directory are loaded, unless a name on the way is on the ignore list, an ignore
file on the way leaves them out, or the file itself is not accepted. Links are not followed. The
rules of a directory are for what is in it; those of the innermost directory that say anything
decide.
-/

namespace CodeAtlas

/-- Why a project could not be loaded. -/
inductive LoadError where
  | notADirectory (path : String)
deriving DecidableEq, Repr

def LoadError.message : LoadError → String
  | .notADirectory path => path ++ " is not a directory"

/-- The name of ignore files. -/
def ignoreFileName : String := ".codeflowignore"

namespace Directory

/-- The content of the file at the end of some names. -/
def readAt? (d : Directory) (names : List String) : Option (List UInt8) :=
  match (d.walk maxLinks [] names).bind d.entry? with
  | some (.file content) => some content
  | _ => none

/-- The rules of the ignore file in a directory. -/
def rulesIn (d : Directory) (names : List String) : IgnoreRules :=
  match d.readAt? (names ++ [ignoreFileName]) with
  | some content => .ofBytes content
  | none => []

/-- What the ignore files between `base` and the entry at `names` below it say about the entry: the
rules of `base` are asked last. -/
def ruleFor? (d : Directory) (base : List String) (isDirectory : Bool) :
    (names : List String) → Option IgnoreRule
  | [] => none
  | name :: rest =>
    (d.ruleFor? (base ++ [name]) isDirectory rest).or
      ((d.rulesIn base).lastMatch? (Text.join "/" (name :: rest)) isDirectory)

/-- An ignore file leaves out the entry at `names` below `base`, or a directory on the way to it. -/
def leavesOut (d : Directory) (base names : List String) : Bool :=
  (List.range names.length).any fun i =>
    match d.ruleFor? base (i + 1 != names.length) (names.take (i + 1)) with
    | some rule => !rule.keeps
    | none => false

/-- A file at `names` below `base` belongs to the project. -/
def admits (d : Directory) (s : Settings) (base names : List String) (size : Nat) : Bool :=
  names.all (fun name => !s.ignore.contains name) && !d.leavesOut base names &&
    s.accepts (Text.join "/" names) size

/-- The file of the project that an entry gives. -/
def projectFile? (d : Directory) (s : Settings) (base : List String) (entry : List String × Entry) :
    Option ProjectFile :=
  match entry.2 with
  | .file content =>
    let names := entry.1.drop base.length
    if base.isPrefixOf entry.1 && !names.isEmpty && d.admits s base names content.length then
      some ⟨Text.join "/" names, Utf8.decodeLossy content⟩
    else none
  | _ => none

/-- The files of the project in a directory, sorted by path. -/
def load (d : Directory) (s : Settings) (root : String) : Except LoadError (List ProjectFile) :=
  match d.locate? root with
  | none => .error (.notADirectory root)
  | some base =>
    if d.entry? base = some .directory then
      .ok ((d.entries.filterMap (d.projectFile? s base)).mergeSort
        fun a b => Graph.textLe a.path b.path)
    else .error (.notADirectory root)

end Directory

end CodeAtlas
