import CodeAtlas.Parsing.Basic
import CodeAtlas.Path
import CodeAtlas.Project.ScriptText

/-!
# Finding imports

There are two ways of finding out what a script imports: looking at its text, or asking a parser for
its syntax tree.
-/

namespace CodeAtlas

/-- Whether a file is a script whose imports are followed. -/
def isScriptPath (path : String) : Bool :=
  match Path.extension? path with
  | some ext => ["js", "jsx", "ts", "tsx"].contains ext
  | none => false

/-- Why the imports of a file could not be found. -/
inductive ScanError where
  | parse (path : String) (cause : ParseError)
  | notScript (path : String)
deriving DecidableEq, Repr

def ScanError.message : ScanError → String
  | .parse path cause => "could not parse " ++ path ++ ": " ++ cause.message
  | .notScript path => path ++ " did not produce a JS-family tree"

/-- Finds the specifiers that a file with this path and content imports. -/
abbrev ImportScanner := (path content : String) → Except ScanError (List String)

/-- The specifiers of the import declarations in a program, which may be wrapped in a file. -/
def programImports (tree : Json) : List String :=
  let program := (tree.get? "program").getD tree
  let body := ((program.get? "body").bind Json.items?).getD []
  (body.filter fun statement => statement.stringAt? "type" == some "ImportDeclaration").filterMap
    fun declaration => (declaration.get? "source").bind (·.stringAt? "value")

/-- The specifiers in the outcome of a parse. -/
def importsOfTree (path : String) : Except ParseError SourceTree → Except ScanError (List String)
  | .ok (.script program _) => .ok (programImports program)
  | .ok _ => .error (.notScript path)
  | .error cause => .error (.parse path cause)

/-- Looks at the text. -/
def textScanner : ImportScanner := fun path content => .ok (ScriptText.imports path content)

/-- Asks a parser. A crash counts as a text that was rejected. -/
def treeScanner (parser : Parser) : ImportScanner := fun path content =>
  importsOfTree path ((parser.parse content).result.getD (.error (.rejected "parser crashed")))

end CodeAtlas
