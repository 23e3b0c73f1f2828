import CodeAtlas.Html.Reader
import CodeAtlas.Json.Reader
import CodeAtlas.SourceTree
import CodeAtlas.Text.Split

/-!
# Parsers

A parser turns a text into a source tree, takes some time over it, and may fail or even crash. Its
answer depends on the text alone. A parser that starts slowly is not ready before its first answer.

The parsers of a session are kept in a registry, one for a language.
-/

namespace CodeAtlas

/-- Why a text gave no source tree. -/
inductive ParseError where
  | unsupported (language : Language)
  | unavailable (message : String)
  | rejected (message : String)
  | notText
  | notJson (fault : Json.Fault)
  | unreadable (cause : SourceTree.ReadError)
deriving DecidableEq, Repr

namespace SourceTree.ReadError

def message : SourceTree.ReadError → String
  | .dom cause => cause.message
  | .childKeys => "invalid type"
  | .noTrees language => "no parser registered for " ++ language.name

end SourceTree.ReadError

namespace ParseError

def message : ParseError → String
  | .unsupported language => "no parser registered for " ++ language.name
  | .unavailable message => "parser unavailable: " ++ message
  | .rejected message => message
  | .notText => "parser produced an unreadable tree: invalid unicode code point"
  | .notJson fault => "parser produced an unreadable tree: " ++ fault.message
  | .unreadable cause => "parser produced an unreadable tree: " ++ cause.message

/-- Reads the output of a parser for a language. -/
def readTree (language : Language) (v : Json) : Except ParseError SourceTree :=
  match SourceTree.ofJson language v with
  | .ok tree => .ok tree
  | .error (.noTrees language) => .error (.unsupported language)
  | .error cause => .error (.unreadable cause)

end ParseError

/-- What a parser does with a text. -/
structure Attempt where
  /-- How long it takes, in milliseconds. -/
  duration : Nat := 0
  /-- The parser got as far as running, so a slow start is behind it. -/
  started : Bool := true
  /-- The answer; nothing if the parser crashes. -/
  result : Option (Except ParseError SourceTree)

structure Parser where
  language : Language
  /-- The parser is not ready before it has answered once. -/
  slowStart : Bool := false
  parse : String → Attempt

namespace Parser

/-- The parser for markup that needs no other program. -/
def builtinHtml : Parser where
  language := .html
  parse source := { result := some (.ok (.html (Html.parse source))) }

end Parser

/-- The parsers at hand. -/
structure Registry where
  parsers : List Parser := []

namespace Registry

def empty : Registry := {}

/-- The parser for a language. -/
def find? (r : Registry) (language : Language) : Option Parser :=
  r.parsers.find? fun p => decide (p.language = language)

/-- Adds a parser, in place of the one that its language had. -/
def register (r : Registry) (p : Parser) : Registry :=
  ⟨r.parsers.filter (fun q => !decide (q.language = p.language)) ++ [p]⟩

def supports (r : Registry) (language : Language) : Bool := (r.find? language).isSome

/-- The names of the languages, sorted. -/
def languageNames (r : Registry) : List String :=
  ((r.parsers.map fun p => p.language.name).mergeSort fun a b => !decide (b < a))

/-- A summary for people. -/
def describe (r : Registry) : String :=
  "ParserRegistry \x7b languages: [" ++
    Text.join ", " (r.languageNames.map fun name => "\"" ++ name ++ "\"") ++ "] \x7d"

end Registry

end CodeAtlas
