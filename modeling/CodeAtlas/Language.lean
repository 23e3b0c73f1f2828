import CodeAtlas.Text.Lower

/-!
# Languages and fidelity

The languages that can be drawn, and how faithful a drawing is. Names are read regardless of case.
-/

namespace CodeAtlas

inductive Language where
  | javaScript
  | html
  | css
  | java
  | python
  /-- Nothing could parse the text. -/
  | plainText
deriving DecidableEq, Repr

namespace Language

def all : List Language := [.javaScript, .html, .css, .java, .python, .plainText]

def name : Language → String
  | .javaScript => "javascript"
  | .html => "html"
  | .css => "css"
  | .java => "java"
  | .python => "python"
  | .plainText => "plaintext"

/-- The language of a name in lower case. -/
def ofLowerName? : String → Option Language
  | "javascript" | "js" | "jsx" | "typescript" | "ts" | "tsx" => some .javaScript
  | "html" | "htm" => some .html
  | "css" => some .css
  | "java" => some .java
  | "python" | "py" => some .python
  | "plaintext" | "text" => some .plainText
  | _ => none

end Language

/-- How much of a syntax tree is shown. -/
inductive Fidelity where
  /-- Functions, classes, variables and calls. -/
  | simple
  /-- Every node. -/
  | advanced
deriving DecidableEq, Repr

namespace Fidelity

def name : Fidelity → String
  | .simple => "simple"
  | .advanced => "advanced"

/-- The fidelity of a name in lower case. -/
def ofLowerName? : String → Option Fidelity
  | "simple" | "conceptual" => some .simple
  | "advanced" | "full" => some .advanced
  | _ => none

end Fidelity

/-- A name that is not known, in lower case. -/
inductive NameError where
  | language (name : String)
  | fidelity (name : String)
deriving DecidableEq, Repr

def NameError.message : NameError → String
  | .language name => "unknown language: " ++ name
  | .fidelity name => "unknown fidelity mode: " ++ name

def Language.ofName (s : String) : Except NameError Language :=
  let name := Text.lower s
  match ofLowerName? name with
  | some language => .ok language
  | none => .error (.language name)

def Fidelity.ofName (s : String) : Except NameError Fidelity :=
  let name := Text.lower s
  match ofLowerName? name with
  | some fidelity => .ok fidelity
  | none => .error (.fidelity name)

end CodeAtlas
