import CodeAtlas.Html.Dom
import CodeAtlas.Language
import CodeAtlas.Outline.Java
import CodeAtlas.Outline.Python
import CodeAtlas.Outline.Script
import CodeAtlas.Outline.Stylesheet

/-!
# Source trees

What a parser hands over, in the shape that its language calls for, and how it is drawn.
-/

namespace CodeAtlas

inductive SourceTree where
  | script (program : Json) (keys : ChildKeys)
  | html (root : Dom)
  | css (root : Json)
  | java (root : Json)
  | python (root : Json)

namespace SourceTree

/-- Why the output of a parser is not a source tree. -/
inductive ReadError where
  | dom (cause : Dom.ReadError)
  | childKeys
  | noTrees (language : Language)
deriving DecidableEq, Repr

def language : SourceTree → Language
  | .script _ _ => .javaScript
  | .html _ => .html
  | .css _ => .css
  | .java _ => .java
  | .python _ => .python

/-- Reads a parser's output. A script's parser may wrap the program together with its table of child
keys, under `program` and `visitorKeys`. -/
def ofJson (language : Language) (v : Json) : Except ReadError SourceTree :=
  match language with
  | .javaScript =>
    match v.get? "visitorKeys" with
    | none => .ok (.script v .standard)
    | some keys =>
      match ChildKeys.ofJson? keys with
      | some keys => .ok (.script ((v.get? "program").getD .null) keys)
      | none => .error .childKeys
  | .html =>
    match Dom.ofJson v with
    | .ok root => .ok (.html root)
    | .error cause => .error (.dom cause)
  | .css => .ok (.css v)
  | .java => .ok (.java v)
  | .python => .ok (.python v)
  | .plainText => .error (.noTrees .plainText)

/-- Draws a source tree. Documents and stylesheets are drawn in full whatever the fidelity. -/
def toGraph (mode : Fidelity) : SourceTree → Graph
  | .script program keys =>
    match mode with
    | .simple => (Script.conceptual keys).draw program
    | .advanced => (Script.full keys).draw program
  | .html root => Dom.drawing.draw root
  | .css root => Stylesheet.drawing.draw root
  | .java root =>
    match mode with
    | .simple => Java.conceptual.draw root
    | .advanced => Java.full.draw root
  | .python root =>
    match mode with
    | .simple => Python.conceptual.draw root
    | .advanced => Python.full.draw root

end SourceTree

end CodeAtlas
