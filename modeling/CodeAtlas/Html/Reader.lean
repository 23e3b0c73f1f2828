import CodeAtlas.Html.OpenTags
import CodeAtlas.Html.Token

/-!
# Reading documents

Every text is a document: what is malformed is put right in the way browsers do. A start tag first
ends the elements that cannot hold it, an end tag ends everything inside the element it belongs to,
and an end tag that belongs to nothing is ignored. What is still open at the end of the text is
closed there.

A void element ends at the next tag, so a text right after it is its child.
-/

namespace CodeAtlas.Html

namespace OpenTags

/-- Closes open elements from the innermost on as long as they satisfy `p`. -/
def closeWhile (p : String → Bool) (o : OpenTags) : OpenTags :=
  o.closeMany (o.opened.takeWhile fun t => p t.tag).length

/-- Ends the elements that a start tag ends. -/
def makeRoom (o : OpenTags) (name : String) (spaced : Bool) : OpenTags :=
  o.closeWhile fun outer => isVoid outer || (!spaced && !canContain outer name)

/-- An end tag. A name of the unknown kind that is not open itself ends all open elements of that
kind. -/
def endTag (o : OpenTags) (name : String) (spaced : Bool) : OpenTags :=
  let opened := o.opened.map (·.tag)
  if spaced then
    if (opened.head?.map (sameName name)).getD false then o.closeOne else o
  else if opened.any (sameName name) then o.close name
  else if isKnown name then o
  else
    -- what stands outside of the outermost unknown element stays open
    o.closeMany (opened.reverse.dropWhile isKnown).length

/-- One token. -/
def step (o : OpenTags) : Token → OpenTags
  | .openTag name spaced => (o.makeRoom name spaced).open name
  | .emptyTag name spaced => (o.makeRoom name spaced).push (.element name [])
  | .closeTag name spaced => o.endTag name spaced
  | .text content => o.push (.text content)
  | .comment content => o.push (.comment content)

end OpenTags

/-- The nodes at the top of a text. -/
def fragment (s : String) : List Dom := ((tokens s.toList).foldl OpenTags.step {}).finish

/-- The root of a document with these nodes at the top: the only element, if there is one, and else
a root made to hold them all. -/
def rootOf (top : List Dom) : Dom :=
  match top.filter Dom.isElement with
  | [root] => root
  | _ => .element "html" top

/-- Reads a document. -/
def parse (s : String) : Dom := rootOf (fragment s)

end CodeAtlas.Html
