import CodeAtlas.Html.Dom
import CodeAtlas.Html.Tag

/-!
# Open tags

A document is built from the outside in. `OpenTags` holds the elements that are still open, each
with the children it has so far, and the nodes that stand beside them at the top. Nothing that was
opened or pushed is ever dropped: closing an element only moves it into the one around it.
-/

namespace CodeAtlas.Html

/-- An open element: its tag and its children, the last first. -/
structure OpenTag where
  tag : String
  children : List Dom := []

/-- The open elements, the innermost first, and the finished nodes outside of all of them, the last
first. -/
structure OpenTags where
  opened : List OpenTag := []
  done : List Dom := []

namespace OpenTags

/-- Opens an element. -/
def «open» (o : OpenTags) (tag : String) : OpenTags := { o with opened := { tag } :: o.opened }

/-- Adds a node to the innermost open element. -/
def push (o : OpenTags) (node : Dom) : OpenTags :=
  match o.opened with
  | inner :: outer =>
    { o with opened := { inner with children := node :: inner.children } :: outer }
  | [] => { o with done := node :: o.done }

/-- Closes the innermost open element. -/
def closeOne (o : OpenTags) : OpenTags :=
  match o.opened with
  | inner :: outer => push { o with opened := outer } (.element inner.tag inner.children.reverse)
  | [] => o

/-- Closes the innermost `n` elements. -/
def closeMany (o : OpenTags) : Nat → OpenTags
  | 0 => o
  | n + 1 => o.closeOne.closeMany n

/-- Closes everything up to and including the innermost element of that name. A name that is
not open changes nothing. -/
def close (o : OpenTags) (tag : String) : OpenTags :=
  match o.opened.findIdx? fun t => sameName t.tag tag with
  | some n => o.closeMany (n + 1)
  | none => o

/-- Closes what is still open and lists the nodes at the top. -/
def finish (o : OpenTags) : List Dom := (o.closeMany o.opened.length).done.reverse

end OpenTags

end CodeAtlas.Html
