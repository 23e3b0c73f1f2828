/-!
# Tags

What is known about tag names: which elements are void, which are raw, and which elements end on
their own where they cannot hold what comes next. Names are compared without regard to ASCII case;
all names that are not listed here count as one kind.
-/

namespace CodeAtlas.Html

/-- A tag name as it is compared. -/
def upper (name : String) : String := name.map Char.toUpper

/-- Two names of one tag. -/
def sameName (a b : String) : Bool := upper a == upper b

/-- Elements without an end tag. -/
def voidTags : List String :=
  ["AREA", "BASE", "BASEFONT", "BGSOUND", "BR", "COL", "COMMAND", "EMBED", "FRAME", "HR",
    "IMAGE", "IMG", "INPUT", "ISINDEX", "KEYGEN", "LINK", "MENUITEM", "META", "NEXTID", "PARAM",
    "SOURCE", "TRACK", "WBR"]

def knownTags : List String :=
  voidTags ++
  ["A", "ABBR", "ADDRESS", "ARTICLE", "ASIDE", "AUDIO", "B", "BDI", "BDO", "BLOCKQUOTE",
    "BODY", "BUTTON", "CANVAS", "CAPTION", "CITE", "CODE", "COLGROUP", "DATA", "DATALIST", "DD",
    "DEL", "DETAILS", "DFN", "DIALOG", "DIV", "DL", "DT", "EM", "FIELDSET", "FIGCAPTION", "FIGURE",
    "FOOTER", "FORM", "H1", "H2", "H3", "H4", "H5", "H6", "HEAD", "HEADER", "HGROUP", "HTML", "I",
    "IFRAME", "INS", "KBD", "LABEL", "LEGEND", "LI", "MAIN", "MAP", "MARK", "MATH", "MENU", "METER",
    "NAV", "NOSCRIPT", "OBJECT", "OL", "OPTGROUP", "OPTION", "OUTPUT", "P", "PICTURE", "PRE",
    "PROGRESS", "Q", "RB", "RP", "RT", "RTC", "RUBY", "S", "SAMP", "SCRIPT", "SECTION", "SELECT",
    "SLOT", "SMALL", "SPAN", "STRONG", "STYLE", "SUB", "SUMMARY", "SUP", "SVG", "TABLE", "TBODY",
    "TD", "TEMPLATE", "TEXTAREA", "TFOOT", "TH", "THEAD", "TIME", "TITLE", "TR", "U", "UL",
    "VAR", "VIDEO"]

def isVoid (name : String) : Bool := voidTags.contains (upper name)

def isKnown (name : String) : Bool := knownTags.contains (upper name)

/-- Elements whose content is not markup. -/
def isRaw (name : String) : Bool := sameName name "SCRIPT" || sameName name "STYLE"

/-- Elements that end a paragraph. -/
def paragraphBreakers : List String :=
  ["ADDRESS", "ARTICLE", "ASIDE", "BLOCKQUOTE", "DETAILS", "DIV", "DL", "FIELDSET",
    "FIGCAPTION", "FIGURE", "FOOTER", "FORM", "H1", "H2", "H3", "H4", "H5", "H6", "HEADER", "HR",
    "MAIN", "NAV", "OL", "P", "PRE", "SECTION"]

/-- Whether an element can hold another one directly. -/
def canContain (parent child : String) : Bool :=
  let child := upper child
  match upper parent with
  | "LI" => child != "LI"
  | "DT" | "DD" => child != "DT" && child != "DD"
  | "P" => !paragraphBreakers.contains child
  | "COLGROUP" => child == "COL"
  | "RB" | "RT" | "RP" => child != "RB" && child != "RT" && child != "RP"
  | "OPTGROUP" => child != "OPTGROUP"
  | "TR" => child != "TR"
  | "TD" | "TH" => child != "TD" && child != "TH" && child != "TR"
  | _ => true

end CodeAtlas.Html
