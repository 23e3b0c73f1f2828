import CodeAtlas.Ignore.Glob
import CodeAtlas.Text.Blank
import CodeAtlas.Text.Occurs
import CodeAtlas.Text.Split

/-!
# Ignore rules

An ignore file has a rule on every line. The last rule that matches a path decides on it: an
ordinary rule leaves the path out, one with an exclamation mark keeps it. A rule that ends in a
slash is for directories only. A rule without a slash elsewhere matches at any depth.
-/

namespace CodeAtlas

/-- A rule on one line. -/
structure IgnoreRule where
  glob : List Glob.Token
  keeps : Bool := false
  onlyDirectories : Bool := false

/-- The rules of a file, in order. -/
abbrev IgnoreRules := List IgnoreRule

namespace IgnoreRule

/-- Takes the slash off the end of a rule for directories, with a backslash before it. -/
def dropSlash (line : List Char) : List Char × Bool :=
  match line.reverse with
  | '/' :: '\\' :: before => (before.reverse, true)
  | '/' :: before => (before.reverse, true)
  | _ => (line, false)

/-- The glob that a rule stands for. -/
def globText (anchored : Bool) (line : List Char) : List Char :=
  let free := !anchored && !line.contains '/' && line != ['*', '*']
  let text := if free then '*' :: '*' :: '/' :: line else line
  if ['/', '*', '*'].isSuffixOf text then text ++ ['/', '*'] else text

/-- The rule after its marks have been read. -/
def ofMarked? (keeps anchored : Bool) (line : List Char) : Option IgnoreRule :=
  let (line, onlyDirectories) := dropSlash line
  (Glob.parse? (globText anchored line)).map fun glob => { glob, keeps, onlyDirectories }

/-- Reads the mark for a rule that holds at the top only. -/
def ofUnsigned? (keeps : Bool) : List Char → Option IgnoreRule
  | '/' :: line => ofMarked? keeps true line
  | line => ofMarked? keeps false line

/-- The rule on a line, if there is one that can be read. -/
def ofLine? (line : List Char) : Option IgnoreRule :=
  let trimmed := if ['\\', ' '].isSuffixOf line then line
    else (line.reverse.dropWhile Text.isBlank).reverse
  match trimmed with
  | [] | '#' :: _ => none
  | '\\' :: '!' :: rest => ofMarked? false false ('!' :: rest)
  | '\\' :: '#' :: rest => ofMarked? false false ('#' :: rest)
  | '!' :: rest => ofUnsigned? true rest
  | rest => ofUnsigned? false rest

end IgnoreRule

namespace IgnoreRules

/-- Drops the carriage return before a line feed. -/
def dropReturn (line : List Char) : List Char :=
  if line.getLast? = some '\r' then line.dropLast else line

/-- Drops the carriage returns at the ends of all lines but the last, which has no line feed. -/
def dropReturns : List (List Char) → List (List Char)
  | [] => []
  | [line] => [line]
  | line :: rest => dropReturn line :: dropReturns rest

/-- The lines of an ignore file, up to the first one that is no text. Byte order marks are passed
over. -/
def lines (bytes : List UInt8) : List (List Char) :=
  dropReturns (Text.splitChars '\n' ((Utf8.decodeLines bytes).dropWhile (· == Char.ofNat 0xFEFF)))

/-- The rules in an ignore file. If a class in one of them runs downwards in bytes, there are
none. -/
def ofBytes (bytes : List UInt8) : IgnoreRules :=
  let rules := (lines bytes).filterMap IgnoreRule.ofLine?
  if rules.all fun r => Glob.areSound r.glob then rules else []

/-- The last rule that matches a path. -/
def lastMatch? (rules : IgnoreRules) (path : String) (isDirectory : Bool) : Option IgnoreRule :=
  let bytes := Utf8.encode path
  rules.reverse.find? fun r => (!r.onlyDirectories || isDirectory) && Glob.matchesPath r.glob bytes

end IgnoreRules

end CodeAtlas
