import CodeAtlas.Directory
import CodeAtlas.Json.Reader
import CodeAtlas.Text.Utf8

/-!
# Snapshots

A snapshot describes a directory as JSON: an array of objects with a `path` and one of `text`,
`hex`, `link` and `dir`, for files by their text or bytes, links by their target and directories.
-/

namespace CodeAtlas.Directory

/-- The bytes that pairs of hexadecimal digits stand for. -/
def bytesOfHex : List Char → List UInt8
  | a :: b :: rest =>
    .ofNat ((Json.hexValue? a).getD 0 * 16 + (Json.hexValue? b).getD 0) :: bytesOfHex rest
  | _ => []

def Entry.ofJson (v : Json) : Entry :=
  match v.stringAt? "text", v.stringAt? "hex", v.stringAt? "link" with
  | some text, _, _ => .file (Utf8.encode text)
  | none, some hex, _ => .file (bytesOfHex hex.toList)
  | none, none, some target => .link target
  | none, none, none => .directory

/-- Adds an entry under a path. Directories on the way may be links. -/
def putPath (d : Directory) (path : String) (e : Entry) : Directory :=
  let names := (Path.components path).filterMap (·.name?)
  let above := names.dropLast
  d.put ((d.walk maxLinks [] above).getD above ++ names.drop above.length) e

/-- The directory that a snapshot describes. -/
def ofSnapshot (home : String) (items : List Json) : Directory :=
  items.foldl (fun d item => d.putPath ((item.stringAt? "path").getD "") (Entry.ofJson item))
    { home }

end CodeAtlas.Directory
