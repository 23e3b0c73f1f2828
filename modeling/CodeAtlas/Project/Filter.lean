import CodeAtlas.Path
import CodeAtlas.Settings

/-!
# Which files belong to a project

Names on the ignore list keep out what bears them and everything below. Extensions and size keep out
single files.
-/

namespace CodeAtlas

/-- Some component of the path is on the ignore list. -/
def shouldIgnore (ignore : List String) (path : String) : Bool :=
  (Path.components path).any fun c => ignore.contains c.text

/-- A file with this path and size is loaded. -/
def Settings.accepts (s : Settings) (path : String) (size : Nat) : Bool :=
  !((Path.extension? path).map s.skipExtensions.contains).getD false && size ≤ s.maxFileBytes

/-- The file that is opened first: the first index or application script, else the first file. -/
def entryFile? (files : List ProjectFile) : Option ProjectFile :=
  (files.find? fun f => Text.hasEnd f.path "index.js" || Text.hasEnd f.path "App.js").or files.head?

end CodeAtlas
