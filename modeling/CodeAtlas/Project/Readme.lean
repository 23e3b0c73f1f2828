import CodeAtlas.Json.Reader
import CodeAtlas.Json.Writer
import CodeAtlas.Project.FileTree

/-!
# Project descriptions

A description of a project is made from its package file and the paths of its files.
-/

namespace CodeAtlas.Readme

/-- Why no description could be made. -/
inductive Failure where
  | noPackage
  | invalidPackage (fault : Json.Fault)
deriving DecidableEq, Repr

def Failure.message : Failure → String
  | .noPackage => "could not find package.json in the project"
  | .invalidPackage fault => "failed to parse package.json: " ++ fault.message

/-- The names under a key, in order. -/
def namesUnder? (package : Json) (key : String) : Option (List String) :=
  ((package.get? key).bind Json.fields?).map fun fields => fields.map (·.1)

/-- The package depends on this name, for use or for development. -/
def dependsOn (package : Json) (name : String) : Bool :=
  ["dependencies", "devDependencies"].any
    fun key => ((namesUnder? package key).getD []).contains name

/-- A sentence about a project and the condition under which it is true. -/
structure Feature where
  sentence : String
  holds : Bool

/-- What can be said about a project. -/
def features (package : Json) (files : List ProjectFile) : List Feature :=
  let has := dependsOn package
  let someEnds (endings : List String) := files.any fun f => endings.any (Text.hasEnd f.path)
  let someContains (parts : List String) := files.any fun f => parts.any (Text.contains f.path)
  [⟨"Built with a modern, component-based **React** UI.", has "react"⟩,
    ⟨"Includes **client-side routing** for a multi-page feel.", has "react-router-dom"⟩,
    ⟨"Styled utility-first with **Tailwind CSS**.", has "tailwindcss"⟩,
    ⟨"Uses **Sass** for advanced, nested styling.",
      !has "tailwindcss" && someEnds [".scss", ".sass"]⟩,
    ⟨"Connects to external data sources using **API fetching**.", has "axios" || has "fetch"⟩,
    ⟨"Integrated with **Firebase** for backend services (auth, database).", has "firebase"⟩,
    ⟨"Renders complex **data visualizations**.", has "@xyflow/react" || has "d3"⟩,
    ⟨"Features a dedicated **API layer** for data management.",
      someContains ["src/api", "src/utils/api"]⟩,
    ⟨"Organized with a clean, **component-based** file structure.",
      someContains ["src/components"]⟩,
    ⟨"Ensures code quality and type safety with **TypeScript**.", someEnds [".ts", ".tsx"]⟩]

/-- The features of a project as a list, or a remark that there are none. -/
def featureBullets (package : Json) (files : List ProjectFile) : String :=
  match (features package files).filter (·.holds) with
  | [] => "*No key features detected automatically.*"
  | found => Text.join "\n" (found.map fun f => "- " ++ f.sentence)

/-- The names under a key as a list. -/
def nameBullets? (package : Json) (key : String) : Option String :=
  (namesUnder? package key).map
    fun names => Text.join "\n" (names.map fun name => "- `" ++ name ++ "`")

/-- A script of the package. What is no text is written as JSON. -/
def scriptLine (script : String × Json) : String :=
  let command := match script.2 with
    | .str s => s
    | v => v.compact
  "- `npm run " ++ script.1 ++ "`: Runs `" ++ command ++ "`"

def scriptBullets (package : Json) : String :=
  match (package.get? "scripts").bind Json.fields? with
  | some scripts => Text.join "\n" (scripts.map scriptLine)
  | none => "*No scripts found.*"

def dependencySection (package : Json) : String :=
  let used := "### Dependencies\n" ++ (nameBullets? package "dependencies").getD "*None*" ++ "\n\n"
  match nameBullets? package "devDependencies" with
  | none | some "" => used
  | some names => used ++ "### Dev Dependencies\n" ++ names

def title (package : Json) : String := (package.stringAt? "name").getD "My Project"

def description (package : Json) : String :=
  match package.stringAt? "description" with
  | none | some "" => "A description of the project. (Update this in your package.json!)"
  | some s => s

/-- The description of a project with this package. -/
def write (package : Json) (ignore : List String) (files : List ProjectFile) : String :=
  String.join (["", "# " ++ title package, description package, "## ✨ Key Features",
    featureBullets package files, "## 🚀 Installation", "```bash", "npm install", "```", "## Usage",
    "To run this project, use the following scripts:", "", scriptBullets package,
    "## 📂 Project Structure", "```", FileTree.draw ignore files, "```", "## External Dependencies",
    dependencySection package, "## 🤝 Contributing", "Contributions are welcome!", "## 📄 License",
    "*This project is not licensed.*", "## 📞 Contact", "*your-email@example.com*", "---",
    "*This README was auto-generated by CodeFlow IDE.*"].map (· ++ "\n"))

/-- Describes a project. The package is the first file whose path ends in `package.json`. -/
def ofFiles (ignore : List String) (files : List ProjectFile) : Except Failure String :=
  match files.find? fun f => Text.hasEnd f.path "package.json" with
  | none => .error .noPackage
  | some file =>
    match Json.parse file.content with
    | .error fault => .error (.invalidPackage fault)
    | .ok package => .ok (write package ignore files)

end CodeAtlas.Readme
