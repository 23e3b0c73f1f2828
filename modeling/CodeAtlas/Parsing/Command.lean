import CodeAtlas.Parsing.Basic
import CodeAtlas.Settings
import CodeAtlas.Text.Blank
import CodeAtlas.Text.Split
import CodeAtlas.Text.Utf8

/-!
# Parsers that are programs

The program gets the source as its input and writes the tree as JSON. If it fails, the first line it
wrote as a complaint is the message.
-/

namespace CodeAtlas

/-- What a program left behind. -/
structure ProgramRun where
  success : Bool
  output : List UInt8 := []
  complaint : List UInt8 := []
deriving DecidableEq, Repr

/-- Runs a program with arguments on an input; the error says why it could not be started. -/
abbrev Launcher :=
  (program : String) → (arguments : List String) → (input : List UInt8) → Except String ProgramRun

namespace Parser

/-- The first line that is not blank, without blanks around it. -/
def complaintLine (bytes : List UInt8) : String :=
  let lines := (Text.split '\n' (Utf8.decodeLossy bytes)).map Text.trim
  (lines.find? (· != "")).getD "parse failed"

/-- Reads what a program wrote. -/
def readOutput (language : Language) (bytes : List UInt8) : Except ParseError SourceTree :=
  match Json.parse (Utf8.decodeLossy bytes) with
  | .error fault => .error (.notJson fault)
  | .ok v => if (Utf8.decode? bytes).isSome then ParseError.readTree language v else .error .notText

/-- The parser that runs a program. -/
def ofProgram (launch : Launcher) (language : Language) (slowStart : Bool) (program : String)
    (arguments : List String) : Parser where
  language := language
  slowStart := slowStart
  parse source :=
    match launch program arguments (Utf8.encode source) with
    | .error reason =>
      { started := false, result := some (.error (.unavailable (program ++ ": " ++ reason))) }
    | .ok run =>
      if run.success then { result := some (readOutput language run.output) }
      else { result := some (.error (.rejected (complaintLine run.complaint))) }

/-- The parser for a command line; none for an empty one. -/
def ofCommand? (launch : Launcher) (language : Language) (slowStart : Bool) :
    List String → Option Parser
  | [] => none
  | program :: arguments => some (ofProgram launch language slowStart program arguments)

end Parser

namespace Registry

/-- The parser that one entry of the settings names. Unknown languages and empty commands name
none. -/
def configured? (launch : Launcher) (entry : String × List String) : Option Parser :=
  match Language.ofName entry.1 with
  | .ok language => Parser.ofCommand? launch language (decide (language = .python)) entry.2
  | .error _ => none

/-- The parsers at hand under some settings. -/
def ofSettings (launch : Launcher) (s : Settings) : Registry :=
  (s.parsers.filterMap (configured? launch)).foldl register (empty.register Parser.builtinHtml)

end Registry

end CodeAtlas
