import CodeAtlas.Json.Basic
import CodeAtlas.Numeric.Shortest

/-!
# Writing JSON text

The compact form has no spaces. The pretty form puts every item and field on a line of its own, two
blanks deeper than its container, and writes an empty container as its two brackets.
-/

namespace CodeAtlas

open Numeric (Floating DecimalLayout)

/-- Numbers are written positionally from `1e-5` up to but not including `1e16`. -/
def Json.numberLayout : DecimalLayout := ⟨-5, 16⟩

def JsonNumber.text : JsonNumber → String
  | .int n => toString n
  | .real x => Json.numberLayout.write x.negative x.shortest

namespace Json

def hexDigit (n : Nat) : Char :=
  Char.ofNat (if n < 10 then '0'.toNat + n else 'a'.toNat + n - 10)

/-- A character inside a quoted text. -/
def escape (c : Char) : List Char :=
  match c with
  | '"' => ['\\', '"']
  | '\\' => ['\\', '\\']
  | '\x08' => ['\\', 'b']
  | '\x0c' => ['\\', 'f']
  | '\n' => ['\\', 'n']
  | '\r' => ['\\', 'r']
  | '\t' => ['\\', 't']
  | c =>
    if c.toNat < 0x20 then ['\\', 'u', '0', '0', hexDigit (c.toNat / 16), hexDigit (c.toNat % 16)]
    else [c]

def quote (s : String) : String := "\"" ++ String.ofList (s.toList.flatMap escape) ++ "\""

mutual

/-- The compact text of a value. -/
def compact : Json → String
  | .null => "null"
  | .bool b => if b then "true" else "false"
  | .num n => n.text
  | .str s => quote s
  | .arr items => "[" ++ String.intercalate "," (compactItems items) ++ "]"
  | .obj fields => "\x7b" ++ String.intercalate "," (compactFields fields) ++ "\x7d"

def compactItems : List Json → List String
  | [] => []
  | v :: rest => compact v :: compactItems rest

def compactFields : List (String × Json) → List String
  | [] => []
  | (k, v) :: rest => (quote k ++ ":" ++ compact v) :: compactFields rest

end

def indentation (depth : Nat) : String := String.ofList (List.replicate (2 * depth) ' ')

/-- A container of already written parts, one to a line. -/
def block (depth : Nat) (left right : String) (parts : List String) : String :=
  if parts.isEmpty then left ++ right
  else
    left ++ "\n" ++ String.intercalate ",\n" (parts.map (indentation (depth + 1) ++ ·)) ++ "\n"
      ++ indentation depth ++ right

mutual

/-- The pretty text of a value that stands `depth` containers deep. -/
def prettyAt (depth : Nat) : Json → String
  | .null => "null"
  | .bool b => if b then "true" else "false"
  | .num n => n.text
  | .str s => quote s
  | .arr items => block depth "[" "]" (prettyItems (depth + 1) items)
  | .obj fields => block depth "\x7b" "\x7d" (prettyFields (depth + 1) fields)

def prettyItems (depth : Nat) : List Json → List String
  | [] => []
  | v :: rest => prettyAt depth v :: prettyItems depth rest

def prettyFields (depth : Nat) : List (String × Json) → List String
  | [] => []
  | (k, v) :: rest => (quote k ++ ": " ++ prettyAt depth v) :: prettyFields depth rest

end

/-- The pretty text of a value. -/
def pretty (v : Json) : String := prettyAt 0 v

end Json

end CodeAtlas
