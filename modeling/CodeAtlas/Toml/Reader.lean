import CodeAtlas.Toml.Scalar

/-!
# Reading TOML documents

A document is read line by line. The header of a table says where the keys of the lines below it go.
-/

namespace CodeAtlas.Toml

def isBareKey (c : Char) : Bool := c.isAlphanum || c == '_' || c == '-'

/-- One part of a key. -/
def keyPart : Reader String := fun cs =>
  match cs with
  | '"' :: _ | '\'' :: _ => lineString cs
  | _ =>
    let name := cs.takeWhile isBareKey
    if name.isEmpty then none else some (String.ofList name, cs.dropWhile isBareKey)

/-- A key with dots between its parts, and the blanks after it. -/
def key (fuel : Nat) : Reader (List String) := fun cs =>
  match fuel with
  | 0 => none
  | fuel + 1 => do
    let (part, rest) ← keyPart (skipSpace cs)
    match skipSpace rest with
    | '.' :: rest => (key fuel rest).map fun (parts, rest) => (part :: parts, rest)
    | rest => some ([part], rest)

/-- The text after a comment, which stops before the line break. -/
def skipComment : List Char → List Char
  | '#' :: rest => rest.dropWhile isText
  | cs => cs

/-- The text after blanks, comments and line breaks. -/
def skipLines (fuel : Nat) (cs : List Char) : List Char :=
  match fuel with
  | 0 => cs
  | fuel + 1 =>
    match newline? (skipComment (skipSpace cs)) with
    | some rest => skipLines fuel rest
    | none => skipSpace cs

/-- The deepest nesting of arrays and inline tables that is read. -/
def maxDepth : Nat := 80

mutual

/-- A value. `depth` counts how many arrays and inline tables may still be entered. -/
def value (depth : Nat) (cs : List Char) : Option (Toml × List Char) :=
  match depth with
  | 0 => none
  | depth + 1 =>
    match cs with
    | '[' :: rest => (items depth (rest.length + 1) [] rest).map fun (vs, rest) => (.array vs, rest)
    | '\x7b' :: rest =>
      match skipSpace rest with
      | '\x7d' :: rest => some (.inline [], rest)
      | rest =>
        (pairs depth (rest.length + 1) [] rest).map fun (fields, rest) => (.inline fields, rest)
    | _ => scalar cs
termination_by (depth, 0)

/-- The items of an array after its bracket or after a comma. -/
def items (depth fuel : Nat) (done : List Toml) (cs : List Char) : Option (List Toml × List Char) :=
  match fuel with
  | 0 => none
  | fuel + 1 =>
    match skipLines cs.length cs with
    | ']' :: rest => some (done.reverse, rest)
    | cs => do
      let (v, rest) ← value depth cs
      match skipLines rest.length rest with
      | ',' :: rest => items depth fuel (v :: done) rest
      | ']' :: rest => some ((v :: done).reverse, rest)
      | _ => none
termination_by (depth, fuel + 1)

/-- The pairs of an inline table after its brace or after a comma. -/
def pairs (depth fuel : Nat) (done : Fields) (cs : List Char) : Option (Fields × List Char) :=
  match fuel with
  | 0 => none
  | fuel + 1 => do
    let (path, rest) ← key cs.length cs
    let '=' :: rest := rest | none
    let (v, rest) ← value depth (skipSpace rest)
    let done ← assign done path v
    match skipSpace rest with
    | ',' :: rest => pairs depth fuel done rest
    | '\x7d' :: rest => some (done, rest)
    | _ => none
termination_by (depth, fuel + 1)

end

/-- The text after the end of a line. -/
def endOfLine (cs : List Char) : Option (List Char) :=
  match skipComment (skipSpace cs) with
  | [] => some []
  | rest => newline? rest

/-- The rest of a document below the table at `here`. -/
def document (fuel : Nat) (here : List String) (root : Fields) (cs : List Char) : Option Fields :=
  match fuel with
  | 0 => none
  | fuel + 1 =>
    match skipSpace cs with
    | [] => some root
    | '[' :: '[' :: rest => do
      let (path, rest) ← key rest.length rest
      let ']' :: ']' :: rest := rest | none
      let root ← openNext root path
      document fuel path root (← endOfLine rest)
    | '[' :: rest => do
      let (path, rest) ← key rest.length rest
      let ']' :: rest := rest | none
      let root ← openTable root path
      document fuel path root (← endOfLine rest)
    | cs =>
      match endOfLine cs with
      | some rest => document fuel here root rest
      | none => do
        let (path, rest) ← key cs.length cs
        let '=' :: rest := rest | none
        let (v, rest) ← value maxDepth (skipSpace rest)
        let root ← changeAt false (fun _ fields => assign fields path v) false root here
        document fuel here root (← endOfLine rest)

/-- Reads a document, nothing if it is not well formed. A byte-order mark in front is passed
over. -/
def parse? (s : String) : Option Fields :=
  let cs := match s.toList with
    | '﻿' :: rest => rest
    | cs => cs
  document (cs.length + 1) [] [] cs

end CodeAtlas.Toml
