import CodeAtlas.Numeric.Floating

/-!
# JSON values

A document as a tree. The fields of an object stand in document order, since several of the syntax
trees read here are walked in that order; a field that is set twice keeps its first place and its
last value.
-/

namespace CodeAtlas

open Numeric (Floating Format)

/-- A number: a whole number of 64 bits, signed or not, or a floating-point value. -/
inductive JsonNumber where
  | int (n : Int)
  | real (x : Floating .double)
deriving DecidableEq

inductive Json where
  | null
  | bool (b : Bool)
  | num (n : JsonNumber)
  | str (s : String)
  | arr (items : List Json)
  | obj (fields : List (String × Json))

namespace Json

instance : Inhabited Json := ⟨.null⟩

/-- The value of a field in a list of fields. -/
def lookup (fields : List (String × Json)) (key : String) : Option Json :=
  (fields.find? fun field => field.1 == key).map (·.2)

/-- Sets a field: in its place if the key is there already, else at the end. -/
def setField (fields : List (String × Json)) (key : String) (value : Json) : List (String × Json) :=
  match fields with
  | [] => [(key, value)]
  | (k, v) :: rest => if k = key then (k, value) :: rest else (k, v) :: setField rest key value

/-- The value of a field; nothing for values that are not objects. -/
def get? (v : Json) (key : String) : Option Json :=
  match v with
  | .obj fields => lookup fields key
  | _ => none

def fields? : Json → Option (List (String × Json))
  | .obj fields => some fields
  | _ => none

def items? : Json → Option (List Json)
  | .arr items => some items
  | _ => none

def string? : Json → Option String
  | .str s => some s
  | _ => none

def bool? : Json → Option Bool
  | .bool b => some b
  | _ => none

/-- A whole number that is not negative. -/
def nat? : Json → Option Nat
  | .num (.int (.ofNat n)) => some n
  | _ => none

def isNull : Json → Bool
  | .null => true
  | _ => false

/-- The text of a field that holds a string. -/
def stringAt? (v : Json) (key : String) : Option String := (v.get? key).bind string?

def ofNat (n : Nat) : Json := .num (.int n)

def ofStrings (xs : List String) : Json := .arr (xs.map .str)

/-- The strings of an array that holds nothing else. -/
def strings? (v : Json) : Option (List String) := v.items?.bind (·.mapM string?)

/-- A missing value as `null`. -/
def ofOption {α : Type} (f : α → Json) : Option α → Json
  | some a => f a
  | none => .null

end Json

end CodeAtlas
