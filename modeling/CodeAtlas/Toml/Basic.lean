/-!
# TOML values

A document is a table of keys and values. Besides their contents tables remember how they came
about, since that decides whether a later line may still add to them: a table that has only been
mentioned on the way to another may be opened once, a table made by a dotted key may be extended by
dotted keys alone, and an inline table is closed.
-/

namespace CodeAtlas

inductive Toml where
  | string (s : String)
  | integer (n : Int)
  | boolean (b : Bool)
  | float
  | datetime
  | array (items : List Toml)
  | inline (fields : List (String × Toml))
  /-- A table that may be mentioned but not yet opened, or made by a dotted key. -/
  | table (mentioned dotted : Bool) (fields : List (String × Toml))
  /-- The tables of one name that are opened one after the other. -/
  | series (tables : List (List (String × Toml)))

namespace Toml

abbrev Fields := List (String × Toml)

def lookup (fields : Fields) (key : String) : Option Toml :=
  (fields.find? (·.1 == key)).map (·.2)

/-- Replaces the value of a key. -/
def replace (fields : Fields) (key : String) (v : Toml) : Fields :=
  fields.map fun field => if field.1 == key then (key, v) else field

/-- The fields of a table of any make. -/
def fields? : Toml → Option Fields
  | .inline fields => some fields
  | .table _ _ fields => some fields
  | _ => none

/-- Goes down a path of keys, making the tables that are missing, and changes the table at its end.
The change learns whether that table was made by a dotted key. -/
def changeAt (dotted : Bool) (change : (madeByDots : Bool) → Fields → Option Fields) (here : Bool)
    (fields : Fields) : (path : List String) → Option Fields
  | [] => change here fields
  | key :: path =>
    match lookup fields key with
    | none => do
      let inner ← changeAt dotted change dotted [] path
      return fields ++ [(key, .table true dotted inner)]
    | some (.table mentioned made inner) =>
      if dotted && !mentioned then none
      else do
        let inner ← changeAt dotted change made inner path
        return replace fields key (.table mentioned made inner)
    | some (.series tables) => do
      let inner ← changeAt dotted change false (← tables.getLast?) path
      return replace fields key (.series (tables.dropLast ++ [inner]))
    | some _ => none

/-- Gives a key, written with dots, its value. A key may be given once. -/
def assign (fields : Fields) (path : List String) (v : Toml) : Option Fields := do
  let key ← path.getLast?
  let above := path.dropLast
  changeAt true (fun madeByDots fields =>
    if madeByDots == above.isEmpty || (lookup fields key).isSome then none
    else some (fields ++ [(key, v)])) false fields above

/-- Opens a table by its header. -/
def openTable (root : Fields) (path : List String) : Option Fields := do
  let key ← path.getLast?
  changeAt false (fun _ fields =>
    match lookup fields key with
    | none => some (fields ++ [(key, .table false false [])])
    | some (.table true false inner) => some (replace fields key (.table false false inner))
    | some _ => none) false root path.dropLast

/-- Opens a further table of a series by its header. -/
def openNext (root : Fields) (path : List String) : Option Fields := do
  let key ← path.getLast?
  changeAt false (fun _ fields =>
    match lookup fields key with
    | none => some (fields ++ [(key, .series [[]])])
    | some (.series tables) => some (replace fields key (.series (tables ++ [[]])))
    | some _ => none) false root path.dropLast

end Toml

end CodeAtlas
