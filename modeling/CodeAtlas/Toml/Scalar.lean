import CodeAtlas.Json.Reader
import CodeAtlas.Toml.Basic

/-!
# TOML scalars

Strings, numbers, truth values and dates. Every reader takes the text from the first character of
the scalar and gives its value and the text after it.
-/

namespace CodeAtlas.Toml

/-- A reader of some part of a document. -/
abbrev Reader (α : Type) := List Char → Option (α × List Char)

/-- Characters that may stand in text: no control characters but the tab. -/
def isText (c : Char) : Bool := c == '\t' || (0x20 ≤ c.toNat && c.toNat != 0x7F)

def isInlineSpace (c : Char) : Bool := c == ' ' || c == '\t'

/-- The text after blanks and tabs. -/
def skipSpace (cs : List Char) : List Char := cs.dropWhile isInlineSpace

/-- The text after a line break, if there is one. -/
def newline? : List Char → Option (List Char)
  | '\n' :: rest => some rest
  | '\r' :: '\n' :: rest => some rest
  | _ => none

def hexNumber? (ds : List Char) : Option Nat :=
  ds.foldlM (fun n d => (Json.hexValue? d).map (n * 16 + ·)) 0

/-- The character of a code point. -/
def scalar? (n : Nat) : Option Char := if n.isValidChar then some (Char.ofNat n) else none

/-- The character of an escape after its backslash. -/
def escape? : Reader Char
  | 'b' :: rest => some ('\x08', rest)
  | 't' :: rest => some ('\t', rest)
  | 'n' :: rest => some ('\n', rest)
  | 'f' :: rest => some ('\x0c', rest)
  | 'r' :: rest => some ('\r', rest)
  | '"' :: rest => some ('"', rest)
  | '\\' :: rest => some ('\\', rest)
  | 'u' :: rest =>
    if rest.length < 4 then none
    else ((hexNumber? (rest.take 4)).bind scalar?).map (·, rest.drop 4)
  | 'U' :: rest =>
    if rest.length < 8 then none
    else ((hexNumber? (rest.take 8)).bind scalar?).map (·, rest.drop 8)
  | _ => none

/-- A basic string after its opening quote. -/
def basic (fuel : Nat) (done : List Char) (cs : List Char) : Option (String × List Char) :=
  match fuel, cs with
  | 0, _ | _, [] => none
  | _ + 1, '"' :: rest => some (String.ofList done.reverse, rest)
  | fuel + 1, '\\' :: rest => do
    let (c, rest) ← escape? rest
    basic fuel (c :: done) rest
  | fuel + 1, c :: rest => if isText c then basic fuel (c :: done) rest else none

/-- The text after the blanks and line breaks that a backslash at the end of a line swallows. -/
def skipBreak (cs : List Char) : Option (List Char) := do
  let rest ← newline? (skipSpace cs)
  return rest.dropWhile fun c => isInlineSpace c || c == '\n' || c == '\r'

/-- The end of a string of several lines: three quotes, of which up to two more may precede. -/
def closing? (quote : Char) (cs : List Char) : Option (Nat × List Char) :=
  let run := (cs.takeWhile (· == quote)).length
  if run < 3 then none
  else
    let extra := min (run - 3) 2
    some (extra, cs.drop (extra + 3))

/-- A basic string of several lines after its opening quotes. -/
def multiBasic (fuel : Nat) (done : List Char) (cs : List Char) : Option (String × List Char) :=
  match fuel with
  | 0 => none
  | fuel + 1 =>
    match closing? '"' cs, newline? cs, cs with
    | some (extra, rest), _, _ =>
      some (String.ofList (done.reverse ++ List.replicate extra '"'), rest)
    | none, some rest, _ => multiBasic fuel ('\n' :: done) rest
    | none, none, '\\' :: rest =>
      match escape? rest with
      | some (c, rest) => multiBasic fuel (c :: done) rest
      | none => do multiBasic fuel done (← skipBreak rest)
    | none, none, c :: rest => if isText c then multiBasic fuel (c :: done) rest else none
    | none, none, [] => none

/-- A literal string of several lines after its opening quotes. -/
def multiLiteral (fuel : Nat) (done : List Char) (cs : List Char) : Option (String × List Char) :=
  match fuel with
  | 0 => none
  | fuel + 1 =>
    match closing? '\'' cs, newline? cs, cs with
    | some (extra, rest), _, _ =>
      some (String.ofList (done.reverse ++ List.replicate extra '\''), rest)
    | none, some rest, _ => multiLiteral fuel ('\n' :: done) rest
    | none, none, c :: rest => if isText c then multiLiteral fuel (c :: done) rest else none
    | none, none, [] => none

/-- A string of one line. -/
def lineString : Reader String
  | '"' :: rest => basic (rest.length + 1) [] rest
  | '\'' :: rest =>
    let body := rest.takeWhile fun c => isText c && c != '\''
    match rest.dropWhile fun c => isText c && c != '\'' with
    | '\'' :: rest => some (String.ofList body, rest)
    | _ => none
  | _ => none

/-- Any string. A line break right after three opening quotes does not count. -/
def readString : Reader String
  | '"' :: '"' :: '"' :: rest =>
    let rest := (newline? rest).getD rest
    multiBasic (rest.length + 1) [] rest
  | '\'' :: '\'' :: '\'' :: rest =>
    let rest := (newline? rest).getD rest
    multiLiteral (rest.length + 1) [] rest
  | cs => lineString cs

/-- Digits with single underscores between them: the digits alone, and the text after them. -/
def digitRun (isDigit : Char → Bool) : Reader (List Char)
  | [] => none
  | c :: rest =>
    if !isDigit c then none
    else
      match rest with
      | '_' :: d :: rest' =>
        if isDigit d then (digitRun isDigit (d :: rest')).map fun (ds, r) => (c :: ds, r)
        else some ([c], rest)
      | d :: rest' =>
        if isDigit d then (digitRun isDigit (d :: rest')).map fun (ds, r) => (c :: ds, r)
        else some ([c], rest)
      | [] => some ([c], [])

def isOctal (c : Char) : Bool := '0' ≤ c && c ≤ '7'
def isBinary (c : Char) : Bool := c == '0' || c == '1'
def isHex (c : Char) : Bool := (Json.hexValue? c).isSome

def numberIn (base : Nat) (ds : List Char) : Nat :=
  ds.foldl (fun n d => n * base + (Json.hexValue? d).getD 0) 0

/-- A whole number that fits 64 bits with a sign. -/
def bounded (n : Int) : Option Toml :=
  let bound : Int := Nat.pow 2 63
  if -bound ≤ n && n < bound then some (.integer n) else none

def based (base : Nat) (isDigit : Char → Bool) : Reader Toml := fun cs => do
  let (ds, rest) ← digitRun isDigit cs
  return (← bounded (numberIn base ds), rest)

/-- The digits of a decimal number. It does not start with a zero unless it is zero. -/
def decimalDigits : Reader (List Char)
  | '0' :: rest => some (['0'], rest)
  | cs => digitRun Char.isDigit cs

/-- The exponent of a floating-point number. -/
def exponent : Reader Unit
  | c :: rest =>
    if c == 'e' || c == 'E' then
      let rest := match rest with
        | '+' :: r => r
        | '-' :: r => r
        | r => r
      (digitRun Char.isDigit rest).map fun (_, r) => ((), r)
    else none
  | [] => none

/-- A decimal number, whole or not, or one of the special values. -/
def decimal : Reader Toml := fun cs =>
  let (negative, afterSign) := match cs with
    | '-' :: rest => (true, rest)
    | '+' :: rest => (false, rest)
    | _ => (false, cs)
  match afterSign with
  | 'i' :: 'n' :: 'f' :: rest => some (.float, rest)
  | 'n' :: 'a' :: 'n' :: rest => some (.float, rest)
  | _ => do
    let (ds, rest) ← decimalDigits afterSign
    let whole := do
      let n := numberIn 10 ds
      return (← bounded (if negative then -n else n), rest)
    match rest with
    | '.' :: afterPoint =>
      let (_, rest) ← digitRun Char.isDigit afterPoint
      match rest with
      | c :: _ =>
        if c == 'e' || c == 'E' then (exponent rest).map fun (_, r) => (.float, r)
        else some (.float, rest)
      | [] => some (.float, [])
    | c :: _ =>
      if c == 'e' || c == 'E' then (exponent rest).map fun (_, r) => (.float, r) else whole
    | [] => whole

/-- Exactly `n` digits as a number. -/
def fixedDigits (n : Nat) : Reader Nat := fun cs =>
  let ds := cs.take n
  if ds.length == n && ds.all Char.isDigit then some (numberIn 10 ds, cs.drop n) else none

def daysInMonth (year month : Nat) : Nat :=
  match month with
  | 2 => if year % 4 == 0 && (year % 100 != 0 || year % 400 == 0) then 29 else 28
  | 4 | 6 | 9 | 11 => 30
  | _ => 31

def fullDate : Reader Unit := fun cs => do
  let (year, cs) ← fixedDigits 4 cs
  let '-' :: cs := cs | none
  let (month, cs) ← fixedDigits 2 cs
  let '-' :: cs := cs | none
  let (day, cs) ← fixedDigits 2 cs
  if 1 ≤ month && month ≤ 12 && 1 ≤ day && day ≤ daysInMonth year month then some ((), cs) else none

def clockTime : Reader Unit := fun cs => do
  let (hour, cs) ← fixedDigits 2 cs
  let ':' :: cs := cs | none
  let (minute, cs) ← fixedDigits 2 cs
  let ':' :: cs := cs | none
  let (second, cs) ← fixedDigits 2 cs
  if 24 ≤ hour || 60 ≤ minute || 61 ≤ second then none
  else
    match cs with
    | '.' :: rest =>
      if (rest.takeWhile Char.isDigit).isEmpty then some ((), cs)
      else some ((), rest.dropWhile Char.isDigit)
    | _ => some ((), cs)

/-- The offset that may follow a date with a time. -/
def offset (cs : List Char) : Option (List Char) :=
  match cs with
  | 'Z' :: rest | 'z' :: rest => some rest
  | c :: rest =>
    if c == '+' || c == '-' then do
      let (hour, rest) ← fixedDigits 2 rest
      let ':' :: rest := rest | none
      let (minute, rest) ← fixedDigits 2 rest
      if 24 ≤ hour || 60 ≤ minute then none else some rest
    else some cs
  | [] => some []

/-- A date, a time of day, or both. -/
def readDate : Reader Toml := fun cs =>
  match fullDate cs with
  | some (_, rest) =>
    match rest with
    | c :: afterMark =>
      if c == 'T' || c == 't' || c == ' ' then
        match clockTime afterMark with
        | some (_, rest) => (offset rest).map (.datetime, ·)
        | none => if c == ' ' then some (.datetime, rest) else none
      else some (.datetime, rest)
    | [] => some (.datetime, [])
  | none => (clockTime cs).map fun (_, rest) => (.datetime, rest)

/-- Whether the text starts like a date or a time of day. -/
def looksDated (cs : List Char) : Bool :=
  ((cs.take 4).all Char.isDigit && cs[4]? == some '-') ||
    ((cs.take 2).all Char.isDigit && cs[2]? == some ':')

/-- Any scalar. -/
def scalar : Reader Toml := fun cs =>
  match cs with
  | '"' :: _ | '\'' :: _ => (readString cs).map fun (s, rest) => (.string s, rest)
  | 't' :: 'r' :: 'u' :: 'e' :: rest => some (.boolean true, rest)
  | 'f' :: 'a' :: 'l' :: 's' :: 'e' :: rest => some (.boolean false, rest)
  | '0' :: 'x' :: rest => based 16 isHex rest
  | '0' :: 'o' :: rest => based 8 isOctal rest
  | '0' :: 'b' :: rest => based 2 isBinary rest
  | _ => if looksDated cs then readDate cs else decimal cs

end CodeAtlas.Toml
