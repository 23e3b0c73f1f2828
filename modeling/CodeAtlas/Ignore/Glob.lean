import CodeAtlas.Text.Utf8

/-!
# Globs

A glob is a pattern for paths. `?` stands for one byte and `*` for any number of bytes other than a
slash, a class in square brackets for one byte out of some ranges, a list in braces for any of its
members, and `**` between slashes for any number of directories. A backslash takes the meaning from
what follows it.

A path is matched as bytes: every token leads from the rests of the path that are still to be
matched to the rests after it, and a glob matches if the empty rest is among the last.
-/

namespace CodeAtlas.Glob

/-- A range of bytes. -/
structure ByteRange where
  low : UInt8
  high : UInt8
deriving DecidableEq, Repr

def ByteRange.contains (r : ByteRange) (b : UInt8) : Bool := r.low ≤ b && b ≤ r.high

inductive Token where
  | literal (c : Char)
  /-- One byte of a name. -/
  | any
  /-- Any number of bytes of a name. -/
  | star
  /-- Any number of directories at the start. -/
  | leadingDirectories
  /-- Everything below a directory. -/
  | everythingBelow
  /-- A slash, with any number of directories after it. -/
  | innerDirectories
  | oneOf (negated : Bool) (ranges : List ByteRange)
  | choice (branches : List (List Token))

/-- The byte of a slash. -/
def slash : UInt8 := 47

/-- A text and what is left of it after some of its bytes. -/
abbrev Rests := List (List UInt8)

/-- The rests of a path, from the whole to nothing. -/
def suffixes : List UInt8 → Rests
  | [] => [[]]
  | b :: bs => (b :: bs) :: suffixes bs

/-- The rests after any number of bytes of a name. -/
def afterName : List UInt8 → Rests
  | [] => [[]]
  | b :: bs => if b = slash then [b :: bs] else (b :: bs) :: afterName bs

/-- The rests after some slash. -/
def afterSlashes : List UInt8 → Rests
  | [] => []
  | b :: bs => if b = slash then bs :: afterSlashes bs else afterSlashes bs

/-- What is left after one byte with a property. -/
def afterByte (p : UInt8 → Bool) : List UInt8 → Rests
  | [] => []
  | b :: bs => if p b then [bs] else []

/-- What is left after a fixed text. -/
def afterText (text : List UInt8) (bs : List UInt8) : Rests :=
  if text.isPrefixOf bs then [bs.drop text.length] else []

mutual

/-- The rests after a token. -/
def Token.advance : Token → Rests → Rests
  | .literal c, rests => rests.flatMap (afterText (Utf8.encode (String.singleton c)))
  | .any, rests => rests.flatMap (afterByte (· != slash))
  | .star, rests => (rests.flatMap afterName).eraseDups
  | .leadingDirectories, rests => (rests.flatMap fun bs => bs :: afterSlashes bs).eraseDups
  | .everythingBelow, rests =>
    (rests.flatMap fun bs => (afterByte (· == slash) bs).flatMap suffixes).eraseDups
  | .innerDirectories, rests =>
    (rests.flatMap fun bs => (afterByte (· == slash) bs).flatMap fun bs =>
      bs :: afterSlashes bs).eraseDups
  | .oneOf negated ranges, rests =>
    rests.flatMap (afterByte fun b => ranges.any (·.contains b) != negated)
  | .choice branches, rests =>
    if hasBranch branches then (advanceAny branches rests).eraseDups else rests

/-- The rests after some tokens. -/
def advanceAll : List Token → Rests → Rests
  | [], rests => rests
  | t :: ts, rests => advanceAll ts (t.advance rests)

/-- The rests after one of some branches. Empty branches do not count. -/
def advanceAny : List (List Token) → Rests → Rests
  | [], _ => []
  | [] :: branches, rests => advanceAny branches rests
  | (t :: ts) :: branches, rests => advanceAll ts (t.advance rests) ++ advanceAny branches rests

/-- Whether some branch is not empty. -/
def hasBranch : List (List Token) → Bool
  | [] => false
  | [] :: branches => hasBranch branches
  | (_ :: _) :: _ => true

end

/-- Whether a glob matches a path. Two stars alone match everything. -/
def matchesPath (glob : List Token) (path : List UInt8) : Bool :=
  match glob with
  | [.leadingDirectories] => true
  | _ => (advanceAll glob [path]).any List.isEmpty

/-- The bytes that a range of characters stands for: the last byte of the first character to the
first byte of the last one, and their other bytes one by one. -/
def byteRanges (range : Char × Char) : List ByteRange :=
  let low := Utf8.encode (String.singleton range.1)
  let high := Utf8.encode (String.singleton range.2)
  let single (b : UInt8) : ByteRange := ⟨b, b⟩
  if range.1 = range.2 then low.map single
  else low.dropLast.map single ++ ⟨low.getLastD 0, high.headD 0⟩ :: (high.drop 1).map single

/-- What the reading of a class gives. -/
inductive ClassResult where
  | read (ranges : List (Char × Char)) (rest : List Char)
  | unclosed
  | invalid

/-- Reads a class after its opening bracket and negation. `ranges` are those read before, the last
first, and `isOpen` says that a hyphen has just been read. -/
def readClass (isFirst isOpen : Bool) (ranges : List (Char × Char)) : List Char → ClassResult
  | [] => .unclosed
  | c :: rest =>
    if c = ']' ∧ !isFirst then .read (if isOpen then ranges ++ [('-', '-')] else ranges) rest
    else if c = '-' ∧ !isFirst ∧ !isOpen then readClass false true ranges rest
    else if isOpen then
      match ranges.getLast? with
      | some (low, _) =>
        if c < low then .invalid else readClass false false (ranges.dropLast ++ [(low, c)]) rest
      | none => .invalid
    else readClass false false (ranges ++ [(c, c)]) rest

/-- A list in braces that has not been closed. -/
structure Group where
  /-- The tokens before the brace, the last first. -/
  before : List Token
  branches : List (List Token) := []

structure State where
  groups : List Group := []
  /-- The tokens of the present branch, the last first. -/
  tokens : List Token := []
  /-- The character before the present one. -/
  previous : Option Char := none
  /-- A class was left open, so that brackets stand for themselves. -/
  plainBrackets : Bool := false

namespace State

def push (st : State) (t : Token) : State := { st with tokens := t :: st.tokens }

/-- Reads two stars, after which `rest` comes. -/
def doubleStar (st : State) (before : Option Char) (rest : List Char) : State × List Char :=
  let plain := (st.push .star).push .star
  if st.tokens.isEmpty then
    match rest with
    | [] => (st.push .leadingDirectories, [])
    | '/' :: rest => ({ st with previous := some '/' }.push .leadingDirectories, rest)
    | _ => (plain, rest)
  else if before != some '/' then (plain, rest)
  else
    let replaceLast (t : Token) : State := match st.tokens with
      | .leadingDirectories :: _ | .everythingBelow :: _ => st
      | tokens => { st with tokens := t :: tokens.drop 1 }
    match rest with
    | [] => (replaceLast .everythingBelow, [])
    | '/' :: rest => ({ replaceLast .innerDirectories with previous := some '/' }, rest)
    | c :: _ =>
      if (c = ',' || c = '\x7d') && !st.groups.isEmpty then (replaceLast .everythingBelow, rest)
      else (plain, rest)

end State

/-- Reads the characters of a glob one by one. -/
def readOn : (fuel : Nat) → State → List Char → Option State
  | 0, st, _ | _, st, [] => if st.groups.isEmpty then some st else none
  | fuel + 1, st, c :: rest =>
    let before := st.previous
    let st := { st with previous := some c }
    match c, rest with
    | '?', _ => readOn fuel (st.push .any) rest
    | '*', '*' :: rest =>
      let (st, rest) := { st with previous := some '*' }.doubleStar before rest
      readOn fuel st rest
    | '*', _ => readOn fuel (st.push .star) rest
    | '[', _ =>
      if st.plainBrackets then readOn fuel (st.push (.literal c)) rest
      else
        let negated := rest.head? = some '!' || rest.head? = some '^'
        match readClass true false [] (if negated then rest.drop 1 else rest) with
        | .read ranges rest =>
          let token := .oneOf negated (ranges.flatMap byteRanges)
          readOn fuel ({ st with previous := some ']' }.push token) rest
        | .unclosed => readOn fuel ({ st with plainBrackets := true }.push (.literal c)) rest
        | .invalid => none
    | '\x7b', _ => readOn fuel { st with groups := ⟨st.tokens, []⟩ :: st.groups, tokens := [] } rest
    | '\x7d', _ =>
      match st.groups with
      | [] => none
      | g :: groups =>
        let branches := g.branches ++ [st.tokens.reverse]
        readOn fuel { st with groups, tokens := .choice branches :: g.before } rest
    | ',', _ =>
      match st.groups with
      | [] => readOn fuel (st.push (.literal c)) rest
      | g :: groups =>
        let g := { g with branches := g.branches ++ [st.tokens.reverse] }
        readOn fuel { st with groups := g :: groups, tokens := [] } rest
    | '\\', [] => none
    | '\\', c :: rest => readOn fuel ({ st with previous := some c }.push (.literal c)) rest
    | _, _ => readOn fuel (st.push (.literal c)) rest

/-- Reads a glob. -/
def parse? (text : List Char) : Option (List Token) :=
  (readOn text.length {} text).map fun st => st.tokens.reverse

mutual

/-- Whether the ranges of all classes run upwards. -/
def Token.isSound : Token → Bool
  | .oneOf _ ranges => ranges.all fun r => r.low ≤ r.high
  | .choice branches => areBranchesSound branches
  | _ => true

def areSound : List Token → Bool
  | [] => true
  | t :: ts => t.isSound && areSound ts

def areBranchesSound : List (List Token) → Bool
  | [] => true
  | ts :: branches => areSound ts && areBranchesSound branches

end

end CodeAtlas.Glob
