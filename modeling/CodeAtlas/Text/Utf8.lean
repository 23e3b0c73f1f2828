/-!
# UTF-8

Bytes are read one at a time by a small machine. It gives a character for every well-formed sequence
and nothing for every longest piece that starts a sequence and does not finish it, or starts none.
-/

namespace CodeAtlas.Utf8

/-- A sequence that has been begun. -/
structure Partial where
  /-- The bits read so far. -/
  value : Nat
  /-- How many bytes are to come. -/
  missing : Nat
  /-- The range of the next byte. -/
  low : Nat := 0x80
  high : Nat := 0xBF
deriving DecidableEq, Repr

/-- What a byte outside of a sequence gives: a character, a new sequence, or an error. -/
def first (b : Nat) : Option Partial × List (Option Char) :=
  if b < 0x80 then (none, [some (Char.ofNat b)])
  else if 0xC2 ≤ b ∧ b ≤ 0xDF then (some ⟨b % 32, 1, 0x80, 0xBF⟩, [])
  else if 0xE0 ≤ b ∧ b ≤ 0xEF then
    (some ⟨b % 16, 2, if b = 0xE0 then 0xA0 else 0x80, if b = 0xED then 0x9F else 0xBF⟩, [])
  else if 0xF0 ≤ b ∧ b ≤ 0xF4 then
    (some ⟨b % 8, 3, if b = 0xF0 then 0x90 else 0x80, if b = 0xF4 then 0x8F else 0xBF⟩, [])
  else (none, [none])

/-- Reads one byte. -/
def step (pending : Option Partial) (b : Nat) : Option Partial × List (Option Char) :=
  match pending with
  | none => first b
  | some p =>
    if p.low ≤ b ∧ b ≤ p.high then
      let value := p.value * 64 + b % 64
      if p.missing ≤ 1 then (none, [some (Char.ofNat value)])
      else (some ⟨value, p.missing - 1, 0x80, 0xBF⟩, [])
    else
      let (next, found) := first b
      (next, none :: found)

/-- The characters and errors in some bytes. -/
def pieces : Option Partial → List UInt8 → List (Option Char)
  | none, [] => []
  | some _, [] => [none]
  | pending, b :: rest =>
    let (next, found) := step pending b.toNat
    found ++ pieces next rest

/-- The text of some bytes, with a replacement character for every error. -/
def decodeLossy (bytes : List UInt8) : String :=
  String.ofList ((pieces none bytes).map fun c => c.getD (Char.ofNat 0xFFFD))

/-- The text of some bytes, if there is no error in them. -/
def decode? (bytes : List UInt8) : Option String :=
  ((pieces none bytes).mapM id).map String.ofList

/-- The characters of the lines before the first one with an error in it. -/
def decodeLines (bytes : List UInt8) : List Char :=
  let found := pieces none bytes
  let sound := (found.takeWhile Option.isSome).filterMap id
  if sound.length = found.length then sound else (sound.reverse.dropWhile (· != '\n')).reverse

/-- The bytes of a text. -/
def encode (s : String) : List UInt8 := s.toUTF8.toList

end CodeAtlas.Utf8
