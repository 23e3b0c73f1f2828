import CodeAtlas.CommandLine.Run
import CodeAtlas.Snapshot

/-!
# The program

The program runs its command line on a snapshot, which it reads as JSON from standard input: an
object with the directory under `tree` and the variables of the environment under `env`.
-/

namespace CodeAtlas

/-- All of a stream. -/
partial def readRest (input : IO.FS.Stream) (done : String) : IO String := do
  let line ← input.getLine
  if line.isEmpty then return done else readRest input (done ++ line)

/-- The variables in a snapshot. -/
def variablesOf (v : Json) : Variables :=
  (((v.get? "env").bind Json.fields?).getD []).filterMap
    fun (name, value) => value.string?.map (name, ·)

end CodeAtlas

open CodeAtlas in
def main (arguments : List String) : IO UInt32 := do
  let text ← readRest (← IO.getStdin) ""
  match Json.parse text with
  | .error fault =>
    IO.eprintln ("Error: " ++ fault.message)
    return 1
  | .ok v =>
    let directory := Directory.ofSnapshot "" (((v.get? "tree").bind Json.items?).getD [])
    match CommandLine.run directory (variablesOf v) arguments with
    | .ok output =>
      IO.print output
      return 0
    | .error failure =>
      IO.eprintln ("Error: " ++ failure.message)
      return failure.status.toUInt32
