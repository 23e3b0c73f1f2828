import CodeAtlas.Live.Debounce
import CodeAtlas.Live.Plan

/-!
# The board

Pictures are put on a board. Every request for a picture gets a token, and only the holder of the
latest token may change the board: what is finished too late is dropped.

The work on a request is a list of actions. The actions of several requests may come in any order
between each other; those of one request stay in order.
-/

namespace CodeAtlas

/-- Tokens are numbered from one. -/
structure Tokens where
  issued : Nat := 0
deriving DecidableEq, Repr

namespace Tokens

/-- Makes a new token the latest. -/
def issue (t : Tokens) : Tokens := ⟨t.issued + 1⟩

def latest? (t : Tokens) : Option Nat := if t.issued = 0 then none else some t.issued

def isCurrent (t : Tokens) (token : Nat) : Bool := t.issued == token

end Tokens

/-- A picture on the board with the token of its request. -/
structure Update where
  sequence : Nat := 0
  picture : Picture := {}

structure Board where
  tokens : Tokens := {}
  shown : Update := {}
  /-- All that has been put on the board, in order. -/
  history : List Update := []
  /-- The parsers that have started. -/
  started : List Language := []

inductive Action where
  /-- A new request. -/
  | issue
  /-- A request starts to wait for a parser. -/
  | await (token : Nat) (wait : Wait)
  /-- A parser has answered. -/
  | answered (wait : Wait)
  /-- A request puts up its picture. -/
  | present (token : Nat) (picture : Picture)

namespace Board

/-- Puts a picture up, if the token is the latest. -/
def put (b : Board) (token : Nat) (picture : Picture) : Board :=
  if b.tokens.isCurrent token then
    { b with shown := ⟨token, picture⟩, history := b.history ++ [⟨token, picture⟩] }
  else b

def act (b : Board) : Action → Board
  | .issue => { b with tokens := b.tokens.issue }
  | .await token wait =>
    match wait.placeholder with
    | some picture => if b.started.contains wait.language then b else b.put token picture
    | none => b
  | .answered wait => if wait.starts then { b with started := wait.language :: b.started } else b
  | .present token picture => b.put token picture

end Board

namespace Plan

/-- The actions of a request. -/
def actions (token : Nat) (p : Plan) : List Action :=
  (p.waits.flatMap fun w => [.await token w, .answered w]) ++
    (p.outcome.toList.map (.present token))

open Debounce in
/-- The actions of a request that starts at a time. -/
def timeline (token : Nat) (outcome : Option Picture) (start : Nat) :
    List Wait → List (Timed Action)
  | [] => outcome.toList.map fun picture => ⟨start, .present token picture⟩
  | wait :: waits =>
    ⟨start, .await token wait⟩ :: ⟨start + wait.duration, .answered wait⟩ ::
      timeline token outcome (start + wait.duration) waits

end Plan

namespace Board

/-- Carries out a request without interruption, and tells whether its picture was put up. -/
def fire (b : Board) (studio : Studio) (token : Nat) (s : Session) : Board × Bool :=
  let plan := Plan.ofSession studio s
  ((plan.actions token).foldl act b, plan.outcome.isSome && b.tokens.isCurrent token)

/-- Makes a request and carries it out. -/
def recompute (b : Board) (studio : Studio) (s : Session) : Board × Bool :=
  let b := b.act .issue
  b.fire studio b.tokens.issued s

open Debounce

/-- The session after every burst of edits, with the time at which the burst settled. -/
def snapshots (s : Session) : List (Burst Edit) → List (Timed Session)
  | [] => []
  | burst :: rest =>
    let s := burst.values.foldl Session.apply s
    ⟨burst.settledAt, s⟩ :: snapshots s rest

/-- The actions of the requests for some sessions, the first of which gets the token after
`issued`. -/
def schedule (studio : Studio) (issued : Nat) : List (Timed Session) → List (Timed Action)
  | [] => []
  | snapshot :: rest =>
    let plan := Plan.ofSession studio snapshot.value
    ⟨snapshot.time, .issue⟩ :: Plan.timeline (issued + 1) plan.outcome snapshot.time plan.waits ++
      schedule studio (issued + 1) rest

/-- Follows a stream of edits. Every burst is applied to the session and gives a request, and the
requests are worked on side by side. -/
def run (b : Board) (studio : Studio) (s : Session) (window close : Nat)
    (edits : List (Timed Edit)) : Board × Session :=
  let sessions := snapshots s (bursts window close edits)
  let actions :=
    (schedule studio b.tokens.issued sessions).mergeSort fun x y => decide (x.time ≤ y.time)
  ((actions.map (·.value)).foldl act b, (sessions.getLast?.map (·.value)).getD s)

end Board

end CodeAtlas
