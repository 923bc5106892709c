import ImpiAgent.Store.Leases

/-!
# A gateway that runs where its lease is held

One `LeasedGateway` over the lease store: its `run`, the `_keep` it starts and its `stop`, each at
one of its awaits. A store call is issued by the coroutine that awaits it and carried out by a worker
(`asyncio.to_thread`) or the server, so cancelling the coroutine does not end the call. Between two
events of the instance the store calls of everybody go on.

`run` is called again after a crash of the wrapped gateway (`_supervise`), and `stop` may be called
at any time and more than once. Another caller uses another owner.
-/

namespace LeasedGateway

open Leases

/-- What a `LeasedGateway` is built with, as far as the lease goes. -/
structure Settings where
  name : String
  owner : String
  ttl : Int

def Settings.args (g : Settings) : AcquireArgs := ⟨g.name, g.owner, g.ttl⟩

/-- `run`, by the await it is at. A cancelled one remembers the acquire it was waiting for. -/
inductive Run
  | idle
  | acquiring (call : Nat)
  | sleeping
  | running
  | gathering
  | releasing (call : Nat) (crashed : Bool)
  | closing
  | returned (released : Bool)
  | crashed
  | cancelled (call : Option Nat)
  deriving DecidableEq

/-- `_keep`. -/
inductive Keep
  | idle
  | looking
  | sleeping
  | acquiring (call : Nat)
  | ended (refused : Bool)
  deriving DecidableEq

/-- A call of `stop`. -/
inductive Stop
  | closing
  | releasing (call : Nat)
  | done
  | cancelled
  deriving DecidableEq

structure State where
  db : Leases.State
  mine : List Nat
  stopped : Bool
  held : Bool
  run : Run
  keep : Keep
  stops : List Stop

namespace State

/-- The next store call. -/
abbrev fresh (s : State) : Nat := s.db.calls.length

/-- The instance issues a store call. -/
def issue (s : State) (k : Point) : State :=
  { s with db := s.db.start k, mine := s.fresh :: s.mine }

/-- Somebody waits for store call `j`. -/
def awaited (s : State) (j : Nat) : Bool :=
  s.run = .acquiring j || s.run = .releasing j false || s.run = .releasing j true ||
    s.keep = .acquiring j || s.stops.contains (.releasing j)

/-- Store call `j` is not over. -/
def underWay (s : State) (j : Nat) : Bool :=
  match s.db.calls[j]? with
  | some (some (.acquired ..)) | some (some (.refused _)) | some (some .released) => false
  | _ => true

/-- The head of the loop of `run`. -/
def top (g : Settings) (s : State) : State :=
  if s.stopped then { s with run := .returned false }
  else { s.issue (.reading g.args) with run := .acquiring s.fresh }

/-- The head of the loop of `_keep`. -/
def keepTop (s : State) : Keep := if s.stopped then .ended false else .sleeping

end State

inductive Event
  | advance (d : Nat)
  | acquire (a : AcquireArgs)
  | release (name owner : String)
  | call (i : Nat)
  | drop (i : Nat)
  | run
  | heard
  | woke
  | gatewayEnded (crashed : Bool)
  | keepEnded
  | released
  | closed
  | cancel
  | gathered
  | keepLooked
  | keepWoke
  | keepHeard
  | stop
  | stopClosed (i : Nat)
  | stopReleased (i : Nat)
  | stopCancelled (i : Nat)
  deriving DecidableEq

/-- What becomes of `run` where it is cancelled. -/
def Run.cancel : Run → Option Run
  | .acquiring call => some (.cancelled (some call))
  | .running => some .gathering
  | .sleeping | .gathering | .releasing .. | .closing => some (.cancelled none)
  | .idle | .returned _ | .crashed | .cancelled _ => none

/-- What the answer to an acquire does to `run`. -/
def State.hear (s : State) (call : Nat) : Option State :=
  match s.db.calls[call]? with
  | some (some (.acquired ..)) => some { s with held := true, run := .running, keep := .looking }
  | some (some (.refused _)) => some { s with run := .sleeping }
  | _ => none

/-- What the answer to an acquire does to `_keep`. -/
def State.keepHear (s : State) (call : Nat) : Option State :=
  match s.db.calls[call]? with
  | some (some (.acquired ..)) => some { s with keep := s.keepTop }
  | some (some (.refused _)) => some { s with keep := .ended true }
  | _ => none

/-- The store call is over. -/
def State.released (s : State) (call : Nat) : Bool := s.db.At call .released

def next (b : Backend) (g : Settings) (s : State) : Event → Option State
  | .advance d => some { s with db := { s.db with store := s.db.store.advance d } }
  | .acquire a =>
    if a.name = g.name ∧ a.owner = g.owner then none
    else some { s with db := s.db.start (.reading a) }
  | .release name owner => some { s with db := s.db.start (.releasing name owner) }
  | .call i => (s.db.exec (Point.step b) i).map fun db => { s with db }
  | .drop i =>
    if s.underWay i && !s.awaited i then some { s with db := s.db.kill i } else none
  | .run => if s.run = .idle ∨ s.run = .crashed then some (s.top g) else none
  | .heard =>
    match s.run with
    | .acquiring call => s.hear call
    | _ => none
  | .woke => if s.run = .sleeping then some (s.top g) else none
  | .gatewayEnded crashed =>
    if s.run = .running then
      some { s.issue (.releasing g.name g.owner) with
        held := false, keep := .ended false, run := .releasing s.fresh crashed }
    else none
  | .keepEnded =>
    match s.run, s.keep with
    | .running, .ended _ => some { s with held := false, run := .closing }
    | _, _ => none
  | .released =>
    match s.run with
    | .releasing call crashed =>
      if s.released call then
        some { s with run := if crashed then .crashed else .returned true }
      else none
    | _ => none
  | .closed => if s.run = .closing then some (s.top g) else none
  | .cancel => s.run.cancel.map fun run =>
      { s with run, keep := if s.run = .running then .ended false else s.keep }
  | .gathered => if s.run = .gathering then some { s with run := .cancelled none } else none
  | .keepLooked => if s.keep = .looking then some { s with keep := s.keepTop } else none
  | .keepWoke =>
    if s.keep = .sleeping then
      some (if s.stopped then { s with keep := .ended false }
        else { s.issue (.reading g.args) with keep := .acquiring s.fresh })
    else none
  | .keepHeard =>
    match s.keep with
    | .acquiring call => s.keepHear call
    | _ => none
  | .stop => some { s with stopped := true, stops := s.stops ++ [.closing] }
  | .stopClosed i =>
    if s.stops[i]? = some .closing then
      some (if s.held then
          { s.issue (.releasing g.name g.owner) with stops := s.stops.set i (.releasing s.fresh) }
        else { s with stops := s.stops.set i .done })
    else none
  | .stopReleased i =>
    match s.stops[i]? with
    | some (.releasing call) =>
      if s.released call then some { s with held := false, stops := s.stops.set i .done } else none
    | _ => none
  | .stopCancelled i =>
    match s.stops[i]? with
    | some .closing | some (.releasing _) => some { s with stops := s.stops.set i .cancelled }
    | _ => none

/-- The gateway and everybody else, from an empty store. -/
def lts (b : Backend) (g : Settings) : Lts State Event where
  init s := s.db.store.leases = .empty ∧ s.db.calls = [] ∧ s.mine = [] ∧ s.stopped = false ∧
    s.held = false ∧ s.run = .idle ∧ s.keep = .idle ∧ s.stops = []
  next := next b g

end LeasedGateway
