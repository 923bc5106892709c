import ImpiAgent.Lib.Pool

/-!
# A browser started on demand

`Browser` of the browser relay: `Acquire`, `Release`, `Stop` and the idle timer, the browser processes
and the goroutine that reaps each. What is done under `mu` is one step; `opMu` is held from `Lock` to
the end of the call. A process exits at any time; its reaper then closes its channel and, in a step of
its own, clears the field that records it.

`Relay.lts`: any number of calls, in any order. An Acquire carries the processes that had exited when
it began, which its code does not see.
-/

namespace Relay

/-- A browser process, from its start to what its reaper does once it has exited. -/
inductive Life
  | running
  | exited
  | closed
  deriving DecidableEq

structure Process where
  life : Life
  /-- The goroutine that waits for it has been started. -/
  reaped : Bool
  deriving DecidableEq

inductive Timer
  | armed
  | stopped
  | fired
  deriving DecidableEq

/-- The fields of `Browser`, and the processes and timers it has made. -/
structure Browser where
  opMu : Option Nat
  cmd : Option Nat
  clients : Nat
  idleTimer : Option Nat
  timers : List Timer
  processes : List Process
  deriving DecidableEq

namespace Browser

variable (b : Browser)

def life (p : Nat) : Option Life := (b.processes[p]?).map (·.life)

/-- The processes that have exited. -/
def gone : List Nat := (List.range b.processes.length).filter fun p => b.life p ≠ some .running

def setLife (p : Nat) (l : Life) : Browser :=
  { b with processes := b.processes.modify p fun x => { x with life := l } }

/-- `idleTimer.Stop()`, which does nothing to a timer that has fired. -/
def stopTimer : Browser :=
  match b.idleTimer with
  | some t =>
    { b with
      timers := b.timers.modify t fun x => if x = .armed then .stopped else x
      idleTimer := none }
  | none => b

/-- `cmd.Start()`. -/
def spawn : Browser := { b with processes := b.processes ++ [⟨.running, false⟩] }

/-- The process is recorded and its reaper started. -/
def record (p : Nat) : Browser :=
  { b with
    cmd := some p
    processes := b.processes.modify p fun x => { x with reaped := true } }

/-- `if b.cmd == cmd { b.cmd = nil }`. -/
def clear (p : Nat) : Browser := if b.cmd = some p then { b with cmd := none } else b

def unlock : Browser := { b with opMu := none }

/-- `time.AfterFunc`. -/
def arm : Browser :=
  { b with timers := b.timers ++ [.armed], idleTimer := some b.timers.length }

end Browser

/-- Why a browser is terminated. `dead`: the processes that had exited when the Acquire began. -/
inductive Cause
  | launch (dead : List Nat)
  | stop (idle : Bool)
  deriving DecidableEq

/-- A call, between two of its steps. -/
inductive Point
  /-- `Acquire`, before it has `opMu`, -/
  | acquiring (dead : List Nat)
  /-- and with it. -/
  | looking (dead : List Nat)
  | starting (dead : List Nat)
  | recording (dead : List Nat) (p : Nat)
  | waiting (dead : List Nat) (p : Nat)
  | clearing (p : Nat)
  | registering (dead : List Nat) (p : Nat)
  /-- `Stop`, before it has `opMu`, and with it. -/
  | stopping (idle : Bool)
  | deciding (idle : Bool)
  /-- `terminate`, before its signal and after. -/
  | signalling (cause : Cause) (p : Nat)
  | terminating (cause : Cause) (p : Nat)
  /-- An Acquire that returned nil: the browser its client is registered against. -/
  | acquired (dead : List Nat) (p : Nat)
  | failed
  | stopped
  deriving DecidableEq

inductive Event
  | go
  /-- `cmd.Start` fails. -/
  | startFails
  /-- The browser does not open its port, or not in time, or the context is done. -/
  | portFails
  /-- SIGTERM was not enough. -/
  | kill
  deriving DecidableEq

/-- The next step of call `i`. -/
def act (i : Nat) (b : Browser) : Point → Event → Option (Browser × Point)
  | .acquiring dead, .go =>
    if b.opMu = none then some ({ b with opMu := some i }, .looking dead) else none
  | .looking dead, .go =>
    match b.cmd with
    | some p => some (b.stopTimer, .registering dead p)
    | none => some (b.stopTimer, .starting dead)
  | .starting dead, .go => some (b.spawn, .recording dead b.processes.length)
  | .starting _, .startFails => some (b.unlock, .failed)
  | .recording dead p, .go => some (b.record p, .waiting dead p)
  | .waiting dead p, .go => some (b, .registering dead p)
  | .waiting dead p, .portFails => some (b, .signalling (.launch dead) p)
  | .clearing p, .go => some ((b.clear p).unlock, .failed)
  | .registering dead p, .go =>
    some ({ b with clients := b.clients + 1 }.unlock, .acquired dead p)
  | .stopping idle, .go =>
    if b.opMu = none then some ({ b with opMu := some i }, .deciding idle) else none
  | .deciding idle, .go =>
    match b.cmd with
    | none => some (b.unlock, .stopped)
    | some p =>
      if idle ∧ b.clients > 0 then some (b.unlock, .stopped)
      else some (b, .signalling (.stop idle) p)
  | .signalling cause p, .go => some (b, .terminating cause p)
  | .terminating cause p, .kill => some (b, .terminating cause p)
  | .terminating cause p, .go =>
    if b.life p = some .closed then
      match cause with
      | .launch _ => some (b, .clearing p)
      | .stop _ => some (b.unlock, .stopped)
    else none
  | _, _ => none

/-- `Release`. -/
def Browser.release (b : Browser) : Browser :=
  if b.clients = 0 then b
  else if b.clients - 1 > 0 ∨ b.cmd = none then { b with clients := b.clients - 1 }
  else { b with clients := b.clients - 1 }.arm

abbrev State := Pool Browser Point

inductive Label
  | acquire
  | stop
  | release
  | step (i : Nat) (e : Event)
  /-- The idle timer calls `Stop("idle")`. -/
  | fire (t : Nat)
  /-- The process exits, -/
  | exit (p : Nat)
  /-- its reaper closes the channel, -/
  | close (p : Nat)
  /-- and clears the field. -/
  | reap (p : Nat)
  deriving DecidableEq

def next (s : State) : Label → Option State
  | .acquire => some (s.start (.acquiring s.store.gone))
  | .stop => some (s.start (.stopping false))
  | .release => some { s with store := s.store.release }
  | .step i e =>
    match s.calls[i]? with
    | some (some k) => (act i s.store k e).map fun q => s.put i q.1 q.2
    | _ => none
  | .fire t =>
    if s.store.timers[t]? = some .armed then
      some ({ s with store := { s.store with timers := s.store.timers.set t .fired } }.start
        (.stopping true))
    else none
  | .exit p =>
    if s.store.life p = some .running then some { s with store := s.store.setLife p .exited }
    else none
  | .close p =>
    if s.store.processes[p]? = some ⟨.exited, true⟩ then
      some { s with store := s.store.setLife p .closed }
    else none
  | .reap p =>
    if s.store.life p = some .closed then some { s with store := s.store.clear p } else none

def Browser.new : Browser := ⟨none, none, 0, none, [], []⟩

def lts : Lts State Label where
  init s := s = ⟨.new, []⟩
  next := next

end Relay
