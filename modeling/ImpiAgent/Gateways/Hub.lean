import ImpiAgent.Lib.Pool
import ImpiAgent.Lib.Text

/-!
# The frames of a service

`WsHub._deliver` and the part of `WsHub._handle` that connects a service, flushes its buffer and
disconnects it, for one service: its entries of `_conns` and `_buffers`, its sockets, and any number
of calls, each at an await. A frame is named by its place among those submitted.

`send_json` writes a frame to its socket where it is called and comes back later, with a
`ConnectionError` where the connection is lost. `Hub.handed` notes every frame handed to a socket, in
order, and what became of it.
-/

namespace Ws

open Text (Str)

abbrev Frame := List (Str × Str)

inductive Status
  | pending
  | sent
  | failed
  deriving DecidableEq

/-- A frame that was handed to a socket. -/
structure Handing where
  frame : Nat
  socket : Nat
  status : Status
  deriving DecidableEq

/-- `lost`: the connection is, whether or not the socket says it is closed. -/
structure Socket where
  closed : Bool
  lost : Bool
  deriving DecidableEq

structure Hub where
  conn : Option Nat
  sockets : List Socket
  buffer : Option (List Nat)
  frames : List Frame
  handed : List Handing
  deriving DecidableEq

def bufferLimit : Nat := 200

namespace Hub

variable (b : Hub)

/-- The frames in the buffer. -/
def waiting : List Nat := b.buffer.getD []

def isOpen (w : Nat) : Bool := (b.sockets[w]?).any fun x => !x.closed

/-- The connection is there and the socket not closed. -/
def isUp (w : Nat) : Bool := (b.sockets[w]?).any fun x => !x.closed && !x.lost

/-- `buffer.append`: a full buffer drops its oldest frame. -/
def push (n : Nat) : Hub :=
  let buffer := b.waiting
  { b with
    buffer := some ((if buffer.length = bufferLimit then buffer.tail else buffer) ++ [n]) }

/-- `ws.send_json`, where it is called, -/
def send (n w : Nat) : Hub := { b with handed := b.handed ++ [⟨n, w, .pending⟩] }

/-- and where it comes back. -/
def settle (h : Nat) (status : Status) : Hub :=
  { b with handed := b.handed.modify h fun x => { x with status } }

def lose (w : Nat) : Hub :=
  { b with sockets := b.sockets.modify w fun x => { x with lost := true } }

def close (w : Nat) : Hub :=
  { b with sockets := b.sockets.modify w fun x => { x with closed := true } }

/-- `if self._conns.get(service) is ws: del self._conns[service]`. -/
def forget (w : Nat) : Hub := if b.conn = some w then { b with conn := none } else b

end Hub

/-- A call, at an await. -/
inductive Point
  /-- `_deliver`, in `send_json`. -/
  | sending (h : Nat)
  /-- `_handle`: it closes the socket it supersedes, -/
  | superseding (w : Nat)
  /-- flushes the buffer, if there was one, -/
  | flushing (w : Nat) (buffered : Bool)
  | flushSending (w h : Nat)
  /-- and reads. -/
  | serving (w : Nat)
  | ended
  deriving DecidableEq

inductive Event
  | go
  | sent
  | failed
  deriving DecidableEq

/-- `_deliver`, to its first await. -/
def deliver (b : Hub) (frame : Frame) : Hub × Point :=
  let n := b.frames.length
  let b' := { b with frames := b.frames ++ [frame] }
  match b.conn with
  | some w => if b.isOpen w then (b'.send n w, .sending b.handed.length) else (b'.push n, .ended)
  | none => (b'.push n, .ended)

/-- `_handle`, from where the socket is prepared to the next await. -/
def connect (b : Hub) : Hub × Point :=
  let w := b.sockets.length
  match b.conn with
  | some old =>
    if b.isOpen old then
      ({ b.close old with conn := some w, sockets := (b.close old).sockets ++ [⟨false, false⟩] },
        .superseding w)
    else
      ({ b with conn := some w, sockets := b.sockets ++ [⟨false, false⟩] },
        .flushing w b.buffer.isSome)
  | none =>
    ({ b with conn := some w, sockets := b.sockets ++ [⟨false, false⟩] },
      .flushing w b.buffer.isSome)

/-- A call goes on from an await. -/
def act (b : Hub) : Point → Event → Option (Hub × Point)
  | .sending h, .sent => some (b.settle h .sent, .ended)
  | .sending h, .failed =>
    (b.handed[h]?).map fun x => (((b.settle h .failed).lose x.socket).push x.frame, .ended)
  | .superseding w, .go => some (b, .flushing w b.buffer.isSome)
  | .flushing w true, .go =>
    match b.waiting with
    | n :: buffer =>
      some ({ b with buffer := some buffer }.send n w, .flushSending w b.handed.length)
    | [] => some (b, .serving w)
  | .flushing w false, .go => some (b, .serving w)
  | .flushSending w h, .sent => some (b.settle h .sent, .flushing w true)
  -- the exception leaves `_handle`, with the frame off the buffer
  | .flushSending w h, .failed => some ((b.settle h .failed).lose w, .ended)
  | .serving w, .go => some ((b.close w).forget w, .ended)
  | _, _ => none

abbrev State := Pool Hub Point

inductive Label
  | deliver (frame : Frame)
  | connect
  | step (i : Nat) (e : Event)
  /-- A connection is lost, and its socket finds out. -/
  | lose (w : Nat)
  | close (w : Nat)
  deriving DecidableEq

def next (s : State) : Label → Option State
  | .deliver frame =>
    let q := deliver s.store frame
    some ({ s with store := q.1 }.start q.2)
  | .connect =>
    let q := connect s.store
    some ({ s with store := q.1 }.start q.2)
  | .step i e =>
    match s.calls[i]? with
    | some (some k) => (act s.store k e).map fun q => s.put i q.1 q.2
    | _ => none
  | .lose w => some { s with store := s.store.lose w }
  | .close w => some { s with store := s.store.close w }

def lts : Lts State Label where
  init s := s = ⟨⟨none, [], none, [], []⟩, []⟩
  next := next

end Ws
