import ImpiAgent.Lib.Lts
import ImpiAgent.Lib.Dict
import ImpiAgent.Mcp.Protocol
import Mathlib

/-!
# Calls beside one another

Any number of calls, listings and replies over the clients of any number of servers. What they ask
for is answered by `World.serve`, where a `Choice` says what is not theirs to say: what a server
answers, how much of a line its input takes at once, what fails. The input of a stdio server is
asyncio's: a line not taken at once is buffered, a writer waits while more is buffered than the high
mark allows and goes on when no more is left than the low mark, and one whose input closes meanwhile
is told so.

A request is a `Sent`: a line of a process or a POST. `World.reached` are those a server was handed
all of, and `World.refused` those it answered with a status or an error that says it did not run.
-/

namespace Mcp

open Json Prog

/-- Over so many buffered bytes a writer waits. -/
def highWater : Nat := 64 * 1024

/-- With so many left it goes on. -/
def lowWater : Nat := 16 * 1024

/-- A stdio server's process and its input. Lines are numbered as they are written. -/
structure Process where
  running : Bool
  lost : Bool
  lines : Nat
  /-- The lines not all taken, and how much of each is left. -/
  buffer : List (Nat × Nat)
  paused : Bool
  draining : List Nat
  /-- The writers that may go on, and whether their line was passed on. -/
  woken : List (Nat × Bool)
  /-- The lines the process was handed all of. -/
  taken : List Nat
  deriving DecidableEq

namespace Process

def start : Process := ⟨true, false, 0, [], false, [], [], []⟩

variable (p : Process)

def buffered : Nat := (p.buffer.map Prod.snd).sum

/-- `stdin.write` of so many bytes, of which so many are taken at once, and the start of `drain`. -/
def write (size now : Nat) : Option (Process × Written) :=
  if p.lost then some (p, .lost)
  else if size = 0 ∨ size < now ∨ p.buffer ≠ [] ∧ now ≠ 0 then none
  else
    let line := p.lines
    let p := { p with lines := line + 1 }
    if now = size then some ({ p with taken := line :: p.taken }, .passed line)
    else
      let p := { p with buffer := p.buffer ++ [(line, size - now)] }
      if p.paused ∨ p.buffered > highWater then
        some ({ p with paused := true, draining := p.draining ++ [line] }, .waits line)
      else some (p, .passed line)

/-- So many bytes of the buffer: the lines they end, and what is left. -/
def takeBytes : Nat → List (Nat × Nat) → List Nat × List (Nat × Nat)
  | _, [] => ([], [])
  | n, (line, size) :: buffer =>
    if n < size then ([], (line, size - n) :: buffer)
    else
      let (ended, left) := takeBytes (n - size) buffer
      (line :: ended, left)

/-- The process is handed so many bytes more. -/
def accept (n : Nat) : Process :=
  let (ended, left) := takeBytes n p.buffer
  let p := { p with buffer := left, taken := ended ++ p.taken }
  if p.paused ∧ p.buffered ≤ lowWater then
    { p with paused := false, draining := [], woken := p.woken ++ p.draining.map (·, true) }
  else p

/-- Its input closes. -/
def lose : Process :=
  { p with
    lost := true
    buffer := []
    paused := false
    draining := []
    woken := p.woken ++ p.draining.map (·, false) }

def exit : Process := { p with running := false }

end Process

inductive Sent
  | line (pid line : Nat)
  | post (n : Nat)
  deriving DecidableEq

structure World where
  /-- Which servers are reached over HTTP. -/
  http : String → Bool
  clients : List (String × Nat)
  made : List Client
  processes : List Process
  posts : Nat
  /-- The POSTs a server was handed. -/
  delivered : List Nat
  refused : List Sent

/-- What is not for the calls to say. -/
inductive Choice
  | auto
  /-- An await is cancelled, or ends in another exception. -/
  | raises (cancelled : Bool)
  | osError
  | bytes (size now : Nat)
  | connectFailed
  | failed (reached : Bool)
  | response (r : Response)
  | message (m : PyValue)
  | timeout
  | exited

/-- The code of a message that is an error. -/
def errorCode (message : PyValue) : Option Int := Internal.int (get "code" (get "error" message))

/-- The message says that the version of the request is not supported. -/
def isUnsupported (message : PyValue) : Bool := errorCode message = some errorUnsupportedVersion

/-- A server that answers so did not run its tool. -/
def Response.didNotRun (r : Response) : Bool :=
  r.status = 400 || r.status = 404 || r.status = 405 || r.json.any isUnsupported ||
    r.event.any isUnsupported

namespace World

variable (w : World)

/-- The server was handed all of the request. -/
def reached : Sent → Bool
  | .line pid line => w.processes[pid]?.any fun p => line ∈ p.taken
  | .post n => n ∈ w.delivered

/-- The server may have run what was asked of it. -/
def mayHaveRun (r : Sent) : Bool := w.reached r && !decide (r ∈ w.refused)

def modify (c : Nat) (f : Client → Client) : World := { w with made := w.made.modify c f }

def setProcess (pid : Nat) (p : Process) : World :=
  { w with processes := w.processes.set pid p }

/-- A client of the server, with no process yet. -/
def make (server : String) : World × Nat :=
  ({ w with made := w.made ++ [⟨w.http server, .modern, false, false, none⟩] }, w.made.length)

/-- A request refused, if it was. -/
def refuse (r : Sent) (did : Bool) : World := if did then { w with refused := r :: w.refused } else w

/-- A POST, and what it comes to. -/
def posted (reached refused : Bool) : World :=
  let w := { w with posts := w.posts + 1, delivered := if reached then w.posts :: w.delivered
    else w.delivered }
  w.refuse (.post (w.posts - 1)) refused

def raised (cancelled : Bool) : Raised := if cancelled then .cancelled else .other

/-- What a command comes to; none where the choice is not one for it. -/
def serve : (c : Cmd) → Choice → Option (World × Except Raised c.Answer)
  | .client server, .auto =>
    match w.clients.lookup server with
    | some c => some (w, .ok c)
    | none =>
      let (w, c) := w.make server
      some ({ w with clients := Dict.assign server c w.clients }, .ok c)
  | .fresh server, .auto => some ((w.make server).1, .ok (w.make server).2)
  | .pop server, .auto =>
    some ({ w with clients := Dict.remove server w.clients }, .ok (w.clients.lookup server))
  | .look c, .auto => w.made[c]?.map fun client => (w, .ok client)
  | .setVersion c v, .auto => some (w.modify c ({ · with version := v }), .ok ())
  | .setProbed c, .auto => some (w.modify c ({ · with probed := true }), .ok ())
  | .setInitialized c, .auto => some (w.modify c ({ · with initialized := true }), .ok ())
  | .post _ _, .connectFailed => some (w.posted false false, .ok .connectFailed)
  | .post _ _, .failed reached => some (w.posted reached false, .ok .failed)
  | .post _ _, .response r => some (w.posted true r.didNotRun, .ok (.response r))
  | .process c, .auto =>
    w.made[c]?.map fun client =>
      (w, .ok (client.process.bind fun pid => w.processes[pid]?.map fun p => (pid, p.running)))
  | .spawn c, .auto =>
    let pid := w.processes.length
    let w := { w with processes := w.processes ++ [Process.start] }
    some (w.modify c ({ · with process := some pid }), .ok (some pid))
  | .spawn _, .osError => some (w, .ok none)
  | .write pid _, .bytes size now => do
    let p ← w.processes[pid]?
    let (p, written) ← p.write size now
    return (w.setProcess pid p, .ok written)
  | .drain pid line, .auto => do
    let p ← w.processes[pid]?
    let ok ← p.woken.lookup line
    return (w, .ok ok)
  | .answer pid line, .message m =>
    some (w.refuse (.line pid line) (isUnsupported m), .ok (.message m))
  | .answer _ _, .timeout => some (w, .ok .timeout)
  | .answer _ _, .exited => some (w, .ok .exited)
  | .close c, .auto =>
    some (w.modify c ({ · with initialized := false, process := none }), .ok ())
  -- a POST may have gone out by then
  | .post _ _, .raises b => some (w.posted true false, .error (raised b))
  | .spawn _, .raises b => some (w, .error (raised b))
  | .drain _ _, .raises b => some (w, .error (raised b))
  | .answer _ _, .raises b => some (w, .error (raised b))
  | .close c, .raises b =>
    some (w.modify c ({ · with initialized := false, process := none }), .error (raised b))
  | _, _ => none

end World

/-- The request a command has sent, if it is one of the method `call`. -/
def Cmd.sent (w : World) : (c : Cmd) → Except Raised c.Answer → List Sent
  | .post _ .call, _ => [.post w.posts]
  | .write pid .call, .ok (.passed line) => [.line pid line]
  | .write pid .call, .ok (.waits line) => [.line pid line]
  | _, _ => []

/-- A call or another task: what is left of it, and the requests `tools/call` it has sent. -/
structure Running where
  rest : Routine Unit
  sent : List Sent

structure State where
  world : World
  tasks : List Running

inductive Label
  | call (server : String) (headers : Bool)
  | listing (server : String)
  | reply (pid : Nat)
  | act (task : Nat) (choice : Choice)
  | accept (pid n : Nat)
  | lose (pid : Nat)
  | exit (pid : Nat)

namespace State

variable (s : State)

def start (p : Routine Unit) : State := { s with tasks := s.tasks ++ [⟨p, []⟩] }

/-- A task is answered. -/
def act (i : Nat) (choice : Choice) : Option State :=
  match s.tasks[i]? with
  | some ⟨.call c k, sent⟩ =>
    (s.world.serve c choice).map fun (w, x) =>
      ⟨w, s.tasks.set i ⟨k x, sent ++ c.sent s.world x⟩⟩
  | _ => none

/-- Something happens to a process. -/
def happen (pid : Nat) (f : Process → Process) : Option State :=
  s.world.processes[pid]?.map fun p => { s with world := s.world.setProcess pid (f p) }

end State

def next (s : State) : Label → Option State
  | .call server headers => some (s.start (call server headers >>= fun _ => return ()))
  | .listing server => some (s.start (listing server))
  | .reply pid => some (s.start (write pid .reply >>= fun _ => return ()))
  | .act i choice => s.act i choice
  | .accept pid n => s.happen pid (·.accept n)
  | .lose pid => s.happen pid Process.lose
  | .exit pid => s.happen pid Process.exit

/-- Calls on servers nothing has been said to. -/
def lts : Lts State Label where
  init s := s.world.clients = [] ∧ s.world.made = [] ∧ s.world.processes = [] ∧ s.world.posts = 0 ∧
    s.world.delivered = [] ∧ s.world.refused = [] ∧ s.tasks = []
  next := next

/-- No input closes on a request it has taken all of, while its writer waits for room behind it. -/
def Kept (s : State) : Label → Prop
  | .lose pid => ∀ p, s.world.processes[pid]? = some p → ∀ t ∈ s.tasks, ∀ line ∈ p.draining,
      .line pid line ∈ t.sent → line ∉ p.taken
  | _ => True

end Mcp
