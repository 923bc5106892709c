import ImpiAgent.Lib.Dict
import ImpiAgent.Lib.Pool
import ImpiAgent.Lib.Text

/-!
# The pi runtime

`PiRuntime`: the processes it keeps, one a session id, the permits they hold, and
`SessionProofBook`, the proof of each session id. What it does is done by calls: a turn
(`run_stateful`, `run_stateless`), `cancel`, `reset`, and the sweeps that drop several sessions
(`_reap_once`, `drop_agent_sessions`, `close`). A call runs from one `await` to the next, and the
`Point`s of a call are these awaits; between them any other call may run. What an await comes to,
with an exception or a cancellation of the caller's task among it, is in the `Event`.

A call also rests where `_acquire` begins, before the global semaphore and before the spawn, with
nothing awaited there: that only lets other calls run in between. A semaphore's waiters are served
in any order. The ids and the secrets drawn at random are numbers never drawn before.
-/

namespace Pi

open Text (Str)

/-- `max_sessions_per_agent = 0`: no bound of an agent's own. -/
structure Options where
  maxConcurrentSessions : Nat
  maxSessionsPerAgent : Nat
  idleTtl : Nat
  evictIdleOnPressure : Bool

/-- The agent's name, and `spawn_fingerprint` of the profile. -/
structure Profile where
  name : Str
  fingerprint : Nat
  deriving DecidableEq

/-- `RUNTIME_SESSION_ID`: the session's, or one drawn for a memoryless run. -/
inductive ProofId
  | session (id : Str)
  | oneShot (agent : Str) (token : Nat)
  deriving DecidableEq

/-- A `PiRpcSession`: its process and the id the process proves itself under. -/
structure Session where
  process : Nat
  proofSessionId : ProofId
  deriving DecidableEq

/-- `_ManagedSession`. `lastUsed = 0` until the first turn ends. -/
structure Managed where
  session : Session
  agent : Str
  createdAt : Nat
  fingerprint : Nat
  lastUsed : Nat
  deriving DecidableEq

def Managed.used (m : Managed) : Nat := if m.lastUsed = 0 then m.createdAt else m.lastUsed

/-- Who has a process: the sessions of the runtime, the memoryless call that had it started, or the
call that awaits `session.close`. `left`: the close ended before the process did. -/
inductive Life
  | kept (key : Str) | oneShot (call : Nat) | closing (call : Nat) | left | gone
  deriving DecidableEq

/-- A process a host has started for `agent`; `busy` while a turn is in flight on it. -/
structure Process where
  agent : Str
  proofSessionId : ProofId
  proof : Nat
  busy : Bool
  life : Life
  deriving DecidableEq

/-- What the runtime and its proof book hold, with the processes started so far. -/
structure Core where
  now : Nat
  free : Nat
  agentFree : Str → Nat
  sessions : List (Str × Managed)
  book : ProofId → Option Nat
  processes : List Process
  drawn : Nat

/-- What `_create_session` is called for. -/
structure Attempt where
  profile : Profile
  key : Option Str
  deriving DecidableEq

/-- Where a call goes on once `_close_session` has returned. -/
inductive After
  /-- `run_stateful`, whose profile is another: to `_create_session`. -/
  | create (a : Attempt)
  /-- `_make_room` of the agent's bound, of the global one. -/
  | agentRoom (a : Attempt)
  | globalRoom (a : Attempt)
  /-- `run_stateful` and `run_stateless` at their end. -/
  | turnOver (key : Option Str)
  /-- `cancel`, in `reset` or by itself. -/
  | cancelled (key : Str) (resetting : Option Str)
  | forget (key : Str)
  | sweep (keys : List Str)
  deriving DecidableEq

/-- Where a call is. -/
inductive Point
  | locking (profile : Profile) (key : Str)
  | acquire (a : Attempt)
  | agentQueue (a : Attempt)
  | acquireGlobal (a : Attempt)
  | globalQueue (a : Attempt)
  | granted (a : Attempt)
  | spawning (a : Attempt) (id : ProofId) (proof : Nat)
  | prompting (a : Attempt) (session : Session)
  | cancelling (key : Str) (resetting : Option Str)
  | resetLocking (agent key : Str)
  | closing (session : Session) (agent : Str) (k : After)
  | done
  deriving DecidableEq

/-- What an await of a call comes to. -/
inductive Event
  /-- The lock is taken; the call runs on; the semaphore is taken. -/
  | enter | go | take
  /-- The wait for a permit is over its deadline. -/
  | timeout
  | spawned | spawnFailed
  /-- The prompt has a result, raises `PiTimeout` or `PiProcessError`, raises something else. -/
  | answered | broken | failed
  /-- `session.cancel` is `True`, `False`. -/
  | ended | stuck
  | closed
  /-- `session.close` raises a `TimeoutError` or something else, its process `gone` or not. -/
  | closeRaised (timeout gone : Bool)
  /-- The caller's task is cancelled, the process it was closing `gone` or not. -/
  | cancel (gone : Bool)
  deriving DecidableEq

abbrev Runtime := Pool Core Point

/-! ## The locks and the semaphores -/

def After.holds : After → Option Str
  | .create a | .agentRoom a | .globalRoom a => a.key
  | .turnOver key => key
  | .forget key => some key
  | .cancelled .. | .sweep _ => none

/-- The session id whose lock a call is inside of. -/
def Point.holds : Point → Option Str
  | .acquire a | .agentQueue a | .acquireGlobal a | .globalQueue a | .granted a
  | .spawning a _ _ | .prompting a _ => a.key
  | .closing _ _ k => k.holds
  | .locking .. | .cancelling .. | .resetLocking .. | .done => none

def Point.waitsAgent (agent : Str) : Point → Bool
  | .agentQueue a => a.profile.name = agent
  | _ => false

def Point.waitsGlobal : Point → Bool
  | .globalQueue _ => true
  | _ => false

def lockHeld (r : Runtime) (key : Str) : Bool := r.calls.any (·.any (·.holds = some key))

/-- `agent_permit.locked()`: none is free, or somebody was here first. -/
def agentLocked (r : Runtime) (agent : Str) : Bool :=
  r.store.agentFree agent = 0 || r.calls.any (·.any (·.waitsAgent agent))

def globalLocked (r : Runtime) : Bool :=
  r.store.free = 0 || r.calls.any (·.any (·.waitsGlobal))

/-! ## What happens between two awaits -/

namespace Core

variable (o : Options) (c : Core)

def mark (p : Nat) (life : Life) : Core :=
  { c with processes := c.processes.modify p ({ · with life }) }

def setBusy (p : Nat) (busy : Bool) : Core :=
  { c with processes := c.processes.modify p ({ · with busy }) }

def busy (p : Nat) : Bool := c.processes[p]?.any (·.busy)

def issue (id : ProofId) : Core :=
  { c with book := Function.update c.book id (some c.drawn), drawn := c.drawn + 1 }

def revoke (id : ProofId) : Core := { c with book := Function.update c.book id none }

/-- `SessionProofBook.verify`. -/
def verify (id : ProofId) (proof : Nat) : Bool := c.book id = some proof

def takeAgent (agent : Str) : Core :=
  { c with agentFree := Function.update c.agentFree agent (c.agentFree agent - 1) }

def giveAgent (agent : Str) : Core :=
  if o.maxSessionsPerAgent = 0 then c
  else { c with agentFree := Function.update c.agentFree agent (c.agentFree agent + 1) }

def takeGlobal : Core := { c with free := c.free - 1 }

def releasePermits (agent : Str) : Core := { c with free := c.free + 1 }.giveAgent o agent

/-- `_drop_session` up to its await: the session to close and its agent, if there is one. -/
def dropSession (call : Nat) (key : Str) : Option (Core × Session × Str) :=
  (c.sessions.lookup key).map fun m =>
    ((({ c with sessions := Dict.remove key c.sessions }).revoke (.session key)).mark
      m.session.process (.closing call), m.session, m.agent)

/-- What `_close_session` does once `session.close` is over. -/
def closeSession (s : Session) (agent : Str) (gone : Bool) : Core :=
  ((c.revoke s.proofSessionId).releasePermits o agent).mark s.process (if gone then .gone else .left)

/-- `_drop_session` of each key in turn, up to the first await. -/
def sweep (call : Nat) : List Str → Core × Point
  | [] => (c, .done)
  | key :: keys =>
    match c.dropSession call key with
    | some (c', s, agent) => (c', .closing s agent (.sweep keys))
    | none => sweep call keys

/-- The process is started: `_create_session` returns, and the turn goes on to its prompt. -/
def opened (call : Nat) (a : Attempt) (id : ProofId) (proof : Nat) : Core × Point :=
  let s : Session := ⟨c.processes.length, id⟩
  let process (life : Life) : Process := ⟨a.profile.name, id, proof, true, life⟩
  match a.key with
  | some key =>
    ({ c with
        processes := c.processes ++ [process (.kept key)]
        sessions := Dict.assign key ⟨s, a.profile.name, c.now, a.profile.fingerprint, 0⟩
          c.sessions }, .prompting a s)
  | none => ({ c with processes := c.processes ++ [process (.oneShot call)] }, .prompting a s)

/-- `_spawn_session` up to its first await. -/
def spawnSession (a : Attempt) : Core × Point :=
  match a.key with
  | some key => (c.issue (.session key), .spawning a (.session key) c.drawn)
  | none =>
    let id := .oneShot a.profile.name c.drawn
    ({ c with drawn := c.drawn + 1 }.issue id, .spawning a id (c.drawn + 1))

/-- `managed.last_used = self._now()`. -/
def touch (s : Session) : Core :=
  { c with sessions := c.sessions.map fun x =>
      (x.1, if x.2.session = s then { x.2 with lastUsed := c.now } else x.2) }

/-- The end of a prompt: a memoryless run closes its process. -/
def promptOver (call : Nat) (a : Attempt) (s : Session) : Core × Point :=
  match a.key with
  | some _ => (c.setBusy s.process false, .done)
  | none => ((c.setBusy s.process false).mark s.process (.closing call),
      .closing s a.profile.name (.turnOver none))

end Core

section

variable (o : Options) (r : Runtime)

/-- The sessions `_make_room` may evict, with the time of their last use. -/
def idle (agent : Option Str) : List (Nat × Str) :=
  (r.store.sessions.filter fun x =>
    (agent = none || agent = some x.2.agent) && !r.store.busy x.2.session.process
      && !lockHeld r x.1).map fun x => (x.2.used, x.1)

/-- `min` of pairs. -/
def least : List (Nat × Str) → Option (Nat × Str)
  | [] => none
  | x :: xs =>
    match least xs with
    | none => some x
    | some y => if y.1 < x.1 || (y.1 = x.1 && y.2 < x.2) then some y else some x

/-- `_make_room` up to its await. -/
def makeRoom (call : Nat) (agent : Option Str) : Option (Core × Session × Str) :=
  if o.evictIdleOnPressure then
    (least (idle r agent)).bind fun x => r.store.dropSession call x.2
  else none

def queueAgent (a : Attempt) : Core × Point :=
  if agentLocked r a.profile.name then (r.store, .agentQueue a)
  else (r.store.takeAgent a.profile.name, .acquireGlobal a)

def queueGlobal (a : Attempt) : Core × Point :=
  if globalLocked r then (r.store, .globalQueue a) else (r.store.takeGlobal, .granted a)

/-- `_acquire` of the agent's permit. -/
def acquire (call : Nat) (a : Attempt) : Core × Point :=
  if o.maxSessionsPerAgent = 0 then (r.store, .acquireGlobal a)
  else if agentLocked r a.profile.name then
    match makeRoom o r call (some a.profile.name) with
    | some (c, s, agent) => (c, .closing s agent (.agentRoom a))
    | none => queueAgent r a
  else queueAgent r a

/-- `_acquire` of the global one. -/
def acquireGlobal (call : Nat) (a : Attempt) : Core × Point :=
  if globalLocked r then
    match makeRoom o r call none with
    | some (c, s, agent) => (c, .closing s agent (.globalRoom a))
    | none => queueGlobal r a
  else queueGlobal r a

/-- `run_stateful` inside the lock. -/
def turn (call : Nat) (profile : Profile) (key : Str) : Core × Point :=
  match r.store.sessions.lookup key with
  | none => (r.store, .acquire ⟨profile, some key⟩)
  | some m =>
    if m.fingerprint = profile.fingerprint then
      (r.store.setBusy m.session.process true, .prompting ⟨profile, some key⟩ m.session)
    else
      match r.store.dropSession call key with
      | some (c, s, agent) => (c, .closing s agent (.create ⟨profile, some key⟩))
      | none => (r.store, .acquire ⟨profile, some key⟩)

/-- `_drop_session` of one key, and on to `k`. -/
def dropThen (c : Core) (call : Nat) (key : Str) (k : After) (next : Point) : Core × Point :=
  match c.dropSession call key with
  | some (c', s, agent) => (c', .closing s agent k)
  | none => (c, next)

/-- What follows `cancel`. -/
def afterCancel (key : Str) : Option Str → Point
  | none => .done
  | some agent => .resetLocking agent key

/-- A call goes on after a close. -/
def resume (call : Nat) : After → Core × Point
  | .create a => (r.store, .acquire a)
  | .agentRoom a => queueAgent r a
  | .globalRoom a => queueGlobal r a
  | .turnOver _ | .forget _ => (r.store, .done)
  | .cancelled key resetting => (r.store, afterCancel key resetting)
  | .sweep keys => r.store.sweep call keys

/-- A call ends after a close that raised: `_acquire` gives its permit back on a timeout. -/
def unwind (c : Core) (timeout : Bool) : After → Core
  | .globalRoom a => if timeout then c.giveAgent o a.profile.name else c
  | _ => c

/-- What call `i` does next, at its point, on an event. -/
def act (i : Nat) : Point → Event → Option (Core × Point)
  | .locking profile key, .enter =>
    if lockHeld r key then none else some (turn r i profile key)
  | .locking .., .cancel _ => some (r.store, .done)
  | .acquire a, .go => some (acquire o r i a)
  | .agentQueue a, .take =>
    if r.store.agentFree a.profile.name = 0 then none
    else some (r.store.takeAgent a.profile.name, .acquireGlobal a)
  | .agentQueue _, .timeout | .agentQueue _, .cancel _ => some (r.store, .done)
  | .acquireGlobal a, .go => some (acquireGlobal o r i a)
  | .globalQueue a, .take =>
    if r.store.free = 0 then none else some (r.store.takeGlobal, .granted a)
  | .globalQueue a, .timeout => some (r.store.giveAgent o a.profile.name, .done)
  -- a cancellation is no `TimeoutError`
  | .globalQueue _, .cancel _ => some (r.store, .done)
  | .granted a, .go => some (r.store.spawnSession a)
  | .spawning a id proof, .spawned => some (r.store.opened i a id proof)
  | .spawning a _ _, .spawnFailed => some (r.store.releasePermits o a.profile.name, .done)
  -- nor an `Exception`
  | .spawning .., .cancel _ => some (r.store, .done)
  | .prompting a s, .answered => some ((r.store.touch s).promptOver i a s)
  | .prompting a s, .broken =>
    match a.key with
    | some key => some (dropThen (r.store.setBusy s.process false) i key (.turnOver a.key) .done)
    | none => some (r.store.promptOver i a s)
  | .prompting a s, .failed | .prompting a s, .cancel _ => some (r.store.promptOver i a s)
  | .cancelling key resetting, .ended => some (r.store, afterCancel key resetting)
  | .cancelling key resetting, .stuck =>
    some (dropThen r.store i key (.cancelled key resetting) (afterCancel key resetting))
  | .cancelling .., .cancel _ | .resetLocking .., .cancel _ => some (r.store, .done)
  | .resetLocking _ key, .enter =>
    if lockHeld r key then none else some (dropThen r.store i key (.forget key) .done)
  | .closing s agent k, .closed =>
    some (resume ⟨r.store.closeSession o s agent true, r.calls⟩ i k)
  | .closing s agent k, .closeRaised timeout gone =>
    some (unwind o (r.store.closeSession o s agent gone) timeout k, .done)
  | .closing s agent k, .cancel gone =>
    some (unwind o (r.store.closeSession o s agent gone) false k, .done)
  | _, _ => none

end

/-! ## The calls -/

inductive Call
  | runStateful (profile : Profile) (key : Str)
  | runStateless (profile : Profile)
  | cancel (key : Str)
  | reset (agent key : Str)
  | reap
  | dropAgentSessions (agent : Str)
  | close

/-- What `cancel` begins with, by itself or for a `reset`. -/
def cancelling (c : Core) (key : Str) (resetting : Option Str) : Point :=
  match c.sessions.lookup key with
  | some m => if c.busy m.session.process then .cancelling key resetting else afterCancel key resetting
  | none => afterCancel key resetting

/-- `_reap_once`, `drop_agent_sessions` and `close` drop these. -/
def stale (o : Options) (c : Core) : List Str :=
  (c.sessions.filter fun x =>
    !c.busy x.2.session.process && x.2.used + o.idleTtl < c.now).map (·.1)

def agentSessions (c : Core) (agent : Str) : List Str :=
  (c.sessions.filter fun x =>
    (agent ++ ['-', '-']).isPrefixOf x.1 && !c.busy x.2.session.process).map (·.1)

/-- A call up to its first await. -/
def begin (o : Options) (c : Core) (i : Nat) : Call → Core × Point
  | .runStateful profile key => (c, .locking profile key)
  | .runStateless profile => (c, .acquire ⟨profile, none⟩)
  | .cancel key => (c, cancelling c key none)
  | .reset agent key => (c, cancelling c key (some agent))
  | .reap => c.sweep i (stale o c)
  | .dropAgentSessions agent => c.sweep i (agentSessions c agent)
  | .close => c.sweep i (c.sessions.map (·.1))

inductive Label
  | tick (n : Nat)
  | begin (call : Call)
  | act (i : Nat) (e : Event)
  /-- A process whose close was cut short ends after all. -/
  | exit (p : Nat)

def next (o : Options) (r : Runtime) : Label → Option Runtime
  | .tick n => some { r with store := { r.store with now := r.store.now + n } }
  | .begin call =>
    let q := begin o r.store r.calls.length call
    some ({ r with store := q.1 }.start q.2)
  | .act i e =>
    match r.calls[i]? with
    | some (some k) => (act o r i k e).map fun q => r.put i q.1 q.2
    | _ => none
  | .exit p =>
    if (r.store.processes[p]?).any (·.life = .left) then
      some { r with store := r.store.mark p .gone }
    else none

/-- Before the first call. -/
def Core.fresh (o : Options) : Core where
  now := 0
  free := o.maxConcurrentSessions
  agentFree := fun _ => o.maxSessionsPerAgent
  sessions := []
  book := fun _ => none
  processes := []
  drawn := 0

/-- The runtime. -/
def runtime (o : Options) : Lts Runtime Label where
  init r := r = ⟨Core.fresh o, []⟩
  next := next o

end Pi
