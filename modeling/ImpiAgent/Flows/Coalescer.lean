import ImpiAgent.Delegation.Records
import ImpiAgent.Lib.Lts
import Mathlib.Logic.Function.Basic

/-!
# Messages merged into batches

`MessageCoalescer`: what arrives while a conversation's turn runs is buffered and handed to the next
turn as one batch, by the one worker the conversation has. `submit_tracked` also registers a future
for the turn's outcome, under the id of the message.

A message is its number in the history of what was submitted, a task its number among those created,
a batch its number among those handed to the flow. A future has the number of its message. The state
has two halves: the buffers and the workers (`Queue`), and the futures (`Waiters`), which the queue
never reads.

`Coalescer.lts D`: submits, workers that begin, whose flow returns, crashes or is cancelled, and
waiters that give up, in any order. A task that is cancelled before its first step runs nothing of
`_run`, its `finally` neither.
-/

namespace Coalescer

open Delegation (TurnOutcome)

variable {μ χ : Type}

/-- What the coalescer asks of a message: `ConversationKey.key`, and `ref.message_id`. -/
structure Deployment (μ : Type) where
  key : μ → String
  messageId : μ → String

/-- How a batch ended. -/
inductive Ending
  | outcome (o : TurnOutcome)
  | cancelled
  deriving DecidableEq

/-- A call of `submit`. -/
structure Submission (μ χ : Type) where
  msg : μ
  chat : χ
  deriving DecidableEq

/-- A worker between two awaits. -/
inductive Point
  | created
  | handling (batch : Nat) (msgs : List Nat)
  | ended
  deriving DecidableEq

/-- A worker. `starter` is the message whose submit created it. -/
structure Task (χ : Type) where
  conv : String
  chat : χ
  starter : Nat
  point : Point
  deriving DecidableEq

/-- What was handed to the flow, and how that ended. -/
structure Batch (χ : Type) where
  conv : String
  chat : χ
  starter : Nat
  msgs : List Nat
  ending : Option Ending
  deriving DecidableEq

/-- `submitted` and `batches` are the history; nothing reads the latter. -/
structure Queue (μ χ : Type) where
  submitted : List (Submission μ χ)
  pending : String → List Nat
  workers : String → Option Nat
  tasks : List (Task χ)
  batches : List (Batch χ)

namespace Queue

variable (q : Queue μ χ)

/-- The buffer, and a worker where the conversation has none. -/
def submit (D : Deployment μ) (msg : μ) (chat : χ) : Queue μ χ :=
  let conv := D.key msg
  let n := q.submitted.length
  let started := (q.workers conv).isNone
  { submitted := q.submitted ++ [⟨msg, chat⟩]
    pending := Function.update q.pending conv (q.pending conv ++ [n])
    workers := if started then Function.update q.workers conv (some q.tasks.length) else q.workers
    tasks := if started then q.tasks ++ [⟨conv, chat, n, .created⟩] else q.tasks
    batches := q.batches }

/-- The task is over. -/
def stop (t : Nat) (k : Task χ) : Queue μ χ :=
  { q with tasks := q.tasks.set t { k with point := .ended } }

/-- The worker leaves its loop: its `finally`, and the task is over. -/
def finish (t : Nat) (k : Task χ) : Queue μ χ :=
  { q.stop t k with workers := Function.update q.workers k.conv none }

/-- The worker hands over what piled up. -/
def hand (t : Nat) (k : Task χ) : Queue μ χ :=
  { q with
    pending := Function.update q.pending k.conv []
    tasks := q.tasks.set t { k with point := .handling q.batches.length (q.pending k.conv) }
    batches := q.batches ++ [⟨k.conv, k.chat, k.starter, q.pending k.conv, none⟩] }

/-- The head of the worker's loop. -/
def take (t : Nat) (k : Task χ) : Queue μ χ :=
  if q.pending k.conv = [] then q.finish t k else q.hand t k

/-- The flow is done with a batch. -/
def close (b : Nat) (e : Ending) : Queue μ χ :=
  { q with batches := q.batches.modify b fun x => { x with ending := some e } }

/-- The ids of messages. -/
def ids (D : Deployment μ) (ns : List Nat) : List String :=
  ns.filterMap fun n => q.submitted[n]?.map fun x => D.messageId x.msg

end Queue

/-- A future: not settled, settled by the coalescer, or cancelled by who waited for it. -/
inductive Waiter
  | waiting
  | told (e : Ending)
  | withdrawn
  deriving DecidableEq

/-- `told` is the history of what was set on which future; nothing reads it. -/
structure Waiters where
  tracked : String → Option Nat
  futures : Nat → Option Waiter
  told : List (Nat × Ending)

namespace Waiters

/-- A future for message `n`, registered under its id. -/
def track (w : Waiters) (id : String) (n : Nat) : Waiters :=
  { w with
    tracked := Function.update w.tracked id (some n)
    futures := Function.update w.futures n (some .waiting) }

/-- `set_result` or `cancel`, unless the future is done. -/
def tell (w : Waiters) (n : Nat) (e : Ending) : Waiters :=
  if w.futures n = some .waiting then
    { w with
      futures := Function.update w.futures n (some (.told e))
      told := w.told ++ [(n, e)] }
  else w

/-- What `_settle` and `_abandon` do for one message. -/
def pop (e : Ending) (w : Waiters) (id : String) : Waiters :=
  match w.tracked id with
  | some n => { w with tracked := Function.update w.tracked id none }.tell n e
  | none => w

/-- `_settle` with an outcome, `_abandon` where `e` is `cancelled`. -/
def settle (w : Waiters) (e : Ending) (ids : List String) : Waiters := ids.foldl (pop e) w

/-- Who waits for message `n` gives up. -/
def withdraw (w : Waiters) (n : Nat) : Waiters :=
  if w.futures n = some .waiting then
    { w with futures := Function.update w.futures n (some .withdrawn) }
  else w

end Waiters

structure State (μ χ : Type) where
  queue : Queue μ χ
  waiters : Waiters

inductive Event (μ χ : Type)
  | submit (msg : μ) (chat : χ)
  | submitTracked (msg : μ) (chat : χ)
  /-- The first step of task `t`. -/
  | begin (t : Nat)
  | completed (t : Nat) (outcome : TurnOutcome)
  | crashed (t : Nat)
  | cancelled (t : Nat)
  | withdrawn (n : Nat)

/-- The batch `msgs` of task `t` ends with an outcome, and the loop goes on. Where it leaves, its
`finally` has nothing to abandon. -/
def settled (D : Deployment μ) (s : State μ χ) (t : Nat) (k : Task χ) (b : Nat) (msgs : List Nat)
    (o : TurnOutcome) : State μ χ where
  queue := (s.queue.close b (.outcome o)).take t k
  waiters := s.waiters.settle (.outcome o) (s.queue.ids D msgs)

/-- A worker that is cancelled while the flow handles its batch: it abandons the batch and, in its
`finally`, what is still buffered, which stays in the buffer. -/
def abandoned (D : Deployment μ) (s : State μ χ) (t : Nat) (k : Task χ) (b : Nat)
    (msgs : List Nat) : State μ χ where
  queue := (s.queue.close b .cancelled).finish t k
  waiters := (s.waiters.settle .cancelled (s.queue.ids D msgs)).settle .cancelled
    (s.queue.ids D (s.queue.pending k.conv))

/-- What task `t`, at `k`, does at an event. -/
def Task.next (D : Deployment μ) (s : State μ χ) (t : Nat) (k : Task χ) :
    Event μ χ → Option (State μ χ)
  | .begin _ =>
    match k.point with
    | .created => some { s with queue := s.queue.take t k }
    | _ => none
  | .completed _ o =>
    match k.point with
    | .handling b msgs => some (settled D s t k b msgs o)
    | _ => none
  | .crashed _ =>
    match k.point with
    | .handling b msgs => some (settled D s t k b msgs .error)
    | _ => none
  | .cancelled _ =>
    match k.point with
    | .created => some { s with queue := s.queue.stop t k }
    | .handling b msgs => some (abandoned D s t k b msgs)
    | .ended => none
  | _ => none

def onTask (D : Deployment μ) (s : State μ χ) (t : Nat) (e : Event μ χ) : Option (State μ χ) :=
  s.queue.tasks[t]?.bind fun k => k.next D s t e

def next (D : Deployment μ) (s : State μ χ) : Event μ χ → Option (State μ χ)
  | .submit msg chat => some { s with queue := s.queue.submit D msg chat }
  | .submitTracked msg chat =>
    some ⟨s.queue.submit D msg chat, s.waiters.track (D.messageId msg) s.queue.submitted.length⟩
  | .begin t => onTask D s t (.begin t)
  | .completed t o => onTask D s t (.completed t o)
  | .crashed t => onTask D s t (.crashed t)
  | .cancelled t => onTask D s t (.cancelled t)
  | .withdrawn n => some { s with waiters := s.waiters.withdraw n }

/-- A coalescer nothing was submitted to. -/
def lts (D : Deployment μ) : Lts (State μ χ) (Event μ χ) where
  init s := s = ⟨⟨[], fun _ => [], fun _ => none, [], []⟩, ⟨fun _ => none, fun _ => none, []⟩⟩
  next := next D

end Coalescer
