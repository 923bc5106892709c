import ImpiAgent.Delegation.Records
import ImpiAgent.Lib.Dict
import ImpiAgent.Lib.Pool
import ImpiAgent.Store.SessionIds

/-!
# Tasks in flight

What `EngineDelegationService` of `interactions/delegation.py` keeps in memory of the tasks it runs
(`Memory`), and the coroutines of one engine process that use it: `delegate` and `ask` from their
check to the task they spawn, `_run` with `_watched` (`Task`), and `await_answers`. A coroutine goes
on when what it awaits returns (`Task.resume`), raises (`Task.fail`), or when it is cancelled
(`Task.cancel`); between two of its awaits anything else may happen. What the store and the asked
agent's sink do is for the labels to say.

The turn a task runs is the sink's: it is open from when it is submitted until the sink settles it,
whatever becomes of the coroutine that awaits it (`Turn`).

A future of `_ends` is named by its task: `delegation_id` draws no id twice.
-/

namespace InFlight

open SessionIds (Str str)
open Delegation (TurnOutcome)

/-- `delegated_conversation_key`. -/
def delegatedConversationKey (taskId : Str) : Str := str "delegated:" ++ taskId

/-- `per_conversation_key`, `none` where it raises. -/
def perConversationKey (asker conversationId : Str) : Option Str :=
  (Sha256.encode (asker ++ 0 :: conversationId)).map fun bytes =>
    delegatedConversationKey (asker ++ str "-" ++ (Sha256.hexdigest bytes).take 16)

example : perConversationKey (str "assistant") (str "d1") =
    some (str "delegated:assistant-e254ac076291fd5c") := by decide +kernel

/-- What a call of `delegate`, or of `ask` (`trusted`), asks for. `keepsOne` is what
`_keeps_one_conversation` says of the asked agent, `awaits` the times `_snapshot` awaits, and
`context` whether the asker's conversation is read for the task. -/
structure Job where
  taskId : Str
  agent : Str
  askerSessionId : Str
  conversationId : Str
  toAgent : Str
  keepsOne : Bool
  trusted : Bool
  context : Bool
  awaits : Nat
  deriving DecidableEq

/-- `_conversation_key`. -/
def Job.conversationKey (job : Job) : Option Str :=
  if job.keepsOne then perConversationKey job.agent job.conversationId
  else some (delegatedConversationKey job.taskId)

/-- `TrustedLink`, without where the asker's conversation is. -/
structure TrustedLink where
  asker : Str
  askerSessionId : Str
  toAgent : Str
  deriving DecidableEq

/-- `_busy`, `_links`, `_ends`, and the futures that are done: those with a result and those that
whoever awaited them cancelled. -/
structure Memory where
  busy : List Str
  links : List (Str × TrustedLink)
  ends : List Str
  resolved : List Str
  givenUp : List Str
  deriving DecidableEq

namespace Memory

def empty : Memory := ⟨[], [], [], [], []⟩

/-- The future of the task is done. -/
def isDone (m : Memory) (taskId : Str) : Bool :=
  m.resolved.contains taskId || m.givenUp.contains taskId

/-- `_links.register`, and the task's future. -/
def register (m : Memory) (key : Str) (job : Job) : Memory :=
  if job.trusted then
    { m with links := Dict.assign key ⟨job.agent, job.askerSessionId, job.toAgent⟩ m.links
             ends := job.taskId :: m.ends }
  else m

/-- The `finally` of `_run`. -/
def release (m : Memory) (key : Str) (job : Job) : Memory :=
  { m with busy := m.busy.filter (· ≠ key)
           links := if job.trusted then Dict.remove key m.links else m.links }

/-- `end = self._ends.pop(entry.id, None)`, and its result. -/
def settle (m : Memory) (taskId : Str) : Memory :=
  { m with ends := m.ends.filter (· ≠ taskId)
           resolved := if m.ends.contains taskId && !m.isDone taskId then taskId :: m.resolved
             else m.resolved }

end Memory

/-- How the sink's turn came to its end. -/
inductive Ended
  | outcome (o : TurnOutcome)
  | raised
  | cancelled
  deriving DecidableEq

inductive Turn
  | unsubmitted
  | running
  | over (e : Ended)
  deriving DecidableEq

/-- Where a task's coroutines are: `delegate` or `ask` before `_resolve` has returned, in
`_snapshot`, in `save_delegation`, in `_transcript`; then `_run` before its first statement, at the
asked agent's turn, at the three awaits with which `_watched` calls it off, and at
`end_delegation`. -/
inductive Point
  | resolving
  | copying (left : Nat)
  | saving
  | reading
  | spawned
  | waiting
  | callingOff
  | stopping
  | draining
  | writing (outcome : TurnOutcome)
  | refused
  | dropped
  | ended
  deriving DecidableEq

/-- The call is past its check and its turn is not submitted yet. -/
def Point.preparing : Point → Bool
  | .copying _ | .saving | .reading | .spawned => true
  | _ => false

/-- `_run` has submitted the turn and not come to its `finally`. -/
def Point.turning : Point → Bool
  | .waiting | .callingOff | .stopping | .draining => true
  | _ => false

/-- `_run` is spawned and not over. -/
def Point.active : Point → Bool
  | .spawned | .waiting | .callingOff | .stopping | .draining | .writing _ => true
  | _ => false

structure Task where
  job : Job
  key : Str
  point : Point
  turn : Turn
  deriving DecidableEq

namespace Task

def goto (t : Task) (p : Point) : Task := { t with point := p }

/-- `_spawn(self._run(..))`, and what `ask` does before it. -/
def spawn (t : Task) (m : Memory) : Memory × Task := (m.register t.key t.job, t.goto .spawned)

/-- `_run` behind its `finally`. -/
def finish (t : Task) (m : Memory) (o : TurnOutcome) : Memory × Task :=
  (m.release t.key t.job, t.goto (.writing o))

/-- `CancelledError` leaves `_run` through its `finally`. -/
def unwind (t : Task) (m : Memory) : Memory × Task := (m.release t.key t.job, t.goto .ended)

/-- The turn came to its end, `caught` where it was an exception. -/
def hear (t : Task) (m : Memory) (caught : TurnOutcome) : Option (Memory × Task) :=
  match t.turn with
  | .over (.outcome o) => some (t.finish m o)
  | .over .raised => some (t.finish m caught)
  | .over .cancelled => some (t.unwind m)
  | .unsubmitted | .running => none

/-- What the coroutine awaits has returned. -/
def resume (t : Task) (m : Memory) : Option (Memory × Task) :=
  match t.point with
  | .resolving =>
    -- `_require_free`
    if t.key ∈ m.busy then some (m, t.goto .refused)
    else some (m, t.goto (match t.job.awaits with | 0 => .saving | n + 1 => .copying n))
  | .copying 0 => some (m, t.goto .saving)
  | .copying (n + 1) => some (m, t.goto (.copying n))
  | .saving => some (if t.job.trusted && t.job.context then (m, t.goto .reading) else t.spawn m)
  | .reading => some (t.spawn m)
  | .spawned =>
    some ({ m with busy := m.busy.insert t.key }, { t with point := .waiting, turn := .running })
  | .waiting => t.hear m .error
  | .callingOff => some (m, t.goto .stopping)
  | .stopping => some (m, t.goto .draining)
  | .draining => t.hear m .stopped
  | .writing _ => some (m.settle t.job.taskId, t.goto .ended)
  | .refused | .dropped | .ended => none

/-- What the coroutine awaits raises, or `submit_tracked` does. -/
def fail (t : Task) (m : Memory) : Option (Memory × Task) :=
  match t.point with
  | .resolving | .copying _ | .saving => some (m, t.goto .dropped)
  -- `_transcript` hands on nothing then
  | .reading => some (t.spawn m)
  | .spawned | .callingOff | .stopping => some (t.finish m .error)
  | .writing _ => some (m, t.goto .ended)
  | .waiting | .draining | .refused | .dropped | .ended => none

/-- The coroutine is cancelled where it is. -/
def cancel (t : Task) (m : Memory) : Option (Memory × Task) :=
  match t.point with
  | .resolving | .copying _ | .saving | .reading => some (m, t.goto .dropped)
  -- a coroutine that has not begun does not come to its `finally`
  | .spawned | .writing _ => some (m, t.goto .ended)
  | .waiting | .callingOff | .stopping | .draining => some (t.unwind m)
  | .refused | .dropped | .ended => none

/-- `_watched` finds that the asker's turn is over. -/
def callOff (t : Task) (m : Memory) : Option (Memory × Task) :=
  if t.point = .waiting ∧ t.job.trusted ∧ t.turn = .running then some (m, t.goto .callingOff)
  else none

/-- The sink settles the turn. -/
def close (t : Task) (e : Ended) (m : Memory) : Option (Memory × Task) :=
  if t.turn = .running then some (m, { t with turn := .over e }) else none

end Task

/-- A task, or a call of `await_answers`: at `gather`, or over. -/
inductive Call
  | task (t : Task)
  | gathering (ids : List Str)
  | gathered
  deriving DecidableEq

abbrev State := Pool Memory Call

/-- What happens to a task. -/
inductive Act
  | resume | fail | cancel | callOff
  | close (e : Ended)
  deriving DecidableEq

def Task.act (t : Task) (m : Memory) : Act → Option (Memory × Task)
  | .resume => t.resume m
  | .fail => t.fail m
  | .cancel => t.cancel m
  | .callOff => t.callOff m
  | .close e => t.close e m

inductive Event
  | call (job : Job) (key : Str)
  | act (i : Nat) (a : Act)
  | await (ids : List Str)
  | wake (j : Nat)
  | giveUp (j : Nat)
  deriving DecidableEq

/-- The tasks so far. -/
def tasks (s : State) : List Task :=
  s.calls.filterMap fun
    | some (.task t) => some t
    | _ => none

def next (s : State) : Event → Option State
  | .call job key =>
    if job.conversationKey = some key ∧ ∀ t ∈ tasks s, t.job.taskId ≠ job.taskId then
      some (s.start (.task ⟨job, key, .resolving, .unsubmitted⟩))
    else none
  | .act i a =>
    match s.calls[i]? with
    | some (some (.task t)) => (t.act s.store a).map fun q => s.put i q.1 (.task q.2)
    | _ => none
  -- of those the records say are running
  | .await ids => some (s.start (.gathering (ids.filter (s.store.ends.contains ·))))
  | .wake j =>
    match s.calls[j]? with
    | some (some (.gathering ids)) =>
      if ids.all s.store.isDone || ids.any (s.store.givenUp.contains ·) then
        some (s.put j s.store .gathered)
      else none
    | _ => none
  | .giveUp j =>
    match s.calls[j]? with
    | some (some (.gathering ids)) =>
      -- `gather` cancels what it awaits
      some (s.put j { s.store with givenUp := ids.filter (!s.store.isDone ·) ++ s.store.givenUp }
        .gathered)
    | _ => none

/-- One engine process, from its start. -/
def lts : Lts State Event where
  init s := s = ⟨.empty, []⟩
  next := next

variable {s s' : State} {e : Event}

theorem mem_tasks {t : Task} : t ∈ tasks s ↔ ∃ i, s.At i (.task t) := by
  rw [tasks, List.mem_filterMap]
  constructor
  · rintro ⟨c, hc, h⟩
    split at h
    · cases h
      exact Pool.at_of_mem hc
    · cases h
  · rintro ⟨i, hi⟩
    exact ⟨_, hi.mem, rfl⟩

/-- What a step does. -/
inductive Step (s : State) : Event → State → Prop
  | call {job : Job} {key : Str} : job.conversationKey = some key →
      (∀ i t, s.At i (.task t) → t.job.taskId ≠ job.taskId) →
      Step s (.call job key) (s.start (.task ⟨job, key, .resolving, .unsubmitted⟩))
  | act {i : Nat} {a : Act} {t t' : Task} {m : Memory} : s.At i (.task t) →
      t.act s.store a = some (m, t') → Step s (.act i a) (s.put i m (.task t'))
  | await {ids : List Str} :
      Step s (.await ids) (s.start (.gathering (ids.filter (s.store.ends.contains ·))))
  | wake {j : Nat} {ids : List Str} : s.At j (.gathering ids) →
      Step s (.wake j) (s.put j s.store .gathered)
  | giveUp {j : Nat} {ids : List Str} : s.At j (.gathering ids) →
      Step s (.giveUp j) (s.put j { s.store with
        givenUp := ids.filter (!s.store.isDone ·) ++ s.store.givenUp } .gathered)

theorem next_step (h : next s e = some s') : Step s e s' := by
  cases e with
  | call job key =>
    simp only [next] at h
    split at h
    · rename_i hc
      cases h
      exact .call hc.1 fun i t hi => hc.2 t (mem_tasks.2 ⟨i, hi⟩)
    · cases h
  | act i a =>
    simp only [next] at h
    split at h
    · rename_i t ht
      obtain ⟨⟨m, t'⟩, hq, rfl⟩ := Option.map_eq_some_iff.1 h
      exact .act ht hq
    · cases h
  | await ids =>
    cases h
    exact .await
  | wake j =>
    simp only [next] at h
    split at h
    · rename_i ids hj
      split at h <;> cases h
      exact .wake hj
    · cases h
  | giveUp j =>
    simp only [next] at h
    split at h
    · rename_i ids hj
      cases h
      exact .giveUp hj
    · cases h

theorem next_act {i : Nat} {t : Task} {a : Act} (hi : s.At i (.task t)) :
    next s (.act i a) = (t.act s.store a).map fun q => s.put i q.1 (.task q.2) := by
  rw [Pool.At] at hi
  simp only [next, hi]

end InFlight
