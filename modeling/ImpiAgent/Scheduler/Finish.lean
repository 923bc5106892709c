import ImpiAgent.Tasks.Proof.Verdict
import Mathlib.Logic.Function.Basic

/-!
# The end of a run, and the cap on failures

`Scheduler._finish` of `scheduler/service.py`: what it writes for a run that came to `Outcome`, from
the row the tick had read before it claimed. `Finish.lts` is `Tasks.lts` whose verdicts are those of
`_finish`: `copies` has that row for the calls made of it.

`ends` and `person` are kept beside, and nothing reads them: of each task the ends of its runs so far,
whether in failure, the last one first (a verdict and an interruption end a run that is running), and
the tasks a person has paused or resumed since.
-/

namespace Finish

open Tasks Triggers Scheduler

structure Settings where
  maxFailures : Nat
  positive : 0 < maxFailures

/-- What `_finish` is told of a run. -/
structure Outcome where
  status : RunStatus
  finishedAt : Time
  durationMs : Int
  detail : String
  replyChars : Nat
  toolCalls : Nat
  ended : status ≠ .running

/-- `status not in _SUCCEEDED and status not in _ENDED`. -/
def failed : RunStatus → Bool
  | .ok | .gone | .stopped | .notAdmitted => false
  | _ => true

/-- `_released_state`. -/
def releasedState (task : TaskRecord) : Tasks.State :=
  if task.nextRunAt.isSome then .idle else .done

/-- One more failure would reach the cap. -/
def capped (D : Settings) (task : TaskRecord) : Bool := D.maxFailures ≤ task.consecutiveFailures + 1

/-- `final`: every claim of a watch is for its last occurrence. -/
def final (task : TaskRecord) : Bool := task.mode == .watch

def release (D : Settings) (task : TaskRecord) (status : RunStatus) : Tasks.State :=
  if failed status && capped D task then .paused
  else if final task then .done
  else releasedState task

theorem release_ne {D : Settings} {task : TaskRecord} {status : RunStatus} :
    release D task status ≠ .running := by
  unfold release releasedState
  (repeat' split) <;> decide

/-- What `_finish` gives `complete_run`. -/
def completeArgs (D : Settings) (task : TaskRecord) (c : ClaimArgs) (o : Outcome) : CompleteArgs where
  runId := c.run.runId
  taskId := c.taskId
  status := o.status
  finishedAt := o.finishedAt
  durationMs := o.durationMs
  detail := o.detail
  replyChars := o.replyChars
  toolCalls := o.toolCalls
  failed := failed o.status
  releaseState := release D task o.status
  ended := o.ended
  released := release_ne

structure State where
  config : Config
  copies : Nat → Option TaskRecord
  ends : TaskId → List Bool
  person : List TaskId

abbrev State.store (s : State) : Store := s.config.store

abbrev State.At (s : State) (i : Nat) (k : Call) : Prop := s.config.pool.At i k

inductive Label
  | finish (i : Nat) (o : Outcome)
  | task (e : Tasks.Label)

/-- The runs a call's next transaction ends, by their tasks, and whether in failure. -/
def ending (k : Call) (s : Store) : List (TaskId × Bool) :=
  match k with
  | .completeRun a => if s.hasRun a.runId (·.status == .running) then [(a.taskId, a.failed)] else []
  | k => (k.interrupts.filter fun o => s.hasRun o.runId (·.status == .running)).map (·.taskId, true)

/-- The task that a person's call pauses or resumes. -/
def setting (k : Call) (s : Store) : List TaskId :=
  match k with
  | .setPaused id _ _ _ _ => if s.hasTask id (·.state != .running) then [id] else []
  | _ => []

/-- The ends of the runs of a task, with those of `l` last. -/
def record (ends : TaskId → List Bool) (l : List (TaskId × Bool)) (id : TaskId) : List Bool :=
  ((l.filter (·.1 == id)).map (·.2)).reverse ++ ends id

/-- The call of a label that begins one is made of this row. -/
def copyOf (s : State) : Tasks.Label → Option TaskRecord
  | .dispatch _ t _ _ => some t
  | .finish i _ => s.copies i
  | _ => none

/-- What a label of the task store's calls makes of the rest. -/
def follow (s : State) (config : Config) : Tasks.Label → State
  | .exec i =>
    match s.config.pool.calls[i]? with
    | some (some k) =>
      { s with
        config
        ends := record s.ends (ending k s.store)
        person := setting k s.store ++
          s.person.filter fun id => (ending k s.store).all (·.1 != id) }
    | _ => { s with config }
  | .crash _ => { s with config }
  | e => { s with
    config, copies := Function.update s.copies s.config.pool.calls.length (copyOf s e) }

/-- The label of the task store. -/
def issue (D : Settings) (s : State) : Label → Option Tasks.Label
  | .finish i o =>
    match s.config.pool.calls[i]?, s.copies i with
    | some (some (.claimed c)), some t => some (.finish i (completeArgs D t c o))
    | _, _ => none
  | .task (.finish ..) => none
  | .task e => some e

def next (D : Settings) (cal : Calendar) (b : Backend) (s : State) (e : Label) : Option State :=
  (issue D s e).bind fun l => (Tasks.next cal b s.config l).map fun config => follow s config l

/-- The system, from an empty store. -/
def lts (D : Settings) (cal : Calendar) (b : Backend) : Lts State Label where
  init s := s = ⟨⟨⟨⟨.empty, .empty⟩, []⟩, [], []⟩, fun _ => none, fun _ => [], []⟩
  next := next D cal b

/-- The failures in a row at the end. -/
def streak (ends : List Bool) : Nat := (ends.takeWhile id).length

/-- The last `n` runs all failed. -/
def lastFailed (n : Nat) (ends : List Bool) : Bool := n ≤ ends.length && (ends.take n).all id

@[simp] theorem streak_failed (ends : List Bool) : streak (true :: ends) = streak ends + 1 := rfl

@[simp] theorem streak_other (ends : List Bool) : streak (false :: ends) = 0 := rfl

theorem last_failed_iff {n : Nat} {ends : List Bool} :
    lastFailed n ends = true ↔ n ≤ streak ends := by
  induction n generalizing ends with
  | zero => simp [lastFailed]
  | succ n ih =>
    cases ends with
    | nil => simp [lastFailed, streak]
    | cons x ends =>
      cases x
      · simp [lastFailed]
      · rw [streak_failed, Nat.add_le_add_iff_right, ← ih]
        simp [lastFailed]

end Finish
