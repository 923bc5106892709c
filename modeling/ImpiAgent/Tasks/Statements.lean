import ImpiAgent.Tasks.Records
import Mathlib.Data.List.Sort

/-!
# The statements of the task stores

What `store/sqlite/tasks.py` and `store/mongo/tasks.py` issue, one statement each, on the two tables
(collections) they touch. Both backends issue the same ones, with the same filters; they differ in
which of them are one transaction (`Tasks.Call.plan`).

An argument record carries what every caller in `scheduler/service.py` gives: a claim brings an open
run row of the same task and owner, a skip a row that is not running, a verdict is not `running`.
-/

namespace Tasks

/-- The tables `tasks` and `task_runs`. -/
structure Store where
  tasks : Table TaskRecord
  runs : Table TaskRunRecord

/-- What `claim_due` is given. -/
structure ClaimArgs where
  taskId : TaskId
  seenDueAt : Option Time
  nextRunAt : Option Time
  dueAt : Option Time
  run : TaskRunRecord
  owner : SchedulerId
  leaseUntil : Time
  now : Time
  runTask : run.taskId = taskId
  runOwner : run.owner = owner
  runOpen : run.status = .running ∧ run.finishedAt = none
  deriving DecidableEq

/-- What `record_skip` is given. -/
structure SkipArgs where
  taskId : TaskId
  seenDueAt : Option Time
  run : TaskRunRecord
  nextRunAt : Option Time
  dueAt : Option Time
  now : Time
  runTask : run.taskId = taskId
  runEnded : run.status ≠ .running
  deriving DecidableEq

/-- What `complete_run` is given. -/
structure CompleteArgs where
  runId : RunId
  taskId : TaskId
  status : RunStatus
  finishedAt : Time
  durationMs : Int
  detail : String
  replyChars : Nat
  toolCalls : Nat
  failed : Bool
  releaseState : State
  ended : status ≠ .running
  released : releaseState ≠ .running
  deriving DecidableEq

/-- What `reclaim_orphans` is given. -/
structure ReclaimArgs where
  schedulerId : SchedulerId
  now : Time
  deriving DecidableEq

/-- The detail `reclaim_orphans` writes. -/
def interruptedDetail : String := "the engine stopped while this run was in flight"

/-! ## What a statement makes of a row -/

/-- `SET` of the claim. -/
def TaskRecord.claim (a : ClaimArgs) (t : TaskRecord) : TaskRecord :=
  { t with
    state := .running, claimOwner := some a.owner, claimAt := some a.now,
    leaseUntil := some a.leaseUntil, nextRunAt := a.nextRunAt, dueAt := a.dueAt,
    lastRunAt := some a.now, updatedAt := a.now, runCount := t.runCount + 1 }

/-- `SET` of the skip. -/
def TaskRecord.skip (a : SkipArgs) (t : TaskRecord) : TaskRecord :=
  { t with
    nextRunAt := a.nextRunAt, dueAt := a.dueAt, lastStatus := some a.run.status,
    updatedAt := a.now, missCount := t.missCount + 1 }

/-- `SET` of the release that follows a verdict. -/
def TaskRecord.release (a : CompleteArgs) (t : TaskRecord) : TaskRecord :=
  { t with
    state := a.releaseState, claimOwner := none, leaseUntil := none,
    lastStatus := some a.status, updatedAt := a.finishedAt,
    consecutiveFailures := if a.failed then t.consecutiveFailures + 1 else 0 }

/-- `SET` of the release that follows an interruption. -/
def TaskRecord.idle (now : Time) (t : TaskRecord) : TaskRecord :=
  { t with
    state := .idle, claimOwner := none, leaseUntil := none, lastStatus := some .interrupted,
    updatedAt := now, consecutiveFailures := t.consecutiveFailures + 1 }

/-- `SET` of pause, resume, run-now and reschedule: the pair, and the state where one is given. -/
def TaskRecord.schedule (state : Option State) (next due : Option Time) (now : Time)
    (t : TaskRecord) : TaskRecord :=
  { t with state := state.getD t.state, nextRunAt := next, dueAt := due, updatedAt := now }

/-- `SET` of the verdict. -/
def TaskRunRecord.close (a : CompleteArgs) (r : TaskRunRecord) : TaskRunRecord :=
  { r with
    status := a.status, finishedAt := some a.finishedAt, durationMs := a.durationMs,
    detail := a.detail, replyChars := a.replyChars, toolCalls := a.toolCalls }

/-- `SET` of the interruption. -/
def TaskRunRecord.interrupt (now : Time) (r : TaskRunRecord) : TaskRunRecord :=
  { r with status := .interrupted, finishedAt := some now, detail := interruptedDetail }

namespace Store

/-- `UPDATE tasks SET f WHERE id = ? AND p`. -/
def updateTask (s : Store) (id : TaskId) (p : TaskRecord → Bool) (f : TaskRecord → TaskRecord)
    (hf : ∀ t, (f t).id = t.id) : Store :=
  { s with tasks := s.tasks.update (fun t => t.id == id && p t) f (task_key hf) }

/-- `UPDATE task_runs SET f WHERE run_id = ? AND p`. -/
def updateRun (s : Store) (id : RunId) (p : TaskRunRecord → Bool)
    (f : TaskRunRecord → TaskRunRecord)
    (hf : ∀ r, (f r).runId = r.runId ∧ (f r).occurrence = r.occurrence) : Store :=
  { s with runs := s.runs.update (fun r => r.runId == id && p r) f (run_key hf) }

/-- Some task row is matched by `id = ? AND p`. -/
def hasTask (s : Store) (id : TaskId) (p : TaskRecord → Bool) : Bool :=
  s.tasks.rows.any fun t => t.id == id && p t

def hasRun (s : Store) (id : RunId) (p : TaskRunRecord → Bool) : Bool :=
  s.runs.rows.any fun r => r.runId == id && p r

/-- `state = idle AND due_at IS NOT NULL AND due_at = ?`. -/
def claimable (seen : Option Time) (t : TaskRecord) : Bool :=
  t.state == .idle && t.dueAt.isSome && t.dueAt == seen

/-- `due_at IS NOT NULL AND due_at = ?`. -/
def dueStill (seen : Option Time) (t : TaskRecord) : Bool := t.dueAt.isSome && t.dueAt == seen

/-- `INSERT INTO task_runs`; `none` is the integrity error. -/
def insertRun (s : Store) (r : TaskRunRecord) : Option Store :=
  (s.runs.insert r).map fun runs => { s with runs }

/-- The compare-and-swap of `claim_due`; `none` where it matches nothing. -/
def claimTask (s : Store) (a : ClaimArgs) : Option Store :=
  if s.hasTask a.taskId (claimable a.seenDueAt) then
    some (s.updateTask a.taskId (claimable a.seenDueAt) (·.claim a) fun _ => rfl)
  else none

/-- The compare-and-swap of `record_skip`. -/
def advanceTask (s : Store) (a : SkipArgs) : Option Store :=
  if s.hasTask a.taskId (dueStill a.seenDueAt) then
    some (s.updateTask a.taskId (dueStill a.seenDueAt) (·.skip a) fun _ => rfl)
  else none

/-- `delete_one({"run_id": …})`. -/
def deleteRun (s : Store) (id : RunId) : Store :=
  { s with runs := s.runs.delete (·.runId == id) }

/-- The first write of `complete_run`; `none` where the run is not running any more. -/
def closeRun (s : Store) (a : CompleteArgs) : Option Store :=
  if s.hasRun a.runId (·.status == .running) then
    some (s.updateRun a.runId (·.status == .running) (·.close a) fun _ => ⟨rfl, rfl⟩)
  else none

/-- The second write of `complete_run`. -/
def releaseTask (s : Store) (a : CompleteArgs) : Store :=
  s.updateTask a.taskId (fun _ => true) (·.release a) fun _ => rfl

/-- The first write of `reclaim_orphans` for one orphan. -/
def interruptRun (s : Store) (orphan : TaskRunRecord) (now : Time) : Store :=
  s.updateRun orphan.runId (fun _ => true) (·.interrupt now) fun _ => ⟨rfl, rfl⟩

/-- The second write of `reclaim_orphans` for one orphan. -/
def idleTask (s : Store) (orphan : TaskRunRecord) (now : Time) : Store :=
  s.updateTask orphan.taskId (·.state == .running) (·.idle now) fun _ => rfl

/-- `set_paused`; `none` where no row matches. -/
def setPaused (s : Store) (id : TaskId) (paused : Bool) (next due : Option Time) (now : Time) :
    Option Store :=
  if s.hasTask id (·.state != .running) then
    some (s.updateTask id (·.state != .running)
      (·.schedule (some (if paused then .paused else .idle)) next due now) fun _ => rfl)
  else none

/-- `request_run_now`; `none` where no row matches. -/
def requestRunNow (s : Store) (id : TaskId) (now : Time) : Option Store :=
  if s.hasTask id (·.state == .idle) then
    some (s.updateTask id (·.state == .idle) (·.schedule none (some now) (some now) now)
      fun _ => rfl)
  else none

/-- `reschedule`: no token, no guard. -/
def reschedule (s : Store) (id : TaskId) (next due : Option Time) (now : Time) : Store :=
  s.updateTask id (fun _ => true) (·.schedule none next due now) fun _ => rfl

/-- `create_task`; `none` is the integrity error. -/
def createTask (s : Store) (t : TaskRecord) : Option Store :=
  (s.tasks.insert t).map fun tasks => { s with tasks }

/-- `DELETE FROM tasks WHERE id = ?`; `none` where there is no such task. -/
def deleteTask (s : Store) (id : TaskId) : Option Store :=
  if s.hasTask id fun _ => true then some { s with tasks := s.tasks.delete (·.id == id) }
  else none

/-- `DELETE FROM task_runs WHERE task_id = ?`. -/
def deleteRuns (s : Store) (id : TaskId) : Store :=
  { s with runs := s.runs.delete (·.taskId == id) }

/-- The deletion of `prune_runs`: finished before `before` and not among the runs to keep. -/
def pruneRuns (s : Store) (before : Time) (keep : List RunId) : Store :=
  { s with runs := s.runs.delete fun r => r.finishedAt.any (· < before) && !keep.contains r.runId }

/-- `mark_notified`. -/
def markNotified (s : Store) (id : RunId) : Store :=
  s.updateRun id (fun _ => true) (fun r => { r with notified := true }) fun _ => ⟨rfl, rfl⟩

end Store

/-- A statement that writes. -/
inductive Statement
  | insertRun (r : TaskRunRecord)
  | claimTask (a : ClaimArgs)
  | advanceTask (a : SkipArgs)
  | deleteRun (id : RunId)
  | closeRun (a : CompleteArgs)
  | releaseTask (a : CompleteArgs)
  | interruptRun (orphan : TaskRunRecord) (now : Time)
  | idleTask (orphan : TaskRunRecord) (now : Time)
  | setPaused (id : TaskId) (paused : Bool) (next due : Option Time) (now : Time)
  | requestRunNow (id : TaskId) (now : Time)
  | reschedule (id : TaskId) (next due : Option Time) (now : Time)
  | createTask (t : TaskRecord)
  | deleteTask (id : TaskId)
  | deleteRuns (id : TaskId)
  | pruneRuns (before : Time) (keep : List RunId)
  | markNotified (id : RunId)

/-- What a statement does; `none` where it fails or matches nothing and the code minds. -/
def Statement.apply : Statement → Store → Option Store
  | insertRun r, s => s.insertRun r
  | claimTask a, s => s.claimTask a
  | advanceTask a, s => s.advanceTask a
  | deleteRun id, s => some (s.deleteRun id)
  | closeRun a, s => s.closeRun a
  | releaseTask a, s => some (s.releaseTask a)
  | interruptRun r now, s => some (s.interruptRun r now)
  | idleTask r now, s => some (s.idleTask r now)
  | setPaused id paused next due now, s => s.setPaused id paused next due now
  | requestRunNow id now, s => s.requestRunNow id now
  | reschedule id next due now, s => some (s.reschedule id next due now)
  | createTask t, s => s.createTask t
  | deleteTask id, s => s.deleteTask id
  | deleteRuns id, s => some (s.deleteRuns id)
  | pruneRuns before keep, s => some (s.pruneRuns before keep)
  | markNotified id, s => some (s.markNotified id)

namespace Store

/-! ## Reads -/

/-- `due_tasks`: due by `horizon`, soonest first. -/
def dueTasks (s : Store) (horizon : Time) (limit : Nat) : List TaskRecord :=
  ((s.tasks.select fun t => (t.state == .idle || t.state == .running) &&
      t.dueAt.any (· ≤ horizon)).insertionSort
    fun t u => t.dueAt.getD 0 ≤ u.dueAt.getD 0).take limit

/-- The runs a reclaim looks at. -/
def runningRuns (s : Store) : List TaskRunRecord := s.runs.select (·.status == .running)

/-- `_lease_expired`. A task that is gone counts as expired. -/
def leaseExpired (s : Store) (run : TaskRunRecord) (now : Time) : Bool :=
  match s.tasks.find? (·.id == run.taskId) with
  | none => true
  | some t => t.leaseUntil.any (· ≤ now)

/-- The newest `keep` runs of a task. -/
def newestRuns (s : Store) (id : TaskId) (keep : Nat) : List RunId :=
  (((s.runs.select (·.taskId == id)).insertionSort
    fun r u => u.scheduledAt ≤ r.scheduledAt).take keep).map (·.runId)

/-- `distinct("task_id")` over the runs. -/
def runTasks (s : Store) : List TaskId := (s.runs.rows.map (·.taskId)).eraseDups

end Store

end Tasks
