import ImpiAgent.Lib.Table
import ImpiAgent.Store.Clock

/-!
# Scheduled tasks and their run rows

The records of `store/base.py` that the task stores keep. Ids are opaque tokens the code only
compares, here numbers. `nextRunAt` and `dueAt` are `none` where the column is NULL, the other
optional columns where it is `''`.
-/

namespace Tasks

abbrev TaskId := Nat
abbrev RunId := Nat

/-- `Scheduler._id`: new on every process start. -/
abbrev SchedulerId := Nat

/-- `TRIGGER_KINDS`. -/
inductive TriggerKind
  | triggerAt | triggerEvery | triggerCron
  deriving DecidableEq, Repr

/-- `MODES`. -/
inductive Mode
  | turn | prompt | watch
  deriving DecidableEq, Repr

/-- A task's own state. -/
inductive State
  | idle | running | paused | done
  deriving DecidableEq, Repr

/-- `RUN_STATUSES`: what a scheduled occurrence came to. -/
inductive RunStatus
  | running | ok | empty | timeout | error | deadline | interrupted | noAgent | noConversation
  | missed | overlap | cancelled | duplicate | gone | stopped | notAdmitted
  deriving DecidableEq, Repr

/-- Why an occurrence fired. -/
inductive Triggered
  | schedule | catchup | manual
  deriving DecidableEq, Repr

/-- `ON_MISSED_RUN`, `ON_MISSED_SKIP`. -/
inductive OnMissed
  | run | skip
  deriving DecidableEq, Repr

/-- One scheduled task. An interval is never zero: `parse_trigger` and `watch_in` refuse short
ones. -/
structure TaskRecord where
  id : TaskId
  agent : String
  mode : Mode
  triggerKind : TriggerKind
  intervalS : Nat
  cronExpr : String
  timezone : String
  anchorAt : Time
  nextRunAt : Option Time
  dueAt : Option Time
  jitterS : Nat
  state : State
  claimOwner : Option SchedulerId
  claimAt : Option Time
  leaseUntil : Option Time
  onMissed : OnMissed
  updatedAt : Time
  lastRunAt : Option Time
  lastStatus : Option RunStatus
  runCount : Nat
  missCount : Nat
  consecutiveFailures : Nat
  watchKey : String
  expiresAt : Option Time
  interval : triggerKind = .triggerEvery → 0 < intervalS
  deriving DecidableEq

/-- One occurrence, ever, including the ones that never started. -/
structure TaskRunRecord where
  runId : RunId
  taskId : TaskId
  agent : String
  scheduledAt : Time
  startedAt : Option Time
  finishedAt : Option Time
  status : RunStatus
  trigger : Triggered
  owner : SchedulerId
  durationMs : Int
  detail : String
  replyChars : Nat
  toolCalls : Nat
  coalesced : Nat
  notified : Bool
  deriving DecidableEq

/-- The occurrence a run row is for, `idx_runs_occurrence`. -/
def TaskRunRecord.occurrence (r : TaskRunRecord) : TaskId × Time := (r.taskId, r.scheduledAt)

/-- Primary key `id`. -/
instance : Keyed TaskRecord where
  clash t u := t.id == u.id
  refl _ := beq_self_eq_true _
  symm _ _ := Bool.beq_comm

/-- Primary key `run_id`, unique `(task_id, scheduled_at)`. -/
instance : Keyed TaskRunRecord where
  clash r u := r.runId == u.runId || r.occurrence == u.occurrence
  refl _ := by simp
  symm _ _ := by rw [Bool.beq_comm, Bool.beq_comm (a := TaskRunRecord.occurrence _)]

theorem task_clash {t u : TaskRecord} : clash t u = true ↔ t.id = u.id := beq_iff_eq

theorem run_clash {r u : TaskRunRecord} :
    clash r u = true ↔ r.runId = u.runId ∨ r.occurrence = u.occurrence := by
  show (r.runId == u.runId || r.occurrence == u.occurrence) = true ↔ _
  simp

theorem task_key {f : TaskRecord → TaskRecord} (hf : ∀ t, (f t).id = t.id) (t u : TaskRecord) :
    clash (f t) u = clash t u := by
  show ((f t).id == u.id) = (t.id == u.id)
  rw [hf]

theorem run_key {f : TaskRunRecord → TaskRunRecord}
    (hf : ∀ r, (f r).runId = r.runId ∧ (f r).occurrence = r.occurrence) (r u : TaskRunRecord) :
    clash (f r) u = clash r u := by
  show ((f r).runId == u.runId || (f r).occurrence == u.occurrence) =
    (r.runId == u.runId || r.occurrence == u.occurrence)
  rw [(hf r).1, (hf r).2]

/-- Two task rows with one id are one row. -/
theorem task_unique {T : Table TaskRecord} {t u : TaskRecord} (ht : t ∈ T) (hu : u ∈ T)
    (h : t.id = u.id) : t = u := Table.unique ht hu (task_clash.2 h)

theorem run_unique {T : Table TaskRunRecord} {r u : TaskRunRecord} (hr : r ∈ T) (hu : u ∈ T)
    (h : r.runId = u.runId) : r = u := Table.unique hr hu (run_clash.2 (.inl h))

/-- At most one row for an occurrence. -/
theorem occurrence_unique {T : Table TaskRunRecord} {r u : TaskRunRecord} (hr : r ∈ T)
    (hu : u ∈ T) (h : r.occurrence = u.occurrence) : r = u :=
  Table.unique hr hu (run_clash.2 (.inr h))

end Tasks
