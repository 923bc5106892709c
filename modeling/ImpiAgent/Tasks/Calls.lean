import ImpiAgent.Lib.Plan
import ImpiAgent.Store.Backend
import ImpiAgent.Tasks.Statements

/-!
# The methods of the task stores, step by step

A `Call` is one call of a store method at one of its await points, with the arguments and the values
it has read; what it returned can be read off where it ends. `Call.plan` says for both backends what
each point issues next: SQLite commits `claim_due`, `record_skip`, `complete_run` and the writes of
`reclaim_orphans` as one transaction each, and reads outside of it; MongoDB writes one document at
a time, and undoes a claim whose second write finds the task moved on.
-/

namespace Tasks

/-- What a `Scheduler` is built with, as far as a tick reads it. -/
structure Engine where
  id : SchedulerId
  startedAt : Moment
  tick : Int
  startupGrace : Int
  lease : Int
  watches : Bool
  deriving DecidableEq

/-- One pass of an engine's loop. -/
structure Tick where
  engine : Engine
  now : Moment
  deriving DecidableEq

/-- How far `tick` reads ahead. -/
def Tick.horizon (k : Tick) : Time := Clock.toIso (k.now + k.engine.tick)

/-- The limit of `due_tasks`. -/
def dueLimit : Nat := 50

/-- What `prune_runs` is given. -/
structure PruneArgs where
  keepPerTask : Nat
  before : Time
  deriving DecidableEq

/-- A call of a store method, by the point it is at. -/
inductive Call
  | dueTasks (k : Tick)
  | gotDue (k : Tick) (rows : List TaskRecord)
  | claimDue (a : ClaimArgs)
  | claimSwap (a : ClaimArgs)
  | claimUndo (a : ClaimArgs)
  | claimed (a : ClaimArgs)
  | claimRefused (a : ClaimArgs)
  | recordSkip (a : SkipArgs)
  | skipSwap (a : SkipArgs)
  | skipUndo (a : SkipArgs)
  | skipped (a : SkipArgs)
  | skipRefused (a : SkipArgs)
  | completeRun (a : CompleteArgs)
  | completeRelease (a : CompleteArgs)
  | completed (a : CompleteArgs)
  | completeRefused (a : CompleteArgs)
  | reclaimOrphans (a : ReclaimArgs)
  | reclaimLeases (a : ReclaimArgs) (todo orphans : List TaskRunRecord)
  | reclaimCommit (a : ReclaimArgs) (orphans : List TaskRunRecord)
  | reclaimRun (a : ReclaimArgs) (orphan : TaskRunRecord) (todo orphans : List TaskRunRecord)
  | reclaimTask (a : ReclaimArgs) (orphan : TaskRunRecord) (todo orphans : List TaskRunRecord)
  | reclaimed (a : ReclaimArgs) (orphans : List TaskRunRecord)
  | setPaused (id : TaskId) (paused : Bool) (next due : Option Time) (now : Time)
  | requestRunNow (id : TaskId) (now : Time)
  | reschedule (id : TaskId) (next due : Option Time) (now : Time)
  | createTask (t : TaskRecord)
  | deleteTask (id : TaskId)
  | deleteRuns (id : TaskId)
  | pruneRuns (a : PruneArgs)
  | pruneKeep (a : PruneArgs) (todo : List TaskId) (keep : List RunId)
  | markNotified (id : RunId)
  | done (matched : Bool)
  deriving DecidableEq

/-- The orphan predicate of `reclaim_orphans`. -/
def Store.isOrphan (a : ReclaimArgs) (s : Store) (r : TaskRunRecord) : Bool :=
  r.owner != a.schedulerId || s.leaseExpired r a.now

/-- The loop over the orphans. -/
def nextOrphan (a : ReclaimArgs) (orphans : List TaskRunRecord) : List TaskRunRecord → Call
  | [] => .reclaimed a orphans
  | r :: todo => .reclaimRun a r todo orphans

/-- The two writes for one orphan. -/
def reclaimWrites (now : Time) (r : TaskRunRecord) : List Statement :=
  [.interruptRun r now, .idleTask r now]

theorem mem_reclaim_writes {now : Time} {orphans : List TaskRunRecord} {q : Statement} :
    q ∈ orphans.flatMap (reclaimWrites now) ↔
      ∃ r ∈ orphans, q = .interruptRun r now ∨ q = .idleTask r now := by
  simp [reclaimWrites]

/-- The newest runs of every task. -/
def Store.keepRuns (s : Store) (a : PruneArgs) : List RunId :=
  s.runTasks.flatMap (s.newestRuns · a.keepPerTask)

open Plan in
/-- What a call issues next; `none` at its end. -/
def Call.plan (b : Backend) : Call → Store → Option (Plan Statement Call)
  | .dueTasks k, s => some (read (.gotDue k (s.dueTasks k.horizon dueLimit)))
  | .claimDue a, _ =>
    match b with
    | .sqlite => some ⟨[.claimTask a, .insertRun a.run], .claimed a, .claimRefused a⟩
    | .mongo => some ⟨[.insertRun a.run], .claimSwap a, .claimRefused a⟩
  | .claimSwap a, _ => some ⟨[.claimTask a], .claimed a, .claimUndo a⟩
  | .claimUndo a, _ => some (write [.deleteRun a.run.runId] (.claimRefused a))
  | .recordSkip a, _ =>
    match b with
    | .sqlite => some ⟨[.advanceTask a, .insertRun a.run], .skipped a, .skipRefused a⟩
    | .mongo => some ⟨[.insertRun a.run], .skipSwap a, .skipRefused a⟩
  | .skipSwap a, _ => some ⟨[.advanceTask a], .skipped a, .skipUndo a⟩
  | .skipUndo a, _ => some (write [.deleteRun a.run.runId] (.skipRefused a))
  | .completeRun a, _ =>
    match b with
    | .sqlite => some ⟨[.closeRun a, .releaseTask a], .completed a, .completeRefused a⟩
    | .mongo => some ⟨[.closeRun a], .completeRelease a, .completeRefused a⟩
  | .completeRelease a, _ => some (write [.releaseTask a] (.completed a))
  | .reclaimOrphans a, s => some (read (.reclaimLeases a s.runningRuns []))
  | .reclaimLeases a todo orphans, s =>
    match b with
    | .sqlite =>
      match todo with
      | [] => some (read (if orphans.isEmpty then .reclaimed a [] else .reclaimCommit a orphans))
      | r :: todo =>
        some (read (.reclaimLeases a todo (if s.isOrphan a r then orphans ++ [r] else orphans)))
    | .mongo => some (read (nextOrphan a (todo.filter (s.isOrphan a)) (todo.filter (s.isOrphan a))))
  | .reclaimCommit a orphans, _ =>
    some (write (orphans.flatMap (reclaimWrites a.now)) (.reclaimed a orphans))
  | .reclaimRun a r todo orphans, _ =>
    some (write [.interruptRun r a.now] (.reclaimTask a r todo orphans))
  | .reclaimTask a r todo orphans, _ =>
    some (write [.idleTask r a.now] (nextOrphan a orphans todo))
  | .setPaused id paused next due now, _ =>
    some ⟨[.setPaused id paused next due now], .done true, .done false⟩
  | .requestRunNow id now, _ => some ⟨[.requestRunNow id now], .done true, .done false⟩
  | .reschedule id next due now, _ => some (write [.reschedule id next due now] (.done true))
  | .createTask t, _ => some ⟨[.createTask t], .done true, .done false⟩
  | .deleteTask id, _ =>
    match b with
    | .sqlite => some ⟨[.deleteRuns id, .deleteTask id], .done true, .done false⟩
    | .mongo => some ⟨[.deleteTask id], .deleteRuns id, .done false⟩
  | .deleteRuns id, _ => some (write [.deleteRuns id] (.done true))
  | .pruneRuns a, s =>
    match b with
    | .sqlite => some (write [.pruneRuns a.before (s.keepRuns a)] (.done true))
    | .mongo => some (read (.pruneKeep a s.runTasks []))
  | .pruneKeep a todo keep, s =>
    match todo with
    | [] => some (write [.pruneRuns a.before keep] (.done true))
    | id :: todo => some (read (.pruneKeep a todo (keep ++ s.newestRuns id a.keepPerTask)))
  | .markNotified id, _ => some (write [.markNotified id] (.done true))
  | .gotDue .., _ | .claimed _, _ | .claimRefused _, _ | .skipped _, _ | .skipRefused _, _
  | .completed _, _ | .completeRefused _, _ | .reclaimed .., _ | .done _, _ => none

/-- The next transaction of a call. -/
def Call.step (b : Backend) : Call → Store → Option (Store × Call) :=
  Plan.machine Statement.apply (Call.plan b)

/-- The call has returned. -/
def Call.ended : Call → Bool
  | .gotDue .. | .claimed _ | .claimRefused _ | .skipped _ | .skipRefused _ | .completed _
  | .completeRefused _ | .reclaimed .. | .done _ => true
  | _ => false

/-- A call that has not returned issues something. -/
theorem plan_of_not_ended {b : Backend} {k : Call} (h : k.ended = false) (s : Store) :
    ∃ p, k.plan b s = some p := by
  cases k <;> simp only [Call.ended, Bool.true_eq_false] at h <;> unfold Call.plan <;>
    cases b <;> simp only [Option.some.injEq, exists_eq'] <;> split <;> simp

end Tasks
