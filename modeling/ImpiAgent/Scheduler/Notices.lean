import ImpiAgent.Lib.Lts
import ImpiAgent.Lib.Pool
import ImpiAgent.Tasks.Statements

/-!
# Telling people how a run ended

`Scheduler._deliver_notices`, which the tick and the end of every run call: a pass reads the oldest
runs whose notice is owed (`unnotified_runs`), and announces and marks them one after the other. A
pass is at one of its awaits; beside the passes the store is written by any statement of any engine
but `mark_notified`, in any order, where a run inserted has an id nobody has drawn before.

What a task says of its notices is fixed when it is created (`Wording`). `Pass` keeps what it read
and did, and `pruned` the runs `prune_runs` deleted while their notice was owed; nothing reads these.
-/

namespace Notices

open Tasks

/-- `NOTIFY_MODES`. -/
inductive Notify
  | failures | always | never
  deriving DecidableEq

/-- Of a task, what its notices say. -/
structure Wording where
  name : String
  notify : Notify

structure Deployment where
  wording : TaskId → Wording
  maxFailures : Nat

/-! ## What is said -/

/-- The status as the store spells it. -/
def statusText : RunStatus → String
  | .running => "running"
  | .ok => "ok"
  | .empty => "empty"
  | .timeout => "timeout"
  | .error => "error"
  | .deadline => "deadline"
  | .interrupted => "interrupted"
  | .noAgent => "no_agent"
  | .noConversation => "no_conversation"
  | .missed => "missed"
  | .overlap => "overlap"
  | .cancelled => "cancelled"
  | .duplicate => "duplicate"
  | .gone => "gone"
  | .stopped => "stopped"
  | .notAdmitted => "not_admitted"

/-- `_FLOW_REPORTED`: the turn said it in the conversation. -/
def flowReported : RunStatus → Bool
  | .timeout | .error | .empty | .stopped | .notAdmitted => true
  | _ => false

def reason (label detail : String) (status : RunStatus) : String :=
  let task := "⏰ Scheduled task " ++ label
  match status with
  | .missed => task ++ " did not run: " ++ detail ++ "."
  | .overlap => task ++ " was skipped: " ++ detail ++ "."
  | .deadline => task ++ " hit its time limit: " ++ detail ++ "."
  | .interrupted => task ++ " was cut short: " ++ detail ++ "."
  | .noAgent => task ++ " could not start: " ++ detail ++ "."
  | .cancelled => task ++ " was cancelled: " ++ detail ++ "."
  | .stopped => task ++ " was stopped by a person before it finished."
  | .gone => "⏰ Watch " ++ label ++ " ended: " ++ detail ++ "."
  | status => task ++ " failed: " ++ (if detail = "" then statusText status else detail) ++ "."

/-- `_notice_for`: `""` to stay quiet. -/
def noticeFor (D : Deployment) (task : Option TaskRecord) (run : TaskRunRecord) : String :=
  match task with
  | none => ""
  | some task =>
    let wording := D.wording task.id
    let label := "«" ++ wording.name ++ "»"
    if wording.notify = .never then ""
    else if run.status = .ok then
      if wording.notify = .always then "⏰ Scheduled task " ++ label ++ " ran." else ""
    else if task.mode ≠ .prompt ∧ flowReported run.status then ""
    else
      let text := reason label run.detail run.status
      if task.state = .paused ∧ D.maxFailures ≤ task.consecutiveFailures then
        text ++ "\nPaused after " ++ toString D.maxFailures ++ " failures in a row — it will not " ++
          "run again until you resume it (task " ++ toString task.id ++ ")."
      else text

/-! ## Passes -/

/-- A terminal run nobody has been told about. -/
def owed (r : TaskRunRecord) : Bool := r.status ≠ .running && !r.notified

/-- `ORDER BY finished_at`, where `''` comes first. -/
def finishedLe (r u : TaskRunRecord) : Bool :=
  match r.finishedAt, u.finishedAt with
  | none, _ => true
  | some _, none => false
  | some x, some y => x ≤ y

/-- The limit of `unnotified_runs`. -/
def limit : Nat := 20

def owedRuns (s : Store) : List TaskRunRecord := (s.runs.select owed).insertionSort (finishedLe · ·)

def unnotifiedRuns (s : Store) : List TaskRunRecord := (owedRuns s).take limit

def getTask (s : Store) (id : TaskId) : Option TaskRecord := s.tasks.find? (·.id = id)

/-- A pass, by the await it is at; `lost` with its engine, or where the store raised. -/
inductive Point
  | reading
  | looking (run : TaskRunRecord) (rest : List TaskRunRecord)
  | announcing (run : TaskRunRecord) (rest : List TaskRunRecord) (text : String)
  | marking (run : TaskRunRecord) (rest : List TaskRunRecord)
  | ended
  | lost

/-- `owed` when it read, and of these the `window` it read; what it announced, what was refused, what
it had nothing to say about, what it marked. -/
structure Pass where
  point : Point
  owed : List TaskRunRecord
  window : List TaskRunRecord
  announced : List TaskRunRecord
  refused : List TaskRunRecord
  quiet : List TaskRunRecord
  marked : List TaskRunRecord

def Pass.new : Pass := ⟨.reading, [], [], [], [], [], []⟩

/-- The next of the runs read. -/
def goOn : List TaskRunRecord → Point
  | [] => .ended
  | r :: rest => .looking r rest

/-- What a pass does at its await; `delivered`: the announcement went out. -/
def Pass.next (D : Deployment) (s : Store) (p : Pass) (delivered : Bool) : Option (Store × Pass) :=
  match p.point with
  | .reading =>
    some (s, { p with
      point := goOn (unnotifiedRuns s), owed := owedRuns s, window := unnotifiedRuns s })
  | .looking run rest =>
    let text := noticeFor D (getTask s run.taskId) run
    if text ≠ "" then some (s, { p with point := .announcing run rest text })
    else some (s, { p with point := .marking run rest, quiet := run :: p.quiet })
  | .announcing run rest _ =>
    if delivered then
      some (s, { p with point := .marking run rest, announced := run :: p.announced })
    else some (s, { p with point := goOn rest, refused := run :: p.refused })
  | .marking run rest =>
    some (s.markNotified run.runId, { p with point := goOn rest, marked := run :: p.marked })
  | .ended | .lost => none

/-- Nothing happens to the pass any more. -/
def Pass.over (p : Pass) : Bool :=
  match p.point with
  | .ended | .lost => true
  | _ => false

structure State where
  pool : Pool Store Pass
  used : List RunId
  pruned : List TaskRunRecord

abbrev State.store (s : State) : Store := s.pool.store

abbrev State.At (s : State) (i : Nat) (p : Pass) : Prop := s.pool.At i p

inductive Label
  | store (q : Statement)
  | deliver
  | act (i : Nat) (delivered : Bool)
  | drop (i : Nat)

/-- The run a statement inserts. -/
def inserted : Statement → Option TaskRunRecord
  | .insertRun r => some r
  | _ => none

def marks : Statement → Bool
  | .markNotified _ => true
  | _ => false

/-- The runs a `prune_runs` deletes while their notice is owed. -/
def prunes (s : Store) : Statement → List TaskRunRecord
  | .pruneRuns before keep =>
    s.runs.select fun r => owed r && (r.finishedAt.any (· < before) && !keep.contains r.runId)
  | _ => []

def next (D : Deployment) (s : State) : Label → Option State
  | .store q =>
    if marks q = false ∧ ∀ r ∈ inserted q, r.runId ∉ s.used then
      (q.apply s.store).map fun store => { s with
        pool := { s.pool with store }
        used := ((inserted q).map (·.runId)).toList ++ s.used
        pruned := prunes s.store q ++ s.pruned }
    else none
  | .deliver => some { s with pool := s.pool.start Pass.new }
  | .act i delivered =>
    match s.pool.calls[i]? with
    | some (some p) => (p.next D s.store delivered).map fun x => { s with
        pool := s.pool.put i x.1 x.2 }
    | _ => none
  | .drop i =>
    match s.pool.calls[i]? with
    | some (some p) =>
      if p.over then none
      else some { s with pool := s.pool.put i s.store { p with point := .lost } }
    | _ => none

/-- The passes of an engine, over an empty store. -/
def lts (D : Deployment) : Lts State Label where
  init s := s = ⟨⟨⟨.empty, .empty⟩, []⟩, [], []⟩
  next := next D

/-! ## What is to be shown -/

/-- The runs a pass has read and not settled yet. -/
def Point.hand : Point → List TaskRunRecord
  | .looking run rest | .announcing run rest _ | .marking run rest => run :: rest
  | _ => []

def passes (s : State) : List Pass := s.pool.calls.filterMap id

/-- All that was announced. -/
def announced (s : State) : List RunId :=
  (passes s).flatMap fun p => p.announced.map (·.runId)

/-- All that was marked. -/
def marked (s : State) : List TaskRunRecord := (passes s).flatMap (·.marked)

/-- The pass read while the notice of `r` was owed, and ended without coming to it. -/
def Pass.passedOver (r : TaskRunRecord) (p : Pass) : Bool :=
  (match p.point with
    | .ended => true
    | _ => false) &&
  p.owed.contains r && !p.announced.contains r && !p.refused.contains r && !p.quiet.contains r

end Notices
