import ImpiAgent.Scheduler.Triggers
import ImpiAgent.Tasks.Calls

/-!
# What the scheduler does with a due task

`Scheduler._dispatch` and `_tick_watch` of `scheduler/service.py`: from a task row as the tick read
it, the call on the store it makes (`dispatch`), or none. A watch's hook is asked before the call;
its answer is an argument. What the turn of a watch carries is left out.

`dispatch_spec` says what every call of `dispatch` brings: the row's own token and occurrence, and
a schedule that has moved past it.
-/

namespace Scheduler

open Tasks Triggers

/-- `ports.Watched`. -/
inductive Watched
  | pending | done | gone (reason : String)
  deriving DecidableEq

/-- How `WatchHook.check` comes back within its time, or does not. -/
inductive HookAnswer
  | answered (w : Watched) | timedOut | raised
  deriving DecidableEq

/-- `_watch_verdict`. -/
def watchVerdict (e : Engine) (t : TaskRecord) (now : Moment) (hook : HookAnswer) : Watched :=
  if t.expiresAt.any fun expires => now ≥ Clock.fromIso expires then .done
  else if e.watches = false then .gone "no watch hook is wired into this engine"
  else match hook with
    | .answered w => w
    | .timedOut | .raised => .pending

/-- `_fresh_slack`. -/
def freshSlack (e : Engine) : Int := e.tick + Clock.second

/-- `_within_startup_grace`. -/
def withinStartupGrace (e : Engine) (now : Moment) : Bool := now - e.startedAt < e.startupGrace

/-- `f"{n:02d}"`. -/
def twoDigits (n : Nat) : String := if n < 10 then "0" ++ toString n else toString n

/-- `_short`. -/
def short (delta : Int) : String :=
  let seconds := delta.natAbs / 1000000
  if seconds < 60 then toString seconds ++ "s"
  else if seconds < 3600 then toString (seconds / 60) ++ "m"
  else if seconds < 86400 then
    toString (seconds / 3600) ++ "h" ++ twoDigits (seconds % 3600 / 60) ++ "m"
  else toString (seconds / 86400) ++ "d" ++ twoDigits (seconds % 86400 / 3600) ++ "h"

/-- `_new_run`. -/
def newRun (e : Engine) (t : TaskRecord) (runId : RunId) (scheduled : Moment) (status : RunStatus)
    (startedAt finishedAt : Option Time) (trigger : Triggered) (coalesced : Int)
    (detail : String) : TaskRunRecord :=
  { runId, taskId := t.id, agent := t.agent, scheduledAt := Clock.toIso scheduled, startedAt,
    finishedAt, status, trigger, owner := e.id, durationMs := 0, detail, replyChars := 0,
    toolCalls := 0, coalesced := (max 1 coalesced).toNat, notified := false }

/-- `_with_jitter`. -/
def withJitter (m : Option Moment) (jitterS : Nat) : Option Moment :=
  m.map (· + jitterS * Clock.second)

/-- The claim of `_dispatch` and `_tick_watch`. -/
def claimArgs (e : Engine) (t : TaskRecord) (runId : RunId) (scheduled : Moment)
    (next due : Option Moment) (now : Moment) (trigger : Triggered) (coalesced : Int) :
    ClaimArgs :=
  { taskId := t.id, seenDueAt := t.dueAt, nextRunAt := next.map Clock.toIso,
    dueAt := due.map Clock.toIso,
    run := newRun e t runId scheduled .running (some (Clock.toIso now)) none trigger coalesced "",
    owner := e.id, leaseUntil := Clock.toIso (now + e.lease), now := Clock.toIso now,
    runTask := rfl, runOwner := rfl, runOpen := ⟨rfl, rfl⟩ }

/-- Why an occurrence is skipped. -/
inductive Skipped
  | overlap | missed
  deriving DecidableEq

def Skipped.status : Skipped → RunStatus
  | overlap => .overlap
  | missed => .missed

theorem Skipped.status_ne (k : Skipped) : k.status ≠ .running := by
  cases k <;> simp [Skipped.status]

/-- `_skip`. -/
def skipArgs (e : Engine) (t : TaskRecord) (runId : RunId) (scheduled : Moment)
    (next due : Option Moment) (now : Moment) (why : Skipped) (coalesced : Int)
    (detail : String) : SkipArgs :=
  { taskId := t.id, seenDueAt := t.dueAt,
    run := newRun e t runId scheduled why.status none (some (Clock.toIso now)) .schedule
      coalesced detail,
    nextRunAt := next.map Clock.toIso, dueAt := due.map Clock.toIso, now := Clock.toIso now,
    runTask := rfl, runEnded := why.status_ne }

/-- `_tick_watch`. -/
def tickWatch (e : Engine) (t : TaskRecord) (runId : RunId) (hook : HookAnswer)
    (scheduled : Moment) (upcoming nextDue : Option Moment) (now : Moment) : Call :=
  match watchVerdict e t now hook with
  | .pending =>
    .reschedule t.id (upcoming.map Clock.toIso) (nextDue.map Clock.toIso) (Clock.toIso now)
  | .done | .gone _ => .claimDue (claimArgs e t runId scheduled none none now .schedule 1)

/-- `_dispatch`: the call it makes. -/
def dispatch (cal : Calendar) (e : Engine) (t : TaskRecord) (now : Moment) (runId : RunId)
    (hook : HookAnswer) : Option Call :=
  match t.nextRunAt with
  | none => none
  | some next =>
    let scheduled := Clock.fromIso next
    let trigger := triggerOf t
    let lateness := now - scheduled
    let upcoming := (advancePast cal trigger scheduled now).1
    let skipped := (advancePast cal trigger scheduled now).2
    let nextDue := withJitter upcoming t.jitterS
    if t.state = .running then
      -- claimed already, so its due time coming round again is the overlap
      some (.recordSkip (skipArgs e t runId scheduled upcoming nextDue now .overlap (skipped + 1)
        ("the previous run has been going for " ++ short lateness)))
    else if lateness > freshSlack e ∧ withinStartupGrace e now then none
    else if t.mode = .watch then
      some (tickWatch e t runId hook scheduled upcoming nextDue now)
    else
      let late := decide (lateness > freshSlack e)
      let grace := graceWindow cal trigger now
      if (late ∧ t.onMissed = .skip) ∨ lateness > grace then
        let why :=
          if t.onMissed = .skip then "on_missed=skip"
          else "late by " ++ short lateness ++ " (window " ++ short grace ++ ")"
        some (.recordSkip (skipArgs e t runId scheduled upcoming nextDue now .missed (skipped + 1)
          why))
      else
        some (.claimDue (claimArgs e t runId scheduled upcoming nextDue now
          (if late then .catchup else .schedule) (skipped + 1)))

/-- What a call of `dispatch` is about: the row's own task, token and occurrence. -/
inductive Issues (e : Engine) (t : TaskRecord) (runId : RunId) : Call → Prop
  | claim {a : ClaimArgs} : a.taskId = t.id → a.seenDueAt = t.dueAt →
      t.nextRunAt = some a.run.scheduledAt → a.run.runId = runId → a.owner = e.id →
      Issues e t runId (.claimDue a)
  | skip {a : SkipArgs} : a.taskId = t.id → a.seenDueAt = t.dueAt →
      t.nextRunAt = some a.run.scheduledAt → a.run.runId = runId → a.run.owner = e.id →
      Issues e t runId (.recordSkip a)
  | move {next due : Option Time} {now : Time} : t.mode = .watch →
      Issues e t runId (.reschedule t.id next due now)

/-- The pair `(next_run_at, due_at)` a call writes. -/
def pairOf : Call → Option Time × Option Time
  | .claimDue a => (a.nextRunAt, a.dueAt)
  | .recordSkip a => (a.nextRunAt, a.dueAt)
  | .reschedule _ next due _ => (next, due)
  | _ => (none, none)

/-- The two columns are the schedule of one occurrence, the second with the task's smear, or of
none. -/
def Paired : Option Time → Option Time → Prop
  | none, none => True
  | some next, some due => next ≤ due
  | _, _ => False

instance : (next due : Option Time) → Decidable (Paired next due)
  | none, none => isTrue trivial
  | some next, some due => inferInstanceAs (Decidable (next ≤ due))
  | none, some _ | some _, none => isFalse not_false

theorem Paired.due {n : Time} {due : Option Time} (h : Paired (some n) due) :
    ∃ d, due = some d ∧ n ≤ d := by
  cases due with
  | none => cases h
  | some d => exact ⟨d, rfl, h⟩

theorem Paired.next {next : Option Time} {d : Time} (h : Paired next (some d)) :
    ∃ n, next = some n ∧ n ≤ d := by
  cases next with
  | none => cases h
  | some n => exact ⟨n, rfl, h⟩

/-- A moment and the same moment smeared. -/
theorem paired_with_jitter (m : Option Moment) (jitterS : Nat) :
    Paired (m.map Clock.toIso) ((withJitter m jitterS).map Clock.toIso) := by
  cases m with
  | none => trivial
  | some m =>
    have hj : 0 ≤ (jitterS : Int) * Clock.second := by
      have := Clock.second_pos
      positivity
    exact Clock.toIso_mono (by lia)

theorem newRun_scheduledAt {e : Engine} {t : TaskRecord} {runId : RunId} {next : Time}
    {status : RunStatus} {startedAt finishedAt : Option Time} {trigger : Triggered}
    {coalesced : Int} {detail : String} :
    (newRun e t runId (Clock.fromIso next) status startedAt finishedAt trigger coalesced
      detail).scheduledAt = next := Clock.toIso_fromIso next

theorem dispatch_spec {cal : Calendar} {e : Engine} {t : TaskRecord} {now : Moment} {r : RunId}
    {hook : HookAnswer} {k : Call} (h : dispatch cal e t now r hook = some k) :
    Issues e t r k := by
  have claim : ∀ {n : Time} {next due : Option Moment} {trig : Triggered} {c : Int},
      t.nextRunAt = some n →
      Issues e t r (.claimDue (claimArgs e t r (Clock.fromIso n) next due now trig c)) :=
    fun hn => .claim rfl rfl (hn.trans (congrArg some newRun_scheduledAt.symm)) rfl rfl
  have skip : ∀ {n : Time} {next due : Option Moment} {why : Skipped} {c : Int} {d : String},
      t.nextRunAt = some n →
      Issues e t r (.recordSkip (skipArgs e t r (Clock.fromIso n) next due now why c d)) :=
    fun hn => .skip rfl rfl (hn.trans (congrArg some newRun_scheduledAt.symm)) rfl rfl
  unfold dispatch at h
  split at h
  · cases h
  · rename_i next hn
    simp only at h
    split at h
    · cases h
      exact skip hn
    split at h
    · cases h
    split at h
    · rename_i hw
      cases h
      unfold tickWatch
      split
      · exact .move hw
      · exact claim hn
      · exact claim hn
    split at h
    · cases h
      exact skip hn
    · cases h
      exact claim hn

/-- The schedule a call of `dispatch` writes lies after the clock it was given. -/
theorem dispatch_ahead {cal : Calendar} (hcal : cal.Forward) {e : Engine} {t : TaskRecord}
    {now : Moment} {r : RunId} {hook : HookAnswer} {k : Call}
    (h : dispatch cal e t now r hook = some k) :
    Paired (pairOf k).1 (pairOf k).2 ∧ ∀ n, (pairOf k).1 = some n → Clock.toIso now < n := by
  have ahead : ∀ after : Moment,
      let up := (advancePast cal (triggerOf t) after now).1
      Paired (up.map Clock.toIso) ((withJitter up t.jitterS).map Clock.toIso) ∧
        ∀ n, up.map Clock.toIso = some n → Clock.toIso now < n := by
    intro after up
    refine ⟨paired_with_jitter up t.jitterS, fun n hn => ?_⟩
    rw [Option.map_eq_some_iff] at hn
    obtain ⟨m, hu, rfl⟩ := hn
    obtain ⟨u, rfl⟩ := advance_past_whole hu
    rw [Clock.toIso_fromIso]
    have := advance_past_lt hcal hu
    by_contra hle
    have := Clock.fromIso_le_iff.2 (Int.not_lt.1 hle)
    lia
  have nothing : Paired none none ∧ ∀ n, (none : Option Time) = some n → Clock.toIso now < n :=
    ⟨trivial, fun _ h => by simp at h⟩
  unfold dispatch at h
  split at h
  · cases h
  · simp only at h
    split at h
    · cases h
      exact ahead _
    split at h
    · cases h
    split at h
    · cases h
      unfold tickWatch
      split
      · exact ahead _
      · exact nothing
      · exact nothing
    split at h
    · cases h
      exact ahead _
    · cases h
      exact ahead _

end Scheduler
