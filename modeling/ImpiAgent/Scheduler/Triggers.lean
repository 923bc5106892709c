import ImpiAgent.Tasks.Records
import Mathlib

/-!
# When a trigger fires

`scheduler/triggers.py` on instants. The cron library and the zone database are a `Calendar`: the
instants to which the successive wall-clock readings of one `croniter` iteration resolve, in whole
seconds as `_resolve_local` gives them.

`advance_past_lt`: the next occurrence is later than `upto`. That rests on the calendar for one path
only, the jump `_advance_cron` makes when it is `MAX_CRON_STEPS` occurrences behind
(`Calendar.Forward`): in an hour the clocks repeat, it can land before `upto`.
-/

namespace Triggers

open Tasks

/-- `MIN_GRACE_S`. -/
def minGrace : Int := 120 * Clock.second
/-- `MAX_GRACE_S`. -/
def maxGrace : Int := 7200 * Clock.second
/-- `ONESHOT_GRACE_S`. -/
def oneshotGrace : Int := 900 * Clock.second
/-- `MAX_CRON_STEPS`. -/
def maxCronSteps : Nat := 10000

/-- A parsed schedule. -/
structure Trigger where
  kind : TriggerKind
  anchorAt : Moment
  intervalS : Nat
  cronExpr : String
  timezone : String
  interval : kind = .triggerEvery → 0 < intervalS

/-- `croniter` and `zoneinfo`: `occurrence expr tz start k` is what the `k`-th `get_next` of an
iteration begun at the wall clock of `start` resolves to. -/
structure Calendar where
  occurrence : String → String → Moment → Nat → Time

/-- `_trigger_of`. -/
def triggerOf (t : TaskRecord) : Trigger :=
  { kind := t.triggerKind, anchorAt := Clock.fromIso t.anchorAt, intervalS := t.intervalS,
    cronExpr := t.cronExpr, timezone := t.timezone, interval := t.interval }

/-- `_index_of`. -/
def indexOf (anchor : Moment) (period : Int) (m : Moment) : Int :=
  if m - anchor < 0 then -1 else (m - anchor) / period

/-- `_advance_interval`. -/
def advanceInterval (g : Trigger) (after upto : Moment) : Moment × Int :=
  let period := g.intervalS * Clock.second
  let indexUntil := indexOf g.anchorAt period upto
  let indexAfter := indexOf g.anchorAt period after
  (g.anchorAt + (indexUntil + 1) * period, max 0 (indexUntil - indexAfter))

/-- The loop of `_advance_cron`: the first of the next `fuel` occurrences past `upto`. -/
def cronSteps (f : Nat → Time) (upto : Moment) : Nat → Nat → Option (Moment × Int)
  | 0, _ => none
  | fuel + 1, skipped =>
    if Clock.fromIso (f skipped) > upto then some (Clock.fromIso (f skipped), skipped)
    else cronSteps f upto fuel (skipped + 1)

/-- `_advance_cron`. -/
def advanceCron (cal : Calendar) (g : Trigger) (after upto : Moment) : Moment × Int :=
  match cronSteps (cal.occurrence g.cronExpr g.timezone after) upto maxCronSteps 0 with
  | some found => found
  | none => (Clock.fromIso (cal.occurrence g.cronExpr g.timezone upto 0), -1)

/-- `advance_past`: the first occurrence after `upto`, and how many there are in `(after, upto]`. -/
def advancePast (cal : Calendar) (g : Trigger) (after upto : Moment) : Option Moment × Int :=
  match g.kind with
  | .triggerAt => (none, 0)
  | .triggerEvery => ((advanceInterval g after upto).map some id)
  | .triggerCron => ((advanceCron cal g after upto).map some id)

/-- `first_run`. -/
def firstRun (cal : Calendar) (g : Trigger) (now : Moment) : Option Moment :=
  match g.kind with
  | .triggerAt => if g.anchorAt > now then some g.anchorAt else none
  | _ => (advancePast cal g g.anchorAt now).1

/-- The loop of `next_occurrences`. -/
def nextOccurrences (cal : Calendar) (g : Trigger) : Moment → Nat → List Moment
  | _, 0 => []
  | cursor, count + 1 =>
    match (advancePast cal g cursor cursor).1 with
    | some nxt => nxt :: nextOccurrences cal g nxt count
    | none => if g.kind = .triggerAt ∧ g.anchorAt > cursor then [g.anchorAt] else []

/-- `period_of`. -/
def periodOf (cal : Calendar) (g : Trigger) (now : Moment) : Int :=
  match g.kind with
  | .triggerEvery => g.intervalS * Clock.second
  | .triggerCron =>
    match nextOccurrences cal g now 2 with
    | [m, m'] => m' - m
    | _ => 0
  | .triggerAt => 0

/-- `grace_window`. -/
def graceWindow (cal : Calendar) (g : Trigger) (now : Moment) : Int :=
  match g.kind with
  | .triggerAt => oneshotGrace
  | _ => min (max (periodOf cal g now / 2) minGrace) maxGrace

/-- `jitter_for`, from the number the first four bytes of the id's digest are. -/
def jitterFor (digest : Nat) (periodS capS : Int) : Int :=
  if periodS ≤ 0 ∨ capS ≤ 0 then 0
  else
    let bound := min capS (max 1 (periodS / 20))
    digest % (bound + 1)

/-- The jump of `_advance_cron` over a long backlog lands after the instant it jumps from. -/
def Calendar.Forward (cal : Calendar) : Prop :=
  ∀ expr tz after upto,
    (∀ k < maxCronSteps, Clock.fromIso (cal.occurrence expr tz after k) ≤ upto) →
    upto < Clock.fromIso (cal.occurrence expr tz upto 0)

/-! ## The next occurrence is ahead -/

theorem index_of_spec {anchor m : Moment} {period : Int} (hp : 0 < period) :
    m < anchor + (indexOf anchor period m + 1) * period := by
  unfold indexOf
  split
  · have : (-1 + 1) * period = 0 := by ring
    lia
  · have := Int.lt_mul_ediv_self_add (x := m - anchor) hp
    linarith

theorem cron_steps_lt {f : Nat → Time} {upto m : Moment} {n : Int} : ∀ {fuel k : Nat},
    cronSteps f upto fuel k = some (m, n) → upto < m
  | 0, _, h => by simp [cronSteps] at h
  | fuel + 1, k, h => by
    unfold cronSteps at h
    split at h
    · cases h
      assumption
    · exact cron_steps_lt h

theorem cron_steps_none {f : Nat → Time} {upto : Moment} : ∀ {fuel k : Nat},
    cronSteps f upto fuel k = none → ∀ j, k ≤ j → j < k + fuel → Clock.fromIso (f j) ≤ upto
  | 0, _, _, _, _, _ => by lia
  | fuel + 1, k, h, j, hkj, hj => by
    unfold cronSteps at h
    split at h
    · cases h
    · by_cases hjk : j = k
      · subst hjk
        lia
      · exact cron_steps_none h j (by lia) (by lia)

/-- The next occurrence of a trigger is later than the instant it is asked for. -/
theorem advance_past_lt {cal : Calendar} (hcal : cal.Forward) {g : Trigger}
    {after upto m : Moment} (h : (advancePast cal g after upto).1 = some m) : upto < m := by
  unfold advancePast at h
  split at h
  · cases h
  · rename_i hk
    have hp : 0 < (g.intervalS : Int) * Clock.second := by
      have := g.interval hk
      have := Clock.second_pos
      positivity
    simp only [Prod.map, advanceInterval, Option.some.injEq] at h
    rw [← h]
    exact index_of_spec hp
  · simp only [Prod.map, advanceCron, Option.some.injEq] at h
    rw [← h]
    split
    · exact cron_steps_lt ‹_›
    · rename_i hs
      exact hcal _ _ _ _ fun k hk => cron_steps_none hs k (by lia) (by lia)

theorem cron_steps_whole {f : Nat → Time} {upto m : Moment} {n : Int} : ∀ {fuel k : Nat},
    cronSteps f upto fuel k = some (m, n) → ∃ u, m = Clock.fromIso u
  | 0, _, h => by simp [cronSteps] at h
  | fuel + 1, k, h => by
    unfold cronSteps at h
    split at h
    · cases h
      exact ⟨_, rfl⟩
    · exact cron_steps_whole h

/-- The occurrences of a stored task fall on whole seconds. -/
theorem advance_past_whole {cal : Calendar} {t : TaskRecord} {after upto m : Moment}
    (h : (advancePast cal (triggerOf t) after upto).1 = some m) : ∃ u, m = Clock.fromIso u := by
  unfold advancePast at h
  split at h
  · cases h
  · simp only [Prod.map, advanceInterval, Option.some.injEq] at h
    rw [← h]
    generalize indexOf _ _ upto = n
    refine ⟨t.anchorAt + (n + 1) * t.intervalS, ?_⟩
    simp only [triggerOf, Clock.fromIso]
    ring
  · simp only [Prod.map, advanceCron, Option.some.injEq] at h
    rw [← h]
    split
    · exact cron_steps_whole ‹_›
    · exact ⟨_, rfl⟩

end Triggers
