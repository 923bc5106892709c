import ImpiAgent.Tasks.Proof.Accounts

/-!
# Late occurrences

`_dispatch` measures how late an occurrence is from `next_run_at`, but sees it only from `due_at`
on, which is later by the task's smear. Two bounds decide what it makes of it: `_fresh_slack` says
what is late at all, `grace_window` how late may still run.

`on_time_iff`: an occurrence seen within a tick of its `due_at` runs as one on time exactly where
smear and delay together are within both (`Covered`); the slack is a tick and one second, whatever
the smear.

`before_next_iff`: the window closes before the following occurrence exactly where that is more than
two minutes away, and more than half the period measured at the moment of the decision
(`Spaced`); for an interval, where it is longer than two minutes (`interval_before_next`).
-/

namespace Scheduler

open Tasks Triggers

variable {cal : Calendar} {e : Engine} {t : TaskRecord} {now : Moment} {r : RunId}
  {hook : HookAnswer} {n : Time}

/-! ## A punctual occurrence -/

/-- The smear `schedule_in` and `watch_in` give a task: a watch has none, nor has what is not an
interval. -/
def createdJitter (t : TaskRecord) (digest : Nat) (capS : Int) : Int :=
  if t.mode = .watch then 0
  else jitterFor digest (if t.triggerKind = .triggerAt then 0 else t.intervalS) capS

theorem jitterFor_nonneg (digest : Nat) (periodS capS : Int) :
    0 ≤ jitterFor digest periodS capS := by
  unfold jitterFor
  split
  · exact le_rfl
  · exact Int.emod_nonneg _ (by lia)

/-- An idle task, seen within one tick of its `due_at`, which is its `next_run_at` with the smear of
its creation. -/
structure Punctual (e : Engine) (t : TaskRecord) (now : Moment) (n : Time) : Prop where
  idle : t.state = .idle
  next : t.nextRunAt = some n
  due : t.dueAt = some (n + t.jitterS)
  smear : ∃ digest capS, (t.jitterS : Int) = createdJitter t digest capS
  seen : Clock.fromIso (n + t.jitterS) ≤ now
  within : now ≤ Clock.fromIso (n + t.jitterS) + e.tick

/-- What a tick makes of an occurrence on time: the task is claimed, and its run is on schedule; a
watch may also be moved on to its next period. -/
def OnTime (t : TaskRecord) : Option Call → Prop
  | some (.claimDue a) => a.run.trigger = .schedule
  | some (.reschedule ..) => t.mode = .watch
  | _ => False

/-- The slack and the window cover how late the occurrence is seen; a watch is never too late. -/
def Covered (cal : Calendar) (e : Engine) (t : TaskRecord) (now : Moment) (n : Time) : Prop :=
  t.mode = .watch ∨ now - Clock.fromIso n ≤ freshSlack e ∧
    now - Clock.fromIso n ≤ graceWindow cal (triggerOf t) now

theorem fromIso_add (n : Time) (j : Nat) :
    Clock.fromIso (n + j) = Clock.fromIso n + j * Clock.second := by
  unfold Clock.fromIso
  ring

/-- How late a punctual occurrence is: its smear, and the delay past its `due_at`. -/
theorem Punctual.lateness (h : Punctual e t now n) :
    t.jitterS * Clock.second ≤ now - Clock.fromIso n ∧
      now - Clock.fromIso n ≤ t.jitterS * Clock.second + e.tick := by
  have hs := h.seen
  have hw := h.within
  rw [fromIso_add, add_assoc] at hw
  rw [fromIso_add] at hs
  exact ⟨Int.le_sub_left_of_add_le hs, Int.sub_left_le_of_le_add hw⟩

/-- A watch is seen within the slack: it has no smear. -/
theorem Punctual.watch (h : Punctual e t now n) (hw : t.mode = .watch) :
    now - Clock.fromIso n ≤ freshSlack e := by
  obtain ⟨digest, capS, hj⟩ := h.smear
  have hl := h.lateness.2
  rw [createdJitter, if_pos hw] at hj
  have := Clock.second_pos
  rw [hj] at hl
  unfold freshSlack
  lia

theorem on_time_watch (hw : t.mode = .watch) {m : Moment} {up due : Option Moment} :
    OnTime t (some (tickWatch e t r hook m up due now)) := by
  unfold tickWatch
  split
  · exact hw
  · rfl
  · rfl

theorem on_time_iff (h : Punctual e t now n) :
    OnTime t (dispatch cal e t now r hook) ↔ Covered cal e t now n := by
  have hrun : t.state ≠ .running := by
    rw [h.idle]
    decide
  unfold dispatch Covered
  simp only [h.next, if_neg hrun]
  by_cases hw : t.mode = .watch
  · -- no smear, so neither the grace at start-up nor the window is asked
    have hlate : ¬now - Clock.fromIso n > freshSlack e := Int.not_lt.2 (h.watch hw)
    rw [if_neg fun hf => hlate hf.1, if_pos hw]
    exact ⟨fun _ => .inl hw, fun _ => on_time_watch hw⟩
  by_cases hlate : now - Clock.fromIso n > freshSlack e
  · have hno : ¬(t.mode = .watch ∨ now - Clock.fromIso n ≤ freshSlack e ∧
        now - Clock.fromIso n ≤ graceWindow cal (triggerOf t) now) := by
      rintro (hm | ⟨hf, -⟩)
      · exact hw hm
      · exact absurd hf (Int.not_le.2 hlate)
    rw [iff_false_right hno, if_neg hw]
    split
    · exact id
    · split
      · exact id
      · simp [OnTime, claimArgs, newRun, hlate]
  · rw [if_neg fun hf => hlate hf.1, if_neg hw]
    simp only [hlate, hw, false_or, decide_false, Bool.false_eq_true, false_and,
      Int.not_lt.1 hlate, true_and]
    split
    · next hg => exact ⟨fun hf => hf.elim, fun hle => absurd hle (Int.not_le.2 hg)⟩
    · next hg => exact ⟨fun _ => Int.not_lt.1 hg, fun _ => rfl⟩

namespace Sample

open Tasks.Sample (task engine calendar)

/-- A task every quarter of an hour, with the smear that a digest gives it. -/
def smeared (digest : Nat) : TaskRecord :=
  let jitterS := (jitterFor digest 900 30).toNat
  { task with
    intervalS := 900, jitterS, nextRunAt := some 900, dueAt := some (900 + jitterS)
    interval := fun _ => by decide }

theorem punctual {digest : Nat} {now : Moment}
    (h : Clock.fromIso (900 + (smeared digest).jitterS) ≤ now)
    (h' : now ≤ Clock.fromIso (900 + (smeared digest).jitterS) + engine.tick) :
    Punctual engine (smeared digest) now 900 := by
  refine ⟨rfl, rfl, rfl, ⟨digest, 30, ?_⟩, h, h'⟩
  exact Int.toNat_of_nonneg (jitterFor_nonneg digest 900 30)

end Sample

/-- A smear of one second leaves room for all but the last moment of a tick. -/
theorem on_time_smeared : OnTime (Sample.smeared 1) (dispatch Tasks.Sample.calendar
    Tasks.Sample.engine (Sample.smeared 1) (921 * Clock.second) 2 .raised) :=
  (on_time_iff (Sample.punctual (by decide) (by decide))).2 (.inr (by decide))

/-- With the whole smear of half a minute, a task is late when it is seen at its `due_at`. -/
theorem smear_late : ¬∀ cal e t now r hook n, Punctual e t now n →
    OnTime t (dispatch cal e t now r hook) := by
  intro h
  have := h Tasks.Sample.calendar Tasks.Sample.engine (Sample.smeared 960301259)
    (930 * Clock.second) 2 .raised 900 (Sample.punctual (by decide) (by decide))
  cases (this : Triggered.catchup = .schedule)

/-! ## The next occurrence -/

/-- The occurrence that follows the one at `n`. -/
def following (cal : Calendar) (t : TaskRecord) (n : Time) : Option Moment :=
  (advancePast cal (triggerOf t) (Clock.fromIso n) (Clock.fromIso n)).1

/-- The window of the occurrence at `n` closes before the following one, and no run of it that
catches up begins later. -/
structure BeforeNext (cal : Calendar) (e : Engine) (t : TaskRecord) (now : Moment) (n : Time)
    (succ : Moment) : Prop where
  window : graceWindow cal (triggerOf t) now < succ - Clock.fromIso n
  run : ∀ r hook a, dispatch cal e t now r hook = some (.claimDue a) → a.run.trigger = .catchup →
    now < succ

/-- The time `gap` to the following occurrence is more than two hours, or more than two minutes and
than half the period as it is measured now. -/
def Spaced (cal : Calendar) (g : Trigger) (now : Moment) (gap : Int) : Prop :=
  maxGrace < gap ∨ minGrace < gap ∧ periodOf cal g now / 2 < gap

/-- The window is within a time that exceeds its bounds and half the period. -/
theorem window_lt_iff {g : Trigger} (hg : g.kind ≠ .triggerAt) {gap : Int} :
    graceWindow cal g now < gap ↔ Spaced cal g now gap := by
  unfold graceWindow Spaced
  split
  · exact absurd ‹_› hg
  · rw [min_lt_iff, max_lt_iff]
    constructor
    · rintro (⟨h, hmin⟩ | h)
      · exact .inr ⟨hmin, h⟩
      · exact .inl h
    · rintro (h | ⟨hmin, h⟩)
      · exact .inr h
      · exact .inl ⟨h, hmin⟩

/-- A run that catches up is of an occurrence within its window. -/
theorem catchup_within {a : ClaimArgs} (hn : t.nextRunAt = some n)
    (h : dispatch cal e t now r hook = some (.claimDue a)) (ha : a.run.trigger = .catchup) :
    now - Clock.fromIso n ≤ graceWindow cal (triggerOf t) now := by
  unfold dispatch at h
  simp only [hn] at h
  split at h
  · cases h
  split at h
  · cases h
  split at h
  · unfold tickWatch at h
    split at h <;> cases h <;> cases ha
  split at h
  · cases h
  · next hlate => exact Int.not_lt.1 fun hg => hlate (.inr hg)

/-- A recurring task's occurrence runs before the following one, and its window says so, exactly
where they are spaced. -/
theorem before_next_iff (hrec : t.triggerKind ≠ .triggerAt) (hn : t.nextRunAt = some n) :
    (∃ succ, following cal t n = some succ ∧ BeforeNext cal e t now n succ) ↔
      ∃ succ, following cal t n = some succ ∧
        Spaced cal (triggerOf t) now (succ - Clock.fromIso n) := by
  refine exists_congr fun succ => and_congr_right fun _ => ?_
  rw [← window_lt_iff (g := triggerOf t) hrec]
  refine ⟨BeforeNext.window, fun h => ⟨h, fun r hook a hd ha => ?_⟩⟩
  have := catchup_within hn hd ha
  lia

theorem following_interval (hkind : t.triggerKind = .triggerEvery) {k : Int} (hk : 0 ≤ k) :
    following cal t (t.occurrenceAt k) = some (Clock.fromIso (t.occurrenceAt (k + 1))) := by
  simp only [following, advancePast, triggerOf, hkind, advanceInterval, Prod.map, id_eq,
    occurrence_moment, index_of_exact (period_pos hkind) hk]

/-- For an interval, at an instant it counts, they are where it is longer than two minutes. -/
theorem interval_spaced (hkind : t.triggerKind = .triggerEvery) {k : Int} (hk : 0 ≤ k) :
    (∃ succ, following cal t (t.occurrenceAt k) = some succ ∧
      Spaced cal (triggerOf t) now (succ - Clock.fromIso (t.occurrenceAt k))) ↔
      120 < t.intervalS := by
  have hgap : Clock.fromIso (t.occurrenceAt (k + 1)) - Clock.fromIso (t.occurrenceAt k) =
      t.intervalS * Clock.second := by
    rw [occurrence_moment, occurrence_moment]
    ring
  have hperiod : periodOf cal (triggerOf t) now = t.intervalS * Clock.second := by
    simp only [periodOf, triggerOf, hkind]
  simp only [following_interval hkind hk, Option.some.injEq, exists_eq_left', hgap, Spaced, hperiod,
    minGrace, maxGrace, Clock.second]
  omega

namespace Sample

/-- A task every five minutes. -/
def fives : TaskRecord :=
  { Tasks.Sample.task with
    intervalS := 300, nextRunAt := some 300, dueAt := some 300, interval := fun _ => by decide }

end Sample

/-- `before_next_iff` for a task every five minutes. -/
theorem before_next_fives : ∃ succ, following Tasks.Sample.calendar Sample.fives 300 = some succ ∧
    BeforeNext Tasks.Sample.calendar Tasks.Sample.engine Sample.fives (310 * Clock.second) 300 succ :=
  (before_next_iff (by decide) rfl).2 ((interval_spaced rfl (k := 1) (by decide)).2 (by decide))

/-- A task every minute catches up on its first occurrence forty seconds after the second was due. -/
theorem run_after_next : ¬∀ cal e t now n, t.triggerKind ≠ .triggerAt → t.nextRunAt = some n →
    ∃ succ, following cal t n = some succ ∧ BeforeNext cal e t now n succ := by
  intro h
  obtain ⟨succ, hs, hb⟩ := h Tasks.Sample.calendar Tasks.Sample.engine Tasks.Sample.task
    (160 * Clock.second) 60 (by decide) rfl
  cases hs
  have := hb.run 2 .raised _ rfl rfl
  exact absurd this (by decide)

end Scheduler
