import ImpiAgent.Lib.Zone
import ImpiAgent.Scheduler.Triggers
import Mathlib.Data.Set.Card

/-!
# Local time

`_resolve_local` of `scheduler/triggers.py`, and the readings a cron iteration steps through. A
reading of a clock is in microseconds where it is of any moment, and in seconds where it is one to
resolve; `zoneinfo` looks an offset up as `Zone.localOffset` does. `croniter` is a `Cron`: what
matches, and the next match after a reading.

`calendarOf` makes the `Calendar` of `advance_past` of the two.
-/

namespace Triggers

open Tasks

/-- `moment.astimezone(zone).replace(tzinfo=None)`. -/
def localReading (z : Zone) (m : Moment) : Int := m + z.offset (Clock.toIso m) * Clock.second

/-- `delta / 2`: to the microsecond, half to even. -/
def halve (delta : Int) : Int := if delta % 4 = 3 then delta / 2 + 1 else delta / 2

theorem halve_spec {delta : Int} (h : 1 < delta) : 0 < halve delta ∧ halve delta < delta := by
  unfold halve
  split <;> lia

/-- The loop of `_resolve_local`, down to a second. -/
def bisect (before : Moment → Bool) (low high : Moment) : Moment :=
  if high - low > Clock.second then
    let middle := low + halve (high - low)
    if before middle then bisect before middle high else bisect before low middle
  else high
termination_by (high - low).toNat
decreasing_by
  all_goals
    have := @halve_spec (high - low) (by unfold Clock.second at *; lia)
    lia

/-- `_resolve_local`. -/
def resolveLocal (z : Zone) (wall : Int) : Moment :=
  let candidate := Clock.fromIso (wall - z.localOffset false wall)
  if localReading z candidate = Clock.fromIso wall then candidate
  else
    -- inside a gap: the two folds bracket the transition
    let low := Clock.fromIso (wall - z.localOffset true wall)
    let bracket := if low > candidate then (candidate, low) else (low, candidate)
    let high := bisect (fun middle => localReading z middle < Clock.fromIso wall)
      bracket.1 bracket.2
    Clock.fromIso (Clock.toIso high)

/-- `croniter` on one expression: the readings that match it, and the first of them after a
reading. -/
structure Cron where
  Hits : Int → Prop
  getNext : Int → Int
  hits : ∀ start, Hits (getNext start)
  after : ∀ start, start < Clock.fromIso (getNext start)
  least : ∀ start wall, Hits wall → start < Clock.fromIso wall → getNext start ≤ wall

/-- The `k`-th `get_next` of an iteration begun at `start`. -/
def Cron.step (c : Cron) (start : Int) : Nat → Int
  | 0 => c.getNext start
  | k + 1 => c.getNext (Clock.fromIso (c.step start k))

variable {z : Zone} {m : Moment} {w : Int}

theorem localReading_lt : localReading z m < Clock.fromIso w ↔ z.reading (Clock.toIso m) < w := by
  unfold localReading Zone.reading Clock.fromIso Clock.toIso Clock.second
  lia

theorem localReading_eq : localReading z m = Clock.fromIso w ↔
    m = Clock.fromIso (Clock.toIso m) ∧ z.reading (Clock.toIso m) = w := by
  unfold localReading Zone.reading Clock.fromIso Clock.toIso Clock.second
  lia

theorem localReading_fromIso {u : Time} :
    localReading z (Clock.fromIso u) = Clock.fromIso (z.reading u) := by
  unfold localReading Zone.reading
  rw [Clock.toIso_fromIso]
  unfold Clock.fromIso
  ring

theorem fromIso_inj {t u : Time} : Clock.fromIso t = Clock.fromIso u ↔ t = u :=
  ⟨fun h => by rw [← Clock.toIso_fromIso t, h, Clock.toIso_fromIso], congrArg _⟩

theorem toIso_of_within {t : Time} (h : Clock.fromIso t ≤ m) (h' : m < Clock.fromIso t + Clock.second) :
    Clock.toIso m = t := by
  unfold Clock.toIso Clock.fromIso Clock.second at *
  lia

/-! ## Resolving -/

/-- The bisection stays on the bracket's change, and ends within a second of it. -/
theorem bisect_spec {p : Moment → Bool} {T : Moment} (hb : ∀ m < T, p m = true)
    (ha : ∀ m, T ≤ m → p m = false) {low high : Moment} (hl : low < T) (hh : T ≤ high) :
    T ≤ bisect p low high ∧ bisect p low high < T + Clock.second := by
  fun_induction bisect p low high with
  | case1 low high hw middle hm ih =>
    refine ih ?_ hh
    by_contra hle
    rw [ha middle (not_lt.1 hle)] at hm
    cases hm
  | case2 low high hw middle hm ih =>
    refine ih hl ?_
    by_contra hlt
    exact hm (hb middle (not_le.1 hlt))
  | case3 low high hw => exact ⟨hh, by lia⟩

/-- A reading resolves to the least instant whose reading is at or after it. -/
theorem resolveLocal_eq (hz : z.Apart) (w : Int) : resolveLocal z w = Clock.fromIso (z.first w) := by
  unfold resolveLocal
  rcases z.lookup hz w with ⟨hfirst, hread⟩ | ⟨hskips, hlow, hhigh⟩
  · rw [← hfirst]
    exact if_pos (by rw [localReading_fromIso, hread])
  · have hcandidate : ¬localReading z (Clock.fromIso (w - z.localOffset false w)) =
        Clock.fromIso w := by
      rw [localReading_fromIso, fromIso_inj]
      exact hskips.unread _
    have hbracket : ¬Clock.fromIso (w - z.localOffset true w) >
        Clock.fromIso (w - z.localOffset false w) :=
      not_lt.2 (Clock.fromIso_lt.2 (hlow.trans_le hhigh)).le
    simp only [if_neg hcandidate, if_neg hbracket]
    -- readings are before `w` on one side of the change, and after it on the other
    have hbefore : ∀ m < Clock.fromIso (z.first w),
        decide (localReading z m < Clock.fromIso w) = true := by
      refine fun m hm => decide_eq_true (localReading_lt.2 (hskips.before _ ?_))
      by_contra hle
      exact absurd (Clock.fromIso_le_iff.2 (not_lt.1 hle)) (not_le.2 hm)
    have hafter : ∀ m, Clock.fromIso (z.first w) ≤ m →
        decide (localReading z m < Clock.fromIso w) = false := by
      refine fun m hm => decide_eq_false fun hlt => ?_
      exact absurd (hskips.after _ (Clock.fromIso_le_iff.1 hm)) (localReading_lt.1 hlt).not_gt
    obtain ⟨hge, hlt⟩ := bisect_spec hbefore hafter (Clock.fromIso_lt.2 hlow)
      (mul_le_mul_of_nonneg_right hhigh Clock.second_pos.le)
    exact congrArg _ (toIso_of_within hge hlt)

end Triggers
