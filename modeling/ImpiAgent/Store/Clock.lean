import Mathlib.Data.Int.Basic

/-!
# Times

The engine's clock reads UTC moments with microseconds (`Moment`, in microseconds). The stores keep
ISO 8601 strings of whole seconds, spelled so that they order as text (`store/clock.py`,
`triggers.to_iso`): `Time`, in seconds. A column whose string may be `''` or `NULL` is an
`Option Time`.
-/

/-- A reading of the engine's clock, in microseconds. -/
abbrev Moment := Int

/-- A timestamp as the stores keep it, in seconds. -/
abbrev Time := Int

namespace Clock

/-- Microseconds in a second. -/
def second : Int := 1000000

/-- `to_iso`: cut to whole seconds. -/
def toIso (m : Moment) : Time := m / second

/-- `from_iso`. -/
def fromIso (t : Time) : Moment := t * second

theorem second_pos : 0 < second := by decide

@[simp] theorem toIso_fromIso (t : Time) : toIso (fromIso t) = t :=
  Int.mul_ediv_cancel t (by decide)

theorem fromIso_toIso_le (m : Moment) : fromIso (toIso m) ≤ m :=
  Int.ediv_mul_le m (by decide)

theorem toIso_mono {m m' : Moment} (h : m ≤ m') : toIso m ≤ toIso m' :=
  Int.ediv_le_ediv second_pos h

theorem fromIso_lt {t t' : Time} : fromIso t < fromIso t' ↔ t < t' :=
  Int.mul_lt_mul_right second_pos

/-- A stored time at or before a moment is at or before its second. -/
theorem fromIso_le_iff {t : Time} {m : Moment} : fromIso t ≤ m ↔ t ≤ toIso m :=
  (Int.le_ediv_iff_mul_le second_pos).symm

end Clock
