import Mathlib.Data.List.Infix
import Mathlib.Data.Nat.Bitwise

/-!
# Rights beneath a place

The places of a tree are lists, a place's ancestors its prefixes. A ruleset denies what it handles,
but for what one of its rules grants at the place or above it (`Ruleset.Allows`). Rights are the
bits of a mask; a rule is added only where it grants something, and nothing that is not handled
(`Ruleset.add`).
-/

namespace Beneath

variable {α : Type}

structure Rule (α : Type) where
  place : List α
  mask : Nat
  deriving DecidableEq

structure Ruleset (α : Type) where
  handled : Nat
  rules : List (Rule α)
  deriving DecidableEq

/-- Every right of one mask is in the other. -/
def Within (mask known : Nat) : Prop := mask &&& known = mask

instance withinDecidable (mask known : Nat) : Decidable (Within mask known) :=
  inferInstanceAs (Decidable (_ = _))

/-- What a rule grants: its rights at its place, and at every place beneath it. -/
def Rule.Grants (rule : Rule α) (place : List α) (right : Nat) : Prop :=
  rule.place <+: place ∧ rule.mask.testBit right = true

instance grantsDecidable [DecidableEq α] (rule : Rule α) (place : List α) (right : Nat) :
    Decidable (rule.Grants place right) :=
  inferInstanceAs (Decidable (_ ∧ _))

namespace Ruleset

/-- A ruleset with one rule more, where it takes it. -/
def add (r : Ruleset α) (rule : Rule α) : Option (Ruleset α) :=
  if rule.mask ≠ 0 ∧ Within rule.mask r.handled then some { r with rules := r.rules ++ [rule] }
  else none

def Allows (r : Ruleset α) (place : List α) (right : Nat) : Prop :=
  r.handled.testBit right = true → ∃ rule ∈ r.rules, rule.Grants place right

instance allowsDecidable [DecidableEq α] (r : Ruleset α) (place : List α) (right : Nat) :
    Decidable (r.Allows place right) :=
  inferInstanceAs (Decidable (_ → _))

theorem add_eq {r : Ruleset α} {rule : Rule α} (hne : rule.mask ≠ 0)
    (hin : Within rule.mask r.handled) :
    r.add rule = some { r with rules := r.rules ++ [rule] } :=
  if_pos ⟨hne, hin⟩

end Ruleset

end Beneath
