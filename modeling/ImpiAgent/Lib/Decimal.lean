
/-!
# Decimal numbers

`int` of a text of digits alone, as `str.isdigit` has them. The digits beyond ASCII are a parameter
(`other`). A number's own digits are read back as the number (`number_toDigits`), and what
`str` writes for a negative number has one character that is no digit (`number_toString`).
-/

namespace Decimal

variable (other : Char → Option Nat)

/-- The value of a character that is a digit. -/
def digit (c : Char) : Option Nat :=
  if c.isDigit then some (c.toNat - 48) else if 127 < c.toNat then other c else none

/-- `int(s)`, where `s.isdigit()`. -/
def number (s : List Char) : Option Nat :=
  if s = [] then none else (s.mapM (digit other)).map (·.foldl (10 * · + ·) 0)

theorem mapM_digit {s : List Char} (h : ∀ c ∈ s, c.isDigit = true) :
    s.mapM (digit other) = some (s.map fun c => c.toNat - 48) := by
  induction s with
  | nil => rfl
  | cons c s ih =>
    have hc : digit other c = some (c.toNat - 48) := if_pos (h c List.mem_cons_self)
    rw [List.mapM_cons, hc, ih fun d hd => h d (List.mem_cons_of_mem _ hd)]
    rfl

theorem number_toDigits (n : Nat) : number other (Nat.toDigits 10 n) = some n := by
  have hdigits : ∀ c ∈ Nat.toDigits 10 n, c.isDigit = true := fun c hc =>
    Nat.isDigit_of_mem_toDigits (by decide) (by decide) hc
  rw [number, if_neg Nat.toDigits_ne_nil, mapM_digit other hdigits, Option.map_some,
    List.foldl_map]
  exact congrArg some Nat.ofDigitChars_ten_toDigits

theorem number_minus (s : List Char) : number other ('-' :: s) = none := by
  have hminus : digit other '-' = none := rfl
  rw [number, if_neg (List.cons_ne_nil _ _), List.mapM_cons, hminus]
  rfl

theorem number_toString (z : Int) :
    number other (toString z).toList = if 0 ≤ z then some z.toNat else none := by
  cases z with
  | ofNat n =>
    have htext : (toString (Int.ofNat n)).toList = Nat.toDigits 10 n := Nat.toList_repr
    rw [htext, number_toDigits]
    exact (if_pos (Int.natCast_nonneg n)).symm
  | negSucc n =>
    have htext : (toString (Int.negSucc n)).toList = '-' :: (n + 1).repr.toList := by
      change ("-" ++ (n + 1).repr).toList = _
      simp
    rw [htext, number_minus, if_neg (by omega)]

end Decimal
