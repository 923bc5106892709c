import ImpiAgent.Lib.Text

/-!
# Strings and numbers in a line of JSON

What `json.dumps(.., ensure_ascii=False)` writes for a string and for a number, and a reader that
takes them from the front of a text again. `quote` leaves three of the characters
`str.splitlines` ends a line at as they are.
-/

namespace Quote

open Text (Str str isBreak Unbroken)

/-! ## Strings -/

def hexDigit (n : Nat) : Char := if n < 10 then .ofNat (48 + n) else .ofNat (87 + n)

def escape (c : Char) : Str :=
  if c = '"' then ['\\', '"']
  else if c = '\\' then ['\\', '\\']
  else if c = '\n' then ['\\', 'n']
  else if c = '\r' then ['\\', 'r']
  else if c = '\t' then ['\\', 't']
  else if c.toNat = 12 then ['\\', 'f']
  else if c.toNat = 8 then ['\\', 'b']
  else if c.toNat < 32 then ['\\', 'u', '0', '0', hexDigit (c.toNat / 16), hexDigit (c.toNat % 16)]
  else [c]

def quote (s : Str) : Str := '"' :: s.flatMap escape ++ ['"']

def hexValue (c : Char) : Option Nat :=
  let n := c.toNat
  if 48 ≤ n ∧ n ≤ 57 then some (n - 48)
  else if 97 ≤ n ∧ n ≤ 102 then some (n - 87)
  else if 65 ≤ n ∧ n ≤ 70 then some (n - 55)
  else none

/-- The character of four digits; of a pair of surrogates there is none. -/
def fromHex (a b c d : Char) : Option Char := do
  let n := (← hexValue a) * 4096 + (← hexValue b) * 256 + (← hexValue c) * 16 + (← hexValue d)
  if n < 0xd800 ∨ 0xdfff < n then some (.ofNat n) else none

def unescape (c : Char) : Option Char :=
  if c = '"' ∨ c = '\\' ∨ c = '/' then some c
  else if c = 'n' then some '\n'
  else if c = 'r' then some '\r'
  else if c = 't' then some '\t'
  else if c = 'f' then some (.ofNat 12)
  else if c = 'b' then some (.ofNat 8)
  else none

/-- A string up to its closing quote, and what is after it. -/
def unquote : Str → Option (Str × Str)
  | [] => none
  | '"' :: rest => some ([], rest)
  | '\\' :: 'u' :: a :: b :: c :: d :: rest =>
    match fromHex a b c d, unquote rest with
    | some x, some (s, rest) => some (x :: s, rest)
    | _, _ => none
  | '\\' :: x :: rest =>
    match unescape x, unquote rest with
    | some x, some (s, rest) => some (x :: s, rest)
    | _, _ => none
  | x :: rest =>
    if x.toNat < 32 then none
    else (unquote rest).map fun (s, rest) => (x :: s, rest)

/-- What is after `l`. -/
def expect : Str → Str → Option Str
  | [], s => some s
  | _ :: _, [] => none
  | c :: l, d :: s => if c = d then expect l s else none

def string (s : Str) : Option (Str × Str) := (expect ['"'] s).bind unquote

theorem fromHex_escape {n : Nat} (h : n < 32) :
    fromHex '0' '0' (hexDigit (n / 16)) (hexDigit (n % 16)) = some (.ofNat n) := by
  have hall : ∀ n < 32, fromHex '0' '0' (hexDigit (n / 16)) (hexDigit (n % 16)) =
      some (.ofNat n) := by decide
  exact hall n h

theorem eq_of_toNat {c : Char} {n : Nat} (h : c.toNat = n) : c = .ofNat n := by
  rw [← h, Char.ofNat_toNat]

theorem unquote_escape (c : Char) (rest : Str) :
    unquote (escape c ++ rest) = (unquote rest).map fun (s, rest) => (c :: s, rest) := by
  by_cases h₁ : c = '"'
  · subst c; cases h : unquote rest <;> simp [escape, unquote, unescape, h]
  by_cases h₂ : c = '\\'
  · subst c; cases h : unquote rest <;> simp [escape, unquote, unescape, h]
  by_cases h₃ : c = '\n'
  · subst c; cases h : unquote rest <;> simp [escape, unquote, unescape, h]
  by_cases h₄ : c = '\r'
  · subst c; cases h : unquote rest <;> simp [escape, unquote, unescape, h]
  by_cases h₅ : c = '\t'
  · subst c; cases h : unquote rest <;> simp [escape, unquote, unescape, h]
  by_cases h₆ : c.toNat = 12
  · have hc := eq_of_toNat h₆
    subst hc
    cases h : unquote rest <;> simp [escape, unquote, unescape, h]
  by_cases h₇ : c.toNat = 8
  · have hc := eq_of_toNat h₇
    subst hc
    cases h : unquote rest <;> simp [escape, unquote, unescape, h]
  by_cases h₈ : c.toNat < 32
  · have hx := fromHex_escape h₈
    rw [Char.ofNat_toNat] at hx
    cases h : unquote rest <;> simp [escape, unquote, h₁, h₂, h₃, h₄, h₅, h₆, h₇, h₈, hx, h]
  · simp [escape, unquote, h₁, h₂, h₃, h₄, h₅, h₆, h₇, h₈]

theorem unquote_flatMap (s rest : Str) :
    unquote (s.flatMap escape ++ '"' :: rest) = some (s, rest) := by
  induction s with
  | nil => rfl
  | cons c s ih => rw [List.flatMap_cons, List.append_assoc, unquote_escape, ih, Option.map_some]

@[simp] theorem string_quote (s rest : Str) : string (quote s ++ rest) = some (s, rest) := by
  simp [string, quote, expect, unquote_flatMap]

@[simp] theorem expect_append (l s : Str) : expect l (l ++ s) = some s := by
  induction l with
  | nil => rfl
  | cons c l ih => rw [List.cons_append, expect, if_pos rfl, ih]

/-- A break a reader of lines sees and `quote` leaves: one above the control characters. -/
def breaks (c : Char) : Bool := isBreak c && !(c.toNat < 32)

theorem unbroken_escape {c : Char} (h : breaks c = false) : Unbroken (escape c) := by
  unfold escape
  split; · decide
  split; · decide
  split; · decide
  split; · decide
  split; · decide
  split; · decide
  split; · decide
  split
  · next hc =>
    have hall : ∀ n < 32, Unbroken ['\\', 'u', '0', '0', hexDigit (n / 16), hexDigit (n % 16)] := by
      decide
    exact hall _ hc
  · next hc =>
    rw [breaks, Bool.and_eq_false_iff] at h
    simpa [hc] using h

theorem unbroken_quote {s : Str} (h : ∀ c ∈ s, breaks c = false) : Unbroken (quote s) := by
  have hs : Unbroken (s.flatMap escape) := by
    intro d hd
    obtain ⟨c, hc, hd⟩ := List.mem_flatMap.1 hd
    exact unbroken_escape (h c hc) d hd
  have hq : isBreak '"' = false := rfl
  simp [quote, hs, hq]

/-! ## Numbers -/

def digits (n : Nat) : Str := Nat.toDigits 10 n

def number (s : Str) : Option (Nat × Str) :=
  match s.takeWhile Char.isDigit with
  | [] => none
  | ds => some (Nat.ofDigitChars 10 ds 0, s.dropWhile Char.isDigit)

theorem number_digits {n : Nat} {c : Char} {rest : Str} (h : c.isDigit = false) :
    number (digits n ++ c :: rest) = some (n, c :: rest) := by
  have hd : ∀ d ∈ digits n, d.isDigit = true := fun d hd =>
    Nat.isDigit_of_mem_toDigits (by decide) (by decide) hd
  have ht : (digits n ++ c :: rest).takeWhile Char.isDigit = digits n := by
    rw [List.takeWhile_append_of_pos hd, List.takeWhile_cons_of_neg (by simp [h]), List.append_nil]
  have hr : (digits n ++ c :: rest).dropWhile Char.isDigit = c :: rest := by
    rw [List.dropWhile_append_of_pos hd, List.dropWhile_cons_of_neg (by simp [h])]
  unfold number
  rw [ht, hr]
  split
  · next hnil => exact absurd hnil Nat.toDigits_ne_nil
  · rw [digits, Nat.ofDigitChars_ten_toDigits]

theorem unbroken_digits (n : Nat) : Unbroken (digits n) := fun c hc =>
  Text.not_break_of_isAlphanum (by
    simp [Char.isAlphanum, Nat.isDigit_of_mem_toDigits (by decide) (by decide) hc])

end Quote
