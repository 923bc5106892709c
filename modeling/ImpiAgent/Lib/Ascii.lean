import ImpiAgent.Lib.Quote

/-!
# A list of strings as a line of JSON

What `json.dumps` writes for a list of strings, all of it printable ASCII, and what `json.loads`
gives back for it: `loads` is the part of the reader that a line without anything but strings in one
list takes, a character at a time, and gives nothing for any other line. What was written is read
back (`loads_dumps`), on one line (`unbroken_dumps`).
-/

namespace Ascii

open Text (Str isBreak isSpace Unbroken)
open Quote (hexDigit hexValue unescape)

/-! ## Writing -/

def point (n : Nat) : Str :=
  ['\\', 'u', hexDigit (n / 4096), hexDigit (n / 256 % 16), hexDigit (n / 16 % 16),
    hexDigit (n % 16)]

/-- Above the sixteen bits of one escape a character is a pair of surrogates. -/
def escape (c : Char) : Str :=
  let n := c.toNat
  if c = '"' then ['\\', '"']
  else if c = '\\' then ['\\', '\\']
  else if c = '\n' then ['\\', 'n']
  else if c = '\r' then ['\\', 'r']
  else if c = '\t' then ['\\', 't']
  else if n = 12 then ['\\', 'f']
  else if n = 8 then ['\\', 'b']
  else if 32 ≤ n ∧ n ≤ 126 then [c]
  else if n < 0x10000 then point n
  else point (0xd800 + (n - 0x10000) / 0x400) ++ point (0xdc00 + (n - 0x10000) % 0x400)

def quote (s : Str) : Str := '"' :: (s.flatMap escape ++ ['"'])

def dumps (xs : List Str) : Str := '[' :: ([',', ' '].intercalate (xs.map quote) ++ [']'])

/-! ## Reading -/

/-- Where the reader is: in the list, or in a string of it and what the string still owes. -/
inductive Mode
  | start
  | first
  | next
  | after
  | done
  | inside
  | escaped
  /-- So many digits are still to come, of the second escape of a pair after a high surrogate. -/
  | hex (digits value : Nat) (high : Option Nat)
  | pair (high : Nat)
  | second (high : Nat)
  deriving DecidableEq

structure State where
  mode : Mode
  /-- The strings read so far, and the one the reader is in. -/
  read : List Str
  token : Str

def isBlank (c : Char) : Bool := c = ' ' || c = '\t' || c = '\n' || c = '\r'

/-- The number of an escape has been read. Only a pair of surrogates stands for a character. -/
def coded (s : State) (n : Nat) : Option Nat → Option State
  | none =>
    if n < 0xd800 ∨ 0xdfff < n then some { s with mode := .inside, token := s.token ++ [.ofNat n] }
    else if n < 0xdc00 then some { s with mode := .pair n }
    else none
  | some high =>
    if 0xdc00 ≤ n ∧ n ≤ 0xdfff then
      some { s with
        mode := .inside
        token := s.token ++ [.ofNat (0x10000 + (high - 0xd800) * 0x400 + (n - 0xdc00))] }
    else none

def step (s : State) (c : Char) : Option State :=
  match s.mode with
  | .start =>
    if isBlank c then some s else if c = '[' then some { s with mode := .first } else none
  | .first =>
    if isBlank c then some s
    else if c = '"' then some { s with mode := .inside }
    else if c = ']' then some { s with mode := .done }
    else none
  | .next =>
    if isBlank c then some s else if c = '"' then some { s with mode := .inside } else none
  | .after =>
    if isBlank c then some s
    else if c = ',' then some { s with mode := .next }
    else if c = ']' then some { s with mode := .done }
    else none
  | .done => if isBlank c then some s else none
  | .inside =>
    if c = '"' then some { mode := .after, read := s.read ++ [s.token], token := [] }
    else if c = '\\' then some { s with mode := .escaped }
    else if c.toNat < 32 then none
    else some { s with token := s.token ++ [c] }
  | .escaped =>
    if c = 'u' then some { s with mode := .hex 3 0 none }
    else (unescape c).map fun d => { s with mode := .inside, token := s.token ++ [d] }
  | .hex digits value high =>
    (hexValue c).bind fun d =>
      match digits with
      | 0 => coded s (value * 16 + d) high
      | digits + 1 => some { s with mode := .hex digits (value * 16 + d) high }
  | .pair high => if c = '\\' then some { s with mode := .second high } else none
  | .second high => if c = 'u' then some { s with mode := .hex 3 0 (some high) } else none

def run : State → Str → Option State := List.foldlM step

/-- The strings of a list of them. -/
def loads (line : Str) : Option (List Str) :=
  (run ⟨.start, [], []⟩ line).bind fun s => if s.mode = .done then some s.read else none

@[simp] theorem run_nil (s : State) : run s [] = some s := rfl

@[simp] theorem run_cons (s : State) (c : Char) (text : Str) :
    run s (c :: text) = (step s c).bind (run · text) := rfl

theorem run_append (s : State) (a b : Str) : run s (a ++ b) = (run s a).bind (run · b) :=
  List.foldlM_append

/-! ## What was written is read back -/

theorem hexValue_hexDigit {n : Nat} (h : n < 16) : hexValue (hexDigit n) = some n := by
  have hall : ∀ n < 16, hexValue (hexDigit n) = some n := by decide
  exact hall n h

variable (read : List Str) (token : Str)

theorem run_hex {n : Nat} (h : n < 0x10000) (high : Option Nat) :
    run ⟨.hex 3 0 high, read, token⟩
      [hexDigit (n / 4096), hexDigit (n / 256 % 16), hexDigit (n / 16 % 16), hexDigit (n % 16)] =
      coded ⟨.hex 0 (n / 16) high, read, token⟩ n high := by
  have h₁ := hexValue_hexDigit (show n / 4096 < 16 by omega)
  have h₂ := hexValue_hexDigit (show n / 256 % 16 < 16 by omega)
  have h₃ := hexValue_hexDigit (show n / 16 % 16 < 16 by omega)
  have h₄ := hexValue_hexDigit (show n % 16 < 16 by omega)
  have e₁ : (0 * 16 + n / 4096) * 16 + n / 256 % 16 = n / 256 := by omega
  have e₂ : n / 256 * 16 + n / 16 % 16 = n / 16 := by omega
  have e₃ : n / 16 * 16 + n % 16 = n := by omega
  simp only [run_cons, run_nil, step, h₁, h₂, h₃, h₄, Option.bind_some, e₁, e₂, e₃]
  exact Option.bind_fun_some _

theorem run_point {n : Nat} (h : n < 0x10000) :
    run ⟨.inside, read, token⟩ (point n) = coded ⟨.hex 0 (n / 16) none, read, token⟩ n none := by
  rw [← run_hex read token h]
  rfl

/-- The two escapes of a pair, each of one surrogate. -/
theorem run_pair {hi lo : Nat} (h : hi < 0x400) (hl : lo < 0x400) :
    run ⟨.inside, read, token⟩ (point (0xd800 + hi) ++ point (0xdc00 + lo)) =
      some ⟨.inside, read, token ++ [.ofNat (0x10000 + hi * 0x400 + lo)]⟩ := by
  have h₁ : coded ⟨.hex 0 ((0xd800 + hi) / 16) none, read, token⟩ (0xd800 + hi) none =
      some ⟨.pair (0xd800 + hi), read, token⟩ := by
    rw [coded, if_neg (by omega), if_pos (by omega)]
  have h₂ : run ⟨.pair (0xd800 + hi), read, token⟩ (point (0xdc00 + lo)) =
      run ⟨.hex 3 0 (some (0xd800 + hi)), read, token⟩ ((point (0xdc00 + lo)).drop 2) := rfl
  have h₃ : 0x10000 + (0xd800 + hi - 0xd800) * 0x400 + (0xdc00 + lo - 0xdc00) =
      0x10000 + hi * 0x400 + lo := by omega
  rw [run_append, run_point read token (by omega), h₁, Option.bind_some, h₂]
  exact (run_hex read token (by omega) _).trans (by rw [coded, if_pos (by omega), h₃])

theorem run_escape (c : Char) :
    run ⟨.inside, read, token⟩ (escape c) = some ⟨.inside, read, token ++ [c]⟩ := by
  have hc := c.ofNat_toNat
  unfold escape
  dsimp only
  split
  · next h => subst h; rfl
  split
  · next h => subst h; rfl
  split
  · next h => subst h; rfl
  split
  · next h => subst h; rfl
  split
  · next h => subst h; rfl
  split
  · next h => rw [← hc, h]; rfl
  split
  · next h => rw [← hc, h]; rfl
  split
  · next hq hb _ _ _ _ _ h => simp [step, hq, hb, show ¬c.toNat < 32 by omega]
  -- beyond printable ASCII: a character is no surrogate
  have hv : c.toNat < 0xd800 ∨ 0xdfff < c.toNat ∧ c.toNat < 0x110000 := c.valid
  split
  · next h =>
    rw [run_point read token h, coded, if_pos (hv.imp_right And.left), hc]
  · next h =>
    rw [run_pair read token (by omega) (by omega)]
    have hn : 0x10000 + (c.toNat - 0x10000) / 0x400 * 0x400 + (c.toNat - 0x10000) % 0x400 =
        c.toNat := by omega
    rw [hn, hc]

theorem run_flatMap (s : Str) :
    run ⟨.inside, read, token⟩ (s.flatMap escape) = some ⟨.inside, read, token ++ s⟩ := by
  induction s generalizing token with
  | nil => simp
  | cons c s ih => rw [List.flatMap_cons, run_append, run_escape, Option.bind_some, ih]; simp

/-- From where a string may begin the reader comes behind it. -/
theorem run_quote {mode : Mode} (h : mode = .first ∨ mode = .next) (s : Str) :
    run ⟨mode, read, []⟩ (quote s) = some ⟨.after, read ++ [s], []⟩ := by
  have hstep : step ⟨mode, read, []⟩ '"' = some ⟨.inside, read, []⟩ := by
    rcases h with rfl | rfl <;> rfl
  rw [quote, run_cons, hstep, Option.bind_some, run_append, run_flatMap]
  rfl

theorem run_strings : ∀ (xs : List Str) {mode : Mode}, mode = .first ∨ mode = .next → xs ≠ [] →
    ∀ read, run ⟨mode, read, []⟩ ([',', ' '].intercalate (xs.map quote)) =
      some ⟨.after, read ++ xs, []⟩
  | [], _, _, hne, _ => absurd rfl hne
  | [s], _, h, _, read => by
    simpa using run_quote read h s
  | s :: t :: xs, _, h, _, read => by
    have ih := @run_strings (t :: xs) .next (.inr rfl) (by simp) (read ++ [s])
    rw [List.map_cons, List.map_cons, List.intercalate_cons_cons, List.append_assoc, run_append,
      run_quote read h, Option.bind_some]
    rw [List.map_cons, List.append_assoc] at ih
    exact ih

@[simp] theorem loads_dumps (xs : List Str) : loads (dumps xs) = some xs := by
  cases xs with
  | nil => rfl
  | cons s xs =>
    have hs := @run_strings (s :: xs) .first (.inl rfl) (by simp) []
    have hstart : step ⟨.start, [], []⟩ '[' = some ⟨.first, [], []⟩ := rfl
    rw [loads, dumps, run_cons, hstart, Option.bind_some, run_append, hs]
    rfl

/-! ## On one line -/

def Printable (c : Char) : Prop := 32 ≤ c.toNat ∧ c.toNat ≤ 126

instance (c : Char) : Decidable (Printable c) := inferInstanceAs (Decidable (_ ∧ _))

theorem not_break_of_printable {c : Char} (h : Printable c) : isBreak c = false := by
  obtain ⟨h₁, h₂⟩ := h
  simp only [isBreak, Bool.or_eq_false_iff, Bool.and_eq_false_iff, decide_eq_false_iff_not]
  omega

theorem printable_hexDigit {n : Nat} (h : n < 16) : Printable (hexDigit n) := by
  have hall : ∀ n < 16, Printable (hexDigit n) := by decide
  exact hall n h

theorem printable_point {n : Nat} (h : n < 0x10000) : ∀ c ∈ point n, Printable c := by
  have h₁ := printable_hexDigit (show n / 4096 < 16 by omega)
  have h₂ := printable_hexDigit (show n / 256 % 16 < 16 by omega)
  have h₃ := printable_hexDigit (show n / 16 % 16 < 16 by omega)
  have h₄ := printable_hexDigit (show n % 16 < 16 by omega)
  simp only [point, List.forall_mem_cons]
  exact ⟨by decide, by decide, h₁, h₂, h₃, h₄, by simp⟩

theorem printable_escape (d : Char) : ∀ c ∈ escape d, Printable c := by
  unfold escape
  dsimp only
  split; · simp [Printable]
  split; · simp [Printable]
  split; · simp [Printable]
  split; · simp [Printable]
  split; · simp [Printable]
  split; · simp [Printable]
  split; · simp [Printable]
  split
  · next h => simpa [Printable] using h
  have hv : d.toNat < 0xd800 ∨ 0xdfff < d.toNat ∧ d.toNat < 0x110000 := d.valid
  split
  · next h => exact printable_point h
  · intro c hc
    rcases List.mem_append.1 hc with hc | hc
    · exact printable_point (by omega) c hc
    · exact printable_point (by omega) c hc

theorem printable_quote (s : Str) : ∀ c ∈ quote s, Printable c := by
  intro c hc
  rcases List.mem_cons.1 hc with rfl | hc
  · decide
  rcases List.mem_append.1 hc with hc | hc
  · obtain ⟨d, -, hc⟩ := List.mem_flatMap.1 hc
    exact printable_escape d c hc
  · rw [List.mem_singleton.1 hc]
    decide

theorem printable_dumps (xs : List Str) : ∀ c ∈ dumps xs, Printable c := by
  intro c hc
  rcases List.mem_cons.1 hc with rfl | hc
  · decide
  rcases List.mem_append.1 hc with hc | hc
  · obtain ⟨part, hpart, hc⟩ := List.mem_flatten.1 hc
    rcases Text.mem_of_mem_intersperse hpart with hpart | rfl
    · obtain ⟨s, -, rfl⟩ := List.mem_map.1 hpart
      exact printable_quote s c hc
    · have hsep : ∀ c ∈ [',', ' '], Printable c := by simp [Printable]
      exact hsep c hc
  · rw [List.mem_singleton.1 hc]
    decide

theorem unbroken_dumps (xs : List Str) : Unbroken (dumps xs) := fun c hc =>
  not_break_of_printable (printable_dumps xs c hc)

/-- Without blanks around it. -/
theorem strip_dumps (xs : List Str) : Text.rstrip (Text.lstrip (dumps xs)) = dumps xs := by
  have hl : Text.lstrip (dumps xs) = dumps xs := List.dropWhile_cons_of_neg (by decide)
  rw [hl, Text.rstrip, dumps, ← List.cons_append, List.reverse_append, List.reverse_singleton,
    List.singleton_append, List.dropWhile_cons_of_neg (by decide), List.reverse_cons,
    List.reverse_reverse]

end Ascii
