import ImpiAgent.Lib.Text

/-!
# `shlex.split`

The reader of words in POSIX mode, without comments, splitting at blanks only: the state machine of
`shlex.read_token`, a character at a time. Any list of words, each quoted with `shlex.quote` (or left
as it is, where no character of it means anything to the reader) and joined by blanks, is read back as
it was (`split_words`).
-/

namespace Shlex

open Text (Str isSafe)

/-- Where the reader is: between words, in one, within quotes, or after a backslash, of a word or
within the quotes it goes back to. -/
inductive Mode
  | blank
  | word
  | quote (q : Char)
  | escape (back : Option Char)

def isBlank (c : Char) : Bool := c = ' ' || c = '\t' || c = '\r' || c = '\n'

def isQuote (c : Char) : Bool := c = '\'' || c = '"'

def noClosing : String := "No closing quotation"
def noEscaped : String := "No escaped character"

/-- The words of what is left, `token` being what was read of the one the reader is in. -/
@[grind =] def scan : Mode → Str → Str → Except String (List Str)
  | .blank, _, [] => .ok []
  | .blank, token, c :: cs =>
    if isBlank c then scan .blank [] cs
    else if c = '\\' then scan (.escape none) token cs
    else if isQuote c then scan (.quote c) token cs
    else scan .word (token ++ [c]) cs
  | .word, token, [] => .ok [token]
  | .word, token, c :: cs =>
    if isBlank c then (scan .blank [] cs).map (token :: ·)
    else if isQuote c then scan (.quote c) token cs
    else if c = '\\' then scan (.escape none) token cs
    else scan .word (token ++ [c]) cs
  | .quote _, _, [] => .error noClosing
  | .quote q, token, c :: cs =>
    if c = q then scan .word token cs
    -- only a double quote knows escapes
    else if c = '\\' ∧ q = '"' then scan (.escape (some q)) token cs
    else scan (.quote q) (token ++ [c]) cs
  | .escape _, _, [] => .error noEscaped
  | .escape none, token, c :: cs => scan .word (token ++ [c]) cs
  | .escape (some q), token, c :: cs =>
    scan (.quote q) (token ++ (if c ≠ '\\' ∧ c ≠ q then ['\\'] else []) ++ [c]) cs

/-- The words of a text, or why it has none. -/
def split (s : Str) : Except String (List Str) := scan .blank [] s

/-! ## One word -/

/-- Means nothing to the reader. -/
def Ordinary (c : Char) : Prop := isBlank c = false ∧ isQuote c = false ∧ c ≠ '\\'

instance (c : Char) : Decidable (Ordinary c) := inferInstanceAs (Decidable (_ ∧ _ ∧ _))

theorem ordinary_of_isSafe {c : Char} (h : isSafe c = true) : Ordinary c := by
  refine ⟨Bool.eq_false_iff.2 fun hb => ?_, Bool.eq_false_iff.2 fun hq => ?_, ?_⟩
  · simp only [isBlank, Bool.or_eq_true, decide_eq_true_eq] at hb
    rcases hb with ((rfl | rfl) | rfl) | rfl <;> revert h <;> decide
  · simp only [isQuote, Bool.or_eq_true, decide_eq_true_eq] at hq
    rcases hq with rfl | rfl <;> revert h <;> decide
  · rintro rfl
    revert h
    decide

theorem scan_word_ordinary {c : Char} (h : Ordinary c) (token rest : Str) :
    scan .word token (c :: rest) = scan .word (token ++ [c]) rest := by
  obtain ⟨hb, hq, he⟩ := h
  simp [scan, hb, hq, he]

theorem scan_word_append {s : Str} (h : ∀ c ∈ s, Ordinary c) (token rest : Str) :
    scan .word token (s ++ rest) = scan .word (token ++ s) rest := by
  induction s generalizing token with
  | nil => simp
  | cons c s ih =>
    rw [List.cons_append, scan_word_ordinary (h c List.mem_cons_self),
      ih fun c hc => h c (List.mem_cons_of_mem _ hc), List.append_assoc]
    rfl

/-! ## Words as they are written -/

/-- What `shlex.quote` makes of a character it puts in quotes. -/
def spelled (c : Char) : Str := if c.toNat = 39 then "'\"'\"'".toList else [c]

theorem shlexQuote_toList (s : String) :
    (Text.shlexQuote s).toList =
      if s.toList = [] then ['\'', '\'']
      else if s.toList.all isSafe then s.toList
      else '\'' :: (s.toList.flatMap spelled ++ ['\'']) := by
  unfold Text.shlexQuote
  by_cases h₁ : s.toList = []
  · simp [h₁]
  by_cases h₂ : s.toList.all isSafe
  · simp [h₁, h₂]
  · simp only [List.isEmpty_iff, h₁, h₂, if_false, Bool.false_eq_true, String.toList_append,
      String.toList_ofList]
    rfl

/-- An apostrophe leaves the quotes and enters them again. -/
theorem scan_spelled (c : Char) (token rest : Str) :
    scan (.quote '\'') token (spelled c ++ rest) = scan (.quote '\'') (token ++ [c]) rest := by
  unfold spelled
  split
  · next h =>
    obtain rfl : c = '\'' := by rw [← Char.ofNat_toNat c, h]
    simp [scan, isBlank, isQuote]
  · next h =>
    have hc : c ≠ '\'' := by
      rintro rfl
      exact h rfl
    simp [scan, hc]

theorem scan_quoted (s token rest : Str) :
    scan (.quote '\'') token (s.flatMap spelled ++ '\'' :: rest) = scan .word (token ++ s) rest := by
  induction s generalizing token with
  | nil => simp [scan]
  | cons c s ih =>
    rw [List.flatMap_cons, List.append_assoc, scan_spelled, ih, List.append_assoc]
    rfl

/-- Reading `text` between words leaves the reader in the word `w`. -/
def Writes (text w : Str) : Prop := ∀ rest, scan .blank [] (text ++ rest) = scan .word w rest

theorem writes_ordinary {s : Str} (hs : s ≠ []) (h : ∀ c ∈ s, Ordinary c) : Writes s s := by
  intro rest
  cases s with
  | nil => exact absurd rfl hs
  | cons c s =>
    obtain ⟨hb, hq, he⟩ := h c List.mem_cons_self
    rw [List.cons_append, scan, if_neg (by simp [hb]), if_neg he, if_neg (by simp [hq]),
      scan_word_append fun d hd => h d (List.mem_cons_of_mem _ hd)]
    rfl

theorem writes_shlexQuote (s : String) : Writes (Text.shlexQuote s).toList s.toList := by
  rw [shlexQuote_toList]
  split
  · next h =>
    intro rest
    simp [scan, isBlank, isQuote, h]
  split
  · next h hs =>
    exact writes_ordinary h fun c hc => ordinary_of_isSafe (List.all_eq_true.1 hs c hc)
  · intro rest
    have hq := scan_quoted s.toList [] rest
    simpa [scan, isBlank, isQuote] using hq

/-- Words, each written so, are read back from the text with a blank between them. -/
theorem split_words {texts ws : List Str} (h : List.Forall₂ Writes texts ws) :
    split ([' '].intercalate texts) = .ok ws := by
  unfold split
  induction h with
  | nil => rfl
  | @cons text w texts ws hw h ih =>
    cases h with
    | nil => simpa [scan] using hw []
    | cons =>
      rw [List.intercalate_cons_cons, List.append_assoc, hw, List.singleton_append, scan,
        if_pos (by decide), ih]
      rfl

end Shlex
