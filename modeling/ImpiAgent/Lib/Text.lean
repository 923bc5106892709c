import Mathlib.Data.List.SplitBy
import Mathlib.Data.List.Infix

/-!
# Python's `str`

The methods of `str` and of `shlex` the sources use, on lists of characters, and a text read line
by line: its lines (`lines`), and those of them a reader picks out (`picked`).
-/

namespace Text

abbrev Str := List Char

instance : LawfulBEq Str := inferInstance

/-- A text the source writes out. -/
def str (s : String) : Str := s.toList

/-- `str.isspace` of one character. -/
def isSpace (c : Char) : Bool :=
  let n := c.toNat
  9 ≤ n && n ≤ 13 || 28 ≤ n && n ≤ 32 || n = 0x85 || n = 0xa0 || n = 0x1680 ||
    0x2000 ≤ n && n ≤ 0x200a || n = 0x2028 || n = 0x2029 || n = 0x202f || n = 0x205f || n = 0x3000

def lstrip (s : List Char) : List Char := s.dropWhile isSpace

def rstrip (s : List Char) : List Char := (s.reverse.dropWhile isSpace).reverse

def strip (s : String) : String := .ofList (rstrip (lstrip s.toList))

/-- `str.split` at a character. -/
def split (sep : Char) (s : String) : List String := (s.toList.splitOn sep).map .ofList

/-- Needs no quotes in a shell. -/
def isSafe (c : Char) : Bool :=
  let n := c.toNat
  48 ≤ n && n ≤ 57 || 65 ≤ n && n ≤ 90 || 97 ≤ n && n ≤ 122 || "_@%+=:,./-".toList.contains c

/-- `shlex.quote`. -/
def shlexQuote (s : String) : String :=
  if s.toList.isEmpty then "''"
  else if s.toList.all isSafe then s
  else
    -- an apostrophe leaves the quotes, is quoted by itself, and enters them again
    "'" ++ .ofList (s.toList.flatMap fun c => if c.toNat = 39 then "'\"'\"'".toList else [c]) ++ "'"

theorem mem_of_mem_intersperse {α : Type} {a sep : α} : ∀ {l : List α}, a ∈ l.intersperse sep →
    a ∈ l ∨ a = sep
  | [], h => by simp at h
  | [_], h => .inl (by simpa using h)
  | b :: c :: l, h => by
    rw [List.intersperse_cons_cons, List.mem_cons, List.mem_cons] at h
    rcases h with rfl | rfl | h
    · exact .inl List.mem_cons_self
    · exact .inr rfl
    · exact (mem_of_mem_intersperse h).imp_left (List.mem_cons_of_mem _)

/-- What is before and after the last `a` of a list. -/
theorem append_cons_inj {α : Type} {a : α} {x y n m : List α} (hn : a ∉ n) (hm : a ∉ m)
    (h : x ++ a :: n = y ++ a :: m) : x = y ∧ n = m := by
  rcases List.append_eq_append_iff.1 h with ⟨l, rfl, hl⟩ | ⟨l, rfl, hl⟩
  · cases l with
    | nil => simpa using hl
    | cons b l =>
      obtain ⟨-, rfl⟩ := List.cons_eq_cons.1 hl
      exact absurd (List.mem_append_right l List.mem_cons_self) hn
  · cases l with
    | nil => simpa [eq_comm] using hl
    | cons b l =>
      obtain ⟨-, rfl⟩ := List.cons_eq_cons.1 hl
      exact absurd (List.mem_append_right l List.mem_cons_self) hm

theorem not_of_mem_splitOnP {α : Type} {p : α → Bool} {l : List α} :
    ∀ {part : List α}, part ∈ l.splitOnP p → ∀ a ∈ part, p a = false := by
  induction l with
  | nil => simp
  | cons b l ih =>
    intro part hpart
    rw [List.splitOnP_cons_eq_if_modifyHead] at hpart
    split at hpart
    · rcases List.mem_cons.1 hpart with rfl | hpart
      · simp
      · exact ih hpart
    · next hb =>
      cases hs : l.splitOnP p with
      | nil => exact absurd hs (List.splitOnP_ne_nil _ _)
      | cons first rest =>
        rw [hs, List.modifyHead_cons] at hpart
        rcases List.mem_cons.1 hpart with rfl | hpart
        · intro a ha
          rcases List.mem_cons.1 ha with rfl | ha
          · simpa using hb
          · exact ih (by simp [hs]) a ha
        · exact ih (by simp [hs, hpart])

theorem mem_of_mem_splitOnP {α : Type} {p : α → Bool} {a : α} {l : List α} :
    ∀ {part : List α}, part ∈ l.splitOnP p → a ∈ part → a ∈ l := by
  induction l with
  | nil => simp
  | cons b l ih =>
    intro part hpart ha
    rw [List.splitOnP_cons_eq_if_modifyHead] at hpart
    split at hpart
    · rcases List.mem_cons.1 hpart with rfl | hpart
      · cases ha
      · exact List.mem_cons_of_mem _ (ih hpart ha)
    · cases hs : l.splitOnP p with
      | nil => exact absurd hs (List.splitOnP_ne_nil _ _)
      | cons first rest =>
        rw [hs, List.modifyHead_cons] at hpart
        rcases List.mem_cons.1 hpart with rfl | hpart
        · rcases List.mem_cons.1 ha with rfl | ha
          · exact List.mem_cons_self
          · exact List.mem_cons_of_mem _ (ih (by simp [hs]) ha)
        · exact List.mem_cons_of_mem _ (ih (by simp [hs, hpart]) ha)

/-! ## Lines -/

/-- A character `str.splitlines` ends a line at. -/
def isBreak (c : Char) : Bool :=
  let n := c.toNat
  10 ≤ n && n ≤ 13 || 28 ≤ n && n ≤ 30 || n = 0x85 || n = 0x2028 || n = 0x2029

/-- `str.splitlines`, which also takes the two characters of `\r\n` for one break. -/
def lines (s : Str) : List Str := s.splitOnP isBreak

def firstLine (s : Str) : Str := (lines s).headD []

def laterLines (s : Str) : List Str := (lines s).tail

theorem isSpace_of_isBreak {c : Char} (h : isBreak c) : isSpace c := by
  simp only [isBreak, isSpace, Bool.or_eq_true, Bool.and_eq_true, decide_eq_true_eq] at h ⊢
  omega

theorem not_break_of_isAlphanum {c : Char} (h : c.isAlphanum) : isBreak c = false := by
  delta Char.isAlphanum Char.isAlpha Char.isUpper Char.isLower Char.isDigit at h
  simp only [Bool.or_eq_true, Bool.and_eq_true, decide_eq_true_eq, UInt32.le_iff_toNat_le] at h
  have h : 48 ≤ c.toNat ∧ c.toNat ≤ 57 ∨ 65 ≤ c.toNat ∧ c.toNat ≤ 90 ∨
      97 ≤ c.toNat ∧ c.toNat ≤ 122 := by
    simp at h
    rcases h with (h | h) | h
    · exact .inr (.inl h)
    · exact .inr (.inr h)
    · exact .inl h
  simp only [isBreak, Bool.or_eq_false_iff, Bool.and_eq_false_iff, decide_eq_false_iff_not]
  omega

theorem lines_eq (s : Str) : lines s = firstLine s :: laterLines s := by
  cases h : lines s with
  | nil => exact absurd h (List.splitOnP_ne_nil _ _)
  | cons l ls => simp [firstLine, laterLines, h]

theorem lines_cons_break {c : Char} (h : isBreak c) (s : Str) : lines (c :: s) = [] :: lines s := by
  simp [lines, List.splitOnP_cons_eq_if_modifyHead, h]

theorem lines_cons {c : Char} (h : isBreak c = false) (s : Str) :
    lines (c :: s) = (c :: firstLine s) :: laterLines s := by
  have hs := lines_eq s
  simp only [lines] at hs
  simp [lines, List.splitOnP_cons_eq_if_modifyHead, h, hs]

@[simp] theorem lines_nil : lines [] = [[]] := rfl

theorem lines_append_break {c : Char} (h : isBreak c) (a b : Str) :
    lines (a ++ c :: b) = lines a ++ lines b :=
  List.splitOnP_append_cons _ _ h

/-- All on one line. -/
def Unbroken (s : Str) : Prop := ∀ c ∈ s, isBreak c = false

instance (s : Str) : Decidable (Unbroken s) :=
  -- of the characters of the text, not of all there are
  List.decidableBAll (fun c => isBreak c = false) s

@[simp] theorem unbroken_nil : Unbroken [] := by simp [Unbroken]

@[simp] theorem unbroken_cons {c : Char} {s : Str} :
    Unbroken (c :: s) ↔ isBreak c = false ∧ Unbroken s := by
  simp [Unbroken]

@[simp] theorem unbroken_append {a b : Str} : Unbroken (a ++ b) ↔ Unbroken a ∧ Unbroken b := by
  simp [Unbroken, or_imp, forall_and]

theorem lines_append {a : Str} (h : Unbroken a) (b : Str) :
    lines (a ++ b) = (a ++ firstLine b) :: laterLines b := by
  induction a with
  | nil => simp [lines_eq b]
  | cons c a ih =>
    have hc : lines (a ++ b) = _ := ih fun c hc => h c (List.mem_cons_of_mem _ hc)
    rw [List.cons_append, lines_cons (h c List.mem_cons_self)]
    simp [firstLine, laterLines, hc]

theorem firstLine_append {a : Str} (h : Unbroken a) (b : Str) :
    firstLine (a ++ b) = a ++ firstLine b := by
  rw [firstLine, lines_append h]
  rfl

theorem laterLines_append {a : Str} (h : Unbroken a) (b : Str) :
    laterLines (a ++ b) = laterLines b := by
  rw [laterLines, lines_append h]
  rfl

theorem lines_of_unbroken {a : Str} (h : Unbroken a) : lines a = [a] :=
  List.splitOnP_eq_singleton h

theorem laterLines_of_unbroken {a : Str} (h : Unbroken a) : laterLines a = [] := by
  rw [laterLines, lines_of_unbroken h]
  rfl

section Picked

/-! ## The lines a reader picks out -/

variable {p : Str → Bool}

def picked (p : Str → Bool) (s : Str) : List Str := (lines s).filter p

theorem picked_append_break {c : Char} (h : isBreak c) (a b : Str) :
    picked p (a ++ c :: b) = picked p a ++ picked p b := by
  rw [picked, lines_append_break h, List.filter_append]
  rfl

variable (hp : p [] = false)
include hp

theorem picked_nil : picked p [] = [] := by
  simp [picked, hp]

theorem picked_cons_break {c : Char} (h : isBreak c) (s : Str) : picked p (c :: s) = picked p s := by
  rw [picked, lines_cons_break h, List.filter_cons_of_neg (by simp [hp])]
  rfl

/-- Joining texts by line breaks picks out what each of them has. -/
theorem picked_intercalate {sep : Str} (hs : sep ≠ []) (hb : sep.all isBreak) :
    ∀ parts : List Str, picked p (sep.intercalate parts) = parts.flatMap (picked p)
  | [] => by simp [picked_nil hp]
  | [part] => by simp
  | part :: next :: parts => by
    have ih := picked_intercalate hs hb (next :: parts)
    have hb := List.all_eq_true.1 hb
    have hsep : ∀ sep' : Str, (∀ c ∈ sep', isBreak c) → ∀ s,
        picked p (sep' ++ s) = picked p s := by
      intro sep' hb' s
      induction sep' with
      | nil => rfl
      | cons c sep' ih' =>
        rw [List.cons_append, picked_cons_break hp (hb' c List.mem_cons_self),
          ih' fun c hc => hb' c (List.mem_cons_of_mem _ hc)]
    cases sep with
    | nil => exact absurd rfl hs
    | cons c sep' =>
      rw [List.intercalate_cons_cons, List.append_assoc, List.cons_append,
        picked_append_break (hb c List.mem_cons_self),
        hsep sep' fun c hc => hb c (List.mem_cons_of_mem _ hc), ih]
      rfl

end Picked

end Text
