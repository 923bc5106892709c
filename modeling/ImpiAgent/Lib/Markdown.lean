import ImpiAgent.Lib.Text

/-!
# Code in Markdown

How CommonMark reads code: a span (`readSpan`) from a string of backticks to the next of the same
length, and a fenced block (`readBlock`) from a line that opens it to one that closes it.

A text is enclosed by a string of backticks that is longer than every run of them in it (`peak`):
`readSpan_enclosed` and `readBlock_enclosed` read it back whole, and nothing of it is the delimiter
(`not_infix_ticks`).
-/

namespace Markdown

open Text

def tick : Char := '`'

/-- A string of backticks. -/
def ticks (n : Nat) : Str := List.replicate n tick

/-- The longest run of backticks of `run` backticks and the text after them. -/
@[grind =] def peak : Nat → Str → Nat
  | run, [] => run
  | run, c :: s => if c = tick then peak (run + 1) s else max run (peak 0 s)

/-- A carriage return, alone or before a line feed, ends a line as a line feed does. -/
@[grind =] def unified : Str → Str
  | '\r' :: '\n' :: s => '\n' :: unified s
  | '\r' :: s => '\n' :: unified s
  | c :: s => c :: unified s
  | [] => []

def lines (s : Str) : List Str := (unified s).splitOn '\n'

/-! ## Spans -/

/-- The text up to a string of `n` backticks, and what is behind it, where `run` backticks have just
been read. -/
@[grind =] def upTo (n : Nat) : Nat → Str → Option (Str × Str)
  | run, [] => if run = n then some ([], []) else none
  | run, c :: s =>
    if c = tick then upTo n (run + 1) s
    else if run = n then some ([], c :: s)
    else (upTo n 0 s).map fun p => (ticks run ++ c :: p.1, p.2)

/-- The content of a span: its line ends are blanks, and where it begins and ends with a blank and
is not blank, one is taken from each side. -/
def content (s : Str) : Str :=
  let s := (unified s).map fun c => if c = '\n' then ' ' else c
  if s.head? = some ' ' ∧ s.getLast? = some ' ' ∧ s.any (· ≠ ' ') then s.tail.dropLast else s

/-- The span a text begins with, and what is behind it. -/
def readSpan (s : Str) : Option (Str × Str) :=
  let n := (s.takeWhile (· = tick)).length
  if n = 0 then none else (upTo n 0 (s.drop n)).map fun p => (content p.1, p.2)

/-! ## Blocks -/

def isBlank (c : Char) : Bool := c = ' ' || c = '\t'

/-- A fenced block: what the line that opens it says behind the fence, its lines, and whether a line
closes it. -/
structure Block where
  info : Str
  lines : List Str
  closed : Bool
  deriving DecidableEq

/-- The indentation, the length and the words of a line that opens a block. -/
def opening (line : Str) : Option (Nat × Nat × Str) :=
  let indent := (line.takeWhile (· = ' ')).length
  let s := line.drop indent
  let n := (s.takeWhile (· = tick)).length
  let info := (((s.drop n).dropWhile isBlank).reverse.dropWhile isBlank).reverse
  if indent ≤ 3 ∧ 3 ≤ n ∧ tick ∉ info then some (indent, n, info) else none

/-- The line closes a block that `n` backticks opened. -/
def closes (n : Nat) (line : Str) : Bool :=
  let indent := (line.takeWhile (· = ' ')).length
  let s := line.drop indent
  indent ≤ 3 && n ≤ (s.takeWhile (· = tick)).length && (s.dropWhile (· = tick)).all isBlank

/-- The line without what the opening line is indented by. -/
def outdent (indent : Nat) (line : Str) : Str :=
  line.drop (min indent (line.takeWhile (· = ' ')).length)

/-- The block that lines begin with, and the lines behind it. -/
def readBlock : List Str → Option (Block × List Str)
  | [] => none
  | line :: rest => (opening line).map fun (indent, n, info) =>
    let body := rest.takeWhile (!closes n ·)
    (⟨info, body.map (outdent indent), body.length < rest.length⟩, rest.drop (body.length + 1))

variable {s rest : Str} {n run : Nat}

theorem peak_cons_tick (run : Nat) (s : Str) : peak run (tick :: s) = peak (run + 1) s := by
  rw [peak, if_pos rfl]

theorem peak_cons {c : Char} (h : c ≠ tick) (run : Nat) (s : Str) :
    peak run (c :: s) = max run (peak 0 s) := by
  rw [peak, if_neg h]

theorem le_peak (run : Nat) (s : Str) : run ≤ peak run s := by
  induction s generalizing run with
  | nil => exact Nat.le_refl _
  | cons c s ih =>
    rw [peak]
    split
    · exact (Nat.le_succ run).trans (ih (run + 1))
    · exact Nat.le_max_left ..

theorem peak_mono {r r' : Nat} (h : r ≤ r') (s : Str) : peak r s ≤ peak r' s := by
  induction s generalizing r r' with
  | nil => exact h
  | cons c s ih =>
    rw [peak, peak]
    split
    · exact ih (Nat.succ_le_succ h)
    · omega

theorem peak_ticks (n run : Nat) (s : Str) : peak run (ticks n ++ s) = peak (run + n) s := by
  induction n generalizing run with
  | zero => rfl
  | succ n ih =>
    rw [ticks, List.replicate_succ, List.cons_append, peak_cons_tick]
    rw [ticks] at ih
    rw [ih]
    congr 1
    omega

/-- A later part has no longer run. -/
theorem peak_append_right (run : Nat) (a b : Str) : peak 0 b ≤ peak run (a ++ b) := by
  induction a generalizing run with
  | nil => exact peak_mono (Nat.zero_le _) b
  | cons c a ih =>
    rw [List.cons_append, peak]
    split
    · exact ih _
    · exact (ih 0).trans (Nat.le_max_right ..)

/-- An earlier part neither. -/
theorem peak_append_left (run : Nat) (a b : Str) : peak run a ≤ peak run (a ++ b) := by
  induction a generalizing run with
  | nil => exact le_peak run b
  | cons c a ih =>
    rw [List.cons_append, peak, peak]
    split
    · exact ih _
    · have := ih 0
      omega

theorem peak_concat {c : Char} (h : c ≠ tick) (run : Nat) (s : Str) :
    peak run (s ++ [c]) = peak run s := by
  induction s generalizing run with
  | nil => simp [peak, h]
  | cons d s ih =>
    rw [List.cons_append, peak, peak, ih, ih]

theorem peak_infix {a b : Str} (h : a <:+: b) : peak 0 a ≤ peak 0 b := by
  obtain ⟨x, y, rfl⟩ := h
  rw [List.append_assoc]
  exact (peak_append_left 0 a y).trans (peak_append_right 0 x (a ++ y))

/-- A string of backticks that is longer than every run of a text is nowhere in it. -/
theorem not_infix_ticks (h : peak 0 s < n) : ¬ ticks n <:+: s := by
  intro hi
  have hp := peak_infix hi
  rw [show ticks n = ticks n ++ [] from (List.append_nil _).symm, peak_ticks, peak] at hp
  omega

/-! ## What is enclosed is read back -/

theorem upTo_ticks (n run k : Nat) (s : Str) : upTo n run (ticks k ++ s) = upTo n (run + k) s := by
  induction k generalizing run with
  | zero => rfl
  | succ k ih =>
    rw [ticks, List.replicate_succ, List.cons_append, upTo, if_pos rfl]
    rw [ticks] at ih
    rw [ih]
    congr 1
    omega

theorem ticks_succ_append (run : Nat) (s : Str) :
    ticks (run + 1) ++ s = ticks run ++ tick :: s := by
  rw [ticks, ticks, List.replicate_succ', List.append_assoc, List.singleton_append]

/-- A text with shorter runs, that does not end in a backtick, is what is read up to `n`. -/
theorem upTo_enclosed (hp : peak run s < n) (hl : (ticks run ++ s).getLast? ≠ some tick)
    (hr : rest.head? ≠ some tick) :
    upTo n run (s ++ ticks n ++ rest) = some (ticks run ++ s, rest) := by
  induction s generalizing run with
  | nil =>
    have hrun : run = 0 := by
      by_contra h
      obtain ⟨k, rfl⟩ := Nat.exists_eq_succ_of_ne_zero h
      simp [ticks, List.replicate_succ'] at hl
    subst hrun
    rw [List.nil_append, upTo_ticks, Nat.zero_add, List.append_nil]
    cases rest with
    | nil => simp [upTo, ticks]
    | cons c rest =>
      have hc : c ≠ tick := fun h => hr (by rw [h]; rfl)
      simp [upTo, hc, ticks]
  | cons c s ih =>
    rw [List.cons_append, List.cons_append, upTo]
    split
    · rename_i h
      subst h
      rw [peak_cons_tick] at hp
      rw [← ticks_succ_append] at hl ⊢
      exact ih hp hl
    · rename_i h
      rw [peak_cons h] at hp
      have hs : (ticks 0 ++ s).getLast? ≠ some tick := by
        cases s with
        | nil => nofun
        | cons d s => simpa [ticks, List.getLast?_cons_cons] using hl
      have ih := ih (by omega) hs
      rw [if_neg (by omega), ih]
      rfl

theorem takeWhile_ticks (hh : s.head? ≠ some tick) :
    (ticks n ++ s).takeWhile (· = tick) = ticks n := by
  induction n with
  | zero =>
    cases s with
    | nil => rfl
    | cons c s =>
      have hc : c ≠ tick := fun h => hh (by rw [h]; rfl)
      simp [ticks, hc]
  | succ n ih =>
    rw [ticks, List.replicate_succ, List.cons_append, List.takeWhile_cons_of_pos (by simp)]
    rw [ticks] at ih
    rw [ih]

theorem length_ticks (n : Nat) : (ticks n).length = n := List.length_replicate

/-- A text between two strings of backticks longer than its own, which neither of its ends
continues, is a span. -/
theorem readSpan_enclosed (hp : peak 0 s < n) (hs : s ≠ []) (hh : s.head? ≠ some tick)
    (hl : s.getLast? ≠ some tick) (hr : rest.head? ≠ some tick) :
    readSpan (ticks n ++ s ++ ticks n ++ rest) = some (content s, rest) := by
  have hn : n ≠ 0 := by omega
  have hh' : (s ++ (ticks n ++ rest)).head? ≠ some tick := by
    cases s with
    | nil => exact absurd rfl hs
    | cons c s => exact hh
  have htw : ((ticks n ++ s ++ ticks n ++ rest).takeWhile (· = tick)).length = n := by
    rw [List.append_assoc, List.append_assoc, takeWhile_ticks hh', length_ticks]
  have hdrop : (ticks n ++ s ++ ticks n ++ rest).drop n = s ++ ticks n ++ rest := by
    rw [List.append_assoc, List.append_assoc, List.drop_left' (length_ticks n), List.append_assoc]
  rw [readSpan, htw, if_neg hn, hdrop, upTo_enclosed hp (by simpa [ticks] using hl) hr]
  rfl

theorem ticks_prefix {k : Nat} (h : n ≤ k) : ticks n <+: ticks k :=
  ⟨ticks (k - n), by rw [ticks, ticks, ticks, List.replicate_append_replicate,
    Nat.add_sub_cancel' h]⟩

theorem takeWhile_eq_ticks (s : Str) :
    s.takeWhile (· = tick) = ticks (s.takeWhile (· = tick)).length :=
  List.eq_replicate_length.2 fun c hc => by
    simpa using List.all_eq_true.1 List.all_takeWhile c hc

/-- A line that closes a block has the fence in it. -/
theorem infix_of_closes {line : Str} (h : closes n line = true) : ticks n <:+: line := by
  simp only [closes, Bool.and_eq_true, decide_eq_true_eq] at h
  obtain ⟨⟨-, hn⟩, -⟩ := h
  have hpre : ticks n <+: (line.drop (line.takeWhile (· = ' ')).length).takeWhile (· = tick) := by
    rw [takeWhile_eq_ticks]
    exact ticks_prefix hn
  exact (hpre.trans (List.takeWhile_prefix _)).isInfix.trans (List.drop_suffix _ _).isInfix

theorem closes_ticks (n : Nat) : closes n (ticks n) = true := by
  have hsp : (ticks n).takeWhile (· = ' ') = [] := by
    cases n <;> rfl
  have htw : (ticks n).takeWhile (· = tick) = ticks n := by
    simpa using takeWhile_ticks (n := n) (s := []) nofun
  have hdw : (ticks n).dropWhile (· = tick) = [] := by
    simp [ticks]
  simp only [closes, hsp, List.length_nil, List.drop_zero, htw, hdw, length_ticks]
  simp

/-- A word behind a fence opens a block. -/
theorem opening_ticks {info : Str} (hn : 3 ≤ n) (hi : ∀ c ∈ info, c ≠ tick ∧ isBlank c = false) :
    opening (ticks n ++ info) = some (0, n, info) := by
  obtain ⟨k, rfl⟩ : ∃ k, n = k + 1 := ⟨n - 1, by omega⟩
  have hh : info.head? ≠ some tick := fun h => (hi tick (List.mem_of_mem_head? h)).1 rfl
  have hsp : (ticks (k + 1) ++ info).takeWhile (· = ' ') = [] := rfl
  have hdrop : (ticks (k + 1) ++ info).drop (k + 1) = info := List.drop_left' (length_ticks _)
  have blank : ∀ l : Str, (∀ c ∈ l, isBlank c = false) → l.dropWhile isBlank = l := fun l hl => by
    cases l with
    | nil => rfl
    | cons c l => rw [List.dropWhile_cons_of_neg (by simp [hl c List.mem_cons_self])]
  have hinfo : ((info.dropWhile isBlank).reverse.dropWhile isBlank).reverse = info := by
    rw [blank info fun c hc => (hi c hc).2, blank info.reverse fun c hc =>
      (hi c (List.mem_reverse.1 hc)).2, List.reverse_reverse]
  simp only [opening, hsp, List.length_nil, List.drop_zero, takeWhile_ticks hh, length_ticks, hdrop,
    hinfo]
  rw [if_pos ⟨Nat.zero_le _, hn, fun h => (hi tick h).1 rfl⟩]

/-- Lines none of which closes it, between the line that opens a block and the fence, are the
block. -/
theorem readBlock_enclosed {info : Str} {body : List Str} (hn : 3 ≤ n)
    (hi : ∀ c ∈ info, c ≠ tick ∧ isBlank c = false) (hb : ∀ line ∈ body, closes n line = false) :
    readBlock ((ticks n ++ info) :: (body ++ [ticks n])) = some (⟨info, body, true⟩, []) := by
  have htw : (body ++ [ticks n]).takeWhile (!closes n ·) = body := by
    rw [List.takeWhile_append_of_pos (by simpa using hb), List.takeWhile_cons_of_neg
      (by simp [closes_ticks]), List.append_nil]
  have hmap : body.map (outdent 0) = body := by
    refine (List.map_congr_left fun line _ => ?_).trans (List.map_id body)
    rw [outdent, Nat.zero_min]
    rfl
  rw [readBlock, opening_ticks hn hi, Option.map_some]
  simp only [htw, hmap]
  simp

/-! ## Lines -/

theorem unified_of_not_mem (h : '\r' ∉ s) : unified s = s := by
  fun_induction unified s with
  | case1 s ih => exact absurd List.mem_cons_self h
  | case2 s hs ih => exact absurd List.mem_cons_self h
  | case3 c s hc hn ih => rw [ih fun hm => h (List.mem_cons_of_mem _ hm)]
  | case4 => rfl

/-- The lines of a text between two lines. -/
theorem splitOn_enclosed {a b : Str} (ha : '\n' ∉ a) (hb : '\n' ∉ b) :
    (a ++ '\n' :: s ++ '\n' :: b).splitOn '\n' = a :: (s.splitOn '\n' ++ [b]) := by
  rw [List.append_assoc, List.cons_append, List.splitOn_append_cons_self_of_not_mem ha,
    List.splitOn_append_cons_self, List.splitOn_eq_singleton hb]

theorem not_mem_ticks {c : Char} (h : c ≠ tick) : c ∉ ticks n := fun hc =>
  h (List.eq_of_mem_replicate hc)

theorem infix_of_mem_intercalate {sep l : Str} : ∀ {ls : List Str}, l ∈ ls →
    l <:+: sep.intercalate ls
  | [_], h => by
    rw [List.mem_singleton.1 h]
    simp
  | a :: b :: ls, h => by
    rw [List.intercalate_cons_cons]
    rcases List.mem_cons.1 h with rfl | h
    · exact ⟨[], sep ++ sep.intercalate (b :: ls), by simp⟩
    · exact (infix_of_mem_intercalate h).trans (List.suffix_append _ _).isInfix

theorem infix_of_mem_splitOn {c : Char} {line : Str} (h : line ∈ s.splitOn c) : line <:+: s := by
  have hi : line <:+: [c].intercalate (s.splitOn c) := infix_of_mem_intercalate h
  rwa [List.intercalate_splitOn] at hi

/-- No line of a text with shorter runs closes a block. -/
theorem closes_of_peak {line : Str} (hp : peak 0 s < n) (h : line ∈ s.splitOn '\n') :
    closes n line = false := by
  rw [← Bool.not_eq_true]
  exact fun hc => not_infix_ticks hp ((infix_of_closes hc).trans (infix_of_mem_splitOn h))

/-- A text between two fences longer than its own runs is a block. -/
theorem readBlock_text {info : Str} (hn : 3 ≤ n) (hp : peak 0 s < n)
    (hi : ∀ c ∈ info, c ≠ tick ∧ isBlank c = false ∧ c ≠ '\n' ∧ c ≠ '\r') (hr : '\r' ∉ s) :
    readBlock (lines (ticks n ++ info ++ '\n' :: s ++ '\n' :: ticks n)) =
      some (⟨info, s.splitOn '\n', true⟩, []) := by
  have hr' : '\r' ∉ ticks n ++ info ++ '\n' :: s ++ '\n' :: ticks n := by
    simp only [List.mem_append, List.mem_cons, not_or]
    exact ⟨⟨⟨not_mem_ticks (by decide), fun h => (hi _ h).2.2.2 rfl⟩, by decide, hr⟩, by decide,
      not_mem_ticks (by decide)⟩
  have hopen : '\n' ∉ ticks n ++ info := by
    rw [List.mem_append, not_or]
    exact ⟨not_mem_ticks (by decide), fun h => (hi _ h).2.2.1 rfl⟩
  rw [lines, unified_of_not_mem hr', splitOn_enclosed hopen (not_mem_ticks (by decide))]
  exact readBlock_enclosed hn (fun c hc => ⟨(hi c hc).1, (hi c hc).2.1⟩)
    fun line hl => closes_of_peak hp hl

end Markdown
