import ImpiAgent.Flows.Containment
import ImpiAgent.Lib.Markdown
import Mathlib.Data.List.TakeWhile

/-!
# Code somebody else wrote

`code_span`, `code_block` and `preformatted` of `containment.py`, and what Slack gets of them:
`_mrkdwn_code` of `gateways/slack/rendering.py`, and `markdown_to_mrkdwn` of
`gateways/slack/formatter.py`, which leaves code as it is.

The fence is longer than every run of backticks in what it encloses (`fence_eq`), and no run is left
that is longer than two (`peak_defuse`). `contained` is that the text is then read back, as it was
made inert, from one code element, and that there is none where nothing is left of it.
-/

namespace Containment

open Text Markdown

/-- `_fence`. -/
def fence (content : Str) (minimum : Nat) : Str :=
  let (_, longest) := content.foldl (fun (run, longest) char =>
    let run := if char = tick then run + 1 else 0
    (run, max longest run)) (0, 0)
  ticks (max minimum (longest + 1))

/-- `FIELD_LIMIT`. -/
def fieldLimit : Nat := 200

/-- `code_span`. -/
def codeSpan (text : Str) : Str :=
  let content := oneLine text fieldLimit
  if content = [] then []
  else
    let fence := fence content 1
    let pad := if content.head? = some tick ∨ content.getLast? = some tick then [' '] else []
    fence ++ pad ++ content ++ pad ++ fence

/-- `code_block`. -/
def codeBlock (text : Str) : Str :=
  let content := defuse (inert text)
  let fence := fence content 3
  fence ++ '\n' :: content ++ '\n' :: fence

/-- `preformatted`. -/
def preformatted (text lang : Str) : Str :=
  let content := defuse (inertKeepLines text)
  let fence := fence content 3
  fence ++ lang ++ '\n' :: content ++ '\n' :: fence

/-- A character of the languages `fence_language` lets on a fence. -/
def fenceWord (c : Char) : Bool :=
  let n := c.toNat
  48 ≤ n && n ≤ 57 || 65 ≤ n && n ≤ 90 || 97 ≤ n && n ≤ 122 || "_+.#-".toList.contains c

/-! ## Slack -/

/-- `_mrkdwn_text`, of one character. -/
def entity (c : Char) : Str :=
  if c = '&' then str "&amp;"
  else if c = '<' then str "&lt;"
  else if c = '>' then str "&gt;"
  else [c]

/-- `_mrkdwn_text`. The entities of `<` and `>` come after that of `&`. -/
def mrkdwnText (text : Str) : Str := text.flatMap entity

/-- The backtick's look-alike. -/
def lookAlike (c : Char) : Char := if c = tick then .ofNat 0x2cb else c

/-- `_mrkdwn_code`. -/
def mrkdwnCode (text : Str) : Str := mrkdwnText (codeSpan (text.map lookAlike))

section
variable (letter : Char → Bool) (restyle : List Str → List Str)

/-- `[\w-]`, where `letter` is what `\w` has beyond ASCII. -/
def langChar (c : Char) : Bool := c.isAlphanum || c = '_' || c = '-' || letter c

/-- `_FENCE_RE` matches a line. -/
def isFence (line : Str) : Bool :=
  let s := lstrip line
  s.take 3 == ticks 3 && ((s.drop 3).dropWhile (langChar letter)).all isSpace

/-- `_convert_prose`, where `restyle` is what it makes of lines outside code. -/
def convertProse (prose : List Str) : List Str := if prose = [] then [] else restyle prose

/-- The loop of `_convert`. -/
def convertLines : Bool → List Str → List Str → List Str
  | _, prose, [] => convertProse restyle prose
  | inCode, prose, line :: rest =>
    if isFence letter line then
      if !inCode then convertProse restyle prose ++ line :: convertLines true [] rest
      else line :: convertLines false prose rest
    else if inCode then line :: convertLines true prose rest
    else convertLines false (prose ++ [line]) rest

/-- `markdown_to_mrkdwn`. -/
def markdownToMrkdwn (text : Str) : Str :=
  ['\n'].intercalate (convertLines letter restyle false [] (text.splitOn '\n'))

end

/-- The inline code a mrkdwn text begins with, from a backtick to the next, and what is behind
it. -/
def readMrkdwnCode : Str → Option (Str × Str)
  | [] => none
  | c :: s =>
    if c = tick ∧ tick ∈ s then
      some (s.takeWhile (· ≠ tick), (s.dropWhile (· ≠ tick)).tail)
    else none

example : codeSpan (str "`") = str "`` ` ``" := by decide
example : codeSpan (str "a`b") = str "``a`b``" := by decide

variable {s text : Str}

/-! ## The fence -/

theorem foldl_peak (run longest : Nat) (h : run ≤ longest) :
    (s.foldl (fun (p : Nat × Nat) char =>
      let run := if char = tick then p.1 + 1 else 0
      (run, max p.2 run)) (run, longest)).2 = max longest (peak run s) := by
  induction s generalizing run longest with
  | nil => simp [peak, h]
  | cons c s ih =>
    rw [List.foldl_cons]
    by_cases hc : c = tick
    · have := le_peak (run + 1) s
      simp only [hc, if_true, peak_cons_tick]
      rw [ih _ _ (Nat.le_max_right ..)]
      omega
    · simp only [hc, if_false, peak_cons hc]
      rw [ih _ _ (Nat.zero_le _)]
      omega

/-- The fence is longer than every run of what it encloses. -/
theorem fence_eq (content : Str) (minimum : Nat) :
    fence content minimum = ticks (max minimum (peak 0 content + 1)) := by
  have h := foldl_peak (s := content) 0 0 (Nat.le_refl 0)
  rw [Nat.zero_max] at h
  simp only [fence]
  rw [← h]

/-! ## What `_defuse` leaves -/

/-- A run as `_defuse` leaves it. -/
def defused (run : Str) : Str :=
  if run.head? = some tick ∧ 3 ≤ run.length then run.intersperse ' ' else run

theorem defuse_eq (text : Str) : defuse text = (text.splitBy (· == ·)).flatMap defused := rfl

theorem peak_intersperse (k : Nat) (s : Str) :
    peak 0 ((ticks (k + 1)).intersperse ' ' ++ s) ≤ peak 1 s := by
  induction k with
  | zero => exact Nat.le_of_eq (peak_ticks 1 0 s)
  | succ k ih =>
    have hcons : (ticks (k + 2)).intersperse ' ' =
        tick :: ' ' :: (ticks (k + 1)).intersperse ' ' := by
      rw [ticks, List.replicate_succ, List.replicate_succ, List.intersperse_cons_cons]
      rfl
    have h1 := le_peak 1 s
    rw [hcons, List.cons_append, List.cons_append, peak_cons_tick, peak_cons (by decide)]
    omega

/-- A run of backticks comes out with two at most together. -/
theorem peak_defused (k : Nat) (s : Str) : peak 0 (defused (ticks k) ++ s) ≤ peak 2 s := by
  unfold defused
  split
  · rename_i h
    rw [length_ticks] at h
    obtain ⟨k, rfl⟩ : ∃ j, k = j + 1 := ⟨k - 1, by omega⟩
    exact (peak_intersperse k s).trans (peak_mono (by decide) s)
  · rename_i h
    rw [peak_ticks]
    refine peak_mono ?_ s
    by_contra hk
    obtain ⟨k, rfl⟩ : ∃ j, k = j + 1 := ⟨k - 1, by omega⟩
    exact h ⟨rfl, by rw [length_ticks]; omega⟩

theorem peak_other {a : Str} (h : tick ∉ a) (s : Str) : peak 0 (a ++ s) = peak 0 s := by
  induction a with
  | nil => rfl
  | cons c a ih =>
    rw [List.mem_cons, not_or] at h
    rw [List.cons_append, peak_cons (Ne.symm h.1), ih h.2, Nat.zero_max]

theorem peak_of_head (h : s.head? ≠ some tick) (n : Nat) : peak n s = max n (peak 0 s) := by
  cases s with
  | nil => simp [peak]
  | cons c s =>
    have hc : c ≠ tick := fun hc => h (by rw [hc]; rfl)
    rw [peak_cons hc, peak_cons hc, Nat.zero_max]

theorem head?_defused {run : Str} (h : run ≠ []) (s : Str) :
    (defused run ++ s).head? = run.head? := by
  obtain ⟨c, run, rfl⟩ := List.exists_cons_of_ne_nil h
  unfold defused
  split
  · cases run <;> rfl
  · rfl

theorem eq_replicate_of_chain {c : Char} {l : Str} (h : (c :: l).IsChain fun x y => x == y) :
    c :: l = List.replicate (l.length + 1) c := by
  induction l generalizing c with
  | nil => rfl
  | cons d l ih =>
    rw [List.isChain_cons_cons, beq_iff_eq] at h
    obtain ⟨rfl, h⟩ := h
    rw [List.length_cons, List.replicate_succ, ← ih h]

/-- Runs of one character each, the neighbours different, come out with two backticks at most
together. -/
theorem peak_flatMap {runs : List Str} (hne : [] ∉ runs)
    (hc : ∀ run ∈ runs, run.IsChain fun x y => x == y)
    (hd : runs.IsChain fun a b => ∃ ha hb, (a.getLast ha == b.head hb) = false) :
    peak 0 (runs.flatMap defused) ≤ 2 := by
  induction runs with
  | nil => exact Nat.zero_le 2
  | cons run runs ih =>
    rw [List.mem_cons, not_or] at hne
    have ih := ih hne.2 (fun r hr => hc r (List.mem_cons_of_mem _ hr)) hd.tail
    obtain ⟨c, l, rfl⟩ := List.exists_cons_of_ne_nil (Ne.symm hne.1)
    have hrun := eq_replicate_of_chain (hc _ List.mem_cons_self)
    rw [List.flatMap_cons]
    by_cases htick : c = tick
    · subst htick
      have hhead : (runs.flatMap defused).head? ≠ some tick := by
        cases runs with
        | nil => nofun
        | cons b runs =>
          obtain ⟨⟨ha, hb, hab⟩, -⟩ := List.isChain_cons_cons.1 hd
          rw [List.flatMap_cons, head?_defused hb, List.head?_eq_some_head hb, ne_eq,
            Option.some_inj]
          have hlast : (tick :: l).getLast ha = tick := by
            simp [hrun]
          rw [hlast, beq_eq_false_iff_ne] at hab
          exact Ne.symm hab
      rw [hrun]
      refine (peak_defused _ _).trans ?_
      rw [peak_of_head hhead]
      omega
    · have hno : tick ∉ c :: l := fun h => htick (List.eq_of_mem_replicate (hrun ▸ h)).symm
      have hsame : defused (c :: l) = c :: l :=
        if_neg fun h => htick (Option.some_inj.1 h.1)
      rw [hsame, peak_other hno]
      exact ih

/-- No more than two backticks are left together. -/
theorem peak_defuse (text : Str) : peak 0 (defuse text) ≤ 2 :=
  peak_flatMap (List.nil_notMem_splitBy _ _) (fun _ hr => List.isChain_of_mem_splitBy hr)
    (List.isChain_getLast_head_splitBy ..)

theorem head?_defuse (text : Str) : (defuse text).head? = text.head? := by
  cases text with
  | nil => rfl
  | cons c text =>
    obtain ⟨run, runs, hr⟩ := List.exists_cons_of_ne_nil
      (List.splitBy_ne_nil (r := (· == ·)).2 (List.cons_ne_nil c text))
    have hne : run ≠ [] := List.ne_nil_of_mem_splitBy (hr ▸ List.mem_cons_self)
    have hflat := List.flatten_splitBy (· == ·) (c :: text)
    rw [hr, List.flatten_cons] at hflat
    rw [defuse_eq, hr, List.flatMap_cons, head?_defused hne, ← hflat]
    obtain ⟨d, run, rfl⟩ := List.exists_cons_of_ne_nil hne
    rfl

/-- The fence of what is defused has three backticks. -/
theorem fence_defuse (text : Str) : fence (defuse text) 3 = ticks 3 := by
  have := peak_defuse text
  rw [fence_eq, Nat.max_eq_left (by omega)]

theorem filter_intersperse : ∀ run : Str,
    (run.intersperse ' ').filter (· ≠ ' ') = run.filter (· ≠ ' ')
  | [] => rfl
  | [_] => rfl
  | c :: d :: run => by
    have ih := filter_intersperse (d :: run)
    have hcons (l : Str) : (c :: l).filter (· ≠ ' ') = [c].filter (· ≠ ' ') ++ l.filter (· ≠ ' ') :=
      List.filter_append [c] l
    have hblank (l : Str) : (' ' :: l).filter (· ≠ ' ') = l.filter (· ≠ ' ') :=
      List.filter_cons_of_neg (by simp)
    rw [List.intersperse_cons_cons, hcons, hblank, ih, ← hcons]

theorem filter_defused (run : Str) : (defused run).filter (· ≠ ' ') = run.filter (· ≠ ' ') := by
  unfold defused
  split
  · exact filter_intersperse run
  · rfl

/-- Blanks are all that is put into a text. -/
theorem filter_defuse (text : Str) :
    (defuse text).filter (· ≠ ' ') = text.filter (· ≠ ' ') := by
  conv => rhs; rw [← List.flatten_splitBy (· == ·) text]
  rw [defuse_eq, List.filter_flatMap, List.filter_flatten, List.flatMap]
  exact congrArg List.flatten (List.map_congr_left fun run _ => filter_defused run)

/-! ## Code spans -/

theorem rstrip_cons {c : Char} (h : isSpace c = false) (s : Str) :
    rstrip (c :: s) = c :: rstrip s := by
  rw [rstrip, rstrip, List.reverse_cons, List.dropWhile_append]
  split
  · rename_i he
    rw [List.isEmpty_iff.1 he, List.dropWhile_cons_of_neg (by simp [h])]
    rfl
  · simp

/-- One line begins with no blank. -/
theorem head?_oneLine {limit : Nat} (hl : 1 < limit) {c : Char}
    (h : (oneLine text limit).head? = some c) : isSpace c = false := by
  -- what is cut begins as the first word does
  have hword : ∀ d, (defuse ([' '].intercalate (words (inertKeepLines text)))).head? = some d →
      isSpace d = false := by
    intro d hd
    rw [head?_defuse] at hd
    cases hw : words (inertKeepLines text) with
    | nil =>
      rw [hw] at hd
      cases hd
    | cons word ws =>
      have hmem : word ∈ words (inertKeepLines text) := hw ▸ List.mem_cons_self
      have hne : word ≠ [] := by simpa using (List.mem_filter.1 hmem).2
      obtain ⟨b, word, rfl⟩ := List.exists_cons_of_ne_nil hne
      have hb : b = d := by
        rw [hw] at hd
        cases ws <;> simpa using hd
      exact isSpace_of_mem_words hmem (hb ▸ List.mem_cons_self)
  rw [oneLine] at h
  split at h
  · rename_i hlong
    cases hj : defuse ([' '].intercalate (words (inertKeepLines text))) with
    | nil =>
      rw [hj] at hlong
      cases hlong
    | cons d rest =>
      have hd := hword d (by rw [hj]; rfl)
      obtain ⟨k, hk⟩ : ∃ k, limit - 1 = k + 1 := ⟨limit - 2, by omega⟩
      rw [hj, hk, List.take_succ_cons, rstrip_cons hd] at h
      cases h
      exact hd
  · exact hword c h

theorem not_break_oneLine {limit : Nat} {c : Char} (hc : isBreak c = true) :
    c ∉ oneLine text limit := fun h => by
  rw [unbroken_oneLine h] at hc
  cases hc

theorem content_of_unbroken (hr : '\r' ∉ s) (hn : '\n' ∉ s) :
    content s = if s.head? = some ' ' ∧ s.getLast? = some ' ' ∧ s.any (· ≠ ' ') then
      s.tail.dropLast else s := by
  have hmap : (s.map fun c => if c = '\n' then ' ' else c) = s := by
    refine (List.map_congr_left fun c hc => ?_).trans (List.map_id s)
    exact if_neg fun (h : c = '\n') => hn (h ▸ hc)
  rw [content, unified_of_not_mem hr, hmap]

/-- A Markdown text is one code span, with the content between two equal strings of backticks that
are nowhere in it. -/
structure IsSpan (markdown content : Str) : Prop where
  delimited : ∃ n body, markdown = ticks n ++ body ++ ticks n ∧ ¬ ticks n <:+: body
  read : readSpan markdown = some (content, [])

/-- A text that neither begins with a blank nor has a line end is a span between blanks, and without
them where neither of its ends is a backtick. -/
theorem isSpan_padded {c : Char} (hc : c ≠ ' ') (hr : '\r' ∉ c :: s) (hn : '\n' ∉ c :: s) :
    let n := peak 0 (c :: s) + 1
    IsSpan (ticks n ++ ([' '] ++ c :: s ++ [' ']) ++ ticks n) (c :: s) ∧
      ((c :: s).head? ≠ some tick → (c :: s).getLast? ≠ some tick →
        IsSpan (ticks n ++ c :: s ++ ticks n) (c :: s)) := by
  intro n
  constructor
  · have hp : peak 0 ([' '] ++ c :: s ++ [' ']) < n := by
      rw [peak_concat (by decide), peak_other (a := [' ']) (by decide)]
      exact Nat.lt_succ_self _
    refine ⟨⟨n, _, rfl, not_infix_ticks hp⟩, ?_⟩
    have hlast : ([' '] ++ c :: s ++ [' ']).getLast? = some ' ' := List.getLast?_concat
    have hread : readSpan (ticks n ++ ([' '] ++ c :: s ++ [' ']) ++ ticks n ++ []) = _ :=
      readSpan_enclosed hp (by simp) (show some ' ' ≠ some tick by decide) (by rw [hlast]; decide)
        nofun
    rw [List.append_nil] at hread
    rw [hread, content_of_unbroken, if_pos]
    · show some ((c :: s ++ [' ']).dropLast, []) = some (c :: s, [])
      rw [List.dropLast_concat]
    · exact ⟨rfl, hlast, by simp [hc]⟩
    · simpa using hr
    · simpa using hn
  · intro hh hl
    have hp : peak 0 (c :: s) < n := Nat.lt_succ_self _
    refine ⟨⟨n, _, rfl, not_infix_ticks hp⟩, ?_⟩
    have hread : readSpan (ticks n ++ c :: s ++ ticks n ++ []) = _ :=
      readSpan_enclosed hp (List.cons_ne_nil _ _) hh hl nofun
    rw [List.append_nil] at hread
    rw [hread, content_of_unbroken hr hn, if_neg fun h => hc (Option.some_inj.1 h.1)]

theorem isSpan_codeSpan (h : oneLine text fieldLimit ≠ []) :
    IsSpan (codeSpan text) (oneLine text fieldLimit) := by
  have hr : '\r' ∉ oneLine text fieldLimit := not_break_oneLine (by decide)
  have hn : '\n' ∉ oneLine text fieldLimit := not_break_oneLine (by decide)
  have hhead : ∀ c, (oneLine text fieldLimit).head? = some c → isSpace c = false :=
    fun _ => head?_oneLine (by decide)
  simp only [codeSpan, if_neg h, fence_eq]
  generalize oneLine text fieldLimit = content at *
  obtain ⟨c, s, rfl⟩ := List.exists_cons_of_ne_nil h
  have hc : c ≠ ' ' := by
    rintro rfl
    cases hhead ' ' rfl
  have hspan := isSpan_padded hc hr hn
  rw [Nat.max_eq_right (Nat.le_add_left ..)]
  split
  · simpa using hspan.1
  · rename_i hpad
    rw [not_or] at hpad
    simpa using hspan.2 hpad.1 hpad.2

/-! ## Code blocks -/

/-- A Markdown text is one fenced block of three backticks that is closed, with the lines of the
content, and the fence is nowhere in it. -/
structure IsBlock (markdown info content : Str) : Prop where
  delimited : markdown = ticks 3 ++ info ++ '\n' :: content ++ '\n' :: ticks 3 ∧
    ¬ ticks 3 <:+: content
  read : readBlock (Markdown.lines markdown) = some (⟨info, content.splitOn '\n', true⟩, [])

theorem isBlock_defuse {info : Str} (hr : '\r' ∉ defuse text)
    (hi : ∀ c ∈ info, c ≠ tick ∧ isBlank c = false ∧ c ≠ '\n' ∧ c ≠ '\r') :
    IsBlock (ticks 3 ++ info ++ '\n' :: defuse text ++ '\n' :: ticks 3) info (defuse text) := by
  have hp : peak 0 (defuse text) < 3 := Nat.lt_succ_of_le (peak_defuse text)
  exact ⟨⟨rfl, not_infix_ticks hp⟩, readBlock_text (Nat.le_refl 3) hp hi hr⟩

theorem not_mem_inert {c : Char} (hc : structural c = true) : c ∉ inert text := fun h => by
  have := (List.mem_filter.1 h).2
  rw [hc] at this
  cases this

theorem not_mem_newlines (text : Str) : '\r' ∉ newlines text := by
  fun_induction newlines text with
  | case1 text ih => simpa using ih
  | case2 text hn ih => simpa using ih
  | case3 c text hr hn ih =>
    rw [List.mem_cons, not_or]
    exact ⟨fun h => hn h.symm, ih⟩
  | case4 => nofun

theorem not_mem_inertKeepLines : '\r' ∉ inertKeepLines text := fun h => by
  obtain ⟨d, hd, he⟩ := List.mem_map.1 h
  split at he
  · cases he
  · exact not_mem_newlines text (he ▸ (List.mem_filter.1 hd).1)

theorem not_mem_defuse {c : Char} (hc : c ≠ ' ') (h : c ∉ s) : c ∉ defuse s := fun hm =>
  (mem_of_mem_defuse hm).elim h hc

theorem isBlock_codeBlock (text : Str) : IsBlock (codeBlock text) [] (defuse (inert text)) := by
  have h : IsBlock (ticks 3 ++ [] ++ '\n' :: defuse (inert text) ++ '\n' :: ticks 3) [] _ :=
    isBlock_defuse (not_mem_defuse (by decide) (not_mem_inert (by decide))) nofun
  rw [List.append_nil] at h
  simp only [codeBlock, fence_defuse]
  exact h

theorem isBlock_preformatted {lang : Str} (hl : ∀ c ∈ lang, fenceWord c = true) :
    IsBlock (preformatted text lang) lang (defuse (inertKeepLines text)) := by
  simp only [preformatted, fence_defuse]
  refine isBlock_defuse (not_mem_defuse (by decide) not_mem_inertKeepLines) fun c hc => ?_
  have hne : ∀ d, fenceWord d = false → c ≠ d := by
    rintro d hd rfl
    rw [hl c hc] at hd
    cases hd
  refine ⟨hne _ (by decide), ?_, hne _ (by decide), hne _ (by decide)⟩
  simp [isBlank, hne ' ' (by decide), hne '\t' (by decide)]

/-! ## What Slack gets -/

theorem isFence_ticks {letter : Char → Bool} {lang : Str}
    (hl : ∀ c ∈ lang, langChar letter c = true) : isFence letter (ticks 3 ++ lang) = true := by
  have hstrip : lstrip (ticks 3 ++ lang) = ticks 3 ++ lang :=
    List.dropWhile_cons_of_neg (by decide)
  have hdrop : (ticks 3 ++ lang).drop 3 = lang := rfl
  have hnil : lang.dropWhile (langChar letter) = [] := List.dropWhile_eq_nil_iff.2 hl
  rw [isFence, hstrip, hdrop, hnil]
  rfl

theorem infix_of_isFence {letter : Char → Bool} {line : Str} (h : isFence letter line = true) :
    ticks 3 <:+: line := by
  simp only [isFence, Bool.and_eq_true, beq_iff_eq] at h
  rw [← h.1]
  exact (List.take_prefix _ _).isInfix.trans (List.dropWhile_suffix _).isInfix

/-- Lines in code are left as they are. -/
theorem convertLines_code {letter : Char → Bool} {restyle : List Str → List Str}
    {body rest : List Str} (hb : ∀ line ∈ body, isFence letter line = false) :
    convertLines letter restyle true [] (body ++ rest) =
      body ++ convertLines letter restyle true [] rest := by
  induction body with
  | nil => rfl
  | cons line body ih =>
    rw [List.cons_append, convertLines, if_neg (by simp [hb line List.mem_cons_self]), if_pos rfl,
      ih fun l hl => hb l (List.mem_cons_of_mem _ hl), List.cons_append]

/-- A block with a word Slack takes for a language goes through the conversion as itself. -/
theorem markdownToMrkdwn_preformatted {letter : Char → Bool} {restyle : List Str → List Str}
    {lang : Str} (hl : ∀ c ∈ lang, langChar letter c = true ∧ c ≠ '\n') :
    markdownToMrkdwn letter restyle (preformatted text lang) = preformatted text lang := by
  have hopen : '\n' ∉ ticks 3 ++ lang := by
    rw [List.mem_append, not_or]
    exact ⟨not_mem_ticks (by decide), fun h => (hl _ h).2 rfl⟩
  have hp : peak 0 (defuse (inertKeepLines text)) < 3 := Nat.lt_succ_of_le (peak_defuse _)
  have hbody : ∀ line ∈ (defuse (inertKeepLines text)).splitOn '\n',
      isFence letter line = false := fun line hline => by
    rw [← Bool.not_eq_true]
    exact fun h => not_infix_ticks hp ((infix_of_isFence h).trans (infix_of_mem_splitOn hline))
  have hlast : isFence letter (ticks 3) = true := @isFence_ticks letter [] nofun
  have hlines := splitOn_enclosed (s := defuse (inertKeepLines text)) hopen
    (not_mem_ticks (n := 3) (by decide))
  simp only [preformatted, fence_defuse]
  have hconv : convertLines letter restyle false []
      ((ticks 3 ++ lang) :: ((defuse (inertKeepLines text)).splitOn '\n' ++ [ticks 3])) =
      (ticks 3 ++ lang) :: ((defuse (inertKeepLines text)).splitOn '\n' ++ [ticks 3]) := by
    have hnone : convertProse restyle [] = [] := rfl
    rw [convertLines, if_pos (isFence_ticks fun c hc => (hl c hc).1),
      if_pos (show (!false) = true from rfl), hnone, List.nil_append, convertLines_code hbody,
      convertLines, if_pos hlast]
    rfl
  rw [markdownToMrkdwn, hlines, hconv, ← hlines, List.intercalate_splitOn]

/-- A mrkdwn text is one inline code, with the content between two backticks. -/
structure IsMrkdwnCode (mrkdwn content : Str) : Prop where
  delimited : mrkdwn = tick :: content ++ [tick] ∧ tick ∉ content
  read : readMrkdwnCode mrkdwn = some (content, [])

theorem mem_of_mem_newlines {c : Char} (h : c ∈ newlines text) : c ∈ text ∨ c = '\n' := by
  fun_induction newlines text with
  | case1 text ih | case2 text hn ih =>
    rcases List.mem_cons.1 h with rfl | h
    · exact .inr rfl
    · exact (ih h).imp_left fun h => by simp [h]
  | case3 d text hr hn ih =>
    rcases List.mem_cons.1 h with rfl | h
    · exact .inl List.mem_cons_self
    · exact (ih h).imp_left (List.mem_cons_of_mem _)
  | case4 => cases h

/-- The backticks of one line are the text's. -/
theorem tick_mem_of_oneLine {limit : Nat} (h : tick ∈ oneLine text limit) : tick ∈ text := by
  have hcollapsed : tick ∈ defuse ([' '].intercalate (words (inertKeepLines text))) →
      tick ∈ text := by
    intro hc
    have hc := (mem_of_mem_defuse hc).resolve_right (by decide)
    rw [List.intercalate] at hc
    obtain ⟨l, hl, hc⟩ := List.mem_flatten.1 hc
    rcases mem_of_mem_intersperse hl with hw | rfl
    · have hc := mem_of_mem_splitOnP (List.mem_filter.1 hw).1 hc
      obtain ⟨d, hd, hdc⟩ := List.mem_map.1 hc
      have hdc : d = tick := by
        split at hdc
        · cases hdc
        · exact hdc
      exact (mem_of_mem_newlines (hdc ▸ (List.mem_filter.1 hd).1)).resolve_right (by decide)
    · cases hc with
      | tail _ h => cases h
  rw [oneLine] at h
  split at h
  · rcases List.mem_append.1 h with h | h
    · rw [rstrip, List.mem_reverse] at h
      have h := List.mem_reverse.1 ((List.dropWhile_sublist isSpace).subset h)
      exact hcollapsed (List.mem_of_mem_take h)
    · exact absurd (List.mem_singleton.1 h) (by decide)
  · exact hcollapsed h

theorem tick_not_mem_entity {c : Char} (h : c ≠ tick) : tick ∉ entity c := by
  unfold entity
  split
  · decide
  split
  · decide
  split
  · decide
  · simpa using Ne.symm h

theorem isMrkdwnCode_mrkdwnCode (h : oneLine (text.map lookAlike) fieldLimit ≠ []) :
    IsMrkdwnCode (mrkdwnCode text) (mrkdwnText (oneLine (text.map lookAlike) fieldLimit)) := by
  have hno : tick ∉ oneLine (text.map lookAlike) fieldLimit := fun hm => by
    obtain ⟨c, -, hc⟩ := List.mem_map.1 (tick_mem_of_oneLine hm)
    unfold lookAlike at hc
    split at hc
    · cases hc
    · contradiction
  generalize hcon : oneLine (text.map lookAlike) fieldLimit = content at *
  have hpad : ¬ (content.head? = some tick ∨ content.getLast? = some tick) := by
    rintro (hh | hl)
    · exact hno (List.mem_of_mem_head? hh)
    · exact hno (List.mem_of_mem_getLast? hl)
  have hpeak : peak 0 content = 0 := by
    simpa [peak] using peak_other hno []
  have hcode : mrkdwnCode text = tick :: mrkdwnText content ++ [tick] := by
    simp only [mrkdwnCode, codeSpan, hcon, if_neg h, if_neg hpad, fence_eq, hpeak, mrkdwnText,
      List.flatMap_append, List.append_nil]
    rfl
  have hnot : tick ∉ mrkdwnText content := fun hm => by
    obtain ⟨c, hc, hm⟩ := List.mem_flatMap.1 hm
    exact tick_not_mem_entity (fun h => hno (h ▸ hc)) hm
  have hall : ∀ c ∈ mrkdwnText content, decide (c ≠ tick) = true := fun c hc =>
    decide_eq_true fun h => hnot (h ▸ hc)
  refine ⟨⟨hcode, hnot⟩, ?_⟩
  rw [hcode, List.cons_append, readMrkdwnCode, if_pos ⟨rfl, by simp⟩,
    List.takeWhile_append_of_pos hall, List.dropWhile_append_of_pos hall]
  simp

/-! ## What holds of every text -/

/-- What the code elements made of a text are, as they were meant: one each. -/
structure Enclosed (text : Str) : Prop where
  span : IsSpan (codeSpan text) (oneLine text fieldLimit)
  block : IsBlock (codeBlock text) [] (defuse (inert text))
  lines : ∀ lang, (∀ c ∈ lang, fenceWord c = true) →
    IsBlock (preformatted text lang) lang (defuse (inertKeepLines text))

/-- What they are: a span where anything is left of the text on one line, else nothing. -/
structure Contained (text : Str) : Prop where
  span : oneLine text fieldLimit ≠ [] → IsSpan (codeSpan text) (oneLine text fieldLimit)
  nothing : oneLine text fieldLimit = [] → codeSpan text = []
  block : IsBlock (codeBlock text) [] (defuse (inert text))
  lines : ∀ lang, (∀ c ∈ lang, fenceWord c = true) →
    IsBlock (preformatted text lang) lang (defuse (inertKeepLines text))
  converted : ∀ letter restyle lang, (∀ c ∈ lang, langChar letter c = true ∧ c ≠ '\n') →
    markdownToMrkdwn letter restyle (preformatted text lang) = preformatted text lang
  mrkdwn : oneLine (text.map lookAlike) fieldLimit ≠ [] →
    IsMrkdwnCode (mrkdwnCode text) (mrkdwnText (oneLine (text.map lookAlike) fieldLimit))
  kept : (defuse (inert text)).filter (· ≠ ' ') = (inert text).filter (· ≠ ' ') ∧
    (defuse (inertKeepLines text)).filter (· ≠ ' ') = (inertKeepLines text).filter (· ≠ ' ')

theorem contained (text : Str) : Contained text where
  span := isSpan_codeSpan
  nothing h := if_pos h
  block := isBlock_codeBlock text
  lines _ := isBlock_preformatted
  converted _ _ _ := markdownToMrkdwn_preformatted
  mrkdwn := isMrkdwnCode_mrkdwnCode
  kept := ⟨filter_defuse _, filter_defuse _⟩

/-- Nothing is made of the empty text, which is no code span. -/
theorem empty_span : ¬ ∀ text, Enclosed text := by
  intro h
  cases (h []).span.read

end Containment
