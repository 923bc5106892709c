import ImpiAgent.Lib.Text

/-!
# Text somebody else wrote

`containment.py`: what a text is reduced to before it is put among the engine's own words. `quoted`
keeps its lines and lets none of them begin with a bracket; `oneLine` and `speaker` leave one line.
-/

namespace Containment

open Text

/-- What `unicodedata.category` is asked for. -/
inductive Category
  | Cc | Cf | Zl | Zp | Zs | other
  deriving DecidableEq

def isFormat (n : Nat) : Bool :=
  n = 0xad || 0x600 ≤ n && n ≤ 0x605 || n = 0x61c || n = 0x6dd || n = 0x70f || n = 0x890 ||
    n = 0x891 || n = 0x8e2 || n = 0x180e || 0x200b ≤ n && n ≤ 0x200f || 0x202a ≤ n && n ≤ 0x202e ||
    0x2060 ≤ n && n ≤ 0x2064 || 0x2066 ≤ n && n ≤ 0x206f || n = 0xfeff || 0xfff9 ≤ n && n ≤ 0xfffb ||
    n = 0x110bd || n = 0x110cd || 0x13430 ≤ n && n ≤ 0x1343f || 0x1bca0 ≤ n && n ≤ 0x1bca3 ||
    0x1d173 ≤ n && n ≤ 0x1d17a || n = 0xe0001 || 0xe0020 ≤ n && n ≤ 0xe007f

def category (c : Char) : Category :=
  let n := c.toNat
  if n < 32 || 127 ≤ n && n < 160 then .Cc
  else if n = 32 || n = 0xa0 || n = 0x1680 || 0x2000 ≤ n && n ≤ 0x200a || n = 0x202f || n = 0x205f ||
    n = 0x3000 then .Zs
  else if n = 0x2028 then .Zl
  else if n = 0x2029 then .Zp
  else if isFormat n then .Cf
  else .other

/-- `_STRUCTURAL_CATEGORIES`. -/
def structural (c : Char) : Bool := category c ∈ [.Cc, .Cf, .Zl, .Zp]

/-- `_inert`. -/
def inert (text : Str) : Str := text.filter fun c => !structural c

/-- `\r\n` and `\r` replaced by `\n`. -/
def newlines : Str → Str
  | '\r' :: '\n' :: text => '\n' :: newlines text
  | '\r' :: text => '\n' :: newlines text
  | c :: text => c :: newlines text
  | [] => []

/-- `_inert_keep_lines`. -/
def inertKeepLines (text : Str) : Str :=
  ((newlines text).filter fun c => c = '\n' || c = '\t' || !structural c).map fun c =>
    if category c = .Zs then ' ' else c

/-- `_OPENING_BRACKETS`: the ASCII one and its fullwidth twin. -/
def opening (c : Char) : Bool := c = '[' || c.toNat = 0xff3b

/-- `re.sub`, from left to right: `start` while only blanks of the line have been read. -/
def escape : Bool → Str → Str
  | _, [] => []
  | start, c :: text =>
    if c = '\n' then c :: escape true text
    else if start && (c = ' ' || c = '\t') then c :: escape true text
    else if start && opening c then '\\' :: c :: escape false text
    else c :: escape false text

/-- `quoted`. With `inline` the text does not start a line. -/
def quoted (text : Str) (inline : Bool) : Str := escape (!inline) (inertKeepLines text)

/-- The complement of `_SPEAKER_RE`. -/
def identifying (c : Char) : Bool :=
  let n := c.toNat
  48 ≤ n && n ≤ 57 || 65 ≤ n && n ≤ 90 || 97 ≤ n && n ≤ 122 || "._@+-".toList.contains c

/-- `speaker`. -/
def speaker (name : Str) : Str :=
  ((inert name).map fun c => if identifying c then c else '_').take 64

/-- `_defuse`. -/
def defuse (text : Str) : Str :=
  (text.splitBy (· == ·)).flatMap fun run =>
    if run.head? = some '`' ∧ 3 ≤ run.length then run.intersperse ' ' else run

/-- `str.split` at whitespace. -/
def words (text : Str) : List Str := (text.splitOnP isSpace).filter (· ≠ [])

/-- `one_line`. -/
def oneLine (text : Str) (limit : Nat) : Str :=
  let collapsed := defuse ([' '].intercalate (words (inertKeepLines text)))
  if limit < collapsed.length then rstrip (collapsed.take (limit - 1)) ++ ['…'] else collapsed

/-! ## Lines that begin with a bracket -/

/-- The first character of the line that is no blank is a bracket. -/
def presents (line : Str) : Bool := (lstrip line).head?.any opening

@[simp] theorem presents_nil : presents [] = false := rfl

theorem presents_cons_space {c : Char} (h : isSpace c) (line : Str) :
    presents (c :: line) = presents line := by
  simp [presents, lstrip, h]

theorem presents_cons {c : Char} (h : isSpace c = false) (line : Str) :
    presents (c :: line) = opening c := by
  simp [presents, lstrip, h]

/-- What a line ends with does not make it begin with a bracket. -/
theorem presents_concat {c : Char} (hc : opening c = false) (line : Str) :
    presents (line ++ [c]) = presents line := by
  induction line with
  | nil =>
    cases h : isSpace c with
    | true => simp [presents_cons_space h]
    | false => simp [presents_cons h, hc]
  | cons d line ih =>
    cases h : isSpace d with
    | true => rw [List.cons_append, presents_cons_space h, presents_cons_space h, ih]
    | false => rw [List.cons_append, presents_cons h, presents_cons h]

/-- No line after the first begins with a bracket: such a text stays what it is wherever it is put
into a line of the engine's. -/
def Plain (text : Str) : Prop := (laterLines text).filter presents = []

instance (text : Str) : Decidable (Plain text) := inferInstanceAs (Decidable (_ = _))

theorem plain_of_unbroken {text : Str} (h : Unbroken text) : Plain text := by
  simp [Plain, laterLines_of_unbroken h]

theorem plain_append {a : Str} (h : Unbroken a) (b : Str) :
    Plain (a ++ b) ↔ Plain b := by
  rw [Plain, laterLines_append h, Plain]

private theorem filter_map_concat {c : Char} (hc : opening c = false) (hb : isBreak c = false) :
    ∀ text : Str, (lines (text ++ [c])).map presents = (lines text).map presents
  | [] => by
    have h := presents_concat hc []
    simp_all [lines_cons hb, firstLine, laterLines]
  | d :: text => by
    have ih := filter_map_concat hc hb text
    cases hd : isBreak d with
    | true => simp [lines_cons_break hd, ih]
    | false =>
      rw [lines_eq, lines_eq text] at ih
      simp only [List.map_cons, List.cons.injEq] at ih
      rw [List.cons_append, lines_cons hd, lines_cons hd]
      cases hs : isSpace d with
      | true => simp [presents_cons_space hs, ih.1, ih.2]
      | false => simp [presents_cons hs, ih.2]

theorem plain_concat {c : Char} (hc : opening c = false) (hb : isBreak c = false) (text : Str) :
    Plain (text ++ [c]) ↔ Plain text := by
  have h := congrArg List.tail (filter_map_concat hc hb text)
  rw [← List.map_tail, ← List.map_tail] at h
  have hiff : ∀ ls ls' : List Str, ls.map presents = ls'.map presents →
      ls.filter presents = [] → ls'.filter presents = [] := by
    intro ls ls' he hn
    simp only [List.filter_eq_nil_iff] at hn ⊢
    intro l hl
    have : presents l ∈ ls.map presents := he ▸ List.mem_map_of_mem hl
    obtain ⟨l', hl', hp⟩ := List.mem_map.1 this
    exact hp ▸ hn l' hl'
  exact ⟨hiff _ _ h, hiff _ _ h.symm⟩

/-! ## What quoting leaves -/

/-- A blank is a separator, or it carries structure. -/
theorem category_of_isSpace {c : Char} (h : isSpace c) : category c = .Zs ∨ structural c := by
  simp only [isSpace, Bool.or_eq_true, Bool.and_eq_true, decide_eq_true_eq] at h
  rw [structural, decide_eq_true_eq, category]
  split
  · simp
  split
  · simp
  split
  · simp
  split
  · simp
  · next h1 h2 h3 h4 =>
    simp at h1 h2 h3 h4
    omega

/-- A blank that stays in a text whose lines are kept. -/
theorem blank_of_kept {c : Char} {text : Str} (h : c ∈ inertKeepLines text) (hs : isSpace c) :
    c = '\n' ∨ c = '\t' ∨ c = ' ' := by
  obtain ⟨d, hd, rfl⟩ := List.mem_map.1 h
  obtain ⟨-, hk⟩ := List.mem_filter.1 hd
  split at hs
  · next hz => simp [hz]
  · next hz =>
    rw [if_neg hz]
    have hst : structural d := (category_of_isSpace hs).resolve_left hz
    have hk : d = '\n' ∨ d = '\t' := by simpa [hst] using hk
    exact hk.elim .inl fun h => .inr (.inl h)

/-- No line that is begun in an escaped text begins with a bracket. -/
theorem escape_quiet (text : Str)
    (hk : ∀ c ∈ text, isSpace c → c = '\n' ∨ c = '\t' ∨ c = ' ') (start : Bool) :
    Plain (escape start text) ∧ (start = true → presents (firstLine (escape start text)) = false) := by
  induction text generalizing start with
  | nil => simp [escape, Plain, laterLines, firstLine]
  | cons c text ih =>
    have ih := ih fun d hd => hk d (List.mem_cons_of_mem _ hd)
    have hc := hk c List.mem_cons_self
    rw [escape]
    split
    · next hn =>
      subst hn
      -- a new line begins behind the break
      obtain ⟨hp, hf⟩ := ih true
      have hl := lines_eq (escape true text)
      simp only [Plain, laterLines, firstLine, lines_cons_break (c := '\n') rfl, List.tail_cons]
      simp only [Plain] at hp
      exact ⟨by rw [hl, List.filter_cons_of_neg (by simp [hf rfl]), hp], fun _ => rfl⟩
    · next hn =>
      have hb : isBreak c = false := by
        by_contra h
        rcases hc (isSpace_of_isBreak (by simpa using h)) with rfl | rfl | rfl
        · exact hn rfl
        · cases h rfl
        · cases h rfl
      have hsub : ∀ s, (Plain (escape s text) ∧
          (s = true → presents (firstLine (escape s text)) = false)) →
          Plain (c :: escape s text) := by
        intro s hs
        exact (plain_append (a := [c]) (by simpa using hb) _).2 hs.1
      split
      · next hblank =>
        simp only [Bool.and_eq_true, Bool.or_eq_true, decide_eq_true_eq] at hblank
        refine ⟨hsub true (ih true), fun _ => ?_⟩
        rw [firstLine, lines_cons hb]
        have hsp : isSpace c := by rcases hblank.2 with rfl | rfl <;> decide
        simpa [presents_cons_space hsp] using (ih true).2 rfl
      · next hblank =>
        split
        · next ho =>
          refine ⟨(plain_append (a := ['\\', c]) (by simp [hb]; decide) _).2 (ih false).1, fun _ => ?_⟩
          rw [firstLine, lines_cons (by decide)]
          exact presents_cons (by decide) _
        · next ho =>
          refine ⟨hsub false (ih false), fun hst => ?_⟩
          subst hst
          rw [firstLine, lines_cons hb]
          simp only [Bool.true_and, Bool.or_eq_true, decide_eq_true_eq] at hblank ho
          have hsp : isSpace c = false := by
            by_contra h
            rcases hc (by simpa using h) with h | h | h
            · exact hn h
            · exact hblank (.inr h)
            · exact hblank (.inl h)
          simpa [presents_cons hsp] using ho

theorem plain_quoted (text : Str) (inline : Bool) : Plain (quoted text inline) :=
  (escape_quiet _ (fun _ hc => blank_of_kept hc) _).1

/-- No line of a quoted text begins with a bracket. -/
theorem picked_quoted (text : Str) : picked presents (quoted text false) = [] := by
  obtain ⟨hp, hf⟩ := escape_quiet (inertKeepLines text) (fun _ hc => blank_of_kept hc) true
  rw [picked, lines_eq, List.filter_cons_of_neg]
  · exact hp
  · simpa [quoted] using hf rfl

/-! ## One line -/

theorem identifying_speaker {c : Char} {name : Str} (h : c ∈ speaker name) :
    identifying c ∨ c = '_' := by
  obtain ⟨d, -, rfl⟩ := List.mem_map.1 (List.mem_of_mem_take h)
  split
  · next hd => exact .inl hd
  · exact .inr rfl

theorem mem_of_mem_defuse {c : Char} {text : Str} (h : c ∈ defuse text) : c ∈ text ∨ c = ' ' := by
  obtain ⟨run, hrun, hc⟩ := List.mem_flatMap.1 h
  have hsub : ∀ d ∈ run, d ∈ text := fun d hd => by
    rw [← List.flatten_splitBy (· == ·) text]
    exact List.mem_flatten.2 ⟨run, hrun, hd⟩
  split at hc
  · exact (mem_of_mem_intersperse hc).imp_left (hsub c)
  · exact .inl (hsub c hc)

theorem isSpace_of_mem_words {c : Char} {text word : Str} (hw : word ∈ words text) (hc : c ∈ word) :
    isSpace c = false :=
  not_of_mem_splitOnP (List.mem_filter.1 hw).1 c hc

theorem unbroken_oneLine {text : Str} {limit : Nat} {c : Char} (h : c ∈ oneLine text limit) :
    isBreak c = false := by
  have hcollapsed : ∀ c ∈ defuse ([' '].intercalate (words (inertKeepLines text))),
      isBreak c = false := by
    intro c hc
    by_contra hb
    have hs : isSpace c := isSpace_of_isBreak (by simpa using hb)
    rcases mem_of_mem_defuse hc with hc | rfl
    · rw [List.intercalate] at hc
      obtain ⟨l, hl, hc⟩ := List.mem_flatten.1 hc
      rcases mem_of_mem_intersperse hl with hw | rfl
      · simp [isSpace_of_mem_words hw hc] at hs
      · simp_all [isBreak]
    · exact hb rfl
  rw [oneLine] at h
  split at h
  · rcases List.mem_append.1 h with h | h
    · rw [rstrip] at h
      have hsub := (List.dropWhile_sublist isSpace).subset (List.mem_reverse.1 h)
      exact hcollapsed c (List.mem_of_mem_take (List.mem_reverse.1 hsub))
    · obtain rfl := List.mem_singleton.1 h
      rfl
  · exact hcollapsed c h

end Containment
