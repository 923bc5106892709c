import ImpiAgent.Flows.Fences
import ImpiAgent.Lib.Rewrite

/-!
# Markdown for Slack

`formatter.py`: fenced lines are left, tables are made lists, and the rules restyle the other lines,
where code spans are masked. `other`, `decimal` and `digits` are what `\w`, `\d` and `str.isdigit`
have beyond ASCII. An exception is `none`.
-/

namespace Formatter

open Text (Str str isSpace lstrip rstrip)
open Markdown (tick)
open Rewrite (Rule)

/-! ## A line -/

/-- `[p]*?` up to where `stop` matches. -/
def lazily (p : Char → Bool) (stop : Str → Bool) : Str → Option Str
  | [] => if stop [] then some [] else none
  | c :: s =>
    if stop (c :: s) then some []
    else if p c then (lazily p stop s).map (c :: ·) else none

theorem lazily_spec {p : Char → Bool} {stop : Str → Bool} {s g : Str}
    (h : lazily p stop s = some g) : (∀ c ∈ g, p c = true) ∧ ∃ t, s = g ++ t ∧ stop t = true := by
  induction s generalizing g with
  | nil =>
    simp only [lazily] at h
    split at h
    · cases h
      exact ⟨List.forall_mem_nil _, [], rfl, ‹_›⟩
    · cases h
  | cons c s ih =>
    simp only [lazily] at h
    split at h
    · cases h
      exact ⟨List.forall_mem_nil _, c :: s, rfl, ‹_›⟩
    · split at h
      · obtain ⟨g, hg, rfl⟩ := Option.map_eq_some_iff.1 h
        obtain ⟨hall, t, rfl, ht⟩ := ih hg
        refine ⟨fun d hd => ?_, t, rfl, ht⟩
        rcases List.mem_cons.1 hd with rfl | hd
        · assumption
        · exact hall d hd
      · cases h

/-- What a rule matches between two of the same, and what it puts in their place. -/
def wrap (d n : Str) (hne : d ≠ []) (inner : Char → Bool) (before : Option Char → Bool)
    (after : Str → Bool) : Rule Char Str where
  find p s :=
    if before p && d.isPrefixOf s then
      match s.drop d.length with
      | [] => none
      | c :: s =>
        if inner c then
          (lazily inner (fun t => d.isPrefixOf t && after (t.drop d.length)) s).map (c :: ·)
        else none
    else none
  text g := d ++ (g ++ d)
  by_ g := n ++ (g ++ n)
  ne_nil g := by simp [hne]
  is_front {p s b} h := by
    split at h
    · rename_i hd
      obtain ⟨s, rfl⟩ := List.isPrefixOf_iff_prefix.1 (Bool.and_eq_true_iff.1 hd).2
      rw [List.drop_left] at h
      cases s with
      | nil => cases h
      | cons c s =>
        simp only at h
        split at h
        · obtain ⟨g, hg, rfl⟩ := Option.map_eq_some_iff.1 h
          obtain ⟨-, t, rfl, ht⟩ := lazily_spec hg
          obtain ⟨t, rfl⟩ := List.isPrefixOf_iff_prefix.1 (Bool.and_eq_true_iff.1 ht).1
          exact ⟨t, by simp⟩
        · cases h
    · cases h

def dot (c : Char) : Bool := c ≠ '\n'

def noStar (p : Option Char) : Bool := p ≠ some '*'

def noStarNext (s : Str) : Bool := s.head? ≠ some '*'

/-- `_INLINE_CODE_RE`. -/
def inlineCode : Rule Char Str :=
  wrap [tick] [tick] (by simp) (fun c => c ≠ tick && c ≠ '\n') (fun _ => true) (fun _ => true)

/-- `*italic*`. -/
def italic : Rule Char Str :=
  wrap ['*'] ['_'] (by simp) (fun c => c ≠ '*' && c ≠ '\n') noStar noStarNext

/-- `**bold**`. -/
def bold : Rule Char Str := wrap (str "**") ['*'] (by decide) dot noStar noStarNext

/-- `__underline__`. -/
def underline : Rule Char Str :=
  wrap (str "__") ['*'] (by decide) dot (fun _ => true) (fun _ => true)

/-- `~~strike~~`. -/
def strike : Rule Char Str :=
  wrap (str "~~") ['~'] (by decide) dot (fun _ => true) (fun _ => true)

/-- A label and its URL. -/
abbrev Link := Str × Str

def isLabel (c : Char) : Bool := c ≠ '[' && c ≠ ']'

def isUrl (c : Char) : Bool := c ≠ '(' && c ≠ ')' && !isSpace c

/-- `\[([^\][]*)\]\(([^()\s]+)\)` after `d`. -/
def findLink (d s : Str) : Option Link :=
  if d.isPrefixOf s then
    let s := s.drop d.length
    let label := s.takeWhile isLabel
    let s := s.dropWhile isLabel
    if (str "](").isPrefixOf s then
      let s := s.drop 2
      let url := s.takeWhile isUrl
      if url ≠ [] ∧ (s.dropWhile isUrl).head? = some ')' then some (label, url) else none
    else none
  else none

def linkText (d : Str) (l : Link) : Str := d ++ (l.1 ++ (str "](" ++ (l.2 ++ [')'])))

theorem linkText_front {d s : Str} {l : Link} (h : findLink d s = some l) :
    linkText d l <+: s := by
  simp only [findLink] at h
  split at h
  · rename_i hd
    obtain ⟨s, rfl⟩ := List.isPrefixOf_iff_prefix.1 hd
    rw [List.drop_left] at h
    split at h
    · rename_i hmid
      obtain ⟨t, ht⟩ := List.isPrefixOf_iff_prefix.1 hmid
      split at h
      · rename_i hurl
        cases h
        obtain ⟨u, hu⟩ := List.head?_eq_some_iff.1 hurl.2
        refine ⟨u, ?_⟩
        have hs := List.takeWhile_append_dropWhile (p := isLabel) (l := s)
        have hdrop : (s.dropWhile isLabel).drop 2 = t := by rw [← ht]; rfl
        have hfind := List.takeWhile_append_dropWhile (p := isUrl) (l := t)
        rw [hdrop] at hu ⊢
        rw [hu] at hfind
        calc _ = d ++ (s.takeWhile isLabel ++ (str "](" ++ (t.takeWhile isUrl ++ ')' :: u))) := by
              simp [linkText]
          _ = _ := by rw [hfind, ht, hs]
      · cases h
    · cases h
  · cases h

/-- `![image](url)`. -/
def image : Rule Char Link where
  find _ s := findLink (str "![") s
  text := linkText (str "![")
  by_ l := ['<'] ++ (l.2 ++ ['>'])
  ne_nil l := by simp [linkText, str]
  is_front h := linkText_front h

/-- `[text](url)`. -/
def link : Rule Char Link where
  find _ s := findLink ['['] s
  text := linkText ['[']
  by_ l := ['<'] ++ (l.2 ++ (['|'] ++ (l.1 ++ ['>'])))
  ne_nil l := by simp [linkText]
  is_front h := linkText_front h

/-- `\*{n,}`, for `by_`. -/
def stars (n : Nat) (hn : n ≠ 0) (by_ : Str) : Rule Char Nat where
  find _ s :=
    let k := (s.takeWhile (· = '*')).length
    if n ≤ k then some (k - n) else none
  text k := List.replicate (n + k) '*'
  by_ _ := by_
  ne_nil k := by simp [hn]
  is_front {p s k} h := by
    simp only [Option.ite_none_right_eq_some, Option.some.injEq] at h
    obtain ⟨hle, rfl⟩ := h
    have hrun : s.takeWhile (· = '*') =
        List.replicate (s.takeWhile (· = '*')).length '*' :=
      List.eq_replicate_iff.2 ⟨rfl, fun c hc => by simpa using List.mem_takeWhile_imp hc⟩
    rw [Nat.add_sub_cancel' hle, ← hrun]
    exact List.takeWhile_prefix _

/-- `^(\s*)` and `d`, then `(.+)$`: `\1`, `n` and `\2`. -/
def item (d n : Str) (line : Str) : Str :=
  let rest := lstrip line
  if d.isPrefixOf rest ∧ rest.drop d.length ≠ [] then
    line.takeWhile isSpace ++ (n ++ rest.drop d.length)
  else line

/-- `^#{1,6} (.+)$`: `*\1*`. -/
def heading (line : Str) : Str :=
  let level := (line.takeWhile (· = '#')).length
  match line.drop level with
  | ' ' :: c :: rest => if 1 ≤ level ∧ level ≤ 6 then ['*'] ++ (c :: rest ++ ['*']) else line
  | _ => line

/-- The rules up to that for images. -/
def items (line : Str) : Str :=
  item (str "- ") (str "• ") <| item (str "- [X] ") (str "• ☑ ") <|
    item (str "- [x] ") (str "• ☑ ") <| item (str "- [ ] ") (str "• ☐ ") line

/-- The rules between that for images and that for links. -/
def emphases (line : Str) : Str := underline.sub (bold.sub (heading (italic.sub line)))

/-- `_RULES`. -/
def rules (line : Str) : Str := strike.sub (link.sub (emphases (image.sub (items line))))

/-- `_strip_orphan_asterisks`. -/
def stripOrphanAsterisks (line : Str) : Str :=
  let line := (stars 2 (by decide) ['*']).sub line
  if line.count '*' % 2 = 1 then
    let stripped := rstrip line
    if stripped.getLast? = some '*' then stripped.dropLast ++ line.drop stripped.length
    else if (lstrip line).head? = some '*' then line.takeWhile isSpace ++ (lstrip line).tail
    else line
  else line

/-- `_HR_RE` matches. -/
def isRule (line : Str) : Bool :=
  [str "---", str "***", str "___"].any fun d => d.isPrefixOf line && (line.drop 3).all isSpace

def restyled (masked : Str) : Str :=
  if isRule masked then str "──────────"
  else stripOrphanAsterisks (rules ((stars 3 (by decide) (str "**")).sub masked))

/-- What a mask begins and ends with. -/
def soh : Char := .ofNat 1

/-- What a mask of a table's row begins and ends with. -/
def nul : Char := .ofNat 0

def mark (m : Char) (i : Nat) : Str := m :: (Nat.toDigits 10 i ++ [m])

/-- The text with a mark for each match. -/
def masked (r : Rule Char Str) (m : Char) (s : Str) : Str := r.subWith (fun i _ => mark m i) s

section

variable (decimal : Char → Option Nat)

/-- The value of one of `\d`. -/
def digitValue (c : Char) : Option Nat :=
  if c.isDigit then some (c.toNat - 48) else if 127 < c.toNat then decimal c else none

/-- `int`. -/
def number (s : Str) : Option Nat :=
  (s.mapM (digitValue decimal)).map (·.foldl (fun n d => 10 * n + d) 0)

/-- What the marks stand for is put in their place; `n` more characters are part of a mark. -/
def restoreFrom (m : Char) (spans : List Str) : Nat → Str → Option Str
  | _, [] => some []
  | n + 1, _ :: s => restoreFrom m spans n s
  | 0, c :: s =>
    let ds := s.takeWhile fun c => (digitValue decimal c).isSome
    if c = m ∧ ds ≠ [] ∧ (s.drop ds.length).head? = some m then do
      let span ← spans[← number decimal ds]?
      return span ++ (← restoreFrom m spans (ds.length + 1) s)
    else (restoreFrom m spans 0 s).map (c :: ·)

def restore (m : Char) (spans : List Str) (s : Str) : Option Str :=
  restoreFrom decimal m spans 0 s

/-- The code spans of a line, as they stand in it. -/
def spans (line : Str) : List Str := (inlineCode.found line).map inlineCode.text

def maskCode (line : Str) : Str := masked inlineCode soh line

/-- `_convert_line`. -/
def convertLine (line : Str) : Option Str :=
  restore decimal soh (spans line) (restyled (maskCode line))

/-! ## Tables -/

/-- `_is_separator`. -/
def isSeparator (line : Str) : Bool :=
  let pipe (c : Char) : Bool := c = '|'
  let cleaned := Text.rstrip (Text.lstrip line)
  let cleaned := ((cleaned.dropWhile pipe).reverse.dropWhile pipe).reverse
  let cleaned := Text.rstrip (Text.lstrip cleaned)
  cleaned ≠ [] && cleaned.contains '-' && cleaned.all fun c => (str "-:| \t").contains c

/-- `_ANGLE_TOKEN_RE`. -/
def angleToken : Rule Char Str where
  find _ s := if s.head? = some '<' then lazily (· ≠ '>') (·.head? = some '>') s.tail else none
  text g := ['<'] ++ (g ++ ['>'])
  by_ g := ['<'] ++ (g ++ ['>'])
  ne_nil g := by simp
  is_front {p s g} h := by
    simp only [Option.ite_none_right_eq_some] at h
    obtain ⟨s, rfl⟩ := List.head?_eq_some_iff.1 h.1
    obtain ⟨-, t, hs, ht⟩ := lazily_spec h.2
    obtain ⟨t, rfl⟩ := List.head?_eq_some_iff.1 (of_decide_eq_true ht)
    exact ⟨t, by simpa using hs.symm⟩

/-- A row without its first and its last pipe. -/
def bare (line : Str) : Str :=
  let cleaned := rstrip (lstrip line)
  let cleaned := if cleaned.head? = some '|' then cleaned.tail else cleaned
  if cleaned.getLast? = some '|' then cleaned.dropLast else cleaned

/-- `_split_row`. -/
def splitRow (line : Str) : Option (List Str) :=
  let tokens := (angleToken.found (bare line)).map angleToken.text
  ((masked angleToken nul (bare line)).splitOn '|').mapM fun cell =>
    restore decimal nul tokens (rstrip (lstrip cell))

variable (digits : Char → Bool)

/-- `str.isdigit`. -/
def isdigit (s : Str) : Bool :=
  s ≠ [] && s.all fun c => c.isDigit || 127 < c.toNat && digits c

/-- The cells behind the first one or two, each in a line with its header. -/
def subLines : List Str → List Str → List Str
  | [], _ => []
  | value :: row, header =>
    let key := header.headD []
    (if value = [] then []
      else [str "    " ++ ((if key ≠ [] then key ++ str ": " else []) ++ value)]) ++
      subLines row header.tail

/-- `_row_to_bullet`, as lines. -/
def rowToBullet (row header : List Str) : List Str :=
  match row with
  | [] => [['-']]
  | first :: rest =>
    if (first :: rest).all (· = []) then [['-']]
    else
      match rest with
      | second :: rest' =>
        if isdigit digits first ∧ second ≠ [] then
          (first ++ (str ". **" ++ (second ++ str "**"))) :: subLines rest' (header.drop 2)
        else (if first ≠ [] then str "- **" ++ (first ++ str "**") else ['-']) ::
          subLines rest (header.drop 1)
      | [] => (if first ≠ [] then str "- **" ++ (first ++ str "**") else ['-']) ::
          subLines rest (header.drop 1)

/-- A line of prose, or a table: its header and its body. -/
inductive Block
  | line (l : Str)
  | table (header : Str) (rows : List Str)

def isRow (line : Str) : Bool := (lstrip line).head? = some '|'

/-- The loop of `_tables_to_lists`; `n` more lines are part of a table. -/
def blocksFrom : Nat → List Str → List Block
  | _, [] => []
  | n + 1, _ :: lines => blocksFrom n lines
  | 0, line :: lines =>
    if isRow line && (lines.head?.any isSeparator) then
      let rows := lines.tail.takeWhile isRow
      .table line rows :: blocksFrom (rows.length + 1) lines
    else .line line :: blocksFrom 0 lines

def blocks (lines : List Str) : List Block := blocksFrom 0 lines

/-- A block as the entries that are joined, each as its lines. -/
def Block.lists : Block → Option (List (List Str))
  | .line l => some [[l]]
  | .table header rows => do
    let header ← splitRow decimal header
    rows.mapM fun row => do return rowToBullet digits (← splitRow decimal row) header

/-- `_tables_to_lists`. -/
def tablesToLists (lines : List Str) : Option (List Str) :=
  ((blocks lines).mapM (Block.lists decimal digits)).map fun lists =>
    lists.flatten.map (['\n'].intercalate ·)

/-- `_convert_prose`. -/
def convertProse (lines : List Str) : Option (List Str) :=
  if lines = [] then some []
  else do
    let flattened := (['\n'].intercalate (← tablesToLists decimal digits lines)).splitOn '\n'
    flattened.mapM (convertLine decimal)

/-! ## A text -/

variable (other : Char → Bool)

/-- The loop of `_convert`. -/
def convertLines : Bool → List Str → List Str → Option (List Str)
  | _, prose, [] => convertProse decimal digits prose
  | inCode, prose, line :: rest =>
    if Containment.isFence other line then
      if !inCode then do
        return (← convertProse decimal digits prose) ++ line :: (← convertLines true [] rest)
      else (convertLines false prose rest).map (line :: ·)
    else if inCode then (convertLines true prose rest).map (line :: ·)
    else convertLines false (prose ++ [line]) rest

/-- `_convert`. -/
def convert (text : Str) : Option Str :=
  (convertLines decimal digits other false [] (text.splitOn '\n')).map (['\n'].intercalate ·)

/-- `markdown_to_mrkdwn`. -/
def markdownToMrkdwn (text : Str) : Str := (convert decimal digits other text).getD text

end

end Formatter
