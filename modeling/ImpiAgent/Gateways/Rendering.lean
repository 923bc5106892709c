import ImpiAgent.Flows.Fences

/-!
# A passage in sections

The passages and the block of an approval card, `_sections` of `gateways/slack/rendering.py` that
puts each of them into blocks of a message, and what the blocks are for: they fit, and their pieces
are the text, or the front of it with a note on the rest (`Held`). `starts` reads off the text alone
where its sections begin, and `Fair` what has to be so there.
-/

namespace Rendering

open Text (Str str lstrip rstrip)
open Containment (oneLine fieldLimit defuse inertKeepLines mrkdwnText)

/-! ## The card -/

/-- `PreviewRow`. -/
structure PreviewRow where
  label : Str
  value : Str
  before : Str
  passage : Bool

/-- `ApprovalCard`: the fields `_sections` is given something of. -/
structure ApprovalCard where
  fields : List PreviewRow
  blockLabel : Str
  block : Str

/-- `PASSAGE_LIMIT`. -/
def passageLimit : Nat := 8000

/-- `BLOCK_LIMIT`. -/
def blockLimit : Nat := 15000

/-- `passage`. -/
def passage (text : Str) (limit : Nat) : Str :=
  let inert := rstrip (lstrip (defuse (inertKeepLines text)))
  if limit < inert.length then
    rstrip (inert.take limit) ++ str "\n… cut at " ++ Nat.toDigits 10 limit ++ str " of " ++
      Nat.toDigits 10 inert.length ++ str " chars"
  else inert

/-- The `passages` of `card_layout`. -/
def passages (fields : List PreviewRow) : List (Str × Str) :=
  fields.flatMap fun row =>
    let label := oneLine row.label fieldLimit
    if row.passage then
      (if row.before = [] then []
        else [(label ++ str " (before)", passage row.before passageLimit)]) ++
      if row.value = [] then [] else [(label, passage row.value passageLimit)]
    else []

/-- What `_sections` is called with. -/
structure Call where
  label : Str
  text : Str
  fence : Str
  deriving DecidableEq

def starred (label : Str) : Str := '*' :: mrkdwnText label ++ ['*']

/-- Each line as a quote's. -/
def quoted (text : Str) : Str :=
  ['\n'].intercalate ((text.splitOn '\n').map fun line => str "> " ++ mrkdwnText line)

/-- The calls of `build_confirmation_blocks`. -/
def confirmationCalls (card : ApprovalCard) : List Call :=
  ((passages card.fields).map fun (label, text) => ⟨starred label, quoted text, []⟩) ++
    let block := if card.block = [] then [] else passage card.block blockLimit
    let label := oneLine card.blockLabel fieldLimit
    if block = [] then []
    else [⟨if label = [] then [] else starred label, mrkdwnText block, str "```"⟩]

/-! ## The sections -/

/-- `_SECTION_MAX`. -/
def sectionMax : Nat := 3000

/-- `_SECTIONS_MAX`. -/
def sectionsMax : Nat := 4

/-- `s[:i]`. -/
def upTo (i : Int) (s : Str) : Str := s.take (if i < 0 then s.length + i else i).toNat

/-- `s[i:]`. -/
def onFrom (i : Int) (s : Str) : Str := s.drop (if i < 0 then s.length + i else i).toNat

def room (label fence : Str) : Int := sectionMax - label.length - 2 * fence.length - 4

/-- The `while` over what one section cannot hold, in less than so many turns. -/
def hardSplit (room : Int) : Nat → List Str × Str → Option (List Str × Str)
  | 0, _ => none
  | turns + 1, (pieces, current) =>
    if room < current.length then
      hardSplit room turns (pieces ++ [upTo room current], onFrom room current)
    else some (pieces, current)

/-- One turn of the `for` over the lines. -/
def addLine (room : Int) (turns : Nat) : List Str × Str → Str → Option (List Str × Str)
  | (pieces, current), line =>
    hardSplit room turns <|
      if current ≠ [] ∧ room < current.length + 1 + line.length then (pieces ++ [current], line)
      else (pieces, if current = [] then line else current ++ '\n' :: line)

/-- The pieces, before any is left out. -/
def split (room : Int) (turns : Nat) (text : Str) : Option (List Str) :=
  ((text.splitOn '\n').foldlM (addLine room turns) ([], [])).map fun (pieces, current) =>
    pieces ++ [current]

def note (dropped : Nat) : Str :=
  str "\n… " ++ Nat.toDigits 10 dropped ++ str " more section(s) cut"

/-- The pieces that are shown. -/
def shown (pieces : List Str) : List Str :=
  if sectionsMax < pieces.length then
    (pieces.take sectionsMax).modify (sectionsMax - 1) (· ++ note (pieces.length - sectionsMax))
  else pieces

/-- A section's text. -/
def dress (label fence : Str) (index : Nat) (piece : Str) : Str :=
  let body := if fence = [] then piece else fence ++ '\n' :: piece ++ '\n' :: fence
  let head := if index = 0 ∧ label ≠ [] then label ++ ['\n'] else []
  head ++ body

def dressed (label fence : Str) (pieces : List Str) : List Str := pieces.mapIdx (dress label fence)

/-- `_sections`. -/
def sections (turns : Nat) (label text fence : Str) : Option (List Str) :=
  (split (room label fence) turns text).map fun pieces => dressed label fence (shown pieces)

/-- The loops end, with these sections. -/
def Returns (label text fence : Str) (blocks : List Str) : Prop :=
  ∃ n, ∀ turns, n ≤ turns → sections turns label text fence = some blocks

/-! ## What they are for -/

/-- The escape entities of `_mrkdwn_text`. -/
def entities : List Str := [str "&amp;", str "&lt;", str "&gt;"]

/-- A cut between `front` and `back` goes through an entity. -/
def Halved (front back : Str) : Prop :=
  ∃ e ∈ entities, ∃ i < e.length, 0 < i ∧ e.take i <:+ front ∧ e.drop i <+: back

/-- The pieces are the text up to `rest`: it was cut at line breaks, which are in no piece, and
inside lines, where no entity was. -/
inductive Cuts (rest : Str) : List Str → Str → Prop
  | last (p : Str) : ¬Halved p rest → Cuts rest [p] (p ++ rest)
  | line (p : Str) {ps : List Str} {text : Str} : Cuts rest ps text →
      Cuts rest (p :: ps) (p ++ '\n' :: text)
  | hard (p : Str) {ps : List Str} {text : Str} : text.head? ≠ some '\n' → ¬Halved p text →
      Cuts rest ps text → Cuts rest (p :: ps) (p ++ text)

/-! ## Where a section begins -/

/-- A line ends, or the text, after so many characters. -/
def ends (text : Str) (n : Nat) : Bool := (text.drop n).head?.all (· = '\n')

/-- How much a section takes: the most whole lines there is room for, or of a line that there is not
room for as much as there is. -/
def span (room : Nat) (text : Str) : Nat :=
  ((List.range (min room text.length + 1)).reverse.find? (ends text)).getD room

/-- What a section shows of the text from where it begins. -/
def piece (room : Nat) (start : Str) : Str :=
  let start := start.dropWhile (· = '\n')
  start.take (span room start)

/-- Where the next section begins: after the line break that ended the lines of this one, or where a
line was cut. -/
def next (room : Nat) (start : Str) : Option Str :=
  let start := start.dropWhile (· = '\n')
  match start.drop (span room start) with
  | [] => none
  | c :: rest => some (if c = '\n' then rest else c :: rest)

/-- From where on each section has the text, of so many sections at most. -/
def startsIn (room : Nat) : Nat → Str → List Str
  | 0, _ => []
  | n + 1, start => start :: ((next room start).map (startsIn room n)).getD []

/-- From where on each section has the text. -/
def starts (room : Nat) (text : Str) : List Str := startsIn room (text.length + 1) text

/-- A section that begins with no empty line and ends inside no entity. -/
def Clean (room : Nat) (start : Str) : Prop :=
  start.head? ≠ some '\n' ∧ ¬Halved (piece room start) (start.drop (span room start))

/-- What a fence takes of a section. -/
def frame (fence : Str) : Nat := if fence = [] then 0 else 2 * (fence.length + 1)

/-- Each section fits, and they hold the text, or the front of it and a note of how many further
sections the rest takes. -/
structure Held (label text fence : Str) (blocks : List Str) : Prop where
  fits : ∀ block ∈ blocks, block.length ≤ sectionMax
  whole : (∃ ps, blocks = dressed label fence ps ∧ Cuts [] ps text) ∨
    ∃ ps last n rest, blocks = dressed label fence (ps ++ [last ++ note n]) ∧
      Cuts rest (ps ++ [last]) text ∧ 0 < n ∧
      ps.length + 1 + n = (starts (room label fence).toNat text).length

/-- Each section that is shown is clean, and where there are more there is room for the note. -/
structure Fair (label text fence : Str) : Prop where
  clean : ∀ start ∈ (starts (room label fence).toNat text).take sectionsMax,
    Clean (room label fence).toNat start
  noted : ∀ start, (starts (room label fence).toNat text)[sectionsMax - 1]? = some start →
    sectionsMax < (starts (room label fence).toNat text).length →
    (piece (room label fence).toNat start).length +
      (note ((starts (room label fence).toNat text).length - sectionsMax)).length +
      frame fence ≤ sectionMax

end Rendering
