import ImpiAgent.Flows.Containment
import ImpiAgent.Store.Clock

/-!
# The prompt of a turn

`AgentFlow._render_prompt`: who is asking, what was said before, what was cut short, and the messages
of the batch, each with what it points at, the event it is about and its files. What stands for
quoted material is between a line that opens a block and one that closes it, both with the tag drawn
for the turn.

`marks` is the prompt as the engine means it: the lines it writes that begin with a bracket, in
order.
-/

namespace Envelope

open Text Containment

/-! ## What the prompt is made of -/

inductive Kind
  | thread | dm | channel
  deriving DecidableEq

structure ConversationRef where
  channelId : Str
  messageId : Str
  threadRootId : Str := []
  deriving DecidableEq

/-- A file as the agent is told of it; `path` is the one the store saved it under. -/
structure Attachment where
  name : Str
  path : Str
  mime : Str := []
  size : Nat := 0
  deriving DecidableEq

/-- `label` heads the block when it is not empty. -/
structure EventReport where
  source : Str
  text : Str
  label : Str := []
  deriving DecidableEq

structure QuotedMessage where
  author : Str
  text : Str
  deriving DecidableEq

structure IncomingMessage where
  ref : ConversationRef
  text : Str
  userId : Str
  username : Str := []
  timestamp : Option Moment := none
  kind : Kind := .thread
  isFromBot : Bool := false
  attachments : List Attachment := []
  quoted : Option QuotedMessage := none
  event : Option EventReport := none
  deriving DecidableEq

structure PostSnippet where
  messageId : Str
  username : Str
  text : Str
  timestamp : Option Moment := none
  userId : Str := []
  deriving DecidableEq

/-- What the flow was made with: the application's sources, where it has any. -/
structure Flow where
  agentName : Str
  ownUserIds : List Str
  context : Option (Str → IncomingMessage → Str)
  history : Option (Str → IncomingMessage → List PostSnippet)

/-- What the platform hands back of a conversation. -/
structure ChatClient where
  getThreadPosts : ConversationRef → List PostSnippet
  getRecentPosts : Str → Nat → List PostSnippet

/-- The tag of a turn. -/
structure Tag where
  text : Str
  hex : ∀ c ∈ text, c.isAlphanum
  drawn : text ≠ []

instance neZero_sixteen : @NeZero Nat Zero.ofOfNat0 16 := ⟨Nat.succ_ne_zero 15⟩

def hexDigit (n : Fin 16) : Char := ['0', '1', '2', '3', '4', '5', '6', '7', '8', '9', 'a', 'b', 'c',
  'd', 'e', 'f'].get n

/-- `_new_envelope_tag`: three random bytes in hexadecimal. -/
def newEnvelopeTag (high low high' low' high'' low'' : Fin 16) : Tag where
  text := [high, low, high', low', high'', low''].map hexDigit
  hex := by
    have h : ∀ n, (hexDigit n).isAlphanum := by decide
    intro c hc
    obtain ⟨n, -, rfl⟩ := List.mem_map.1 hc
    exact h n
  drawn := by simp

/-! ## Times and sizes -/

/-- The year, the month and the day of a day counted from the first of January 1970. -/
def civil (day : Int) : Int × Nat × Nat :=
  let z := day + 719468
  let era := z / 146097
  let doe := (z % 146097).toNat
  let yoe := (doe - doe / 1460 + doe / 36524 - doe / 146096) / 365
  let doy := doe - (365 * yoe + yoe / 4 - yoe / 100)
  let mp := (5 * doy + 2) / 153
  let month := if mp < 10 then mp + 3 else mp - 9
  (yoe + era * 400 + if month ≤ 2 then 1 else 0, month, doy - (153 * mp + 2) / 5 + 1)

def digits (n : Nat) : Str := Nat.toDigits 10 n

def padded (n : Nat) : Str := if n < 10 then '0' :: digits n else digits n

/-- `_format_time`: `%Y-%m-%d %H:%M UTC`. -/
def formatTime (m : Moment) : Str :=
  let minute := m / (60 * Clock.second)
  let (year, month, day) := civil (minute / 1440)
  digits year.toNat ++ '-' :: padded month ++ '-' :: padded day ++
    ' ' :: padded ((minute % 1440).toNat / 60) ++ ':' :: padded ((minute % 1440).toNat % 60) ++
    str " UTC"

example : formatTime (1790812799 * Clock.second) = str "2026-09-30 23:59 UTC" := by decide

/-- A quotient as `format` rounds it, ties to even. -/
def rounded (n d : Nat) : Nat :=
  if n % d * 2 < d then n / d
  else if d < n % d * 2 then n / d + 1
  else n / d + n / d % 2

/-- `format_size`; a size below 2^53 is divided exactly. -/
def formatSize (size : Nat) : Str :=
  if 1024 * 1024 ≤ size then
    let tenths := rounded (size * 10) (1024 * 1024)
    digits (tenths / 10) ++ '.' :: digits (tenths % 10) ++ str " MB"
  else if 1024 ≤ size then digits (rounded size 1024) ++ str " KB"
  else digits size ++ str " B"

/-! ## Lines the engine writes -/

def contextOpen (tag : Tag) (label : Str) : Str :=
  str "[context " ++ tag.text ++ str ": " ++ label ++ str "]"

def contextClose (tag : Tag) : Str := str "[/context " ++ tag.text ++ str "]"

def contextBlock (tag : Tag) (label body : Str) : Str :=
  contextOpen tag label ++ '\n' :: body ++ '\n' :: contextClose tag

/-- `[{author}{when}]: ` and the text behind it. -/
def spoken (author : Str) (timestamp : Option Moment) (text : Str) : Str :=
  str "[" ++ author ++ (timestamp.elim [] fun t => str " · " ++ formatTime t) ++ str "]: " ++
    quoted text true

/-- `_attachment_line`. -/
def attachmentLine (a : Attachment) : Str :=
  let kind := oneLine a.mime 80
  str "[attached] " ++ oneLine a.name 120 ++ str " — " ++
    (if kind = [] then str "unknown type" else kind) ++ str ", " ++ formatSize a.size ++
    str " — " ++ a.path

def labelFirstTurn : Str := str "earlier conversation"
def labelPreamble : Str := str "who is asking"
def labelPointedAt (author : Str) : Str := str "the message this points at, by " ++ author
def labelEvent (source : Str) : Str := str "event reported by " ++ source
def labelCatchUp : Str := str "posted since your last reply"
def labelCutShort : Str := str "the previous turn, which was cut short"

/-- `_CHANNEL_BACKFILL_LIMIT`. -/
def channelBackfillLimit : Nat := 20

/-- `_MAX_BACKFILL_CHARS`. -/
def maxBackfillChars : Int := 6000

/-! ## The transcript -/

/-- As many from the front as the budget pays for, one more than its size each. -/
def afford {α : Type} (size : α → Nat) : Int → List α → List α
  | _, [] => []
  | budget, a :: l =>
    let budget := budget - (size a + 1)
    if budget < 0 then [] else a :: afford size budget l

/-- The latest of a list the budget pays for. -/
def keepLatest {α : Type} (size : α → Nat) (l : List α) : List α :=
  (afford size maxBackfillChars l.reverse).reverse

def snippetLine (s : PostSnippet) : Str := spoken ('@' :: speaker s.username) s.timestamp s.text

/-- `_render_transcript`. -/
def renderTranscript (snippets : List PostSnippet) (exclude : List Str) : Str :=
  let lines := (snippets.filter fun s => s.messageId ∉ exclude).map snippetLine
  ['\n'].intercalate (keepLatest List.length lines)

/-- `_backfill_snippets`. -/
def backfillSnippets (chat : ChatClient) (msg : IncomingMessage) : List PostSnippet :=
  let root := msg.ref.threadRootId
  if msg.kind = .thread ∧ root ≠ [] ∧ root ≠ msg.ref.messageId then chat.getThreadPosts msg.ref
  else if msg.kind = .channel then chat.getRecentPosts msg.ref.channelId channelBackfillLimit
  else []

namespace Flow

variable (flow : Flow)

/-- `_since`. -/
def since (snippets : List PostSnippet) (since memoryAt : Option Moment) : List PostSnippet :=
  match since with
  | none => []
  | some since =>
    snippets.filter fun s =>
      match s.timestamp with
      | none => false
      | some t => since < t ∧ (s.userId ∉ flow.ownUserIds ∨ memoryAt.any (· < t))

/-- The snippets of a turn: the platform's, and what the application has that the platform did not
hand back. -/
def snippets (chat : ChatClient) (anchor : IncomingMessage) (firstTurn : Bool)
    (sinceAt memoryAt : Option Moment) : List PostSnippet :=
  let own := backfillSnippets chat anchor
  let all :=
    match flow.history with
    | some recent =>
      if firstTurn ∧ own = [] ∨ memoryAt.isSome then
        own ++ (recent flow.agentName anchor).filter fun s => s.messageId ∉ own.map (·.messageId)
      else own
    | none => own
  if firstTurn then all else flow.since all sinceAt memoryAt

def preamble (anchor : IncomingMessage) : Str :=
  flow.context.elim [] fun source => source flow.agentName anchor

end Flow

/-! ## The prompt -/

def author (m : IncomingMessage) : Str :=
  let name := if m.username ≠ [] then '@' :: speaker m.username else speaker m.userId
  if m.isFromBot then name ++ str " (agent)" else name

def EventReport.heading (e : EventReport) : Str :=
  if e.label ≠ [] then e.label else labelEvent (speaker e.source)

/-- The lines of one message of the batch. -/
def messageLines (tag : Tag) (m : IncomingMessage) : List Str :=
  (m.quoted.toList.map fun q =>
      contextBlock tag (labelPointedAt ('@' :: speaker q.author)) (quoted q.text false)) ++
    (m.event.toList.map fun e => contextBlock tag e.heading (quoted e.text false)) ++
    spoken (author m) m.timestamp m.text :: m.attachments.map attachmentLine

/-- `_render_prompt`, of a batch given as its last message and those before it. -/
def renderPrompt (flow : Flow) (chat : ChatClient) (tag : Tag) (earlier : List IncomingMessage)
    (anchor : IncomingMessage) (firstTurn : Bool) (since : Option Moment) (cutShort : Str)
    (memoryAt : Option Moment) : Str :=
  let msgs := earlier ++ [anchor]
  let preamble := flow.preamble anchor
  let snippets := flow.snippets chat anchor firstTurn since memoryAt
  let transcript := renderTranscript snippets (msgs.map (·.ref.messageId))
  let parts :=
    (if preamble ≠ [] then [contextBlock tag labelPreamble (quoted preamble false)] else []) ++
    (if transcript ≠ [] then
      [contextBlock tag (if firstTurn then labelFirstTurn else labelCatchUp) transcript] else []) ++
    (if cutShort ≠ [] then [contextBlock tag labelCutShort (quoted cutShort false)] else []) ++
    msgs.map fun m => ['\n'].intercalate (messageLines tag m)
  ['\n', '\n'].intercalate parts

/-! ## What the engine means -/

/-- A line of the engine's. -/
inductive Mark
  | opens (label : Str)
  | closes
  | said (author : Str) (timestamp : Option Moment) (text : Str)
  | attached (file : Attachment)

namespace Mark

def text (tag : Tag) : Mark → Str
  | opens label => contextOpen tag label
  | closes => contextClose tag
  | said author timestamp text => spoken author timestamp text
  | attached file => attachmentLine file

/-- What is read of a mark as the engine's line. -/
def line (tag : Tag) (mark : Mark) : Str := firstLine (mark.text tag)

/-- The label of a block the mark opens. -/
def label? : Mark → Option Str
  | opens label => some label
  | _ => none

end Mark

/-- The marks of a block and of what is in it. -/
def block (label : Str) (inside : List Mark) : List Mark := .opens label :: inside ++ [.closes]

def messageMarks (m : IncomingMessage) : List Mark :=
  (m.quoted.toList.flatMap fun q => block (labelPointedAt ('@' :: speaker q.author)) []) ++
    (m.event.toList.flatMap fun e => block e.heading []) ++
    .said (author m) m.timestamp m.text :: m.attachments.map .attached

/-- The snippets the transcript has room for. -/
def transcriptSnippets (snippets : List PostSnippet) (exclude : List Str) : List PostSnippet :=
  keepLatest (fun s => (snippetLine s).length) (snippets.filter fun s => s.messageId ∉ exclude)

/-- The engine's lines of a prompt, in order. -/
def marks (flow : Flow) (chat : ChatClient) (earlier : List IncomingMessage)
    (anchor : IncomingMessage) (firstTurn : Bool) (since : Option Moment) (cutShort : Str)
    (memoryAt : Option Moment) : List Mark :=
  let msgs := earlier ++ [anchor]
  let transcript := transcriptSnippets (flow.snippets chat anchor firstTurn since memoryAt)
    (msgs.map (·.ref.messageId))
  (if flow.preamble anchor ≠ [] then block labelPreamble [] else []) ++
  (if transcript ≠ [] then
    block (if firstTurn then labelFirstTurn else labelCatchUp)
      (transcript.map fun s => .said ('@' :: speaker s.username) s.timestamp s.text) else []) ++
  (if cutShort ≠ [] then block labelCutShort [] else []) ++
  msgs.flatMap messageMarks

/-- A line that bears the tag as an opening or a closing marker does. -/
def bears (tag : Tag) (line : Str) : Bool :=
  match lstrip line with
  | [] => false
  | c :: rest => opening c &&
    ((str "context " ++ tag.text).isPrefixOf rest || (str "/context " ++ tag.text).isPrefixOf rest)

/-- The lines of a prompt that begin with a bracket are the engine's, and those that bear the tag
open and close one block after the other. -/
structure Sealed (tag : Tag) (prompt : Str) (marks : List Mark) : Prop where
  own : picked presents prompt = marks.map (Mark.line tag)
  closed : picked (bears tag) prompt =
    (marks.filterMap Mark.label?).flatMap fun label =>
      [(Mark.opens label).line tag, Mark.closes.line tag]

/-- What the engine puts into a line as it is: the heading an event comes with, and the paths of the
files. -/
def IncomingMessage.Sound (m : IncomingMessage) : Prop :=
  (∀ e ∈ m.event, Plain e.label) ∧ ∀ a ∈ m.attachments, Plain a.path

end Envelope
