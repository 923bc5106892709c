import ImpiAgent.Lib.Json
import Mathlib.Data.Finset.Sort
import Mathlib.Data.String.Basic

/-!
# A message on its way to the replica that owns its conversation

`message_to_wire` and `message_from_wire`, over the values a request's body is made of. A datetime is
its ISO text; the bytes of an attachment are read where the message is, and the attachments of the
message that arrives are those saved there.
-/

namespace Internal

open Json

structure ConversationRef where
  channelId : String
  conversationId : String
  messageId : String
  threadRootId : String

structure Attachment where
  name : String
  path : String
  mime : String
  size : Nat

/-- A dict of strings. -/
structure Attributes where
  items : List (String × String)
  distinct : Dict.Distinct items

theorem Attributes.ext {a b : Attributes} (h : a.items = b.items) : a = b := by
  cases a
  cases b
  cases h
  rfl

structure TurnScope where
  turnId : String
  secrets : List (String × String)
  attributes : Attributes
  flags : Finset String

structure QuotedMessage where
  author : String
  text : String

structure EventReport where
  source : String
  text : String
  label : String

structure Click where
  actionId : String
  data : String
  interactionId : String

/-- A datetime, as its `isoformat()`, which is never empty. -/
abbrev DateTime := { iso : String // iso ≠ "" }

structure IncomingMessage where
  ref : ConversationRef
  text : String
  userId : String
  username : String
  timestamp : Option DateTime
  kind : String
  isDm : Bool
  mentioned : Bool
  isFromBot : Bool
  gateway : String
  hopDepth : Int
  attachments : List Attachment
  synthetic : Bool
  turn : Option TurnScope
  quoted : Option QuotedMessage
  click : Option Click
  engineStarted : Bool
  event : Option EventReport
  raw : List (Key × PyValue)

/-! ## Encoding -/

/-- A dict with string keys. -/
def record (xs : List (String × PyValue)) : PyValue := .dict (xs.map fun x => (.str x.1, x.2))

/-- `None`, or what `f` makes of the value. -/
def optional {α : Type} (f : α → PyValue) : Option α → PyValue
  | some a => f a
  | none => .null

/-- The attachments that can be read, with their bytes in base64. -/
def files (read : String → Option String) (as : List Attachment) : List PyValue :=
  as.filterMap fun a => (read a.path).map fun data =>
    record [("name", .str a.name), ("mime", .str a.mime), ("data", .str data)]

def turnToWire (t : TurnScope) : PyValue :=
  record [("turn_id", .str t.turnId),
    ("attributes", record (t.attributes.items.map fun x => (x.1, .str x.2))),
    ("flags", .list ((t.flags.sort (· ≤ ·)).map .str))]

/-- `isoformat`. -/
def stampToWire (t : DateTime) : PyValue := .str t.val

def quotedToWire (q : QuotedMessage) : PyValue :=
  record [("author", .str q.author), ("text", .str q.text)]

def eventToWire (e : EventReport) : PyValue :=
  record [("source", .str e.source), ("text", .str e.text)]

/-- `message_to_wire`, where `read` gives the bytes of a file. -/
def messageToWire (read : String → Option String) (msg : IncomingMessage) : PyValue :=
  record [
    ("ref", record [
      ("channel_id", .str msg.ref.channelId),
      ("conversation_id", .str msg.ref.conversationId),
      ("message_id", .str msg.ref.messageId),
      ("thread_root_id", .str msg.ref.threadRootId)]),
    ("text", .str msg.text),
    ("user_id", .str msg.userId),
    ("username", .str msg.username),
    ("timestamp", optional stampToWire msg.timestamp),
    ("kind", .str msg.kind),
    ("is_dm", .bool msg.isDm),
    ("mentioned", .bool msg.mentioned),
    ("is_from_bot", .bool msg.isFromBot),
    ("gateway", .str msg.gateway),
    ("hop_depth", .int msg.hopDepth),
    ("attachments", .list (files read msg.attachments)),
    ("synthetic", .bool msg.synthetic),
    ("turn", optional turnToWire msg.turn),
    ("quoted", optional quotedToWire msg.quoted),
    ("engine_started", .bool msg.engineStarted),
    ("event", optional eventToWire msg.event),
    ("raw", (reload (.dict msg.raw)).getD (.dict []))]

/-! ## Decoding -/

/-- `d.get(key)`. -/
def get (key : String) : PyValue → Option PyValue
  | .dict xs => xs.lookup (.str key)
  | _ => none

/-- `d.get(key, default)`. -/
def getD (key : String) (default d : PyValue) : PyValue := (get key d).getD default

def truthy : PyValue → Bool
  | .null => false
  | .bool b => b
  | .int n => n ≠ 0
  | .float r => r ≠ "0.0" ∧ r ≠ "-0.0"
  | .str s => s ≠ ""
  | .list xs | .tuple xs => !xs.isEmpty
  | .dict xs => !xs.isEmpty
  | .other _ => true

/-- `str(v)`, of what is printed alike everywhere. -/
def str : PyValue → Option String
  | .str s | .float s => some s
  | .int n => some (toString n)
  | .bool b => some (if b then "True" else "False")
  | .null => some "None"
  | _ => none

/-- `int(v)`, of an integer. -/
def int : PyValue → Option Int
  | .int n => some n
  | .bool b => some (if b then 1 else 0)
  | _ => none

/-- `dict(v)`. -/
def dict : PyValue → Option (List (Key × PyValue))
  | .dict xs => some xs
  | _ => none

/-- What `f` makes of a value, or `None` where it is falsy. -/
def whenTruthy {α : Type} (v : PyValue) (f : PyValue → Option α) : Option (Option α) :=
  if truthy v then (f v).map some else some none

/-- The keys of a dict of attributes, as `str` spells them. -/
def keyStr : Key → Option String
  | .str s | .float s => some s
  | .int n => some (toString n)
  | .bool b => some (if b then "True" else "False")
  | .null => some "None"
  | .other _ => none

/-- `{str(k): str(v) for k, v in …}`. -/
def attributesFromWire (v : PyValue) : Option Attributes := do
  let items ← (← dict v).mapM fun x => do return (← keyStr x.1, ← str x.2)
  return ⟨Dict.ofPairs items, Dict.ofPairs_distinct _⟩

/-- A flag is a string. -/
def flag : PyValue → Option String
  | .str s => some s
  | _ => none

/-- `set(…)` of flags. -/
def flagsFromWire : PyValue → Option (Finset String)
  | .list xs => (xs.mapM flag).map List.toFinset
  | _ => none

def turnFromWire (turn : PyValue) : Option TurnScope := do
  return {
    turnId := ← str (← get "turn_id" turn)
    secrets := []
    attributes := ← attributesFromWire (getD "attributes" (.dict []) turn)
    flags := ← flagsFromWire (getD "flags" (.list []) turn) }

/-- `datetime.fromisoformat`. -/
def stampFromWire : PyValue → Option DateTime
  | .str s => if h : s ≠ "" then some ⟨s, h⟩ else none
  | _ => none

def quotedFromWire (quoted : PyValue) : Option QuotedMessage := do
  return ⟨← str (← get "author" quoted), ← str (← get "text" quoted)⟩

def eventFromWire (event : PyValue) : Option EventReport := do
  return ⟨← str (← get "source" event), ← str (← get "text" event), ""⟩

/-- `message_from_wire`, with the attachments as saved here. -/
def messageFromWire (data : PyValue) (attachments : List Attachment) : Option IncomingMessage := do
  let ref ← get "ref" data
  return {
    ref := {
      channelId := ← str (← get "channel_id" ref)
      conversationId := ← str (← get "conversation_id" ref)
      messageId := ← str (← get "message_id" ref)
      threadRootId := ← str (getD "thread_root_id" (.str "") ref) }
    text := ← str (getD "text" (.str "") data)
    userId := ← str (getD "user_id" (.str "") data)
    username := ← str (getD "username" (.str "") data)
    timestamp := ← whenTruthy (getD "timestamp" .null data) stampFromWire
    kind := ← str (getD "kind" (.str "") data)
    isDm := truthy (getD "is_dm" (.bool false) data)
    mentioned := truthy (getD "mentioned" (.bool false) data)
    isFromBot := truthy (getD "is_from_bot" (.bool false) data)
    gateway := ← str (getD "gateway" (.str "") data)
    hopDepth := ← int (getD "hop_depth" (.int 0) data)
    attachments := attachments
    synthetic := truthy (getD "synthetic" (.bool false) data)
    turn := ← whenTruthy (getD "turn" .null data) turnFromWire
    quoted := ← whenTruthy (getD "quoted" .null data) quotedFromWire
    click := none
    engineStarted := truthy (getD "engine_started" (.bool false) data)
    event := ← whenTruthy (getD "event" .null data) eventFromWire
    raw := ← dict (if truthy (getD "raw" .null data) then getD "raw" .null data else .dict []) }

/-! ## The round trip -/

/-- The message without what the wire leaves out: the secrets of its turn, and its attachments, in
whose place are those saved on arrival. -/
def IncomingMessage.arrived (msg : IncomingMessage) (saved : List Attachment) : IncomingMessage :=
  { msg with
    attachments := saved
    turn := msg.turn.map fun t => { t with secrets := [] } }

/-- What the wire keeps of a message. -/
def IncomingMessage.kept (msg : IncomingMessage) (saved : List Attachment) : IncomingMessage :=
  { msg.arrived saved with
    click := none
    event := msg.event.map fun e => { e with label := "" }
    raw := ((reload (.dict msg.raw)).bind dict).getD [] }

theorem get_record (key : String) (xs : List (String × PyValue)) :
    get key (record xs) = xs.lookup key := by
  show (xs.map _).lookup (Key.str key) = _
  induction xs with
  | nil => rfl
  | cons x xs ih =>
    have hkey : (Key.str key == Key.str x.1) = (key == x.1) := by
      by_cases h : key = x.1 <;> simp [h]
    rw [List.map_cons, List.lookup_cons, List.lookup_cons, hkey, ih]

@[simp] theorem truthy_record (x : String × PyValue) (xs : List (String × PyValue)) :
    truthy (record (x :: xs)) = true := rfl

@[simp] theorem str_str (s : String) : str (.str s) = some s := rfl

@[simp] theorem int_int (n : Int) : int (.int n) = some n := rfl

@[simp] theorem truthy_bool (b : Bool) : truthy (.bool b) = b := rfl

@[simp] theorem getD_record (key : String) (v : PyValue) (xs : List (String × PyValue)) :
    getD key v (record xs) = (xs.lookup key).getD v := by
  rw [getD, get_record]

/-- An optional part arrives as its parts do, none of which is falsy. -/
theorem whenTruthy_optional {α β : Type} {f : α → PyValue} {g : PyValue → Option β} {h : α → β}
    (o : Option α) (ht : ∀ a, truthy (f a) = true) (hg : ∀ a, g (f a) = some (h a)) :
    whenTruthy (optional f o) g = some (o.map h) := by
  cases o with
  | none => rfl
  | some a => simp [whenTruthy, optional, ht, hg]

theorem stamp_arrives (o : Option DateTime) :
    whenTruthy (optional stampToWire o) stampFromWire = some o := by
  have hg : ∀ t, stampFromWire (stampToWire t) = some (id t) := fun t => dif_pos t.property
  rw [whenTruthy_optional o (fun t => by simpa [stampToWire, truthy] using t.property) hg]
  simp

theorem quoted_arrives (o : Option QuotedMessage) :
    whenTruthy (optional quotedToWire o) quotedFromWire = some o := by
  have hg : ∀ q, quotedFromWire (quotedToWire q) = some (id q) := fun q => by
    simp [quotedFromWire, quotedToWire, get_record, List.lookup_cons]
  rw [whenTruthy_optional o (fun _ => rfl) hg]
  simp

/-- The label of an event does not arrive. -/
theorem event_arrives (o : Option EventReport) :
    whenTruthy (optional eventToWire o) eventFromWire =
      some (o.map fun e => { e with label := "" }) := by
  refine whenTruthy_optional o (fun _ => rfl) fun e => ?_
  simp [eventFromWire, eventToWire, get_record, List.lookup_cons]

theorem attributes_arrive (a : Attributes) :
    attributesFromWire (record (a.items.map fun x => (x.1, .str x.2))) = some a := by
  have hitems : (a.items.map fun x => (Key.str x.1, PyValue.str x.2)).mapM
      (fun x => (do return (← keyStr x.1, ← str x.2) : Option (String × String))) =
        some a.items := by
    rw [List.mapM_map]
    exact List.mapM_pure.trans (by simp)
  have ha : ⟨Dict.ofPairs a.items, Dict.ofPairs_distinct _⟩ = a :=
    Attributes.ext (Dict.ofPairs_of_distinct a.distinct)
  have hd : dict (record (a.items.map fun x => (x.1, .str x.2))) =
      some (a.items.map fun x => (Key.str x.1, PyValue.str x.2)) := by
    simp [dict, record]
  unfold attributesFromWire
  rw [hd]
  simp only [Option.bind_eq_bind, Option.bind_some, Option.pure_def] at hitems ⊢
  rw [hitems, Option.bind_some, ha]

theorem flags_arrive (flags : Finset String) :
    flagsFromWire (.list ((flags.sort (· ≤ ·)).map .str)) = some flags := by
  have hflags : ((flags.sort (· ≤ ·)).map PyValue.str).mapM flag =
      some (flags.sort (· ≤ ·)) := by
    rw [List.mapM_map]
    exact List.mapM_pure.trans (by simp)
  rw [flagsFromWire, hflags, Option.map_some, Finset.sort_toFinset]

/-- The secrets of a turn do not arrive. -/
theorem turn_arrives (o : Option TurnScope) :
    whenTruthy (optional turnToWire o) turnFromWire =
      some (o.map fun t => { t with secrets := [] }) := by
  refine whenTruthy_optional o (fun _ => rfl) fun t => ?_
  simp [turnFromWire, turnToWire, get_record, List.lookup_cons, attributes_arrive, flags_arrive]

/-- `reload` keeps a dict a dict. -/
theorem reload_dict {xs : List (Key × PyValue)} {v : PyValue} (h : reload (.dict xs) = some v) :
    ∃ ys, v = .dict ys := by
  rw [reload] at h
  obtain ⟨ys, -, rfl⟩ := Option.map_eq_some_iff.1 h
  exact ⟨_, rfl⟩

theorem raw_arrives (raw : List (Key × PyValue)) :
    dict (if truthy ((reload (.dict raw)).getD (.dict [])) then
      (reload (.dict raw)).getD (.dict []) else .dict []) =
        some (((reload (.dict raw)).bind dict).getD []) := by
  cases h : reload (.dict raw) with
  | none => rfl
  | some v =>
    obtain ⟨ys, rfl⟩ := reload_dict h
    cases ys with
    | nil => rfl
    | cons => rfl

theorem arrives (read : String → Option String) (msg : IncomingMessage)
    (saved : List Attachment) :
    messageFromWire (messageToWire read msg) saved = some (msg.kept saved) := by
  unfold messageFromWire messageToWire
  simp [get_record, List.lookup_cons, raw_arrives, stamp_arrives, quoted_arrives, event_arrives,
    turn_arrives]
  rfl

/-- What the wire keeps is the whole message exactly where there is nothing it drops. -/
theorem kept_iff (msg : IncomingMessage) (saved : List Attachment) :
    msg.kept saved = msg.arrived saved ↔
      msg.click = none ∧ (∀ e, msg.event = some e → e.label = "") ∧ Plain (.dict msg.raw) := by
  have hraw : ((reload (.dict msg.raw)).bind dict).getD [] = msg.raw ↔ Plain (.dict msg.raw) := by
    rw [← reload_iff]
    cases h : reload (.dict msg.raw) with
    | none =>
      simp only [Option.bind_none, Option.getD_none, reduceCtorEq, iff_false]
      intro heq
      rw [← heq] at h
      exact nomatch h
    | some v =>
      obtain ⟨ys, rfl⟩ := reload_dict h
      simp [dict]
  have hevent : msg.event.map (fun e => { e with label := "" }) = msg.event ↔
      ∀ e, msg.event = some e → e.label = "" := by
    cases msg.event with
    | none => simp
    | some e =>
      simp only [Option.map_some, Option.some.injEq, forall_eq']
      exact ⟨fun h => (congrArg EventReport.label h).symm, fun h => by rw [← h]⟩
  rw [← hraw, ← hevent]
  constructor
  · intro h
    exact ⟨(congrArg IncomingMessage.click h).symm, congrArg IncomingMessage.event h,
      congrArg IncomingMessage.raw h⟩
  · rintro ⟨hc, he, hr⟩
    unfold IncomingMessage.kept
    rw [he, hr, ← hc]
    rfl

/-- A message arrives as it was sent, but for what the wire leaves out on purpose, exactly if it
comes from no click, its event has no label of its own, and JSON can write its platform's payload and
read it back as it was. -/
theorem arrives_iff (read : String → Option String) (msg : IncomingMessage)
    (saved : List Attachment) :
    messageFromWire (messageToWire read msg) saved = some (msg.arrived saved) ↔
      msg.click = none ∧ (∀ e, msg.event = some e → e.label = "") ∧ Plain (.dict msg.raw) := by
  rw [arrives, Option.some.injEq, kept_iff]

namespace Sample

def text : IncomingMessage where
  ref := ⟨"C1", "C1", "1", ""⟩
  text := "Yes"
  userId := "U1"
  username := "ann"
  timestamp := none
  kind := "channel"
  isDm := false
  mentioned := false
  isFromBot := false
  gateway := "slack"
  hopDepth := 0
  attachments := []
  synthetic := true
  turn := none
  quoted := none
  click := none
  engineStarted := false
  event := none
  raw := []

/-- The message of a click on a control the application put data on. -/
def clicked : IncomingMessage := { text with click := some ⟨"approve", "order-7", "i1"⟩ }

/-- A turn on an event that is headed in the application's own words. -/
def reported : IncomingMessage :=
  { text with event := some ⟨"support", "…", "conversation handed on from support"⟩ }

end Sample

/-- A click and the label of an event are lost on the way. -/
theorem click_lost :
    messageFromWire (messageToWire (fun _ => none) Sample.clicked) [] = some Sample.text ∧
      messageFromWire (messageToWire (fun _ => none) Sample.clicked) [] ≠
        some (Sample.clicked.arrived []) ∧
      messageFromWire (messageToWire (fun _ => none) Sample.reported) [] ≠
        some (Sample.reported.arrived []) := by
  refine ⟨arrives _ _ _, fun h => ?_, fun h => ?_⟩
  · have := ((kept_iff Sample.clicked []).1 (Option.some.inj ((arrives _ _ _).symm.trans h))).1
    exact nomatch this
  · have := ((kept_iff Sample.reported []).1 (Option.some.inj ((arrives _ _ _).symm.trans h))).2.1
    exact absurd (this _ rfl) (by decide)

end Internal
