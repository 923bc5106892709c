import ImpiAgent.Delegation.Records
import ImpiAgent.Lib.Dict
import ImpiAgent.Lib.Lts
import ImpiAgent.Store.Clock

/-!
# The turns of the HTTP gateway

`HttpTurns`: the running turn of each conversation, the turns whose journals may still be read, and
the client message each was started by; `TurnJournal`, the events of one turn; and what writes to a
journal: `HttpChatClient`, the clicks of `HttpHub._action`, the `_Trace` a flow holds.

A turn is its number among those started, as the ids are never given twice. A click waits for its
answer between `click` and `answered`, so anything may happen in between. What is left out is read
by nobody here: the payload of an event, a card, the calls of a turn, cards held outside a turn.
-/

namespace HttpTurns

open Delegation (TurnOutcome)

/-! ## The journal -/

inductive EventType
  | turnStarted | toolStarted | toolFinished | progress | toolAwaiting | message | notice | actions
  | confirmation | confirmationUpdated | actionsRetired | cards | file | turnFinished
  deriving DecidableEq

structure TurnEvent where
  seq : Nat
  type : EventType
  deriving DecidableEq

inductive Status
  | running | awaitingInput | done | failed
  deriving DecidableEq

structure TurnJournal where
  status : Status
  finishedAt : Option Moment
  events : List TurnEvent
  deriving DecidableEq

namespace TurnJournal

variable (j : TurnJournal)

def cursor : Nat := (j.events.getLast?.map TurnEvent.seq).getD 0

def finished : Bool := j.finishedAt.isSome

def emit (type : EventType) : TurnJournal := { j with events := j.events ++ [⟨j.cursor + 1, type⟩] }

def setStatus (status : Status) : TurnJournal := if j.finished then j else { j with status }

def finish (status : Status) (now : Moment) : TurnJournal :=
  { j with status, finishedAt := some now }

def since (after : Nat) : List TurnEvent := j.events.filter (after < ·.seq)

end TurnJournal

/-! ## A turn -/

/-- `posted`: the controls of the posts it has up, by post id. `tracing`: a flow holds a `_Trace` of
it. `clicks`: the posts whose clicks wait for their answer. -/
structure Turn where
  conversation : String
  clientMessageId : String
  journal : TurnJournal
  posted : List (String × List String)
  blocking : List String
  tracing : Bool
  clicks : List String
  deriving DecidableEq

namespace Turn

variable (t : Turn)

def emit (type : EventType) : Turn := { t with journal := t.journal.emit type }

def setStatus (status : Status) : Turn := { t with journal := t.journal.setStatus status }

/-- `blocking.add`. -/
def block (post : String) : Turn :=
  { t with blocking := if post ∈ t.blocking then t.blocking else t.blocking ++ [post] }

/-- `blocking.discard`. -/
def unblock (post : String) : Turn := { t with blocking := t.blocking.filter (· ≠ post) }

/-- `if not turn.blocking`: back to running. -/
def resume : Turn := if t.blocking = [] then t.setStatus .running else t

/-- `HttpChatClient.post_actions`. -/
def postActions (post : String) (answers : List String) : Turn :=
  let t := { t with posted := Dict.assign post answers t.posted }
  ((t.block post).emit .actions).setStatus .awaitingInput

/-- `HttpChatClient._settle`. -/
def settle (post : String) (answers : List String) : Turn :=
  let t := { t with posted := Dict.assign post answers t.posted }
  if answers = [] then (t.unblock post).resume else (t.block post).setStatus .awaitingInput

/-- A card is put up, or rewritten. -/
def confirm (type : EventType) (post : String) (answers : List String) : Turn :=
  (t.emit type).settle post answers

/-- `HttpChatClient.retract` and `HttpHub._retire`. -/
def retire (post : String) : Turn :=
  let t := { t with posted := Dict.remove post t.posted }
  ((t.unblock post).emit .actionsRetired).resume

/-- `HttpChatClient._cards`. -/
def cards (post : String) (controls : List String) : Turn :=
  ({ t with posted := Dict.assign post controls t.posted } : Turn).emit .cards

/-- What `HttpTurns.finish` does to the turn. -/
def finish (outcome : TurnOutcome) (now : Moment) : Turn :=
  let status : Status := if outcome = .timeout ∨ outcome = .error then .failed else .done
  let cleared : Turn := { t with posted := [], blocking := [] }
  { cleared with journal := (cleared.journal.emit .turnFinished).finish status now }

end Turn

/-! ## The gateway -/

structure Settings where
  retention : Int
  remembered : Nat

/-- A client that polls one turn. `got` is the history of what it was answered. -/
structure Reader where
  turn : Nat
  cursor : Nat
  waiting : Bool
  got : List TurnEvent
  deriving DecidableEq

/-- `turns` holds every turn that was started, with whether its message was not remembered then;
only those in `byId` can be found by their id. -/
structure State where
  turns : List Turn
  first : List Bool
  byId : List Nat
  active : List (String × Nat)
  idle : Bool
  byMessage : List ((String × String) × Nat)
  readers : List Reader

namespace State

variable (s : State)

def modify (t : Nat) (f : Turn → Turn) : State := { s with turns := s.turns.modify t f }

/-- The journal is still going. -/
def running (t : Nat) : Bool := (s.turns[t]?.map fun x => !x.journal.finished).getD false

/-- `_turn_of_post`: the running turn that has the post. -/
def turnOfPost (post : String) : Option Nat :=
  (s.active.map Prod.snd).find? fun t =>
    (s.turns[t]?.map fun x => decide (post ∈ x.posted.map Prod.fst)).getD false

end State

/-- `while len(self._by_message) > self._remembered: popitem(last=False)`. -/
def evict (S : Settings) (m : List ((String × String) × Nat)) : List ((String × String) × Nat) :=
  m.drop (m.length - S.remembered)

def newTurn (conversation message : String) : Turn :=
  ({ conversation, clientMessageId := message, journal := ⟨.running, none, []⟩, posted := []
     blocking := [], tracing := false, clicks := [] } : Turn).emit .turnStarted

/-- The part of `start` that makes a turn. -/
def create (S : Settings) (s : State) (conversation message : String) : State :=
  { s with
    turns := s.turns ++ [newTurn conversation message]
    first := s.first ++ [(s.byMessage.lookup (conversation, message)).isNone]
    byId := s.byId ++ [s.turns.length]
    active := Dict.assign conversation s.turns.length s.active
    idle := false
    byMessage := evict S (Dict.assign (conversation, message) s.turns.length s.byMessage) }

/-- `known`. -/
def known (s : State) (conversation message : String) : Option Nat :=
  (s.byMessage.lookup (conversation, message)).filter (· ∈ s.byId)

/-- `start`: the turn and whether it was created, or the running turn that `TurnInProgress`
carries. -/
def start (S : Settings) (s : State) (conversation message : String) :
    Except Nat (Nat × Bool) × State :=
  match known s conversation message with
  | some t => (.ok (t, false), s)
  | none =>
    match s.active.lookup conversation with
    | some t => (.error t, s)
    | none => (.ok (s.turns.length, true), create S s conversation message)

/-- `del self._active[turn.conversation]`, where the turn is that conversation's. -/
def leave (s : State) (t : Nat) (conversation : String) : List (String × Nat) :=
  if s.active.lookup conversation = some t then Dict.remove conversation s.active else s.active

/-- `finish`. -/
def finish (s : State) (t : Nat) (x : Turn) (outcome : TurnOutcome) (now : Moment) : State :=
  { s.modify t fun x => x.finish outcome now with
    active := leave s t x.conversation
    idle := if leave s t x.conversation = [] then true else s.idle }

/-- The turns `sweep` forgets. -/
def stale (S : Settings) (s : State) (now : Moment) (t : Nat) : Bool :=
  match s.turns[t]?.bind fun x => x.journal.finishedAt with
  | some finishedAt => S.retention < now - finishedAt
  | none => false

def sweep (S : Settings) (s : State) (now : Moment) : State :=
  { s with byId := s.byId.filter fun t => !stale S s now t }

/-- What the runtime reports to a `_Trace`. A call that awaits is news or not. -/
inductive RuntimeEvent
  | toolStarted | textProgress | toolFinished | callAwaiting (news : Bool)
  deriving DecidableEq

/-- `_Trace.on_event`. -/
def RuntimeEvent.emits : RuntimeEvent → Option EventType
  | .toolStarted => some .toolStarted
  | .textProgress => some .progress
  | .toolFinished => some .toolFinished
  | .callAwaiting news => if news then some .toolAwaiting else none

inductive Event
  | start (conversation message : String)
  | finish (t : Nat) (outcome : TurnOutcome) (now : Moment)
  /-- `abandon`. -/
  | abandon (t : Nat) (now : Moment)
  | sweep (now : Moment)
  /-- A flow begins a turn in the conversation. -/
  | begin (conversation : String)
  | traced (t : Nat) (event : RuntimeEvent)
  /-- A reply, a notice or a file. -/
  | post (conversation : String) (type : EventType)
  | postActions (conversation post : String) (answers : List String)
  | postConfirmation (conversation post : String) (answers : List String)
  | updateConfirmation (post : String) (answers : List String)
  | retract (post : String)
  | postCards (conversation post : String) (controls : List String)
  | updateCards (post : String) (controls : List String)
  | click (t : Nat) (post control : String)
  /-- The click's answer comes; `retires` where it takes the controls down. -/
  | answered (t : Nat) (post : String) (retires : Bool)
  | read (t : Nat)
  | poll (r : Nat) (wait : Bool)
  | woken (r : Nat)
  | timedOut (r : Nat)
  deriving DecidableEq

/-- What goes to the journal of the turn the conversation has running. -/
def onActive (s : State) (conversation : String) (f : Turn → Turn) : State :=
  match s.active.lookup conversation with
  | some t => s.modify t f
  | none => s

/-- What goes to the journal of the turn that has the post. -/
def onPost (s : State) (post : String) (f : Turn → Turn) : State :=
  match s.turnOfPost post with
  | some t => s.modify t f
  | none => s

/-- The texts `post_reply`, the notices and `post_files` emit. -/
def isText : EventType → Bool
  | .message | .notice | .file => true
  | _ => false

/-- A reader is answered: it goes on from the last event it got. -/
def Reader.answer (r : Reader) (found : List TurnEvent) : Reader :=
  { r with
    cursor := (found.getLast?.map TurnEvent.seq).getD r.cursor
    waiting := false
    got := r.got ++ found }

/-- `TurnJournal.wait`, up to its await. -/
def Reader.poll (r : Reader) (j : TurnJournal) (wait : Bool) : Reader :=
  if j.since r.cursor ≠ [] ∨ ¬wait ∨ j.finished then r.answer (j.since r.cursor)
  else { r with waiting := true }

/-- What reader `r` does with the journal it reads. -/
def onReader (s : State) (r : Nat) (f : Reader → TurnJournal → Option Reader) : Option State := do
  let x ← s.readers[r]?
  let turn ← s.turns[x.turn]?
  let x ← f x turn.journal
  return { s with readers := s.readers.set r x }

def next (S : Settings) (s : State) : Event → Option State
  | .start conversation message => some (start S s conversation message).2
  | .finish t outcome now => s.turns[t]?.map fun x => finish s t x outcome now
  | .abandon t now => s.turns[t]?.map fun x => finish s t x .error now
  | .sweep now => some (sweep S s now)
  | .begin conversation => some (onActive s conversation fun x => { x with tracing := true })
  | .traced t event => do
    let x ← s.turns[t]?
    if x.tracing then some (match event.emits with
      | some type => s.modify t (·.emit type)
      | none => s)
    else none
  | .post conversation type =>
    if isText type then some (onActive s conversation (·.emit type)) else none
  | .postActions conversation post answers =>
    some (onActive s conversation (·.postActions post answers))
  | .postConfirmation conversation post answers =>
    some (onActive s conversation (·.confirm .confirmation post answers))
  | .updateConfirmation post answers =>
    some (onPost s post (·.confirm .confirmationUpdated post answers))
  | .retract post => some (onPost s post (·.retire post))
  | .postCards conversation post controls =>
    some (onActive s conversation (·.cards post controls))
  | .updateCards post controls => some (onPost s post (·.cards post controls))
  | .click t post control => do
    let x ← s.turns[t]?
    if t ∈ s.byId ∧ control ∈ (x.posted.lookup post).getD [] then
      some (s.modify t fun x => { x with clicks := post :: x.clicks })
    else none
  | .answered t post retires => do
    let x ← s.turns[t]?
    if post ∈ x.clicks then
      some (s.modify t fun x =>
        let x := { x with clicks := x.clicks.erase post }
        if retires then x.retire post else x)
    else none
  | .read t =>
    if t ∈ s.byId then some { s with readers := s.readers ++ [⟨t, 0, false, []⟩] } else none
  | .poll r wait =>
    onReader s r fun x j =>
      if ¬x.waiting ∧ x.turn ∈ s.byId then some (x.poll j wait) else none
  | .woken r =>
    onReader s r fun x j => if x.waiting then some (x.answer (j.since x.cursor)) else none
  | .timedOut r => onReader s r fun x _ => if x.waiting then some (x.answer []) else none

/-- A gateway that has started no turn. -/
def lts (S : Settings) : Lts State Event where
  init s := s = ⟨[], [], [], [], true, [], []⟩
  next := next S

end HttpTurns
