import ImpiAgent.Delegation.Records
import ImpiAgent.Store.Replicas

/-!
# A message on its way to a turn

A batch of messages reaches some replica: from its gateway, from its coalescer, forwarded by another
replica. `OwnedFlow.handle_batch` claims the conversation and forwards the batch where another
replica owns it; an owner that does not take it is taken over. `AgentFlow.handle_batch` marks each
message as processed, keeps the *fresh* ones (those the mark was new for) and, unless somebody is
not admitted, hands them to the runtime as one turn.

`Flows.lts b D`: calls of `handle_batch` in any number of processes over one database of backend
`b`. Every call of the store, every forward and every turn may fail, before or after it had its
effect. A call's attachments and its session record are left out: no message's id depends on them.
-/

namespace Flows

open Delegation (TurnOutcome)
open Replicas (ClaimArgs ConversationOwner)

/-- What the flows read of a message. -/
structure IncomingMessage where
  messageId : String
  conversationId : String
  gateway : String
  deriving DecidableEq

/-- How the agents' flows are set up: `ConversationKey.key`, and the gateways whose messages any
replica can answer. -/
structure Deployment where
  key : String → IncomingMessage → String
  forwarded : String → String → Bool

/-- The key of `processed_posts`. -/
inductive MarkId
  | pair (agent postId : String)
  | joined (id : String)
  deriving DecidableEq

def markId : Backend → String → String → MarkId
  | .sqlite, agent, postId => .pair agent postId
  | .mongo, agent, postId => .joined (agent ++ "\x00" ++ postId)

/-- A row of `processed_posts`, without a time where it is older than the column. -/
structure Mark where
  id : MarkId
  seenAt : Option Time
  deriving DecidableEq

instance : Keyed Mark where
  clash a b := a.id = b.id
  refl _ := decide_eq_true rfl
  symm _ _ := decide_eq_decide.2 eq_comm

/-- A message that a call of `AgentFlow.handle_batch` found fresh. -/
structure Fresh where
  call : Nat
  agent : String
  messageId : String
  deriving DecidableEq

/-- A turn the runtime was handed. -/
structure Turn where
  call : Nat
  agent : String
  msgs : List IncomingMessage
  deriving DecidableEq

/-- `fresh` and `turns` are the history of what the calls found and ran; nothing reads them. -/
structure Store where
  claims : Replicas.State
  processed : Table Mark
  fresh : List Fresh
  turns : List Turn

namespace Store

def nowIso (s : Store) : Time := s.claims.store.nowIso

/-- `mark_processed`, with the time read before: what it answers, and the rows after it. -/
def markProcessed (b : Backend) (s : Store) (agent postId : String) (now : Time) : Bool × Store :=
  match s.processed.insert ⟨markId b agent postId, some now⟩ with
  | some processed => (true, { s with processed })
  | none => (false, s)

/-- The rows `prune_processed` deletes. -/
def prunes (before : Time) (r : Mark) : Bool := r.seenAt.all (· < before)

def pruneProcessed (s : Store) (before : Time) : Store :=
  { s with processed := s.processed.delete (prunes before) }

/-- A claim of a conversation, begun. -/
def claim (b : Backend) (s : Store) (a : ClaimArgs) : Store :=
  { s with claims := s.claims.start (Replicas.claimConversation b a) }

/-- What claim `c` was told. -/
def told (s : Store) (c : Nat) : Option ConversationOwner :=
  match s.claims.calls[c]? with
  | some (some (.told _ owner)) => some owner
  | _ => none

end Store

/-- The flow of one agent on one replica. -/
structure Home where
  agent : String
  replica : String
  deriving DecidableEq

/-- A call of `handle_batch` between two awaits. `claim` is the claim it waits for. -/
inductive Point
  | claiming (msgs : List IncomingMessage) (a : ClaimArgs) (claim : Nat)
  | takingOver (msgs : List IncomingMessage) (a : ClaimArgs) (claim : Nat)
  | forwarding (msgs : List IncomingMessage) (a : ClaimArgs) (owner : ConversationOwner)
  | notTaken (msgs : List IncomingMessage) (claim : Nat)
  | dating (fresh : List IncomingMessage) (msg : IncomingMessage) (rest : List IncomingMessage)
  | marking (fresh : List IncomingMessage) (msg : IncomingMessage) (rest : List IncomingMessage)
      (now : Time)
  | preparing (fresh : List IncomingMessage)
  | running (fresh : List IncomingMessage)
  | returned (outcome : TurnOutcome)
  | raised
  deriving DecidableEq

structure Call where
  home : Home
  point : Point
  deriving DecidableEq

abbrev State := Pool Store Call

/-- The loop of `AgentFlow.handle_batch` over the messages it has not marked yet. -/
def mark (fresh : List IncomingMessage) : List IncomingMessage → Point
  | msg :: rest => .dating fresh msg rest
  | [] => if fresh = [] then .returned .duplicate else .preparing fresh

/-- The first claim of `OwnedFlow.handle_batch`, for the batch whose last message is `anchor`. -/
def claimArgs (D : Deployment) (h : Home) (anchor : IncomingMessage) : ClaimArgs where
  key := ⟨h.agent, D.key h.agent anchor⟩
  replica := h.replica
  take := !D.forwarded h.agent anchor.gateway

/-- The claim that takes the conversation over. -/
def takeOver (a : ClaimArgs) : ClaimArgs := { a with take := true }

/-- The calls of the store of claims so far; the next claim is numbered by it. -/
def Store.claimsMade (s : Store) : Nat := s.claims.calls.length

/-- Where a call goes on once its claim was answered. -/
def Point.answered (b : Backend) (p : Point) (s : Store) : Option (Store × Point) :=
  match p with
  | .claiming msgs a c =>
    (s.told c).map fun owner =>
      if owner.replica = a.replica then (s, mark [] msgs)
      else if owner.url = "" then
        (s.claim b (takeOver a), .takingOver msgs (takeOver a) s.claimsMade)
      else (s, .forwarding msgs a owner)
  | .takingOver msgs a c =>
    (s.told c).map fun owner =>
      if owner.replica = a.replica then (s, mark [] msgs) else (s, .forwarding msgs a owner)
  | .notTaken msgs c => (s.told c).map fun _ => (s, mark [] msgs)
  | _ => none

/-- Call `i` of `h` found the message fresh. -/
def Store.found (s : Store) (i : Nat) (h : Home) (msg : IncomingMessage) : Store :=
  { s with fresh := s.fresh ++ [⟨i, h.agent, msg.messageId⟩] }

inductive Event
  /-- A call of the store of leases and conversations. -/
  | replicas (e : Replicas.Event)
  | handleOwned (h : Home) (msgs : List IncomingMessage)
  | handle (h : Home) (msgs : List IncomingMessage)
  | claimed (i : Nat)
  /-- The messages call `i` forwards reach the flow of `replica`. -/
  | taken (i : Nat) (replica : String)
  | forwarded (i : Nat) (outcome : TurnOutcome)
  | forwardFailed (i : Nat)
  | mark (i : Nat)
  | notAdmitted (i : Nat)
  | turn (i : Nat)
  | ended (i : Nat) (outcome : TurnOutcome)
  | raised (i : Nat)
  /-- The mark call `i` waits for is made, and the call raises. -/
  | unanswered (i : Nat)
  | prune (before : Time)
  | drop (i : Nat)
  deriving DecidableEq

/-- `OwnedFlow.handle_batch`. -/
def handleOwned (b : Backend) (D : Deployment) (s : State) (h : Home)
    (msgs : List IncomingMessage) : Option State :=
  msgs.getLast?.map fun anchor =>
    { s with store := s.store.claim b (claimArgs D h anchor) }.start
      ⟨h, .claiming msgs (claimArgs D h anchor) s.store.claimsMade⟩

/-- The next statement of the loop of marks. -/
def Call.mark (b : Backend) (c : Call) (i : Nat) (s : Store) : Option (Store × Point) :=
  match c.point with
  | .dating fresh msg rest => some (s, .marking fresh msg rest s.nowIso)
  | .marking fresh msg rest now =>
    some <| match s.markProcessed b c.home.agent msg.messageId now with
      | (true, s') => (s'.found i c.home msg, Flows.mark (fresh ++ [msg]) rest)
      | (false, s') => (s', Flows.mark fresh rest)
  | _ => none

/-- What call `i`, at `c`, does at the event `e`. -/
def Call.next (b : Backend) (c : Call) (i : Nat) (s : Store) : Event → Option (Store × Point)
  | .claimed _ => c.point.answered b s
  | .forwarded _ outcome =>
    match c.point with
    | .forwarding .. => some (s, .returned outcome)
    | _ => none
  | .forwardFailed _ =>
    match c.point with
    | .forwarding msgs a _ => some (s.claim b (takeOver a), .notTaken msgs s.claimsMade)
    | _ => none
  | .mark _ => c.mark b i s
  | .notAdmitted _ =>
    match c.point with
    | .preparing _ => some (s, .returned .notAdmitted)
    | _ => none
  | .turn _ =>
    match c.point with
    | .preparing fresh =>
      some ({ s with turns := s.turns ++ [⟨i, c.home.agent, fresh⟩] }, .running fresh)
    | _ => none
  | .ended _ outcome =>
    match c.point with
    | .running _ => some (s, .returned outcome)
    | _ => none
  | .raised _ =>
    match c.point with
    | .returned _ | .raised => none
    | _ => some (s, .raised)
  | .unanswered _ =>
    match c.point with
    | .marking _ msg _ now =>
      some ((s.markProcessed b c.home.agent msg.messageId now).2, .raised)
    | _ => none
  | _ => none

/-- Call `i` goes on. -/
def onCall (b : Backend) (s : State) (i : Nat) (e : Event) : Option State :=
  match s.calls[i]? with
  | some (some c) => (c.next b i s.store e).map fun q => s.put i q.1 ⟨c.home, q.2⟩
  | _ => none

def next (b : Backend) (D : Deployment) (s : State) : Event → Option State
  | .replicas e =>
    (Replicas.next b s.store.claims e).map fun claims =>
      { s with store := { s.store with claims } }
  | .handleOwned h msgs => handleOwned b D s h msgs
  | .handle h msgs => some (s.start ⟨h, mark [] msgs⟩)
  | .taken i replica =>
    match s.calls[i]? with
    | some (some ⟨h, .forwarding msgs _ _⟩) => handleOwned b D s ⟨h.agent, replica⟩ msgs
    | _ => none
  | .prune before => some { s with store := s.store.pruneProcessed before }
  | .drop i => some (s.kill i)
  | .claimed i => onCall b s i (.claimed i)
  | .forwarded i outcome => onCall b s i (.forwarded i outcome)
  | .forwardFailed i => onCall b s i (.forwardFailed i)
  | .mark i => onCall b s i (.mark i)
  | .notAdmitted i => onCall b s i (.notAdmitted i)
  | .turn i => onCall b s i (.turn i)
  | .ended i outcome => onCall b s i (.ended i outcome)
  | .raised i => onCall b s i (.raised i)
  | .unanswered i => onCall b s i (.unanswered i)

/-- The calls, over a database of whatever marks. -/
def lts (b : Backend) (D : Deployment) : Lts State Event where
  init s := (Replicas.lts b).init s.store.claims ∧ s.store.fresh = [] ∧ s.store.turns = [] ∧
    s.calls = []
  next := next b D

end Flows
