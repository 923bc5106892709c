import ImpiAgent.Tools.Wiring
import ImpiAgent.Approvals.Pending
import ImpiAgent.Lib.Prog

/-!
# A call at the tool server

`ToolServer._serve`, with the gate that asks a person (`ToolGate.confirm`) and what they await. What
the server shares with the rest of the engine is read by a call as well: the allowlists, the proofs,
the turns, and what the gateways can do are whatever they are at that moment. A call is answered by
whoever is on its other side, or raises.

What is drawn at random (`Draws`) is the caller's; the times of rows and of cards are left out, and
so are the clients and services a tool is handed.
-/

namespace ToolServer

open Approvals Prog Tools

/-! ## Tools and conversations -/

/-- A tool, as the server needs it too. `describing`: it says itself what a call would do. -/
structure ServedTool extends Tool where
  displayName : String
  grantable : Bool
  describing : Bool
  deriving DecidableEq

/-- What a tool still has to find at the conversation's gateway. -/
def ServedTool.needs (t : ServedTool) : Finset String :=
  t.requires ∪ if t.requiresConfirmation then {capConfirmation} else ∅

/-- Of a `SessionConversation`, what decides. -/
structure Conversation where
  channelId : String
  userId : String
  gateway : String
  conversationId : String
  deriving DecidableEq

/-- Of a `SessionRecord`, what the gate asks by; `gateways` are its addresses. -/
structure SessionRecord where
  agent : String
  conversationId : String
  gateways : List String
  lastGateway : String
  lastUserId : String

/-- Of a `TurnScope`, the attribute the gate reads; `""` where it has none. -/
structure TurnScope where
  turnId : String
  onBehalfOfGateway : String
  deriving DecidableEq

/-- A proof as the book holds it. `agent`: whose process it was issued to, which the book does not
know. -/
structure Proof where
  secret : String
  agent : String
  deriving DecidableEq

/-- A call of a tool; `args` is its JSON object. -/
structure ToolCall where
  agent : String
  tool : String
  args : String
  session : String
  conversation : Option Conversation
  turn : Option TurnScope
  deriving DecidableEq

/-- What a tool says of a call. -/
inductive Described
  | shows (preview : String)
  | cannotRun (reason : String)

/-! ## Asking a person -/

def kindTool : String := "tool"

/-- A window a person opened; times are in seconds. -/
structure ApprovalGrant where
  id : String
  kind : String
  principal : String
  scope : String
  grantedBy : String
  grantedAt : Int
  expiresAt : Int
  revoked : Bool
  deriving DecidableEq

def ApprovalGrant.live (g : ApprovalGrant) (principal scope : String) (now : Int) : Prop :=
  g.kind = kindTool ∧ g.principal = principal ∧ g.scope = scope ∧ g.revoked = false ∧
    now < g.expiresAt

instance (g : ApprovalGrant) (principal scope : String) (now : Int) :
    Decidable (g.live principal scope now) := by
  unfold ApprovalGrant.live
  infer_instance

/-- The store's windows, and the gate's clock, at an answer of the store. -/
structure Grants where
  rows : List ApprovalGrant
  now : Int

/-- `live_grant`: of the live windows the one that stays open longest. -/
def Grants.liveGrant (g : Grants) (principal scope : String) : Option ApprovalGrant :=
  ((g.rows.filter (·.live principal scope g.now)).insertionSort
    fun x y => y.expiresAt ≤ x.expiresAt).head?

inductive Decision
  | approvedOnce | approvedGrant | reusedGrant | denied | timeout | noApprover | abandoned
  deriving DecidableEq

structure ApprovalAudit where
  kind : String
  principal : String
  scope : String
  detail : String
  decision : Decision
  approver : String
  grantId : String
  requestId : String

/-- How a question ended, as its card says it. -/
inductive Closing
  | expired
  | withdrawn
  | answered (answer : Approval)

inductive Card
  | question (agent tool args displayName : String) (preview : Option String) (token : String)
      (offers : List Int)
  | closed (agent tool args displayName : String) (preview : Option String) (closing : Closing)

/-- What a task sees raised: its cancellation, which no `except Exception` catches, a `ToolError`,
and any other. -/
inductive Exc
  | cancelled
  | toolError (text : String)
  | other
  deriving DecidableEq

def Exc.isException : Exc → Bool
  | .cancelled => false
  | _ => true

inductive Call
  | allowlist (agent : String)
  | body
  | proof (session : String)
  | sessionAllowlist (session : String)
  | conversation (agent session : String)
  | turn (session : String)
  | gatewayCaps (agent gateway : String)
  | describe (call : ToolCall)
  | liveGrant (principal scope : String)
  | sessionRecord (session : String)
  | poster (agent gateway : String)
  | postConfirmation (gateway : String) (card : Card)
  | updateConfirmation (postId : String) (card : Card)
  | setWaiting (gateway : String) (waiting : Bool)
  | place (session : String)
  | wait (token : String) (entry : Pending)
  | createGrant (grant : ApprovalGrant)
  | recordDecision (row : ApprovalAudit)
  | closing
  | execute (call : ToolCall)

/-- What the wait for an answer saw: the other requests in the registry, and the clicks until the
card's time was up or it was answered. -/
structure Waited where
  others : Approvals.Registry
  clicks : List Click

/-- A client of a gateway; `view`: it shows the conversation. -/
structure Poster where
  view : Bool

def Reply : Call → Type
  | .allowlist _ => Option (Finset String)
  | .body => Option String
  | .proof _ => Option Proof
  | .sessionAllowlist _ => Option (Finset String)
  | .conversation .. => Option Conversation
  | .turn _ => Option TurnScope
  | .gatewayCaps .. => Option (Finset String)
  | .describe _ => Described
  | .liveGrant .. => Grants
  | .sessionRecord _ => Option SessionRecord
  | .poster .. => Option Poster
  | .postConfirmation .. => String
  | .updateConfirmation .. => Unit
  | .setWaiting .. => Unit
  | .place _ => Option String
  | .wait .. => Waited
  | .createGrant _ => Unit
  | .recordDecision _ => Unit
  | .closing => Bool
  | .execute _ => String

abbrev Serve := Prog Exc Call Reply

abbrev Seen := Step Exc Call Reply

/-- `turns`: the gate reads the scope of the turn. -/
structure ToolGate where
  approvers : List String
  maxGrantS : Int
  /-- The person behind an id at a gateway. -/
  people : String → String → String
  turns : Bool
  /-- Python's `int`, none where it raises. -/
  int : String → Option Int

structure Draws where
  requestId : String
  token : String
  grantId : String
  /-- The clock when a window is opened. -/
  openedAt : Int

/-- `try: .. except Exception`: none where that caught. -/
def tryAwait (c : Call) : Serve (Option (Reply c)) :=
  call c fun
    | .ok r => ret (some r)
    | .error e => if e.isException then ret none else raise e

/-- A call that must not cost the question: what `except Exception` catches is dropped. -/
def tell (c : Call) : Serve Unit := do
  let _ ← tryAwait c
  return ()

/-- The scope of the turn on a session, for who was given the turns. -/
def turnOf (turns : Bool) (session : String) : Serve (Option TurnScope) :=
  if turns then await (Call.turn session) else return none

def toolScope (tool session : String) : String := tool ++ "@" ++ session

inductive ConfirmOutcome
  | allowed | denied | unanswered | noApprover
  deriving DecidableEq

namespace ToolGate

variable (g : ToolGate) (d : Draws)

def grantLadder : List Int := [60, 300, 900, 3600]

def windows (ceilingS : Int) : List Int :=
  if ceilingS ≤ 0 then [] else grantLadder.filter (· ≤ ceilingS)

/-- Who may answer: those the deployment names, or the person the turn answers, or anyone. -/
def who (record : SessionRecord) (scope : Option TurnScope) : List String :=
  if g.approvers ≠ [] then g.approvers
  else if record.lastUserId ≠ "" then
    let onBehalf := scope.elim "" (·.onBehalfOfGateway)
    [g.people (if onBehalf ≠ "" then onBehalf else record.lastGateway) record.lastUserId]
  else []

/-- The gateways a question goes to that have a client. -/
def posters (agent : String) (record : SessionRecord) : Serve (List (String × Poster)) := do
  let gateways := if record.gateways = [] then [record.lastGateway]
    else record.gateways.insertionSort (· ≤ ·)
  let found ← gateways.mapM fun gateway => do
    let poster : Option Poster ← await (Call.poster agent gateway)
    return poster.map (gateway, ·)
  return found.filterMap id

/-- The copies of a card that were posted; a platform that refuses one is passed over. -/
def postAll (card : Card) (posters : List (String × Poster)) :
    Serve (List (String × Poster × String)) := do
  let posted ← posters.mapM fun x => do
    let posted ← tryAwait (Call.postConfirmation x.1 card)
    return posted.map fun postId => (x.1, x.2, postId)
  return posted.filterMap id

def rewriteAll (card : Card) (copies : List (String × Poster × String)) : Serve Unit := do
  let _ ← copies.mapM fun x =>
    if x.2.2 = "" then return () else tell (.updateConfirmation x.2.2 card)
  return ()

def setWaiting (views : List String) (waiting : Bool) : Serve Unit := do
  let _ ← views.mapM fun gateway => tell (.setWaiting gateway waiting)
  return ()

/-- What the gate asks about. -/
structure Question where
  agent : String
  tool : String
  args : String
  session : String
  preview : Option String
  displayName : String
  grantable : Bool

namespace Question

variable (q : Question)

def card (token : String) (offers : List Int) : Card :=
  .question q.agent q.tool q.args q.displayName q.preview token offers

def closed (closing : Closing) : Card :=
  .closed q.agent q.tool q.args q.displayName q.preview closing

/-- The request as the registry has it. -/
def entry (who : List String) : Pending := ⟨kindTool, q.agent, [q.tool], who⟩

end Question

/-- `_ask`: none where there is nowhere to ask. -/
def ask (q : Question) : Serve (Option Approval) := do
  let record : Option SessionRecord ← await (Call.sessionRecord q.session)
  let place : Option String ← await (Call.place q.session)
  match record with
  | none => return none
  | some record =>
    let posters ← posters q.agent record
    if posters.isEmpty then return none
    else
      let scope ← turnOf g.turns q.session
      let entry := q.entry (g.who record scope)
      let offers := if q.grantable then windows g.maxGrantS else []
      let copies ← postAll (q.card d.token offers) posters
      if copies.isEmpty then return none
      else
        let runningOn := place.getD record.lastGateway
        let views := (copies.filter fun x => x.1 = runningOn ∧ x.2.1.view).map (·.1)
        setWaiting views true
        let waited : Except Exc Waited ← attempt (Call.wait d.token entry)
        match waited with
        | .error e =>
          -- the card is retired first
          rewriteAll (q.closed .withdrawn) copies
          setWaiting views false
          raise e
        | .ok waited =>
          match (waited.others.register d.token entry).settled g.int d.token waited.clicks with
          | none =>
            rewriteAll (q.closed .expired) copies
            setWaiting views false
            return some ⟨false, 0, "", true⟩
          | some answer =>
            setWaiting views false
            rewriteAll (q.closed (.answered answer)) copies
            return some answer

/-- `_record`. -/
def record (q : Question) (decision : Decision) (approver grantId : String) : Serve Unit :=
  await (Call.recordDecision ⟨kindTool, q.agent, toolScope q.tool q.session, q.args, decision,
    approver, grantId, d.requestId⟩)

/-- `_open_window`. -/
def openWindow (q : Question) (answer : Approval) : Serve String := do
  let grant : ApprovalGrant := ⟨d.grantId, kindTool, q.agent, toolScope q.tool q.session,
    answer.approver, d.openedAt, d.openedAt + min answer.grantS g.maxGrantS, false⟩
  await (Call.createGrant grant)
  return grant.id

/-- The window that lets a call go unasked. -/
def window (q : Question) : Serve (Option ApprovalGrant) :=
  if q.grantable then do
    let grants : Grants ← await (Call.liveGrant q.agent (toolScope q.tool q.session))
    return grants.liveGrant q.agent (toolScope q.tool q.session)
  else return none

/-- `confirm`. -/
def confirm (q : Question) : Serve ConfirmOutcome := do
  match ← window q with
  | some grant =>
    record d q .reusedGrant "" grant.id
    return .allowed
  | none =>
    let answer ← (ask g d q).handle fun e => do
      if e = .cancelled then record d q .abandoned "" ""
      raise e
    match answer with
    | none =>
      record d q .noApprover "" ""
      return .noApprover
    | some answer =>
      if ¬answer.allowed then
        record d q (if answer.timedOut then .timeout else .denied) answer.approver ""
        return if answer.timedOut then .unanswered else .denied
      else if 0 < answer.grantS then
        let grantId ← openWindow g d q answer
        record d q .approvedGrant answer.approver grantId
        return .allowed
      else
        record d q .approvedOnce answer.approver ""
        return .allowed

end ToolGate

/-! ## Serving a call -/

/-- The headers of a request and the tool its path names. -/
structure Request where
  token : String
  name : String
  session : String
  proof : String

/-- `proofs`, `resolver`, `turns`: whether the server was given them. -/
structure Server where
  tokens : List (String × String)
  registry : List ServedTool
  proofs : Bool
  resolver : Bool
  turns : Bool
  gate : Option ToolGate

inductive Response
  | refused (status : Nat) (outcome error : String)
  | served (result : String) (untrusted speaksToUser : Bool)
  deriving DecidableEq

namespace Server

/-- `_agent_for_token`. -/
def agentForToken (s : Server) (presented : String) : Option String :=
  ((s.tokens.filter (·.1 = presented)).getLast?).map (·.2)

def get (s : Server) (name : String) : Option ServedTool := s.registry.find? (·.name = name)

end Server

def declinedError : String := "declined by the user"

def unansweredError : String :=
  "nobody answered the confirmation in time, so the call did not run. That is " ++
  "not a refusal: do not retry it now, but either tell the user you need their " ++
  "approval and ask them to say so when they are back, or go on with what " ++
  "does not need it"

def noApproverError : String :=
  "cannot be confirmed here: there is nobody to ask. Tell the user, and do not retry"

def cannotRunError (reason : String) : String :=
  "cannot run: " ++ reason ++ ". Tell the user what is missing; do not retry the same call"

def notInConversationError : String := "not available in this conversation"

def notThroughGatewayError : String := "not available through this gateway"

/-- The arguments of the body; what is no JSON object stands for none. -/
def bodyArgs : Serve String :=
  call Call.body fun
    | .ok args => ret (args.getD "\x7b\x7d")
    | .error e => if e.isException then ret "\x7b\x7d" else raise e

/-- `_preview_of`. -/
def previewOf (tool : ServedTool) (c : ToolCall) : Serve (Option Described) :=
  if tool.describing then tryAwait (Call.describe c) else return none

/-- The confirmation a tool declares: the refusal it ends in, or none where the call goes ahead. -/
def confirmed (s : Server) (d : Draws) (tool : ServedTool) (c : ToolCall) :
    Serve (Option Response) := do
  match s.gate with
  | none => return some (.refused 403 "unconfirmable" "cannot be confirmed here")
  | some gate =>
    match ← previewOf tool c with
    | some (.cannotRun reason) => return some (.refused 403 "cannot_run" (cannotRunError reason))
    | preview =>
      let shown := preview.bind fun
        | .shows preview => some preview
        | .cannotRun _ => none
      match ← gate.confirm d
        ⟨c.agent, c.tool, c.args, c.session, shown, tool.displayName, tool.grantable⟩ with
      | .denied => return some (.refused 403 "denied" declinedError)
      | .unanswered => return some (.refused 403 "unanswered" unansweredError)
      | .noApprover => return some (.refused 403 "no_approver" noApproverError)
      | .allowed =>
        let closing : Bool ← await Call.closing
        if closing then return some (.refused 403 "abandoned" "abandoned by the caller")
        else return none

def run (tool : ServedTool) (c : ToolCall) : Serve Response :=
  call (Call.execute c) fun
    | .ok result => ret (.served result tool.returnsUntrusted tool.speaksToUser)
    | .error (.toolError text) => ret (.refused 400 "error" text)
    | .error .other => ret (.refused 500 "crashed" "internal tool error")
    | .error .cancelled => raise .cancelled

/-- The set of a conversation, if one is set; a call that names no session has none. -/
def sessionSet (session : String) : Serve (Option (Finset String)) :=
  if session ≠ "" then await (Call.sessionAllowlist session) else return none

def Server.conversationOf (s : Server) (agent session : String) : Serve (Option Conversation) :=
  if s.resolver ∧ session ≠ "" then await (Call.conversation agent session) else return none

/-- From where the session is believed: what the conversation and its gateway let through. -/
def serveIn (s : Server) (d : Draws) (r : Request) (agent : String) (tool : ServedTool)
    (args : String) : Serve Response := do
  let own ← sessionSet r.session
  if own.any (r.name ∉ ·) then
    return .refused 403 "not_in_conversation" notInConversationError
  else
    let conversation ← s.conversationOf agent r.session
    let turn ← turnOf s.turns r.session
    let gateway := conversation.elim "" (·.gateway)
    let caps : Option (Finset String) ← await (Call.gatewayCaps agent gateway)
    if caps.any fun caps => tool.needs \ caps ≠ ∅ then
      return .refused 403 "not_through_gateway" notThroughGatewayError
    else
      let c : ToolCall := ⟨agent, r.name, args, r.session, conversation, turn⟩
      if tool.requiresConfirmation then
        match ← confirmed s d tool c with
        | some refusal => return refusal
        | none => run tool c
      else run tool c

/-- `_serve`. -/
def serve (s : Server) (d : Draws) (r : Request) : Serve Response := do
  match s.agentForToken r.token with
  | none => return .refused 401 "unauthorized" "unauthorized"
  | some agent =>
    match s.get r.name with
    | none => return .refused 404 "unknown_tool" "unknown tool"
    | some tool =>
      let allowed : Option (Finset String) ← await (Call.allowlist agent)
      if r.name ∉ allowed.getD ∅ then return .refused 403 "not_allowed" "forbidden"
      else
        let args ← bodyArgs
        if s.proofs ∧ r.session = "" then return .refused 403 "no_session" "session required"
        else if s.proofs then
          let proof : Option Proof ← await (Call.proof r.session)
          if proof.all (·.secret ≠ r.proof) then
            return .refused 403 "no_session" "session not proven"
          else serveIn s d r agent tool args
        else serveIn s d r agent tool args

/-! ## What lets a call through -/

/-- The tool runs. -/
def Runs : Call → Prop
  | .execute _ => True
  | _ => False

/-- A window was open for the tool in this conversation, or someone the card of this call was
addressed to allowed it. -/
inductive Confirmed (g : ToolGate) (d : Draws) (tool : ServedTool) (c : ToolCall)
    (seen : List Seen) : Prop
  | window {grants : Grants} {grant : ApprovalGrant} :
      tool.grantable = true →
      (⟨.liveGrant c.agent (toolScope c.tool c.session), .ok grants⟩ : Seen) ∈ seen →
      grant ∈ grants.rows → grant.live c.agent (toolScope c.tool c.session) grants.now →
      Confirmed g d tool c seen
  | answer {record : SessionRecord} {scope : Option TurnScope} {gateway postId : String}
      {preview : Option String} {offers : List Int} {waited : Waited} {click : Click} :
      (⟨.sessionRecord c.session, .ok (some record)⟩ : Seen) ∈ seen →
      (g.turns = true → (⟨.turn c.session, .ok scope⟩ : Seen) ∈ seen) →
      (⟨.postConfirmation gateway
        (.question c.agent c.tool c.args tool.displayName preview d.token offers),
        .ok postId⟩ : Seen) ∈ seen →
      (⟨.wait d.token ⟨kindTool, c.agent, [c.tool], g.who record scope⟩, .ok waited⟩ : Seen) ∈
        seen →
      click ∈ waited.clicks → click.token = d.token →
      (g.who record scope = [] ∨ click.user ∈ g.who record scope) →
      (Approvals.decide g.int click.value click.user).allowed = true →
      Confirmed g d tool c seen

/-- What the server has found by the time a tool runs. -/
structure Admitted (s : Server) (d : Draws) (r : Request) (c : ToolCall) (seen : List Seen) :
    Prop where
  agent : s.agentForToken r.token = some c.agent
  asked : c.tool = r.name ∧ c.session = r.session
  allowed : ∃ allowed, (⟨.allowlist c.agent, .ok (some allowed)⟩ : Seen) ∈ seen ∧ c.tool ∈ allowed
  proven : s.proofs = true → c.session ≠ "" ∧
    ∃ p : Proof, (⟨.proof c.session, .ok (some p)⟩ : Seen) ∈ seen ∧ p.secret = r.proof
  inSession : c.session ≠ "" → ∃ set : Option (Finset String),
    (⟨.sessionAllowlist c.session, .ok set⟩ : Seen) ∈ seen ∧ ∀ names ∈ set, c.tool ∈ names
  tool : ∃ tool, s.get c.tool = some tool ∧
    (∃ caps : Option (Finset String),
      (⟨.gatewayCaps c.agent (c.conversation.elim "" (·.gateway)), .ok caps⟩ : Seen) ∈ seen ∧
        ∀ names ∈ caps, tool.needs ⊆ names) ∧
    (tool.requiresConfirmation = true → ∃ g, s.gate = some g ∧ Confirmed g d tool c seen)

end ToolServer
