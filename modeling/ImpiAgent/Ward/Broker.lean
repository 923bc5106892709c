import ImpiAgent.Approvals.Pending
import ImpiAgent.Lib.Prog
import ImpiAgent.Ward.Policy
import Mathlib.Data.List.Sort

/-!
# The secret broker

`SecretBroker.lease` and what it awaits. A call is answered by whoever is on its other side (the
stores, the backend, the chat platform, the people who click), or raises what the code may see there:
its task's cancellation, a `SecretBackendError`, any other exception. Of the broker's own state only
the folded notices are shared between leases; they are read by a call as well.

What is drawn at random (`Draws`) is the caller's; the times of rows are left out.
-/

namespace Ward

open Approvals Prog

structure SecretRef where
  name : String
  field : String
  deriving DecidableEq

def SecretRef.str (ref : SecretRef) : String :=
  "vault://" ++ ref.name ++ if ref.field ≠ "value" then "#" ++ ref.field else ""

structure LeaseRequest where
  agent : String
  bindings : List (String × SecretRef)
  reason : String
  command : List String

/-- `tuple(dict.fromkeys(l))`. -/
def fromKeys (l : List String) : List String := (Dict.ofPairs (l.map (·, ()))).map Prod.fst

/-- The distinct secret names asked for, in the order first requested. -/
def LeaseRequest.names (r : LeaseRequest) : List String := fromKeys (r.bindings.map (·.2.name))

def LeaseRequest.references (r : LeaseRequest) : List String :=
  fromKeys (r.bindings.map (·.2.str))

structure LeaseResult where
  granted : Bool
  decision : Decision
  values : List (String × String)
  deriving DecidableEq

structure BackendStatus where
  reachable : Bool
  sealed : Bool
  authenticated : Bool

def BackendStatus.usable (s : BackendStatus) : Bool := s.reachable && !s.sealed && s.authenticated

def BackendStatus.unusable (s : BackendStatus) : Decision :=
  if ¬s.reachable then .backendError else if s.sealed then .sealed else .locked

def kindSecret : String := "secret"

/-- A window a person opened; times are in seconds. -/
structure ApprovalGrant where
  id : String
  kind : String
  principal : String
  scope : String
  grantedBy : String
  grantedAt : Int
  expiresAt : Int
  revoked : Bool

/-- The store's windows, and its clock, at one of its answers. -/
structure Grants where
  rows : List ApprovalGrant
  now : Int

def ApprovalGrant.live (g : ApprovalGrant) (principal scope : String) (now : Int) : Bool :=
  g.kind = kindSecret ∧ g.principal = principal ∧ g.scope = scope ∧ g.revoked = false ∧
    now < g.expiresAt

/-- `live_grant`: of the live windows the one that stays open longest. -/
def Grants.liveGrant (g : Grants) (principal scope : String) : Option ApprovalGrant :=
  (g.rows.filter (·.live principal scope g.now)).foldl (fun best x =>
    match best with
    | none => some x
    | some y => if y.expiresAt < x.expiresAt then some x else some y) none

/-- A ledger row; a decision the code never set is none, its `""`. -/
structure ApprovalAudit where
  kind : String
  principal : String
  scope : String
  reason : String
  command : List String
  decision : Option Decision
  approver : String
  grantId : String
  requestId : String
  deriving DecidableEq

def ApprovalAudit.granted (row : ApprovalAudit) : Bool := row.decision.any Decision.granted

/-- What is posted: the question, the answered question, and the notice nobody has to answer. -/
inductive Card
  | approval (agent : String) (references : List String) (reason : String) (command : List String)
      (token : String) (offers : List Int)
  | verdict (agent : String) (references command : List String) (answer : Option Approval)
  | notice (agent : String) (references command rules : List String) (repeats : Nat)

structure Folded where
  postId : String
  repeats : Nat
  «until» : Int

/-- What a task sees raised: its cancellation, which no `except Exception` catches, the backend's own
error, and any other. -/
inductive Exc
  | cancelled
  | backend (sealed : Bool)
  | other
  deriving DecidableEq

def Exc.isException : Exc → Bool
  | .cancelled => false
  | _ => true

inductive Call
  | getPolicy (name : String)
  | status
  | liveGrant (principal scope : String)
  | approvers
  | poster (agent : String)
  | openDirect (user : String)
  | postConfirmation (channel : String) (card : Card)
  | updateConfirmation (postId : String) (card : Card)
  | wait (token : String) (entry : Pending)
  | createGrant (grant : ApprovalGrant)
  | read (ref : SecretRef)
  | recordDecision (row : ApprovalAudit)
  | notices (agent : String) (names : List String)
  | fold (agent : String) (names : List String) (folded : Folded)

/-- What the wait for an answer saw: the other requests in the registry, and the clicks until the
card's time was up or it was answered. -/
structure Waited where
  others : Registry
  clicks : List Click

/-- A row that was written: a task cancelled while the store's thread writes does not undo it. -/
inductive Wrote
  | done
  | butRaised (e : Exc)

def Reply : Call → Type
  | .getPolicy _ => Option SecretPolicyRecord
  | .status => BackendStatus
  | .liveGrant .. => Grants
  | .approvers => List String
  | .poster _ => Bool
  | .openDirect _ => String
  | .postConfirmation .. => String
  | .updateConfirmation .. => Unit
  | .wait .. => Waited
  | .createGrant _ => Unit
  | .read _ => String
  | .recordDecision _ => Wrote
  | .notices .. => Option Folded × Int
  | .fold .. => Unit

abbrev Lease := Prog Exc Call Reply

structure Broker where
  /-- The agents with a `ChatAdmin`. -/
  admins : List String
  approvalChannel : String
  maxGrantS : Int
  noticeFoldS : Int
  /-- Python's `int`, none where it raises. -/
  int : String → Option Int

structure Draws where
  requestId : String
  token : String
  grantId : String → String
  /-- The clock when the window for a name is opened. -/
  openedAt : String → Int

/-- `try: .. except Exception`: none where that caught. -/
def tryAwait (c : Call) : Lease (Option (Reply c)) :=
  call c fun
    | .ok r => ret (some r)
    | .error e => if e.isException then ret none else raise e

/-! ## Asking -/

def grantLadder : List Int := [60, 300, 900, 3600]

def windows (ceilingS : Int) : List Int :=
  if ceilingS ≤ 0 then [] else grantLadder.filter (· ≤ ceilingS)

/-- The first of the approvers whose direct conversation opens. -/
def openFirst : List String → Lease String
  | [] => return ""
  | user :: users => do
    let channel : String ← await (Call.openDirect user)
    if channel ≠ "" then return channel else openFirst users

def approvalConversation (b : Broker) (agent : String) (approvers : List String) : Lease String :=
  if b.approvalChannel ≠ "" then return b.approvalChannel
  else if ¬b.admins.contains agent then return ""
  else openFirst (approvers.insertionSort (· ≤ ·))

def rewrite (postId : String) (card : Card) : Lease Unit :=
  if postId = "" then return ()
  else do
    let _ ← tryAwait (Call.updateConfirmation postId card)
    return ()

def maxReason : Nat := 200

def LeaseRequest.shortReason (r : LeaseRequest) : String := .ofList (r.reason.toList.take maxReason)

/-- `_ask`: none where there was nobody to put the request in front of. -/
def ask (b : Broker) (d : Draws) (r : LeaseRequest) (ceilingS : Int) : Lease (Option Approval) := do
  let approvers : List String ← await Call.approvers
  let poster : Bool ← await (Call.poster r.agent)
  if approvers.isEmpty ∨ ¬poster then return none
  else
    let channel ← approvalConversation b r.agent approvers
    if channel = "" then return none
    else
      let entry : Pending := ⟨kindSecret, r.agent, r.names, approvers⟩
      match ← tryAwait (Call.postConfirmation channel
        (.approval r.agent r.references r.shortReason r.command d.token (windows ceilingS))) with
      | none => return none
      | some postId =>
        let waited : Waited ← await (Call.wait d.token entry)
        let answer := (waited.others.register d.token entry).settled b.int d.token waited.clicks
        rewrite postId (.verdict r.agent r.references r.command answer)
        return some (answer.getD ⟨false, 0, "", true⟩)

/-- `_open_window`. -/
def openWindow (b : Broker) (d : Draws) (agent name : String) (policy : Option SecretPolicyRecord)
    (answer : Approval) : Lease String := do
  let seconds := min answer.grantS (ceiling policy b.maxGrantS)
  let grant : ApprovalGrant := ⟨d.grantId name, kindSecret, agent, name, answer.approver,
    d.openedAt name, d.openedAt name + seconds, false⟩
  await (Call.createGrant grant)
  return grant.id

/-! ## Telling somebody -/

abbrev Verdicts := List (String × Verdict)

/-- The verdict on a name; every name has one. -/
def Verdicts.of (v : Verdicts) (name : String) : Verdict := (v.lookup name).getD ⟨.ask, none, ""⟩

/-- `_notify`: a secret was taken without anyone being asked. -/
def notify (b : Broker) (r : LeaseRequest) (verdicts : Verdicts) : Lease Unit :=
  let rules := (fromKeys ((verdicts.map (·.2.rule)).filter (· ≠ ""))).insertionSort (· ≤ ·)
  if rules.isEmpty then return ()
  else do
    let approvers : List String ← await Call.approvers
    let poster : Bool ← await (Call.poster r.agent)
    if approvers.isEmpty ∨ ¬poster then return ()
    else
      let channel ← approvalConversation b r.agent approvers
      if channel = "" then return ()
      else
        let (seen, now) ← await (Call.notices r.agent r.names)
        match seen.filter (now < ·.until) with
        | some seen =>
          let repeats := seen.repeats + 1
          match ← tryAwait (Call.updateConfirmation seen.postId
            (.notice r.agent r.references r.command rules repeats)) with
          | none => return ()
          | some _ => await (Call.fold r.agent r.names ⟨seen.postId, repeats, seen.until⟩)
        | none =>
          match ← tryAwait (Call.postConfirmation channel
            (.notice r.agent r.references r.command rules 1)) with
          | none => return ()
          | some postId => await (Call.fold r.agent r.names ⟨postId, 1, now + b.noticeFoldS⟩)

/-! ## The ledger -/

/-- The row of `_record`: the rule goes in front of the caller's own words. -/
def auditRow (d : Draws) (r : LeaseRequest) (name : String) (decision : Option Decision)
    (approver grantId rule : String) : ApprovalAudit where
  kind := kindSecret
  principal := r.agent
  scope := name
  reason := if rule ≠ "" then "rule: " ++ rule ++ " — " ++ r.shortReason else r.shortReason
  command := r.command
  decision := decision
  approver := approver
  grantId := grantId
  requestId := d.requestId

def record (row : ApprovalAudit) : Lease Unit :=
  call (Call.recordDecision row) fun
    | .ok .done => ret ()
    | .ok (.butRaised e) => raise e
    | .error e => raise e

abbrev GrantIds := List (String × String)

/-- What a refusal records of one name: what it earned itself, or what the request came to. -/
def refusedAs (verdicts : Verdicts) (governing : Decision) (name : String) : Option Decision :=
  let verdict := verdicts.of name
  if verdict.outcome = .refuse then verdict.decision
  else if governing = .noPolicy ∨ governing = .notPermitted then some .notReached
  else some governing

/-- `_refuse`. -/
def refuse (d : Draws) (r : LeaseRequest) (verdicts : Verdicts) (governing : Decision)
    (approver : String) (grantIds : GrantIds) : Lease LeaseResult := do
  r.names.forM fun name =>
    record (auditRow d r name (refusedAs verdicts governing name) approver
      ((grantIds.lookup name).getD "") "")
  return ⟨false, governing, []⟩

/-! ## The decision -/

abbrev Decisions := List (String × Option Decision)

abbrev Policies := List (String × Option SecretPolicyRecord)

abbrev Covered := List (String × Option ApprovalGrant)

/-- The window that is open for a name; none for one nobody has to be asked about. -/
def Covered.of (covered : Covered) (name : String) : Option ApprovalGrant :=
  (covered.lookup name).getD none

/-- A name's decision before anyone is asked. -/
def unasked (verdicts : Verdicts) (covered : Covered) (name : String) : Option Decision :=
  if (covered.of name).isSome then some .reusedGrant else (verdicts.of name).decision

/-- `_summarize`: the least automatic thing that happened. -/
def summarize (decisions : Decisions) : Decision :=
  ([.approvedOnce, .approvedGrant, .reusedGrant, .autoCommand, .auto].find? fun x =>
    decisions.any (·.2 = some x)).getD .auto

/-- The values of the bindings, or whether the backend that failed was sealed. -/
def readAll : List (String × SecretRef) → Lease (Except Bool (List (String × String)))
  | [] => return .ok []
  | (envName, ref) :: rest =>
    call (Call.read ref) fun
      | .error (.backend sealed) => ret (.error sealed)
      | .error e => raise e
      | .ok value => do
        let values ← readAll rest
        return values.map ((envName, value) :: ·)

/-- `lease` from where everybody who had to be asked has answered. -/
def serve (b : Broker) (d : Draws) (r : LeaseRequest) (verdicts : Verdicts)
    (uncovered : List String) (decisions : Decisions) (grantIds : GrantIds) (approver : String) :
    Lease LeaseResult := do
  match ← readAll r.bindings with
  | .error sealed =>
    refuse d r verdicts (if sealed then .sealed else .backendError) approver grantIds
  | .ok values =>
    r.names.forM fun name =>
      record (auditRow d r name ((decisions.lookup name).getD none) approver
        ((grantIds.lookup name).getD "") (verdicts.of name).rule)
    if uncovered.isEmpty then notify b r verdicts
    return ⟨true, summarize decisions, Dict.ofPairs values⟩

/-- What an answered name is recorded as, and the window it leaves. -/
def answered (b : Broker) (d : Draws) (r : LeaseRequest)
    (policies : Policies) (uncovered : List String) (answer : Approval)
    (x : Decisions × GrantIds) (name : String) : Lease (Decisions × GrantIds) :=
  if 0 < answer.grantS ∧ uncovered.contains name then do
    let grantId ← openWindow b d r.agent name ((policies.lookup name).getD none) answer
    return (Dict.assign name (some .approvedGrant) x.1, Dict.assign name grantId x.2)
  else return (Dict.assign name (some .approvedOnce) x.1, x.2)

def judge (r : LeaseRequest) (policies : Policies) : Verdicts :=
  policies.map fun x => (x.1, evaluate x.2 r.agent r.command)

def lease (b : Broker) (d : Draws) (r : LeaseRequest) : Lease LeaseResult := do
  let policies : Policies ← r.names.mapM fun name => do
    let policy : Option SecretPolicyRecord ← await (Call.getPolicy name)
    return (name, policy)
  let verdicts := judge r policies
  match (verdicts.find? (·.2.outcome = .refuse)).bind (·.2.decision) with
  | some refusal => refuse d r verdicts refusal "" []
  | none =>
    let state : BackendStatus ← await Call.status
    if ¬state.usable then refuse d r verdicts state.unusable "" []
    else
      let asking := r.names.filter fun name => (verdicts.of name).outcome = .ask
      let covered : Covered ← asking.mapM fun name => do
        let grants : Grants ← await (Call.liveGrant r.agent name)
        return (name, grants.liveGrant r.agent name)
      let uncovered := asking.filter fun name => (Covered.of covered name).isNone
      let decisions : Decisions := r.names.map fun name => (name, unasked verdicts covered name)
      let grantIds : GrantIds := covered.map fun x => (x.1, (x.2.map (·.id)).getD "")
      if uncovered.isEmpty then serve b d r verdicts uncovered decisions grantIds ""
      else
        -- the tightest of the policies to be asked about governs the whole card
        let longest := ((uncovered.map fun name =>
          ceiling ((policies.lookup name).getD none) b.maxGrantS).min?).getD 0
        match ← ask b d r longest with
        | none => refuse d r verdicts .noApprover "" []
        | some answer =>
          if ¬answer.allowed then
            refuse d r verdicts (if answer.timedOut then .timeout else .denied) answer.approver []
          else
            -- a rule's grant in a request a person answered is that person's
            let toAnswer := r.names.filter fun name =>
              (verdicts.of name).rule ≠ "" ∨ uncovered.contains name
            let (decisions, grantIds) ← toAnswer.foldlM
              (answered b d r policies uncovered answer) (decisions, grantIds)
            serve b d r verdicts uncovered decisions grantIds answer.approver

end Ward
