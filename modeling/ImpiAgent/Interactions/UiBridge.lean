import ImpiAgent.Lib.Dict
import ImpiAgent.Lib.Lts

/-!
# Questions a turn waits on

`WidgetUiBridge.request` and the registry of the questions that are out. A request is at a `Stage`
between two awaits. Four parties move it on: the platform (`posted`, `retracted`), the people in the
conversation (`click`, `typed`), the timer of `wait_for`, and whoever cancels the asking turn.

A future that is settled, or a cancellation, only schedules the request's task: between that and its
`wake` the others may still act. A cancellation that meets the task at an await raises there; where
the timer and another cancellation both reach it, `wait_for` lets the other one through.
-/

namespace UiBridge

structure UiRequest where
  method : String
  options : List String

structure UiOutcome where
  value : Option String := none
  confirmed : Option Bool := none
  cancelled : Bool := false
  deriving DecidableEq

/-- `UiOutcome(cancelled=True)`. -/
def declined : UiOutcome := { cancelled := true }

/-- `CONFIRM_YES`. -/
def confirmYes : String := "Allow"

def expiredMessage : String := "⌛ This request expired — no answer in time."

def cancelledMessage : String := "This request was cancelled."

inductive Future
  | pending
  | result (outcome : UiOutcome)
  | cancelled
  deriving DecidableEq

/-- Where a request is; it ended with an outcome, or raised. -/
inductive Stage
  | reading
  | posting
  | waiting
  | retracting (outcome : UiOutcome) (text : String)
  | ended (outcome : Option UiOutcome)
  deriving DecidableEq

structure Request where
  req : UiRequest
  stage : Stage := .reading
  token : Option String := none
  future : Future := .pending
  /-- The timer has fired. -/
  timedOut : Bool := false
  /-- The asking turn was cancelled. -/
  cancelled : Bool := false
  /-- The message with the buttons was posted. -/
  shown : Bool := false
  /-- What its buttons were replaced with. -/
  retracted : Option String := none

def Request.isEnded (r : Request) : Bool :=
  match r.stage with
  | .ended _ => true
  | _ => false

/-- `_Pending`; the future is that of the request with this index. -/
structure Pending where
  request : Nat
  method : String
  agent : String
  conversationId : String

/-- A click, what `resolve` returned, and whether the request had ended. -/
structure Click where
  token : String
  value : String
  taken : Bool
  late : Bool

structure State where
  byToken : List (String × Pending) := []
  reqs : List Request := []
  clicks : List Click := []

/-! ## The registry -/

/-- What a click on `value` answers. -/
def answer (method value : String) : UiOutcome :=
  if method = "confirm" then { confirmed := some (value = confirmYes) } else { value := some value }

/-- The `i`th request is now `r`. -/
def State.put (s : State) (i : Nat) (r : Request) : State := { s with reqs := s.reqs.set i r }

/-- `discard`. -/
def State.discard (s : State) (token : String) : State :=
  { s with byToken := Dict.remove token s.byToken }

/-- Takes a token out, and settles its future where that is not done; whether it was not. -/
def State.settle (s : State) (token : String) (outcome : Pending → UiOutcome) : State × Bool :=
  match s.byToken.lookup token with
  | none => (s, false)
  | some p =>
    match s.reqs[p.request]? with
    | none => (s.discard token, false)
    | some r =>
      if r.future = .pending then
        ((s.discard token).put p.request { r with future := .result (outcome p) }, true)
      else (s.discard token, false)

def State.resolve (s : State) (token value : String) : State × Bool :=
  s.settle token fun p => answer p.method value

/-- The tokens of the questions out in a conversation. -/
def State.hit (s : State) (agent conversationId : String) : List String :=
  (s.byToken.filter fun x => x.2.agent = agent ∧ x.2.conversationId = conversationId).map Prod.fst

def State.cancelForConversation (s : State) (agent conversationId : String) : State :=
  (s.hit agent conversationId).foldl (fun s token => (s.settle token fun _ => declined).1) s

/-! ## A request -/

/-- `_build_actions` builds any. -/
def renders (req : UiRequest) : Bool :=
  req.method = "confirm" || req.method = "select" && !req.options.isEmpty

/-- `wait_for` returned, or it has to wait. -/
def Request.conclude (r : Request) : Request :=
  match r.future with
  | .pending => { r with stage := .waiting }
  | .cancelled => { r with stage := .ended none }
  | .result o =>
    if o.cancelled then { r with stage := .retracting o cancelledMessage }
    else { r with stage := .ended (some o) }

/-- What a cancellation does to the future its task awaits. -/
def Request.interrupt (r : Request) : Request :=
  if r.stage = .waiting ∧ r.future = .pending then { r with future := .cancelled } else r

inductive Label
  | request (req : UiRequest)
  /-- The agent and the conversation of the session, if it and a poster are found, and the token
  that is minted then. -/
  | found (i : Nat) (place : Option (String × String)) (token : String)
  /-- The session cannot be read. -/
  | unread (i : Nat)
  /-- The platform took the message or refused it, and whether it shows it. -/
  | posted (i : Nat) (ok shown : Bool)
  | timeout (i : Nat)
  | cancel (i : Nat)
  | wake (i : Nat)
  | retracted (i : Nat) (ok : Bool)
  | click (token value : String)
  | typed (agent conversationId : String)

/-- The request's own `discard`. -/
def State.drop (s : State) (r : Request) : State := r.token.elim s s.discard

/-- `request`, up to the post; no token is minted twice. -/
def State.find (s : State) (i : Nat) (r : Request) (place : Option (String × String))
    (token : String) : Option State :=
  if r.cancelled then some (s.put i { r with stage := .ended none })
  else match place with
  | none => some (s.put i { r with stage := .ended (some declined) })
  | some (agent, conversationId) =>
    if !renders r.req then some (s.put i { r with stage := .ended (some declined) })
    else if s.reqs.any fun r => r.token = some token then none
    else
      let s := s.put i { r with stage := .posting, token := some token }
      some { s with
        byToken := Dict.assign token ⟨i, r.req.method, agent, conversationId⟩ s.byToken }

def State.post (s : State) (i : Nat) (r : Request) (ok shown : Bool) : State :=
  let r := { r with shown }
  if r.cancelled then s.put i { r with stage := .ended none }
  else if ok then s.put i r.conclude
  else (s.drop r).put i { r with stage := .ended (some declined) }

def State.wake (s : State) (i : Nat) (r : Request) : State :=
  if r.cancelled then s.put i { r with stage := .ended none }
  else if r.timedOut then
    (s.drop r).put i { r with stage := .retracting declined expiredMessage }
  else s.put i r.conclude

def State.clicked (s : State) (token value : String) : State :=
  let (s', taken) := s.resolve token value
  { s' with clicks := s'.clicks ++
      [⟨token, value, taken, s.reqs.any fun r => r.token = some token ∧ r.isEnded⟩] }

def next (s : State) : Label → Option State
  | .request req => some { s with reqs := s.reqs ++ [{ req }] }
  | .found i place token =>
    (s.reqs[i]?).bind fun r => if r.stage = .reading then s.find i r place token else none
  | .unread i => (s.reqs[i]?).bind fun r =>
    if r.stage = .reading then some (s.put i { r with stage := .ended none }) else none
  | .posted i ok shown => (s.reqs[i]?).bind fun r =>
    if r.stage = .posting ∧ (ok → shown) then some (s.post i r ok shown) else none
  | .timeout i => (s.reqs[i]?).bind fun r =>
    if r.stage = .waiting then some (s.put i { r.interrupt with timedOut := true }) else none
  | .cancel i => (s.reqs[i]?).bind fun r =>
    if !r.isEnded then some (s.put i { r.interrupt with cancelled := true }) else none
  | .wake i => (s.reqs[i]?).bind fun r =>
    if r.stage = .waiting ∧ r.future ≠ .pending then some (s.wake i r) else none
  | .retracted i ok => (s.reqs[i]?).bind fun r =>
    match r.stage with
    | .retracting outcome text =>
      some (s.put i { r with
        stage := .ended (if r.cancelled then none else some outcome)
        retracted := if ok then some text else none })
    | _ => none
  | .click token value => some (s.clicked token value)
  | .typed agent conversationId => some (s.cancelForConversation agent conversationId)

def system : Lts State Label := ⟨(· = {}), next⟩

end UiBridge
