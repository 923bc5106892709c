import ImpiAgent.Gateways.Internal
import ImpiAgent.Lib.Lts
import ImpiAgent.Lib.Text

/-!
# The record of a turn's tool calls

`TurnCalls` collects the calls of one turn from the runtime's events; `encodeCalls` and
`decodeCalls` are the record the store keeps, as the value its JSON holds. `dumps` is the compact
JSON of a call's arguments, and a float is its `repr`.

`system` feeds events to the record and keeps beside it what they tell of each call (`Seen`). A
`ToolFinished` or `CallAwaiting` is some call's, which the event itself need not say; a label does
(`of`).
-/

namespace Traces

open Json Internal

/-- `ARGS_STORED_MAX`. -/
def argsStoredMax : Nat := 8000

/-- `CALL_OK`. -/
def callOk : String := "ok"

/-- `CALL_FAILED`. -/
def callFailed : String := "failed"

/-- `CALL_UNFINISHED`. -/
def callUnfinished : String := "unfinished"

structure Call where
  index : Nat
  callId : String
  tool : String
  args : String
  cut : Nat
  state : String
  durationS : String
  caption : String
  remark : String
  deriving DecidableEq

/-- `==` of two lists of calls; `nan` equals nothing. -/
def Equal (as bs : List Call) : Prop := as = bs ∧ ∀ c ∈ as, c.durationS ≠ "nan"

/-! ## The record as JSON -/

/-- `asdict`. -/
def asdict (c : Call) : PyValue :=
  record [("index", .int c.index), ("call_id", .str c.callId), ("tool", .str c.tool),
    ("args", .str c.args), ("cut", .int c.cut), ("state", .str c.state),
    ("duration_s", .float c.durationS), ("caption", .str c.caption), ("remark", .str c.remark)]

def encodeCalls (calls : List Call) : PyValue := .list (calls.map asdict)

def count : PyValue → Option Nat
  | .int (.ofNat n) => some n
  | _ => none

def text : PyValue → Option String
  | .str s => some s
  | _ => none

def seconds : PyValue → Option String
  | .float r => some r
  | _ => none

def fields : List String :=
  ["index", "call_id", "tool", "args", "cut", "state", "duration_s", "caption", "remark"]

/-- `Call(**item)`, of an item whose values are of the types `Call` declares. -/
def callOf (item : PyValue) : Option Call := do
  guard ((← dict item).all fun x => (fields.map Key.str).contains x.1)
  return {
    index := ← count (← get "index" item)
    callId := ← text (← get "call_id" item)
    tool := ← text (← get "tool" item)
    args := ← text (getD "args" (.str "\x7b\x7d") item)
    cut := ← count (getD "cut" (.int 0) item)
    state := ← text (getD "state" (.str callUnfinished) item)
    durationS := ← seconds (getD "duration_s" (.float "0.0") item)
    caption := ← text (getD "caption" (.str "") item)
    remark := ← text (getD "remark" (.str "") item) }

def decodeCalls : PyValue → List Call
  | .list items => (items.mapM callOf).getD []
  | _ => []

/-! ## Collecting the calls -/

inductive Event (Args : Type)
  | toolStarted (callId tool : String) (args : Args) (caption : String)
  | toolFinished (callId : String) (isError : Bool) (durationS : String)
  | textProgress (text : String)
  | callAwaiting (tool : String)

structure TurnCalls where
  calls : List Call := []
  /-- `_open`: of each call still running, under its id, the index. -/
  opened : List (String × Nat) := []
  /-- `_awaiting`. -/
  waits : Option Nat := none
  remark : String := ""

variable {Args : Type} (dumps : Args → String)

namespace TurnCalls

/-- `awaiting`. -/
def awaiting (s : TurnCalls) : Option Call := s.waits.bind fun i => s.calls[i]?

/-- The running calls of a tool, as `_open` has them. -/
def waiting (s : TurnCalls) (tool : String) : List Nat :=
  (s.opened.map Prod.snd).filter fun i => (s.calls[i]?).any (·.tool = tool)

/-- A call that starts. -/
def begun (s : TurnCalls) (callId tool : String) (args : Args) (caption : String) : Call where
  index := s.calls.length
  callId := callId
  tool := tool
  args := .ofList ((dumps args).toList.take argsStoredMax)
  cut := if argsStoredMax < (dumps args).length then (dumps args).length else 0
  state := callUnfinished
  durationS := "0.0"
  caption := caption
  remark := s.remark

/-- `call.state` and `call.duration_s` of a call that finished. -/
def finished (isError : Bool) (durationS : String) (c : Call) : Call :=
  { c with state := if isError then callFailed else callOk, durationS }

/-- `on_event`, and whether it says the event changed anything. -/
def onEvent (s : TurnCalls) : Event Args → TurnCalls × Bool
  | .toolStarted callId tool args caption =>
    ({ s with
        calls := s.calls ++ [s.begun dumps callId tool args caption]
        opened := Dict.assign callId s.calls.length s.opened
        remark := "" }, true)
  | .textProgress text =>
    (if Text.strip text ≠ "" then { s with remark := Text.strip text } else s, !s.calls.isEmpty)
  | .toolFinished callId isError durationS =>
    match s.opened.lookup callId with
    | none => (s, false)
    | some i =>
      ({ s with
          calls := s.calls.modify i (finished isError durationS)
          opened := Dict.remove callId s.opened
          waits := if s.waits = some i then none else s.waits }, !s.calls.isEmpty)
  | .callAwaiting tool =>
    match (s.waiting tool).getLast? with
    | none => (s, false)
    | some i => ({ s with waits := some i }, !s.calls.isEmpty)

end TurnCalls

/-! ## The events of a turn -/

/-- What the events tell of a call. -/
structure Seen (Args : Type) where
  callId : String
  tool : String
  args : Args
  caption : String
  /-- The remarks between the call before and this one. -/
  remarks : List String
  /-- Whether it ended in an error, and how long it took. -/
  ended : Option (Bool × String) := none
  /-- Whether it was put to the person. -/
  put : Bool := false

structure Turn (Args : Type) where
  code : TurnCalls := {}
  seen : List (Seen Args) := []
  /-- The remarks since the last call. -/
  said : List String := []

/-- An event, and the call a `ToolFinished` or `CallAwaiting` is about, by its place among the calls
of the turn (`none` where it is none of them). -/
structure Label (Args : Type) where
  event : Event Args
  of : Option Nat := none

def Seen.runs (x : Seen Args) : Bool := x.ended.isNone

/-- What is told after an event; `none` where the call it is about is not running, or is no such
call. -/
def tell (s : Turn Args) (l : Label Args) : Option (List (Seen Args) × List String) :=
  match l.event with
  | .toolStarted callId tool args caption =>
    some (s.seen ++ [{ callId, tool, args, caption, remarks := s.said }], [])
  | .textProgress text =>
    some (s.seen, if Text.strip text ≠ "" then s.said ++ [Text.strip text] else s.said)
  | .toolFinished callId isError durationS =>
    match l.of with
    | none => some (s.seen, s.said)
    | some j =>
      if (s.seen[j]?).any fun x => x.runs ∧ x.callId = callId then
        some (s.seen.modify j fun x => { x with ended := some (isError, durationS) }, s.said)
      else none
  | .callAwaiting tool =>
    match l.of with
    | none => some (s.seen, s.said)
    | some j =>
      if (s.seen[j]?).any fun x => x.runs ∧ x.tool = tool then
        some (s.seen.modify j fun x => { x with put := true }, s.said)
      else none

def next (s : Turn Args) (l : Label Args) : Option (Turn Args) :=
  (tell s l).map fun t => ⟨(s.code.onEvent dumps l.event).1, t.1, t.2⟩

def system : Lts (Turn Args) (Label Args) := ⟨(· = {}), next dumps⟩

end Traces
