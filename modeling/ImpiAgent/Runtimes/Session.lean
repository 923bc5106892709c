import ImpiAgent.Lib.Lts
import ImpiAgent.Lib.Text

/-!
# One conversation with a pi process

`PiRpcSession`: the turn in flight and what `_dispatch` makes of each line the process writes, and
the calls of `run_stateful` on one session, one after another, as the lock has it. The process is
the other party: it takes or refuses the prompts written to it, runs the ones it took one at a time,
and ends each run with one `agent_settled`; what else it says and when is its own.

Lines carry no prompt but in a `response`; which run a line comes from is noted beside it, and read
by nobody. A process that is dropped is never read by a later call, so the state has the session of
the last process only. The clocks of a turn are what may fire, not when.
-/

namespace PiRpc

open Text (Str)

/-! ## What the process writes -/

structure TokenUsage where
  input : Nat
  output : Nat
  cacheRead : Nat
  cacheWrite : Nat
  total : Nat
  deriving DecidableEq

def TokenUsage.add (a b : TokenUsage) : TokenUsage :=
  ⟨a.input + b.input, a.output + b.output, a.cacheRead + b.cacheRead, a.cacheWrite + b.cacheWrite,
    a.total + b.total⟩

/-- A message of an `agent_end`, what is not there as empty. -/
structure Message where
  assistant : Bool
  text : List Str
  stopReason : Str
  errorMessage : Str
  provider : Str
  model : Str
  usage : Option TokenUsage
  deriving DecidableEq

inductive PiEvent
  | response (id : Nat) (success handled : Bool)
  | messageUpdate (completed : Option Str)
  | toolExecutionStart (tool : Option Str)
  | toolExecutionEnd
  | agentEnd (messages : List Message) (willRetry : Bool)
  | agentSettled
  | extensionUiRequest
  /-- An event nothing is made of (`agent_start`, `turn_start`). -/
  | other
  deriving DecidableEq

/-- A line, with the prompt whose run it comes from or which it answers. -/
structure Line where
  run : Nat
  event : PiEvent
  deriving DecidableEq

/-- Of a run, not about the prompt. -/
def PiEvent.ofRun : PiEvent → Bool
  | .response .. => false
  | _ => true

/-! ## What is read off an `agent_end` -/

def strip (s : Str) : Str := Text.rstrip (Text.lstrip s)

def assistantMessages (messages : List Message) : List Message := messages.filter (·.assistant)

/-- `_was_aborted`. -/
def Message.wasAborted (m : Message) (requested : Bool) : Bool :=
  m.stopReason = Text.str "aborted" ||
    requested && m.stopReason = Text.str "error" &&
      (m.errorMessage.map Char.toLower).tails.any (Text.str "aborted").isPrefixOf

def finalText (messages : List Message) : Str :=
  strip ((assistantMessages messages).flatMap (·.text)).flatten

/-- `_error_from_agent_end`. -/
def errorOf (messages : List Message) (abortRequested : Bool) : Option Str :=
  (messages.find? fun m => m.stopReason = Text.str "error" && !m.wasAborted abortRequested).map
    fun m => if m.errorMessage = [] then Text.str "unknown error" else m.errorMessage

def stopReasonOf (messages : List Message) (abortRequested : Bool) : Option Str :=
  (((assistantMessages messages).filter (·.stopReason ≠ [])).map fun m =>
    if m.wasAborted abortRequested then Text.str "aborted" else m.stopReason).getLast?

def modelOf (messages : List Message) : Str :=
  match (assistantMessages messages).getLast? with
  | some m => if m.provider ≠ [] ∧ m.model ≠ [] then m.provider ++ ['/'] ++ m.model else []
  | none => []

def usageOf (messages : List Message) : Option TokenUsage :=
  ((assistantMessages messages).filterMap (·.usage)).foldl
    (fun total one => some (total.elim one (·.add one))) none

/-! ## A turn -/

structure PiResult where
  text : Str
  toolCalls : List Str
  stopReason : Option Str
  model : Str
  truncated : Bool
  usage : Option TokenUsage
  deriving DecidableEq

/-- `turn.future`; every exception set on it is a `PiProcessError`. -/
inductive Future
  | pending
  | result (r : PiResult)
  | failed
  deriving DecidableEq

/-- `_Turn`. -/
structure Turn where
  commandId : Nat
  future : Future
  textParts : List Str
  progress : List Str
  toolCalls : List Str
  abortRequested : Bool
  lastAgentEnd : Option (List Message)
  deriving DecidableEq

namespace Turn

def fresh (id : Nat) : Turn := ⟨id, .pending, [], [], [], false, none⟩

variable (t : Turn)

def settle (f : Future) : Turn := if t.future = .pending then { t with future := f } else t

/-- `_fail_turn`. -/
def fail : Turn := t.settle .failed

/-- `_complete_turn`; `none`: an extension consumed the prompt. -/
def complete : Option (List Message) → Turn
  | none => t.settle (.result ⟨strip t.textParts.flatten, t.toolCalls, none, [], false, none⟩)
  | some messages =>
    let said := strip t.textParts.flatten
    let text := if said = [] then finalText messages else said
    if text = [] ∧ (errorOf messages t.abortRequested).isSome then t.fail
    else
      let stopReason := stopReasonOf messages t.abortRequested
      t.settle (.result ⟨if text = [] then t.progress.getLastD [] else text, t.toolCalls, stopReason,
        modelOf messages, stopReason = some (Text.str "length"), usageOf messages⟩)

/-- Text before a call is a remark on the way. -/
def remark : Turn :=
  let said := strip t.textParts.flatten
  { t with textParts := [], progress := if said = [] then t.progress else t.progress ++ [said] }

/-- `_dispatch`. -/
def dispatch : PiEvent → Turn
  | .response id success handled =>
    if id = t.commandId ∧ success = false then t.fail
    else if id = t.commandId ∧ handled then t.complete none
    else t
  | .messageUpdate completed => { t with textParts := t.textParts ++ completed.toList }
  | .toolExecutionStart tool =>
    let t := if t.textParts = [] then t else t.remark
    match tool with
    | some name => if name = [] then t else { t with toolCalls := t.toolCalls ++ [name] }
    | none => t
  | .agentEnd messages willRetry => if willRetry then t else { t with lastAgentEnd := some messages }
  | .agentSettled =>
    match t.lastAgentEnd with
    | none => t.fail
    | some messages => t.complete (some messages)
  | .toolExecutionEnd | .extensionUiRequest | .other => t

/-- `_end_or_fail`. -/
def endOrFail : Turn :=
  match t.lastAgentEnd with
  | some messages => t.complete (some messages)
  | none => t.fail

end Turn

/-- What a turn is told: a line of the process, that an abort was sent, that nothing more is read,
or of a failure on a line that came before it. -/
inductive Input
  | line (l : Line)
  | abort
  | eof
  | failed
  deriving DecidableEq

def Turn.tell (t : Turn) : Input → Turn
  | .line l => t.dispatch l.event
  | .abort => { t with abortRequested := true }
  | .eof => t.endOrFail
  | .failed => t.fail

/-! ## The process -/

/-- What has become of a prompt. -/
inductive Phase
  | unsent | written | accepted | begun | settled | refused | handled
  deriving DecidableEq

structure Process where
  phase : Nat → Phase
  running : Option Nat
  out : List Line

namespace Process

def fresh : Process := ⟨fun _ => .unsent, none, []⟩

def mark (p : Process) (n : Nat) (x : Phase) : Process :=
  { p with phase := Function.update p.phase n x }

def put (p : Process) (n : Nat) (e : PiEvent) : Process := { p with out := p.out ++ [⟨n, e⟩] }

end Process

/-- What a process does next. -/
inductive Move
  | accept (n : Nat) | refuse (n : Nat) | handle (n : Nat)
  | start (n : Nat)
  | emit (e : PiEvent)
  | settle

def Process.move (p : Process) : Move → Option Process
  | .accept n =>
    if p.phase n = .written then some ((p.mark n .accepted).put n (.response n true false)) else none
  | .refuse n =>
    if p.phase n = .written then some ((p.mark n .refused).put n (.response n false false)) else none
  | .handle n =>
    if p.phase n = .written then some ((p.mark n .handled).put n (.response n true true)) else none
  | .start n =>
    if p.phase n = .accepted ∧ p.running = none then some { p.mark n .begun with running := some n }
    else none
  | .emit e =>
    match p.running with
    | some n => if e.ofRun ∧ e ≠ .agentSettled then some (p.put n e) else none
    | none => none
  | .settle =>
    match p.running with
    | some n => some { (p.mark n .settled).put n .agentSettled with running := none }
    | none => none

/-! ## The calls on the session -/

/-- Where the call of `run_stateful` that has the lock is. -/
inductive Point
  | idle
  /-- In `_run_turn`: before the prompt is written, and in `_await_turn`. -/
  | sending | waiting
  /-- In `_safe_abort`, for a turn that has poisoned the session. -/
  | aborting
  /-- In `_drop_session`, on its way out with the error. -/
  | dropping
  deriving DecidableEq

/-- What a prompt was answered with, and what its turn was told. -/
structure Returned where
  prompt : Nat
  result : PiResult
  inputs : List Input

structure State where
  turn : Option Turn
  closed : Bool
  poisoned : Bool
  /-- The reader task has not ended. -/
  reading : Bool
  /-- The runtime has the session under its id. -/
  registered : Bool
  process : Process
  point : Point
  /-- Command ids drawn so far. -/
  drawn : Nat
  /-- What the turn in flight was told, the prompts whose call was cut off (its task cancelled, or an
  exception that drops no session), and the answers. -/
  inputs : List Input
  cut : List Nat
  returned : List Returned

namespace State

variable (s : State)

/-- The session's turn is told. -/
def tell (i : Input) : State :=
  { s with turn := s.turn.map (·.tell i), inputs := s.inputs ++ [i] }

/-- `_run_turn` up to its first await. -/
def runTurn : State :=
  { s with turn := some (Turn.fresh s.drawn), drawn := s.drawn + 1, inputs := [], point := .sending }

/-- A new process, registered. -/
def respawn : State :=
  { s with
    turn := none, closed := false, poisoned := false, reading := true, registered := true
    process := Process.fresh, cut := [] }

/-- `_drop_session`, if there is one to drop. -/
def drop : State := { s with registered := false, closed := s.closed || s.registered }

/-- The call leaves with a `PiTimeout` or `PiProcessError`. -/
def raise : State :=
  { s.drop with turn := none, point := if s.registered then .dropping else .idle }

/-- The call leaves some other way. -/
def cutOff : State :=
  { s with turn := none, point := .idle, cut := s.cut ++ (s.turn.map (·.commandId)).toList }

end State

inductive Label
  /-- A call of `run_stateful` inside the lock. -/
  | begin
  | write
  /-- `send` raises what is no `PiError`: of the prompt, or of a note steered into the turn. -/
  | sendRaised
  /-- The future is done. -/
  | ended
  /-- The deadline, the idle watchdog, the token budget. -/
  | expire
  | aborted
  | cancelled
  | dropped
  /-- `session.cancel` has sent its abort. -/
  | abort
  /-- Somebody else drops the session. -/
  | drop
  /-- `session.close` is over. -/
  | closed
  | read
  /-- The end of the process's output, or of the reader by an error. -/
  | eof
  /-- A line read before the turn began, held up by a listener, fails it: `_fail_turn` takes the turn
  that is there. -/
  | stale
  | process (m : Move)

def next (s : State) : Label → Option State
  | .begin =>
    if s.point = .idle then
      if s.registered then
        if s.closed ∨ s.poisoned then some s.raise else some s.runTurn
      else some s.respawn.runTurn
    else none
  | .write =>
    match s.point, s.turn with
    | .sending, some t =>
      some { s with process := s.process.mark t.commandId .written, point := .waiting }
    | _, _ => none
  | .sendRaised => if s.point = .sending ∨ s.point = .waiting then some s.cutOff else none
  | .ended =>
    match s.point, s.turn with
    | .waiting, some t =>
      match t.future with
      | .pending => none
      | .result r => some { s with
          turn := none, point := .idle, returned := s.returned ++ [⟨t.commandId, r, s.inputs⟩] }
      | .failed => some s.raise
    | _, _ => none
  | .expire =>
    match s.point, s.turn with
    | .waiting, some t =>
      if t.future = .pending then some { s.tell .abort with poisoned := true, point := .aborting }
      else none
    | _, _ => none
  | .aborted => if s.point = .aborting then some s.raise else none
  | .cancelled => if s.point = .idle then none else some s.cutOff
  | .dropped => if s.point = .dropping then some { s with point := .idle } else none
  | .abort => if s.turn.isSome then some (s.tell .abort) else none
  | .drop => if s.registered then some s.drop else none
  | .closed => if s.closed then some { s.tell .eof with reading := false } else none
  | .read =>
    match s.process.out with
    | l :: out =>
      if s.reading then some ({ s with process := { s.process with out } }.tell (.line l)) else none
    | [] => none
  | .eof => if s.reading then some { s.tell .eof with reading := false } else none
  | .stale => if s.turn.isSome then some (s.tell .failed) else none
  | .process m => (s.process.move m).map fun p => { s with process := p }

/-- Before the first call. -/
def State.start : State where
  turn := none
  closed := false
  poisoned := false
  reading := false
  registered := false
  process := Process.fresh
  point := .idle
  drawn := 0
  inputs := []
  cut := []
  returned := []

/-- One session. -/
def session : Lts State Label where
  init s := s = State.start
  next := next

end PiRpc
