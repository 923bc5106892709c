import ImpiAgent.Lib.Lts
import Mathlib.Algebra.Order.Ring.Rat

/-!
# The clocks of a turn

The turns of a `PiRpcSession` as their clocks see them: `pause_clock`, `_run_turn`, `_await_turn`
and what `_dispatch` notes of an event. `session` is the session with time passing (`pass`), blocks
of `pause_clock` entered and left in any order, events taken up by the read loop, and the turn going
on where an await returns (`resume`). Times are rationals (a float is one; arithmetic is exact).

Beside the session the state keeps what really happened: the time since the turn's start in which
a block was open (`paused`), when the last block was left (`pauseEnd`), the tools whose start has
arrived and whose end has not (`running`; `before` are those of them that ran when the turn began),
and what the clocks decided, with the readings the decision should rest on (`Verdict`).
-/

namespace TurnClocks

/-- What `prompt` is given. A `tokensPerTurn`, `idleTimeout` or `wrapUpAfter` of zero is none. -/
structure Limits where
  timeout : ℚ
  idleTimeout : ℚ
  wrapUpAfter : ℚ
  tokensPerTurn : Nat
  deriving DecidableEq

/-- Where a turn is: at the send of the prompt, of the wrap-up note, of the budget note, or at
`wait_for`. -/
inductive Point
  | sending | steering | telling | polling
  deriving DecidableEq

/-- `_Turn`, with where `_run_turn` is. `start` is when `_run_turn` began, `started` when
`_await_turn` did. -/
structure Turn where
  limits : Limits
  point : Point
  start : ℚ
  started : ℚ
  lastEventAt : ℚ
  toolStarted : List String
  tokensUsed : Nat
  wrappedUp : Bool
  budgetTold : Bool
  done : Bool
  deriving DecidableEq

inductive Decision
  | timedOut | stalled | wrapUp
  deriving DecidableEq

/-- A decision of the clocks: the time since the turn's start and how much of it was paused, the
time since the last event or the last pause, and whether somebody was waited on or a tool was
running. -/
structure Verdict where
  decision : Decision
  limits : Limits
  elapsed : ℚ
  paused : ℚ
  quiet : ℚ
  waited : Bool
  toolRunning : Bool
  deriving DecidableEq

structure State where
  now : ℚ
  blocks : List Nat
  uiWaitStarted : Option ℚ
  uiWaitDepth : Nat
  uiWaitTotal : ℚ
  poisoned : Bool
  /-- The tool whose start `_dispatch` holds while it tells the remark before it. -/
  dispatching : Option String
  turn : Option Turn
  paused : ℚ
  pauseEnd : Option ℚ
  running : List String
  before : List String
  verdicts : List Verdict
  deriving DecidableEq

/-- An event: the start of a tool (`remark` where the text before it is told first), the end of
one, or another, with the tokens it reports and whether it settles the turn's future. -/
inductive PiEvent
  | toolStart (id : String) (remark : Bool)
  | toolEnd (id : String)
  | other (tokens : Nat) (settles : Bool)
  deriving DecidableEq

namespace State

variable (s : State) (t : Turn)

def put : State := { s with turn := some t }

/-- The turn is over. -/
def leave : State := { s with turn := none }

/-- The later of the last event and the end of the last pause. -/
def quietSince : ℚ :=
  match s.pauseEnd with
  | none => t.lastEventAt
  | some p => max t.lastEventAt p

def verdict (d : Decision) : Verdict where
  decision := d
  limits := t.limits
  elapsed := s.now - t.start
  paused := s.paused
  quiet := s.now - s.quietSince t
  waited := s.blocks ≠ []
  toolRunning := s.running ≠ []

def log (d : Decision) : State := { s with verdicts := s.verdict t d :: s.verdicts }

/-- A clock ends the turn, and the session with it. -/
def stop (d : Decision) : State := { (s.log t d).leave with poisoned := true }

/-- `_await_turn` from its token budget on (`BUDGET_STOP_FACTOR` is 5 / 4). -/
def budget : State :=
  if t.limits.tokensPerTurn ≠ 0 ∧ t.limits.tokensPerTurn * 5 ≤ t.tokensUsed * 4 then
    { s.leave with poisoned := true }
  else if t.limits.tokensPerTurn ≠ 0 ∧ !t.budgetTold ∧ t.limits.tokensPerTurn ≤ t.tokensUsed then
    s.put { t with budgetTold := true, point := .telling }
  else s.put { t with point := .polling }

/-- `(now - started) - self._ui_wait_total`. -/
def active : ℚ := s.now - t.started - s.uiWaitTotal

/-- `_await_turn` from the head of its loop. -/
def check : State :=
  if t.done then s.leave
  else if s.uiWaitStarted = none then
    if t.limits.timeout ≤ s.active t then s.stop t .timedOut
    else if t.limits.idleTimeout ≠ 0 ∧ t.toolStarted = [] ∧
        t.limits.idleTimeout ≤ s.now - t.lastEventAt then
      s.stop t .stalled
    else if t.limits.wrapUpAfter ≠ 0 ∧ !t.wrappedUp ∧ t.limits.wrapUpAfter ≤ s.active t then
      (s.log t .wrapUp).put { t with wrappedUp := true, point := .steering }
    else s.budget t
  else s.put { t with point := .polling }

/-- What the turn awaits has returned. -/
def resume : State :=
  match t.point with
  | .sending => s.check { t with started := s.now }
  | .steering => s.budget t
  | .telling => s.put { t with point := .polling }
  | .polling => s.check t

/-- `_run_turn`. A block that is open is counted from here. -/
def runTurn (limits : Limits) : State :=
  { s with
    uiWaitTotal := 0
    uiWaitStarted := if 0 < s.uiWaitDepth then some s.now else none
    turn := some ⟨limits, .sending, s.now, s.now, s.now, [], 0, false, false, false⟩
    paused := 0
    before := s.running
    verdicts := [] }

/-- A block of `pause_clock` is entered. -/
def pause (b : Nat) : State :=
  { s with
    uiWaitStarted := if s.uiWaitDepth = 0 then some s.now else s.uiWaitStarted
    uiWaitDepth := s.uiWaitDepth + 1
    blocks := b :: s.blocks }

/-- A block of `pause_clock` is left. -/
def unpause (b : Nat) : State :=
  let depth := s.uiWaitDepth - 1
  let blocks := s.blocks.erase b
  { s with
    uiWaitDepth := depth
    uiWaitTotal := match s.uiWaitStarted with
      | some started => if depth = 0 then s.uiWaitTotal + (s.now - started) else s.uiWaitTotal
      | none => s.uiWaitTotal
    uiWaitStarted := if depth = 0 then none else s.uiWaitStarted
    blocks
    pauseEnd := if blocks = [] then some s.now else s.pauseEnd }

/-- `_translate`, of the start of a tool. -/
def startTool (id : String) : State :=
  { s with turn := s.turn.map fun t => { t with toolStarted := t.toolStarted.insert id } }

/-- The tools that run from an event on. -/
def note : PiEvent → State
  | .toolStart id _ => { s with running := s.running.insert id }
  | .toolEnd id =>
    { s with running := s.running.filter (· ≠ id), before := s.before.filter (· ≠ id) }
  | .other _ _ => s

/-- `_dispatch`. -/
def dispatch (e : PiEvent) : State :=
  match s.turn with
  | none => s.note e
  | some t =>
    let t := { t with lastEventAt := s.now }
    match e with
    | .toolStart id true => { (s.note e).put t with dispatching := some id }
    | .toolStart id false => ((s.note e).put t).startTool id
    | .toolEnd id => (s.note e).put { t with toolStarted := t.toolStarted.filter (· ≠ id) }
    | .other tokens settles =>
      (s.note e).put { t with tokensUsed := t.tokensUsed + tokens, done := t.done || settles }

/-- Time goes on. -/
def pass (d : ℚ) : State :=
  { s with now := s.now + d, paused := if s.blocks = [] then s.paused else s.paused + d }

end State

inductive Label
  | pass (d : ℚ)
  | pause (b : Nat)
  | unpause (b : Nat)
  | runTurn (limits : Limits)
  | resume
  | dispatch (e : PiEvent)
  | told
  | cut
  deriving DecidableEq

def next (s : State) : Label → Option State
  | .pass d => if 0 ≤ d then some (s.pass d) else none
  | .pause b => if b ∈ s.blocks then none else some (s.pause b)
  | .unpause b => if b ∈ s.blocks then some (s.unpause b) else none
  | .runTurn limits => if s.turn = none ∧ !s.poisoned then some (s.runTurn limits) else none
  | .resume => s.turn.map s.resume
  -- one event at a time
  | .dispatch e => if s.dispatching = none then some (s.dispatch e) else none
  | .told => s.dispatching.map fun id => { s with dispatching := none }.startTool id
  -- the turn raises or is cancelled
  | .cut => some s.leave

def State.fresh (now : ℚ) : State := ⟨now, [], none, 0, 0, false, none, none, 0, none, [], [], []⟩

def session : Lts State Label where
  init s := s = .fresh s.now
  next := next

/-- A decision rests on the time the runtime is waited on. -/
def Verdict.fair (v : Verdict) : Bool :=
  match v.decision with
  | .timedOut => v.limits.timeout ≤ v.elapsed - v.paused
  | .stalled => v.limits.idleTimeout ≤ v.quiet && !v.waited && !v.toolRunning
  | .wrapUp => v.limits.wrapUpAfter ≤ v.elapsed - v.paused

def Verdict.wrapsUp (v : Verdict) : Bool := v.decision == .wrapUp

/-- The decisions on the turn are fair, and it was told to wrap up once at most. -/
structure Fair (s : State) : Prop where
  fair : ∀ v ∈ s.verdicts, v.fair = true
  once : s.verdicts.countP (·.wrapsUp) ≤ 1

end TurnClocks
