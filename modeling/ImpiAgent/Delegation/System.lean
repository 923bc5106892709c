import ImpiAgent.Delegation.Records
import ImpiAgent.Lib.Pool

/-!
# Delegated tasks, as the engines run them

`Delegation.lts`: engine processes over one store, and the coroutines of
`interactions/delegation.py` each runs (`Point`): a task's own (`delegate` or `ask`, then `_run`,
`_watched` and `_answer`), `cancel`, `forget` and `recover`. A coroutine issues one statement
(`Point.step`), or is told what it waited for (`Point.hear`: the asked agent's turn is over, the
asker's turn is gone, the dispatcher returned); between the two anything else may happen, and a
coroutine may be lost at any point (an exception, `aclose`, the end of its process).

A process recovers once when it starts, and again and again where it is one of several replicas
(`run_recovery`). It beats while it is alive, its lease may lapse at any time, and it lets it go
when it stops.

`drawn` are the tasks started so far with the coroutine of each (`delegation_id` draws no id twice),
`wins` the calls of `end_delegation` that matched, `starts` the calls of `run_turn`, `turns` those
that came back with a turn's outcome.
-/

namespace Delegation

/-- An engine process: its number, and whether it is one of several replicas. -/
structure Process where
  pid : Nat
  replicated : Bool
  deriving DecidableEq

/-- `self._replica`. -/
def Process.replica (p : Process) : Option Replica := if p.replicated then some p.pid else none

/-- Who ended a task. -/
inductive How
  | turn | cancel | forget | askerGone | recovery
  deriving DecidableEq

/-- A coroutine between two awaits, where it is at an await named for what it awaits. -/
inductive Point
  | saving (entry : DelegationRecord)
  | turning (entry : DelegationRecord) (watched : Bool)
  | callingOff (entry ended : DelegationRecord)
  | ending (ended : DelegationRecord)
  | answering (party : Nat) (ended : DelegationRecord) (deadline : Option Time)
  | dispatched (party : Nat) (ended : DelegationRecord) (deadline : Time)
  | noting (record : DelegationRecord)
  | owning (agent conversationId id : String)
  | cancelling (ended : DelegationRecord)
  | forgetting (asker conversationId : String)
  | forgetNext (todo : List DelegationRecord)
  | recovering
  | recoverNext (todo : List DelegationRecord)
  | failing (ended : DelegationRecord) (todo : List DelegationRecord)
  | returned
  deriving DecidableEq

/-- What `run_turn` did. -/
inductive Ran
  | turn | busy | refused | raised
  deriving DecidableEq

inductive Heard
  | turn (outcome : TurnOutcome) (answer notice : String)
  | askerGone
  | ran (r : Ran)
  deriving DecidableEq

/-- `ANSWER_WAIT_S`. -/
def answerWaitS : Time := 600

/-- `_lost`, asked by `p`. -/
def lost (p : Process) (s : Store) (entry : DelegationRecord) : Bool :=
  entry.replica.isNone || entry.replica == p.replica || !p.replicated ||
    !entry.replica.any s.live

/-- The `end_delegation` a coroutine is about to call. -/
def Point.ends : Point → Option (How × DelegationRecord)
  | .callingOff _ ended => some (.askerGone, ended)
  | .ending ended => some (.turn, ended)
  | .cancelling ended => some (.cancel, ended)
  | .forgetNext (ended :: _) => some (.forget, ended)
  | .failing ended _ => some (.recovery, ended)
  | _ => none

/-- The next statement of coroutine `i` of process `p`. -/
def Point.step (i : Nat) (p : Process) (now : Time) : Point → Store → Option (Store × Point)
  | .saving entry, s => some (s.saveDelegation entry, .turning entry entry.trusted)
  | .callingOff entry ended, s => some ((s.endDelegation ended).1, .turning entry false)
  | .ending ended, s =>
    let (s', written) := s.endDelegation ended
    some (s', if written && !ended.trusted then .answering i ended none else .returned)
  | .answering party ended deadline, s =>
    some (s, .dispatched party ended (deadline.getD (now + answerWaitS)))
  | .noting record, s => some (s.saveDelegation record, .returned)
  | .owning agent conversationId id, s =>
    some (s, match s.getDelegation id with
      | some entry =>
        if entry.agent = agent ∧ entry.conversationId = conversationId then
          .cancelling { entry with status := .cancelled, finishedAt := some now }
        else .returned
      | none => .returned)
  | .cancelling ended, s => some ((s.endDelegation ended).1, .returned)
  | .forgetting asker conversationId, s =>
    some (s, .forgetNext ((s.runningDelegations.filter fun entry =>
      entry.agent == asker && entry.conversationId == conversationId).map fun entry =>
        { entry with status := .cancelled, finishedAt := some now,
                     notice := "conversation_forgotten" }))
  | .forgetNext (ended :: todo), s => some ((s.endDelegation ended).1, .forgetNext todo)
  | .recovering, s => some (s, .recoverNext s.runningDelegations)
  | .recoverNext (entry :: todo), s =>
    some (s, if lost p s entry then
        .failing { entry with status := .failed, finishedAt := some now,
                              notice := "engine_restarted" } todo
      else .recoverNext todo)
  | .failing ended todo, s => some ((s.endDelegation ended).1, .recoverNext todo)
  | .turning .., _ | .dispatched .., _ | .forgetNext [], _ | .recoverNext [], _ | .returned, _ => none

/-- `ended.notice or "undelivered"`. -/
def undelivered (ended : DelegationRecord) : DelegationRecord :=
  { ended with notice := if ended.notice = "" then "undelivered" else ended.notice }

/-- The end of a pass of the loop of `_answer`. -/
def answered (now : Time) (party : Nat) (ended : DelegationRecord) (deadline : Time) : Ran → Point
  | .turn => .noting { ended with deliveredAt := some now }
  | .busy =>
    if now < deadline then .answering party ended (some deadline) else .noting (undelivered ended)
  | .refused => .noting (undelivered ended)
  | .raised => .returned

/-- What a coroutine makes of what it waited for. -/
def Point.hear (now : Time) : Point → Heard → Option Point
  | .turning entry _, .turn outcome answer notice =>
    some (.ending { entry with status := statusByOutcome outcome, finishedAt := some now,
                               answer, notice })
  | .turning entry true, .askerGone =>
    some (.callingOff entry { entry with status := .cancelled, finishedAt := some now,
                                         notice := "asker_turn_ended" })
  | .dispatched party ended deadline, .ran r => some (answered now party ended deadline r)
  | _, _ => none

/-- A call of `end_delegation` that matched. -/
structure Win where
  party : Nat
  how : How
  ended : DelegationRecord
  deriving DecidableEq

/-- A call of `run_turn`, for the coroutine that ended the task. -/
structure Start where
  party : Nat
  task : String
  request : TurnRequest
  deriving DecidableEq

structure State where
  pool : Pool Store Point
  homes : List Process
  alive : List Process
  booted : List Nat
  recovered : List Nat
  drawn : List (Nat × DelegationRecord)
  wins : List Win
  starts : List Start
  turns : List Start

namespace State

abbrev store (s : State) : Store := s.pool.store

/-- Coroutine `i` is at `k`. -/
abbrev At (s : State) (i : Nat) (k : Point) : Prop := s.pool.At i k

/-- The process of coroutine `i`, while it is alive. -/
def home (s : State) (i : Nat) : Option Process :=
  s.homes[i]?.filter (s.alive.contains ·)

/-- A coroutine begins. -/
def spawn (s : State) (p : Process) (k : Point) : State :=
  { s with pool := s.pool.start k, homes := s.homes ++ [p] }

/-- The coroutine a statement begins, if any. -/
def spawns (s : State) (p : Process) : Option Point → State
  | some k => s.spawn p k
  | none => s

@[simp] theorem spawns_store (s : State) (p : Process) (k : Option Point) :
    (s.spawns p k).store = s.store := by
  cases k <;> rfl

/-- The leases are `present` from now on. -/
def setPresent (s : State) (present : List Replica) : State :=
  { s with pool := { s.pool with store := { s.store with present } } }

end State

/-- What the next statement of coroutine `i` wins. -/
def Point.wins (i : Nat) (k : Point) (s : Store) : List Win :=
  match k.ends with
  | some (how, ended) => if s.ends ended then [⟨i, how, ended⟩] else []
  | none => []

/-- The coroutine the next statement of coroutine `i` begins: `self._spawn(self._answer(ended))`. -/
def Point.spawns (i : Nat) (k : Point) (s : Store) : Option Point :=
  match k with
  | .failing ended _ =>
    if s.ends ended && !ended.trusted then some (.answering i ended none) else none
  | _ => none

/-- The `run_turn` a coroutine is about to call. -/
def Point.starts : Point → List Start
  | .answering party ended _ => [⟨party, ended.id, answerRequest ended⟩]
  | _ => []

/-- The `run_turn` that comes back with what a coroutine hears. -/
def Point.turns : Point → Heard → List Start
  | .dispatched party ended _, .ran .turn => [⟨party, ended.id, answerRequest ended⟩]
  | _, _ => []

inductive Event
  | boot (p : Process)
  | die (p : Process)
  | beat (p : Process)
  | lapse (q : Replica)
  | delegate (p : Process) (entry : DelegationRecord)
  | cancel (p : Process) (agent conversationId id : String)
  | forget (p : Process) (asker conversationId : String)
  | recover (p : Process)
  | step (i : Nat) (now : Time)
  | hear (i : Nat) (h : Heard) (now : Time)
  | drop (i : Nat)
  deriving DecidableEq

def next (s : State) : Event → Option State
  | .boot p =>
    if p.pid ∈ s.booted then none
    else some { s with booted := p.pid :: s.booted, alive := p :: s.alive }
  | .die p => some { s with alive := s.alive.filter (· != p) }
  | .beat p =>
    if p ∈ s.alive then some (s.setPresent (p.replica.toList ++ s.store.present)) else none
  | .lapse q => some (s.setPresent (s.store.present.filter (· != q)))
  | .delegate p entry =>
    if p ∈ s.alive ∧ entry.asked = entry ∧ entry.replica = p.replica ∧
        ∀ d ∈ s.drawn, d.2.id ≠ entry.id then
      some { s.spawn p (.saving entry) with drawn := (s.homes.length, entry) :: s.drawn }
    else none
  | .cancel p agent conversationId id =>
    if p ∈ s.alive then some (s.spawn p (.owning agent conversationId id)) else none
  | .forget p asker conversationId =>
    if p ∈ s.alive then some (s.spawn p (.forgetting asker conversationId)) else none
  | .recover p =>
    if p ∈ s.alive ∧ (p.replicated = true ∨ p.pid ∉ s.recovered) then
      some { s.spawn p .recovering with recovered := p.pid :: s.recovered }
    else none
  | .step i now =>
    match s.home i, s.pool.calls[i]? with
    | some p, some (some k) => (s.pool.exec (Point.step i p now) i).map fun pool =>
        ({ s with pool, wins := k.wins i s.store ++ s.wins, starts := k.starts ++ s.starts } :
          State).spawns p (k.spawns i s.store)
    | _, _ => none
  | .hear i h now =>
    match s.home i, s.pool.calls[i]? with
    | some _, some (some k) => (k.hear now h).map fun k' =>
        { s with pool := s.pool.put i s.store k', turns := k.turns h ++ s.turns }
    | _, _ => none
  | .drop i => some { s with pool := s.pool.kill i }

/-- The engines, from an empty store. -/
def lts : Lts State Event where
  init s := s = ⟨⟨⟨.empty, []⟩, []⟩, [], [], [], [], [], [], [], []⟩
  next := next

variable {s s' : State} {e : Event}

/-- What a step does. -/
inductive Step (s : State) : Event → State → Prop
  | boot {p : Process} : p.pid ∉ s.booted →
      Step s (.boot p) { s with booted := p.pid :: s.booted, alive := p :: s.alive }
  | die {p : Process} : Step s (.die p) { s with alive := s.alive.filter (· != p) }
  | beat {p : Process} : p ∈ s.alive →
      Step s (.beat p) (s.setPresent (p.replica.toList ++ s.store.present))
  | lapse {q : Replica} : Step s (.lapse q) (s.setPresent (s.store.present.filter (· != q)))
  | delegate {p : Process} {entry : DelegationRecord} : p ∈ s.alive → entry.asked = entry →
      entry.replica = p.replica → (∀ d ∈ s.drawn, d.2.id ≠ entry.id) → Step s (.delegate p entry)
        { s.spawn p (.saving entry) with drawn := (s.homes.length, entry) :: s.drawn }
  | cancel {p : Process} {agent conversationId id : String} : p ∈ s.alive →
      Step s (.cancel p agent conversationId id) (s.spawn p (.owning agent conversationId id))
  | forget {p : Process} {asker conversationId : String} : p ∈ s.alive →
      Step s (.forget p asker conversationId) (s.spawn p (.forgetting asker conversationId))
  | recover {p : Process} : p ∈ s.alive → p.replicated = true ∨ p.pid ∉ s.recovered →
      Step s (.recover p) { s.spawn p .recovering with recovered := p.pid :: s.recovered }
  | step {i : Nat} {now : Time} {p : Process} {k k' : Point} {σ : Store} : s.home i = some p →
      s.At i k → k.step i p now s.store = some (σ, k') → Step s (.step i now)
        (({ s with pool := s.pool.put i σ k', wins := k.wins i s.store ++ s.wins,
                   starts := k.starts ++ s.starts } : State).spawns p (k.spawns i s.store))
  | hear {i : Nat} {h : Heard} {now : Time} {p : Process} {k k' : Point} : s.home i = some p →
      s.At i k → k.hear now h = some k' → Step s (.hear i h now)
        { s with pool := s.pool.put i s.store k', turns := k.turns h ++ s.turns }
  | drop {i : Nat} : Step s (.drop i) { s with pool := s.pool.kill i }

theorem next_step (h : next s e = some s') : Step s e s' := by
  cases e with
  | boot p =>
    simp only [next] at h
    split at h <;> cases h
    exact .boot ‹_›
  | die p =>
    cases h
    exact .die
  | beat p =>
    simp only [next] at h
    split at h <;> cases h
    exact .beat ‹_›
  | lapse q =>
    cases h
    exact .lapse
  | delegate p entry =>
    simp only [next] at h
    split at h
    · rename_i hc
      cases h
      exact .delegate hc.1 hc.2.1 hc.2.2.1 hc.2.2.2
    · cases h
  | cancel p agent conversationId id =>
    simp only [next] at h
    split at h <;> cases h
    exact .cancel ‹_›
  | forget p asker conversationId =>
    simp only [next] at h
    split at h <;> cases h
    exact .forget ‹_›
  | recover p =>
    simp only [next] at h
    split at h
    · rename_i hc
      cases h
      exact .recover hc.1 hc.2
    · cases h
  | step i now =>
    simp only [next] at h
    split at h
    · rename_i hp hk
      obtain ⟨pool, he, rfl⟩ := Option.map_eq_some_iff.1 h
      obtain ⟨k₀, σ, k', hk₀, hm, rfl⟩ := Pool.exec_eq_some.1 he
      cases Pool.At.eq hk hk₀
      exact .step hp hk hm
    · cases h
  | hear i heard now =>
    simp only [next] at h
    split at h
    · rename_i hp hk
      obtain ⟨k', hk', rfl⟩ := Option.map_eq_some_iff.1 h
      exact .hear hp hk hk'
    · cases h
  | drop i =>
    cases h
    exact .drop

end Delegation
