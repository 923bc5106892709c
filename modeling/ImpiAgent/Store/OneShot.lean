import ImpiAgent.Lib.Pool
import ImpiAgent.Lib.Table
import ImpiAgent.Store.Backend
import ImpiAgent.Store.Clock

/-!
# One-shot records

Connect links and pending interactions: put by one call, taken at most once by another
(`put_link`/`take_link`, `create_interaction`/`take_interaction`). SQLite reads the record and then
deletes it, under a lock of the process (`self._lock`); MongoDB finds and deletes in one operation.

`OneShot.lts b`: any number of processes over one database of backend `b`. A record that is put gets
a serial, so that two records put one after the other under one key are told apart.
-/

namespace OneShot

structure ConnectionLinkRecord where
  stateDigest : String
  owner : String
  provider : String
  verifierSealed : String
  expiresAt : Time
  returnTo : String := ""
  deriving DecidableEq

structure InteractionRecord where
  interactionId : String
  token : String
  agent : String
  channelId : String
  conversationId : String
  kind : String
  createdAt : Time
  gateway : String := ""
  threadRootId : String := ""
  deriving DecidableEq

inductive Record
  | link (r : ConnectionLinkRecord)
  | interaction (r : InteractionRecord)
  deriving DecidableEq

/-- What a record is taken by. -/
inductive Key
  | stateDigest (digest : String)
  | token (token : String)
  deriving DecidableEq

def Record.key : Record → Key
  | .link r => .stateDigest r.stateDigest
  | .interaction r => .token r.token

/-- `pending_interactions` has a primary key of its own in SQLite. -/
def Record.interactionId : Record → Option String
  | .link _ => none
  | .interaction r => some r.interactionId

def Record.expired (now : Time) : Record → Bool
  | .link r => r.expiresAt ≤ now
  | .interaction _ => false

/-- A stored record. -/
structure Row where
  serial : Nat
  record : Record
  deriving DecidableEq

abbrev Row.key (r : Row) : Key := r.record.key

instance : Keyed Row where
  clash a b := a.key = b.key
  refl _ := decide_eq_true rfl
  symm _ _ := decide_eq_decide.2 eq_comm

theorem key_of_clash {a b : Row} (h : clash a b = true) : a.key = b.key := of_decide_eq_true h

structure Store where
  rows : Table Row
  serial : Nat

namespace Store

/-- The record under a key. -/
def get (s : Store) (k : Key) : Option Row := s.rows.find? fun r => r.key = k

/-- `DELETE … WHERE key = ?`. -/
def delete (s : Store) (k : Key) : Store := { s with rows := s.rows.delete fun r => r.key = k }

/-- The records out of date at `now` go. -/
def sweep (s : Store) (now : Time) : Store :=
  { s with rows := s.rows.delete fun r => r.record.expired now }

/-- A second interaction under the id of one that is there. -/
def refused (b : Backend) (s : Store) (r : Record) : Bool :=
  b = .sqlite ∧ r.interactionId.isSome ∧ ∃ q ∈ s.rows, q.record.interactionId = r.interactionId

def insert (b : Backend) (s : Store) (r : Record) : Option Store :=
  if s.refused b r then none
  else (s.rows.insert ⟨s.serial, r⟩).map fun rows => ⟨rows, s.serial + 1⟩

/-- `put_link` and `create_interaction`. SQLite sweeps the links out of date in the same
transaction, MongoDB leaves them to the TTL index. A refused insert raises and leaves the rows. -/
def put (b : Backend) (s : Store) (now : Time) (r : Record) : Store :=
  let swept := match b, r with
    | .sqlite, .link _ => s.sweep now
    | _, _ => s
  (swept.insert b r).getD s

end Store

/-- A take between two statements. -/
inductive Point
  | selecting (key : Key)
  | deleting (row : Row)
  | findAndDelete (key : Key)
  | took (row : Row)
  | missed
  deriving DecidableEq

/-- A take, where it begins. -/
def take (b : Backend) (key : Key) : Point :=
  match b with
  | .sqlite => .selecting key
  | .mongo => .findAndDelete key

def takeLink (b : Backend) (stateDigest : String) : Point := take b (.stateDigest stateDigest)

def takeInteraction (b : Backend) (token : String) : Point := take b (.token token)

/-- The next statement of a take. -/
def Point.step : Point → Store → Option (Store × Point)
  | .selecting key, s => some (s, match s.get key with
      | some row => .deleting row
      | none => .missed)
  | .deleting row, s => some (s.delete row.key, .took row)
  | .findAndDelete key, s => some (s.delete key, match s.get key with
      | some row => .took row
      | none => .missed)
  | .took _, _ | .missed, _ => none

/-- The takes of any number of processes, and the process of each. -/
structure State where
  pool : Pool Store Point
  homes : List Nat

namespace State

abbrev store (s : State) : Store := s.pool.store

abbrev At (s : State) (i : Nat) (k : Point) : Prop := s.pool.At i k

/-- Call `i` of process `pid` is between its two statements. -/
def holds (s : State) (pid i : Nat) : Bool :=
  match s.pool.calls[i]? with
  | some (some (.deleting _)) => s.homes[i]? == some pid
  | _ => false

/-- Process `pid` is free to enter `with self._lock`, or its call `i` is in it. -/
def unlocked (s : State) (pid i : Nat) : Bool :=
  (List.range s.homes.length).all fun j => j = i || !s.holds pid j

end State

inductive Event
  | put (pid : Nat) (now : Time) (record : Record)
  | sweep (now : Time)
  | takeLink (pid : Nat) (stateDigest : String)
  | takeInteraction (pid : Nat) (token : String)
  | step (i : Nat)
  | drop (i : Nat)
  deriving DecidableEq

def next (b : Backend) (s : State) : Event → Option State
  | .put pid now record =>
    if s.unlocked pid s.homes.length then
      some { s with pool := { s.pool with store := s.store.put b now record } }
    else none
  | .sweep now =>
    if b = .mongo then some { s with pool := { s.pool with store := s.store.sweep now } } else none
  | .takeLink pid stateDigest =>
    some ⟨s.pool.start (takeLink b stateDigest), s.homes ++ [pid]⟩
  | .takeInteraction pid token => some ⟨s.pool.start (takeInteraction b token), s.homes ++ [pid]⟩
  | .step i =>
    match s.homes[i]? with
    | some pid =>
      if s.unlocked pid i then (s.pool.exec Point.step i).map fun pool => { s with pool } else none
    | none => none
  | .drop i => some { s with pool := s.pool.kill i }

/-- The processes, over an empty database. -/
def lts (b : Backend) : Lts State Event where
  init s := s = ⟨⟨⟨.empty, 0⟩, []⟩, []⟩
  next := next b

variable {b : Backend} {s s' : State} {e : Event}

/-- What a step does. -/
inductive Step (b : Backend) (s : State) : Event → State → Prop
  | put {pid : Nat} {now : Time} {record : Record} : Step b s (.put pid now record)
      { s with pool := { s.pool with store := s.store.put b now record } }
  | sweep {now : Time} :
      Step b s (.sweep now) { s with pool := { s.pool with store := s.store.sweep now } }
  | take {e : Event} {pid : Nat} {key : Key} :
      Step b s e ⟨s.pool.start (take b key), s.homes ++ [pid]⟩
  | step {i : Nat} {k k' : Point} {σ : Store} : s.At i k → k.step s.store = some (σ, k') →
      Step b s (.step i) { s with pool := s.pool.put i σ k' }
  | drop {i : Nat} : Step b s (.drop i) { s with pool := s.pool.kill i }

theorem next_step (h : next b s e = some s') : Step b s e s' := by
  cases e with
  | put pid now record =>
    simp only [next] at h
    split at h <;> cases h
    exact .put
  | sweep now =>
    simp only [next] at h
    split at h <;> cases h
    exact .sweep
  | takeLink pid stateDigest =>
    cases h
    exact .take
  | takeInteraction pid token =>
    cases h
    exact .take
  | step i =>
    simp only [next] at h
    split at h
    · split at h
      · obtain ⟨pool, he, rfl⟩ := Option.map_eq_some_iff.1 h
        obtain ⟨k, σ, k', hk, hm, rfl⟩ := Pool.exec_eq_some.1 he
        exact .step hk hm
      · cases h
    · cases h
  | drop i =>
    cases h
    exact .drop

end OneShot
