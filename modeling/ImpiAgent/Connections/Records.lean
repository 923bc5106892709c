import ImpiAgent.Lib.Table
import ImpiAgent.Store.Backend
import ImpiAgent.Store.Clock

/-!
# Connected accounts, as the store keeps them

One record for each owner and provider, with the lease of whoever refreshes it (`lease_until`) in a
column beside. A *credential* is `(connect_id, version)`: every write that starts from a record
somebody read names it in its `WHERE` (`Rows.current`). Each statement of `store/sqlite/connections.py`
and its counterpart in `store/mongo/connections.py` do the same, in one step, but for a move of a
record to the owner it has.

Tokens are told apart by the pair they were issued as; a pair's number stands for both of its
tokens. The account, the scope and the moment of the connect are left out: nothing here reads them.
-/

namespace Connections

/-- The primary key of `connections`. -/
structure Key where
  owner : String
  provider : String
  deriving DecidableEq

structure Credential where
  connectId : Nat
  version : Nat
  deriving DecidableEq

/-- `OAuthTokens`: the pair's number, whether a refresh token came with it, `expires_in`. -/
structure Tokens where
  pair : Nat
  renews : Bool
  expiresIn : Option Int
  deriving DecidableEq

/-- `expires_at`, as it is stored. -/
def Tokens.expiresAt (t : Tokens) (now : Moment) : Option Time :=
  t.expiresIn.map fun s => Clock.toIso (now + s * Clock.second)

structure ConnectionRecord where
  key : Key
  access : Nat
  refresh : Option Nat
  expiresAt : Option Time
  connectId : Nat
  version : Nat
  deriving DecidableEq

namespace ConnectionRecord

/-- `_credential`. -/
def credential (r : ConnectionRecord) : Credential := ⟨r.connectId, r.version⟩

/-- The pairs the record's tokens are of. -/
def pairs (r : ConnectionRecord) : List Nat := r.access :: r.refresh.toList

/-- `_record`. -/
def make (key : Key) (t : Tokens) (connectId : Nat) (now : Moment) : ConnectionRecord where
  key := key
  access := t.pair
  refresh := if t.renews then some t.pair else none
  expiresAt := t.expiresAt now
  connectId := connectId
  version := 0

/-- The record `_rotate` writes: without a new refresh token it keeps the one it has. -/
def rotated (r : ConnectionRecord) (t : Tokens) (now : Moment) : ConnectionRecord where
  key := r.key
  access := t.pair
  refresh := if t.renews then some t.pair else r.refresh
  expiresAt := t.expiresAt now
  connectId := r.connectId
  version := r.version + 1

/-- `_fresh`. -/
def fresh (skew : Int) (r : ConnectionRecord) (now : Moment) : Bool :=
  r.expiresAt.all fun e => skew < Clock.fromIso e - now

@[simp] theorem make_key (key : Key) (t : Tokens) (c : Nat) (now : Moment) :
    (make key t c now).key = key := rfl
@[simp] theorem make_connectId (key : Key) (t : Tokens) (c : Nat) (now : Moment) :
    (make key t c now).connectId = c := rfl
@[simp] theorem rotated_key (r : ConnectionRecord) (t : Tokens) (now : Moment) :
    (r.rotated t now).key = r.key := rfl
@[simp] theorem rotated_connectId (r : ConnectionRecord) (t : Tokens) (now : Moment) :
    (r.rotated t now).connectId = r.connectId := rfl
@[simp] theorem rotated_version (r : ConnectionRecord) (t : Tokens) (now : Moment) :
    (r.rotated t now).version = r.version + 1 := rfl

theorem mem_pairs_make {key : Key} {t : Tokens} {c : Nat} {now : Moment} {p : Nat} :
    p ∈ (make key t c now).pairs ↔ p = t.pair := by
  cases h : t.renews <;> simp [pairs, make, h]

theorem access_mem (r : ConnectionRecord) : r.access ∈ r.pairs := List.mem_cons_self

end ConnectionRecord

/-- A row of `connections`; `lease_until` is `''` while nobody refreshes. -/
structure Row where
  record : ConnectionRecord
  leaseUntil : Option Time
  deriving DecidableEq

/-- The row under another key. -/
def Row.movedTo (r : Row) (k : Key) : Row := { r with record := { r.record with key := k } }

instance : Keyed Row where
  clash a b := a.record.key = b.record.key
  refl _ := decide_eq_true rfl
  symm _ _ := decide_eq_decide.2 eq_comm

abbrev Rows := Table Row

namespace Rows

/-- The row of a key. -/
def row (s : Rows) (k : Key) : Option Row := s.find? (·.record.key = k)

/-- The row of a key, while it is that credential. -/
def current (s : Rows) (k : Key) (c : Credential) : Option Row :=
  (s.row k).filter (·.record.credential = c)

def getConnection (s : Rows) (k : Key) : Option ConnectionRecord := (s.row k).map (·.record)

def saveConnection (s : Rows) (r : ConnectionRecord) : Rows := s.put ⟨r, none⟩

def claimRefresh (s : Rows) (k : Key) (c : Credential) (now till : Time) : Bool × Rows :=
  match s.current k c with
  | some row =>
    if row.leaseUntil.all (· ≤ now) then (true, s.put { row with leaseUntil := some till })
    else (false, s)
  | none => (false, s)

def releaseRefresh (s : Rows) (k : Key) (c : Credential) : Rows :=
  match s.current k c with
  | some row => s.put { row with leaseUntil := none }
  | none => s

def replaceConnection (s : Rows) (r : ConnectionRecord) (expectedVersion : Nat) : Bool × Rows :=
  match s.current r.key ⟨r.connectId, expectedVersion⟩ with
  | some _ => (true, s.put ⟨r, none⟩)
  | none => (false, s)

def deleteConnection (s : Rows) (k : Key) (c : Credential) : Bool × Rows :=
  match s.current k c with
  | some _ => (true, s.delete (·.record.key = k))
  | none => (false, s)

/-- MongoDB's update matches where the record is moved to the owner it has. -/
def moveConnection (b : Backend) (s : Rows) (k k' : Key) : Bool × Rows :=
  if b = .mongo ∧ k' = k then ((s.row k).isSome, s)
  else match s.row k, s.row k' with
    | some row, none => (true, (s.delete (·.record.key = k)).put (row.movedTo k'))
    | _, _ => (false, s)

/-! ## What the statements do -/

variable {s : Rows} {k k' : Key} {c : Credential} {r row : Row} {record : ConnectionRecord}

theorem clash_iff {a b : Row} : clash a b = true ↔ a.record.key = b.record.key := decide_eq_true_iff

theorem clash_false_iff {a b : Row} : clash a b = false ↔ a.record.key ≠ b.record.key :=
  decide_eq_false_iff_not

theorem row_eq_some : s.row k = some r ↔ r ∈ s ∧ r.record.key = k := by
  constructor
  · intro h
    obtain ⟨hr, hk⟩ := Table.find?_some h
    exact ⟨hr, of_decide_eq_true hk⟩
  · rintro ⟨hr, rfl⟩
    exact Table.find?_eq hr (decide_eq_true rfl) fun _ h => h

theorem row_eq_none : s.row k = none ↔ ∀ r ∈ s, r.record.key ≠ k := by
  rw [Option.eq_none_iff_forall_ne_some]
  constructor
  · intro h r hr hk
    exact h r (row_eq_some.2 ⟨hr, hk⟩)
  · intro h r hr
    exact h r (row_eq_some.1 hr).1 (row_eq_some.1 hr).2

theorem current_eq_some :
    s.current k c = some r ↔ r ∈ s ∧ r.record.key = k ∧ r.record.credential = c := by
  rw [current, Option.filter_eq_some_iff, row_eq_some, decide_eq_true_eq, and_assoc]

theorem current_eq_none :
    s.current k c = none ↔ ∀ r ∈ s, r.record.key = k → r.record.credential ≠ c := by
  rw [Option.eq_none_iff_forall_ne_some]
  constructor
  · intro h r hr hk hc
    exact h r (current_eq_some.2 ⟨hr, hk, hc⟩)
  · intro h r hr
    obtain ⟨hm, hk, hc⟩ := current_eq_some.1 hr
    exact h r hm hk hc

theorem getConnection_eq_some :
    s.getConnection k = some record ↔ ∃ r ∈ s, r.record.key = k ∧ r.record = record := by
  rw [getConnection, Option.map_eq_some_iff]
  constructor
  · rintro ⟨r, hr, he⟩
    exact ⟨r, (row_eq_some.1 hr).1, (row_eq_some.1 hr).2, he⟩
  · rintro ⟨r, hr, hk, he⟩
    exact ⟨r, row_eq_some.2 ⟨hr, hk⟩, he⟩

theorem mem_put : row ∈ s.put r ↔ row = r ∨ row ∈ s ∧ row.record.key ≠ r.record.key := by
  rw [Table.mem_put, clash_false_iff]

theorem mem_delete : row ∈ Table.delete s (·.record.key = k) ↔ row ∈ s ∧ row.record.key ≠ k := by
  rw [Table.mem_delete, decide_eq_false_iff_not]

end Rows

end Connections
