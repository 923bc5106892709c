import ImpiAgent.Lib.Dict
import ImpiAgent.Lib.Pool
import ImpiAgent.Store.Backend
import Mathlib.Data.List.Sort

/-!
# Where a conversation is on each gateway

`gateway_addresses` and `with_gateway_address` of `store/base.py`, and `set_gateway_address` of both
backends: the session's row is read, its `gateways` column made anew, and the column written.

`Addresses.lts b col`: calls for one session from any number of processes, over a row whose column
is `col`. SQLite holds the lock of its process from the `SELECT` to the commit, MongoDB holds none.
A call that finds no row returns.

A write that finds the other gateways' entries as its call read them (`Unraced`) loses none
(`Kept`, `kept_of_unraced`); under SQLite the calls of one process are all so
(`unraced_of_one_process`).
-/

namespace Addresses

structure GatewayAddress where
  channelId : String
  conversationId : String
  kind : String
  direct : Bool := false
  deriving DecidableEq

/-- An entry of the column: the keys it has. -/
structure StoredAddress where
  channelId : Option String
  conversationId : Option String
  kind : Option String
  direct : Option Bool
  deriving DecidableEq

/-- A JSON object: each gateway's entry, `none` where it is not an object. -/
structure Entries where
  entries : List (String × Option StoredAddress)
  distinct : Dict.Distinct entries

/-- What `json.loads` makes of the column. -/
inductive Column
  | blank
  | undecodable
  | object (o : Entries)

/-- `KIND_DM`. -/
def kindDm : String := "dm"

def StoredAddress.read (a : StoredAddress) : GatewayAddress where
  channelId := a.channelId.getD ""
  conversationId := a.conversationId.getD ""
  kind := a.kind.getD ""
  direct := a.direct.getD (a.kind == some kindDm)

def GatewayAddress.stored (a : GatewayAddress) : StoredAddress where
  channelId := some a.channelId
  conversationId := some a.conversationId
  kind := some a.kind
  direct := some a.direct

/-- `gateway_addresses`. -/
def gatewayAddresses : Column → List (String × GatewayAddress)
  | .blank | .undecodable => []
  | .object o => o.entries.filterMap fun x => x.2.map fun a => (x.1, a.read)

theorem distinct_addresses (col : Column) : Dict.Distinct (gatewayAddresses col) := by
  cases col with
  | blank | undecodable => exact List.nodup_nil
  | object o =>
    refine o.distinct.sublist ?_
    rw [gatewayAddresses, List.map_filterMap]
    generalize o.entries = l
    induction l with
    | nil => exact .slnil
    | cons x l ih =>
      obtain ⟨name, a⟩ := x
      cases a with
      | none => exact ih.cons _
      | some a => exact ih.cons_cons _

/-- The keys in order. -/
def sortKeys (d : List (String × Option StoredAddress)) : List (String × Option StoredAddress) :=
  d.insertionSort (·.1 ≤ ·.1)

theorem distinct_sortKeys {d : List (String × Option StoredAddress)} (h : Dict.Distinct d) :
    Dict.Distinct (sortKeys d) :=
  ((List.perm_insertionSort _ d).map Prod.fst).nodup_iff.2 h

/-- `with_gateway_address`, on the dictionary it reads. -/
def assigned (col : Column) (gateway : String) (address : GatewayAddress) :
    List (String × Option StoredAddress) :=
  Dict.assign gateway (some address.stored)
    ((gatewayAddresses col).map fun x => (x.1, some x.2.stored))

theorem distinct_assigned (col : Column) (gateway : String) (address : GatewayAddress) :
    Dict.Distinct (assigned col gateway address) := by
  refine Dict.Distinct.assign ?_
  have h : ((gatewayAddresses col).map fun x => (x.1, some x.2.stored)).map Prod.fst =
      (gatewayAddresses col).map Prod.fst := by
    rw [List.map_map]
    rfl
  rw [Dict.Distinct, h]
  exact distinct_addresses col

/-- `with_gateway_address`. -/
def withGatewayAddress (col : Column) (gateway : String) (address : GatewayAddress) : Column :=
  .object ⟨sortKeys (assigned col gateway address), distinct_sortKeys (distinct_assigned ..)⟩

/-- The address of one gateway. -/
def stored (col : Column) (gateway : String) : Option GatewayAddress :=
  (gatewayAddresses col).lookup gateway

/-! ## The column -/

theorem read_stored (a : GatewayAddress) : a.stored.read = a := rfl

theorem stored_object (o : Entries) (gateway : String) :
    stored (.object o) gateway = (o.entries.lookup gateway).bind (·.map StoredAddress.read) := by
  obtain ⟨l, hl⟩ := o
  rw [stored, gatewayAddresses]
  induction l with
  | nil => rfl
  | cons x l ih =>
    obtain ⟨name, a⟩ := x
    have ih := ih (List.nodup_cons.1 hl).2
    cases a with
    | some a =>
      rw [List.filterMap_cons_some (by rfl), List.lookup_cons, List.lookup_cons, ih]
      cases gateway == name <;> rfl
    | none =>
      rw [List.filterMap_cons_none (by rfl), ih, List.lookup_cons]
      by_cases h : gateway = name
      · subst h
        rw [Dict.lookup_eq_none.2 (List.nodup_cons.1 hl).1, beq_self_eq_true]
        rfl
      · rw [beq_false_of_ne h]

/-- A write sets one gateway's address and keeps the others. -/
theorem stored_with (col : Column) (gateway name : String) (address : GatewayAddress) :
    stored (withGatewayAddress col gateway address) name =
      if name = gateway then some address else stored col name := by
  rw [withGatewayAddress, stored_object]
  dsimp only
  rw [sortKeys, (distinct_assigned col gateway address).lookup_perm
    (List.perm_insertionSort _ _).symm, assigned, Dict.lookup_assign,
    Dict.lookup_map fun a : GatewayAddress => some a.stored]
  split
  · rfl
  · rw [stored]
    cases (gatewayAddresses col).lookup name <;> rfl

/-! ## The calls -/

/-- `set_gateway_address` between two statements. -/
inductive Point
  | reading (gateway : String) (address : GatewayAddress)
  | writing (gateway : String) (address : GatewayAddress) (read : Column)
  | returned (wrote : Option (String × GatewayAddress))

/-- The next statement of a call, on the session's row. -/
def Point.step : Point → Option Column → Option (Option Column × Point)
  | .reading gateway address, some col => some (some col, .writing gateway address col)
  | .reading .., none => some (none, .returned none)
  | .writing gateway address read, row =>
    some (row.map fun _ => withGatewayAddress read gateway address,
      .returned (some (gateway, address)))
  | .returned _, _ => none

/-- The calls, and the process of each. -/
structure State where
  pool : Pool (Option Column) Point
  homes : List Nat

def Point.isWriting : Point → Bool
  | .writing .. => true
  | _ => false

namespace State

abbrev At (s : State) (i : Nat) (k : Point) : Prop := s.pool.At i k

/-- The call is between its two statements. -/
def isWriting (s : State) (i : Nat) : Bool := (s.pool.calls[i]?.join).any Point.isWriting

/-- Another call of the same process holds its lock. -/
def locked (s : State) (i : Nat) : Bool :=
  (List.range s.pool.calls.length).any fun j =>
    decide (j ≠ i) && decide (s.homes[j]? = s.homes[i]?) && s.isWriting j

/-- Call `i` goes on to `k`, leaving the row `row`. -/
def put (s : State) (i : Nat) (row : Option Column) (k : Point) : State :=
  { s with pool := s.pool.put i row k }

/-- The addresses of the row. -/
def stored (s : State) (name : String) : Option GatewayAddress :=
  s.pool.store.bind fun col => Addresses.stored col name

/-- A call that has returned wrote this. -/
def Wrote (s : State) (gateway : String) (address : GatewayAddress) : Prop :=
  ∃ i, s.At i (.returned (some (gateway, address)))

end State

inductive Event
  | call (pid : Nat) (gateway : String) (address : GatewayAddress)
  | step (i : Nat)
  | drop (i : Nat)

def next (b : Backend) (s : State) : Event → Option State
  | .call pid gateway address =>
    some ⟨s.pool.start (.reading gateway address), s.homes ++ [pid]⟩
  | .step i =>
    if b = .sqlite ∧ s.locked i then none
    else (s.pool.exec Point.step i).map fun pool => { s with pool }
  | .drop i =>
    match s.pool.calls[i]? with
    | some (some (.returned _)) => none
    | _ => some { s with pool := s.pool.kill i }

/-- Calls over a row whose column is `col`. -/
def lts (b : Backend) (col : Column) : Lts State Event where
  init s := s = ⟨⟨some col, []⟩, []⟩
  next := next b

variable {b : Backend} {col : Column} {s s' : State} {e : Event}

/-- A write finds the other gateways' entries as its call read them. -/
def Unraced (s : State) : Event → Prop
  | .step i => ∀ gateway address read, s.At i (.writing gateway address read) →
    ∀ name, name ≠ gateway → s.stored name = stored read name
  | _ => True

/-- What a step does. -/
inductive Step (b : Backend) (s : State) : Event → State → Prop
  | call {pid : Nat} {gateway : String} {address : GatewayAddress} :
      Step b s (.call pid gateway address)
        ⟨s.pool.start (.reading gateway address), s.homes ++ [pid]⟩
  | step {i : Nat} {k k' : Point} {row : Option Column} : ¬ (b = .sqlite ∧ s.locked i = true) →
      s.At i k → k.step s.pool.store = some (row, k') →
      Step b s (.step i) (s.put i row k')
  | drop {i : Nat} : (∀ w, ¬ s.At i (.returned w)) →
      Step b s (.drop i) { s with pool := s.pool.kill i }

theorem next_step (h : next b s e = some s') : Step b s e s' := by
  cases e with
  | call pid gateway address =>
    cases h
    exact .call
  | step i =>
    simp only [next] at h
    split at h
    · cases h
    · rename_i hl
      obtain ⟨pool, he, rfl⟩ := Option.map_eq_some_iff.1 h
      obtain ⟨k, row, k', hk, hm, rfl⟩ := Pool.exec_eq_some.1 he
      exact .step hl hk hm
  | drop i =>
    simp only [next] at h
    split at h
    · cases h
    · rename_i hne
      cases h
      exact .drop hne

/-- Every gateway written holds the value of one of the writes, every other its entry of `col`. -/
def Kept (col : Column) (s : State) : Prop :=
  ∀ name, ((∃ a, s.Wrote name a) → ∃ a, s.Wrote name a ∧ s.stored name = some a) ∧
    ((∀ a, ¬ s.Wrote name a) → s.stored name = stored col name)

/-! ## What a run keeps -/

variable {i : Nat} {k k' : Point} {row : Option Column} {name : String} {a : GatewayAddress}

theorem wrote_put (hk : s.At i k) (hr : ∀ w, k ≠ .returned w) :
    (s.put i row k').Wrote name a ↔
      s.Wrote name a ∨ k' = .returned (some (name, a)) := by
  constructor
  · rintro ⟨j, hj⟩
    rcases (Pool.at_put hk).1 hj with ⟨-, h⟩ | ⟨-, hj⟩
    · exact .inr h.symm
    · exact .inl ⟨j, hj⟩
  · rintro (⟨j, hj⟩ | h)
    · refine ⟨j, Pool.at_put_ne hk hj ?_⟩
      rintro rfl
      exact hr _ (Pool.At.eq hk hj)
    · exact ⟨i, h ▸ Pool.at_put_self hk⟩

theorem Kept.congr (h : Kept col s) (hw : ∀ name a, s'.Wrote name a ↔ s.Wrote name a)
    (hs : ∀ name, s'.stored name = s.stored name) : Kept col s' := by
  intro name
  simp only [hw, hs]
  exact h name

/-- The row is there, and keeps what was written and what was not. -/
def Sound (col : Column) (s : State) : Prop := s.pool.store.isSome ∧ Kept col s

theorem Sound.init (h : (lts b col).init s) : Sound col s := by
  cases h
  refine ⟨rfl, fun name => ⟨?_, fun _ => rfl⟩⟩
  rintro ⟨a, i, hi⟩
  exact absurd hi.lt (Nat.not_lt_zero i)

/-- One statement of a call that, where it writes, finds the others' entries as it read them. -/
theorem Sound.statement (h : Sound col s) (hk : s.At i k) (hc : Unraced s (.step i))
    (hm : k.step s.pool.store = some (row, k')) :
    Sound col (s.put i row k') := by
  obtain ⟨now, hnow⟩ := Option.isSome_iff_exists.1 h.1
  rw [hnow] at hm
  cases k with
  | reading gateway address =>
    cases hm
    refine ⟨rfl, h.2.congr (fun name a => ?_) fun name => ?_⟩
    · rw [wrote_put hk (by simp)]
      simp
    · exact congrArg (Option.bind · (Addresses.stored · name)) hnow.symm
  | writing gateway address read =>
    cases hm
    have stays : ∀ name, name ≠ gateway → s.stored name = stored read name := hc _ _ _ hk
    have set : ∀ name, (s.put i (some (withGatewayAddress read gateway address))
        (.returned (some (gateway, address)))).stored name =
        if name = gateway then some address else stored read name := fun name =>
      stored_with read gateway name address
    refine ⟨rfl, fun name => ?_⟩
    simp only [Option.map_some, set, wrote_put hk (by simp : ∀ w, _ ≠ Point.returned w),
      Point.returned.injEq, Option.some.injEq, Prod.mk.injEq]
    by_cases hname : name = gateway
    · subst hname
      simp only [true_and, if_true]
      exact ⟨fun _ => ⟨address, .inr rfl, rfl⟩, fun hn => absurd (.inr rfl) (hn address)⟩
    · simp only [hname, Ne.symm hname, false_and, or_false, if_false, ← stays name hname]
      exact h.2 name
  | returned => cases hm

theorem Sound.next (h : Sound col s) (hc : Unraced s e) (hn : next b s e = some s') :
    Sound col s' := by
  cases next_step hn with
  | call =>
    refine ⟨h.1, h.2.congr (fun name a => exists_congr fun i => ?_) fun _ => rfl⟩
    rw [State.At, Pool.at_start]
    simp
  | step _ hk hm => exact h.statement hk hc hm
  | @drop i hr =>
    refine ⟨h.1, h.2.congr (fun name a => exists_congr fun j => ?_) fun _ => rfl⟩
    rw [State.At, Pool.at_kill]
    exact ⟨And.right, fun hj => ⟨fun hji => hr _ (hji ▸ hj), hj⟩⟩

/-- Writes that find the other gateways' entries as they were read lose none of them, and writes
for two gateways can be made in either order. -/
theorem kept_of_unraced (h : (lts b col).Reach Unraced s) :
    Kept col s ∧ ∀ (now : Column) (g g' : String) (a a' : GatewayAddress), g ≠ g' → ∀ name,
      stored (withGatewayAddress (withGatewayAddress now g a) g' a') name =
        stored (withGatewayAddress (withGatewayAddress now g' a') g a) name := by
  have sound : Sound col s :=
    h.inv (fun s hs => Sound.init hs) fun s e s' hs hc hn => hs.next hc hn
  refine ⟨sound.2, ?_⟩
  intro now g g' a a' hne name
  simp only [stored_with]
  by_cases hg : name = g
  · simp [hg, hne]
  · simp [hg]

/-! ## SQLite, in one process -/

/-- Every call is of process `pid`. -/
def OneProcess (pid : Nat) (_ : State) : Event → Prop
  | .call p _ _ => p = pid
  | _ => True

/-- The calls are of one process, and one between its statements holds its lock. -/
structure Locked (pid : Nat) (s : State) : Prop where
  homes : s.homes = List.replicate s.pool.calls.length pid
  read : ∀ i gateway address read, s.At i (.writing gateway address read) →
    s.pool.store = some read

theorem Locked.locked {pid j : Nat} (h : Locked pid s) (hi : i < s.pool.calls.length) (hji : j ≠ i)
    {gateway : String} {address : GatewayAddress} {read : Column}
    (hj : s.At j (.writing gateway address read)) : s.locked i = true := by
  refine List.any_eq_true.2 ⟨j, List.mem_range.2 hj.lt, ?_⟩
  have hw : s.isWriting j = true := by
    rw [State.isWriting, show s.pool.calls[j]? = _ from hj]
    rfl
  have hh : s.homes[j]? = s.homes[i]? := by
    rw [h.homes]
    simp [hj.lt, hi]
  simp [hji, hw, hh]

theorem Locked.next {pid : Nat} (h : Locked pid s) (hc : OneProcess pid s e)
    (hn : next .sqlite s e = some s') : Locked pid s' := by
  cases next_step hn with
  | call =>
    obtain rfl := hc
    refine ⟨?_, fun i g a read hi => ?_⟩
    · simp [h.homes, Pool.start, List.replicate_add]
    · rcases Pool.at_start.1 hi with hi | ⟨-, hi⟩
      · exact h.read i g a read hi
      · cases hi
  | @step i k k' row hl hk hm =>
    refine ⟨by simpa [State.put, Pool.put] using h.homes, fun j g a read hj => ?_⟩
    rcases (Pool.at_put hk).1 hj with ⟨rfl, rfl⟩ | ⟨hne, hj⟩
    · cases k with
      | reading =>
        cases hs : s.pool.store with
        | none =>
          rw [hs] at hm
          cases hm
        | some now =>
          rw [hs] at hm
          cases hm
          rfl
      | writing => cases hm
      | returned => cases hm
    · exact absurd ⟨rfl, h.locked hk.lt hne hj⟩ hl
  | drop =>
    exact ⟨by simpa [Pool.kill] using h.homes, fun j g a read hj =>
      h.read j g a read (Pool.at_kill.1 hj).2⟩

/-- The lock of the one process keeps the writes from racing. -/
theorem unraced_of_one_process {pid : Nat} (h : (lts .sqlite col).Reach (OneProcess pid) s) :
    (lts .sqlite col).Reach Unraced s := by
  refine (h.inv (I := fun s => (lts .sqlite col).Reach Unraced s ∧ Locked pid s)
    (fun s hs => ⟨.init hs, ?_⟩) fun s e s' hs hc hn => ⟨hs.1.step ?_ hn, hs.2.next hc hn⟩).1
  · cases hs
    exact ⟨rfl, fun i _ _ _ hi => absurd hi.lt (Nat.not_lt_zero i)⟩
  · cases e with
    | step i =>
      intro gateway address read hi name _
      rw [State.stored, hs.2.read i gateway address read hi]
      rfl
    | call | drop => trivial

namespace Sample

def slack : GatewayAddress := ⟨"C1", "1700.1", "thread", false⟩

def http : GatewayAddress := ⟨"portal:u1", "portal:task-7", "dm", true⟩

/-- Two calls of two processes, the second reading before the first writes. -/
def raced : List Event :=
  [.call 0 "slack" slack, .call 1 "http" http, .step 0, .step 1, .step 0, .step 1]

/-- The same, one after the other. -/
def inTurn : List Event :=
  [.call 0 "slack" slack, .call 1 "http" http, .step 0, .step 0, .step 1, .step 1]

def start : State := ⟨⟨some .blank, []⟩, []⟩

/-- A write to the gateway that has returned. -/
def wrote (s : State) (i : Nat) : Option (String × GatewayAddress) :=
  match s.pool.calls[i]? with
  | some (some (.returned w)) => w
  | _ => none

/-- Every write finds what its call read: none is in between. -/
def fresh (s : State) : Event → Bool
  | .step i =>
    match s.pool.calls[i]? with
    | some (some (.writing gateway _ read)) =>
      (gatewayAddresses read).filter (·.1 ≠ gateway) =
        (s.pool.store.elim [] gatewayAddresses).filter (·.1 ≠ gateway)
    | _ => true
  | _ => true

theorem unraced_of_fresh (s : State) (e : Event) (h : fresh s e = true) : Unraced s e := by
  cases e with
  | call | drop => trivial
  | step i =>
    intro gateway address read hi name hne
    have hcall : s.pool.calls[i]? = some (some (.writing gateway address read)) := hi
    simp only [fresh, hcall, decide_eq_true_eq] at h
    have same := congrArg (List.lookup name) h
    rw [Dict.lookup_filter fun x => decide (x ≠ gateway),
      Dict.lookup_filter fun x => decide (x ≠ gateway), if_pos (by simpa), if_pos (by simpa)] at same
    rw [State.stored, stored, same]
    cases s.pool.store <;> rfl

end Sample

/-- Two calls one after the other: both addresses are there. -/
theorem kept_of_unraced_in_turn :
    (((lts .mongo .blank).check Sample.fresh Sample.start Sample.inTurn).map fun s =>
      (s.stored "slack", s.stored "http")) = some (some Sample.slack, some Sample.http) ∧
    ∃ s, (lts .mongo .blank).Reach Unraced s ∧ Kept .blank s := by
  have hrun : (((lts .mongo .blank).check Sample.fresh Sample.start Sample.inTurn).map fun s =>
      (s.stored "slack", s.stored "http")) = some (some Sample.slack, some Sample.http) := rfl
  obtain ⟨s, hs, -⟩ := Option.map_eq_some_iff.1 hrun
  have reached := Lts.reach_of_check Sample.unraced_of_fresh rfl hs
  exact ⟨hrun, s, reached, (kept_of_unraced reached).1⟩

/-- Of two calls for two gateways from two processes, the one that writes first is lost, with both
backends. -/
theorem address_lost : (∃ s, (lts .sqlite .blank).Reach Lts.Any s ∧ ¬ Kept .blank s) ∧
    ∃ s, (lts .mongo .blank).Reach Lts.Any s ∧ ¬ Kept .blank s := by
  have lost : ∀ b, ((lts b .blank).check (fun _ _ => true) Sample.start Sample.raced).map (fun s =>
      (Sample.wrote s 0, s.stored "slack")) = some (some ("slack", Sample.slack), none) →
      ∃ s, (lts b .blank).Reach Lts.Any s ∧ ¬ Kept .blank s := by
    intro b hrun
    obtain ⟨s, hs, he⟩ := Option.map_eq_some_iff.1 hrun
    refine ⟨s, Lts.reach_of_check (fun _ _ _ => trivial) rfl hs, fun hk => ?_⟩
    obtain ⟨hw, hnone⟩ := Prod.mk.inj he
    have wrote : s.Wrote "slack" Sample.slack := by
      refine ⟨0, ?_⟩
      unfold Sample.wrote at hw
      split at hw
      · exact hw ▸ ‹_›
      · cases hw
    obtain ⟨a, -, ha⟩ := (hk "slack").1 ⟨_, wrote⟩
    rw [hnone] at ha
    cases ha
  exact ⟨lost .sqlite rfl, lost .mongo rfl⟩

end Addresses
