import ImpiAgent.Lib.Table
import ImpiAgent.Store.Clock
import Mathlib.Data.List.Sort

/-!
# Tasks agents hand one another, and their store

The records of `store/base.py` and the statements of `store/*/delegations.py`. The SQLite and the
MongoDB statements do the same: `saveDelegation` replaces the row of the record's id or inserts one
(`INSERT OR REPLACE`, `replace_one` with `upsert`), `endDelegation` replaces it only while it is
running (`WHERE id = ? AND status = ?`) and says whether it did.

Beside the tasks the store keeps the leases `replica:<id>`; `present` are the replicas whose lease
has not lapsed. A replica is named by its process number, `none` where the engine is one process
(`replica` is `""`).
-/

namespace Delegation

abbrev Replica := Nat

/-- `DELEGATION_STATUSES`. -/
inductive Status
  | running | answered | failed | timedOut | cancelled
  deriving DecidableEq, Repr

/-- How a turn ended. -/
inductive TurnOutcome
  | replied | acted | empty | truncated | timeout | error | duplicate | stopped | notAdmitted
  deriving DecidableEq, Repr

/-- `_STATUS_BY_OUTCOME`, `failed` where the outcome is not in it. -/
def statusByOutcome : TurnOutcome → Status
  | .replied | .acted | .empty | .truncated => .answered
  | .timeout => .timedOut
  | .stopped => .cancelled
  | .error | .duplicate | .notAdmitted => .failed

/-- One task an agent handed another. -/
structure DelegationRecord where
  id : String
  agent : String
  toAgent : String
  channelId : String
  conversationId : String
  kind : String
  userId : String
  status : Status
  startedAt : Time
  attributes : List (String × String)
  finishedAt : Option Time
  answer : String
  notice : String
  deliveredAt : Option Time
  trusted : Bool
  replica : Option Replica
  deriving DecidableEq, Repr

/-- The record as it is written when the task starts. -/
def DelegationRecord.asked (r : DelegationRecord) : DelegationRecord :=
  { r with status := .running, finishedAt := none, answer := "", notice := "", deliveredAt := none }

@[simp] theorem asked_id (r : DelegationRecord) : r.asked.id = r.id := rfl
@[simp] theorem asked_trusted (r : DelegationRecord) : r.asked.trusted = r.trusted := rfl
@[simp] theorem asked_replica (r : DelegationRecord) : r.asked.replica = r.replica := rfl

/-- The primary key. -/
instance : Keyed DelegationRecord where
  clash a b := a.id == b.id
  refl a := beq_self_eq_true a.id
  symm _ _ := Bool.beq_comm

theorem clash_iff {a b : DelegationRecord} : clash a b = true ↔ a.id = b.id := beq_iff_eq

structure Store where
  tasks : Table DelegationRecord
  present : List Replica

namespace Store

variable {s : Store} {r e : DelegationRecord} {id : String}

/-- `r` in place of the row of its id. -/
def replacing (r a : DelegationRecord) : DelegationRecord := if a.id = r.id then r else a

theorem replacing_clash (r a b : DelegationRecord) : clash (replacing r a) b = clash a b := by
  unfold replacing
  split
  · rename_i h
    exact congrArg (· == b.id) h.symm
  · rfl

def getDelegation (s : Store) (id : String) : Option DelegationRecord :=
  s.tasks.find? (·.id == id)

/-- Replace the row of the record's id that matches. -/
def replaceOne (s : Store) (p : DelegationRecord → Bool) (r : DelegationRecord) : Store :=
  { s with tasks := s.tasks.update p (replacing r) (replacing_clash r) }

/-- `save_delegation`. -/
def saveDelegation (s : Store) (r : DelegationRecord) : Store :=
  match s.tasks.insert r with
  | some tasks => { s with tasks }
  | none => s.replaceOne (fun a => a.id == r.id) r

/-- The filter of `end_delegation` matches a row. -/
def ends (s : Store) (r : DelegationRecord) : Bool :=
  (s.getDelegation r.id).any (·.status == .running)

/-- `end_delegation`: the store after it, and whether a row matched. -/
def endDelegation (s : Store) (r : DelegationRecord) : Store × Bool :=
  (s.replaceOne (fun a => a.id == r.id && a.status == .running) r, s.ends r)

/-- `ORDER BY started_at, id`. -/
def earlier (a b : DelegationRecord) : Bool :=
  a.startedAt < b.startedAt || a.startedAt == b.startedAt && decide (a.id ≤ b.id)

def runningDelegations (s : Store) : List DelegationRecord :=
  (s.tasks.select (·.status == .running)).insertionSort (earlier · ·)

/-- `replica_url(replica) is not None`. -/
def live (s : Store) (q : Replica) : Bool := s.present.contains q

theorem get_iff : s.getDelegation id = some r ↔ r ∈ s.tasks ∧ r.id = id := by
  constructor
  · intro h
    exact ⟨(Table.find?_some h).1, beq_iff_eq.1 (Table.find?_some h).2⟩
  · rintro ⟨hr, rfl⟩
    exact Table.find?_eq hr (beq_self_eq_true _) fun b hb => hb

theorem mem_running : r ∈ s.runningDelegations ↔
    s.getDelegation r.id = some r ∧ r.status = .running := by
  rw [runningDelegations, List.mem_insertionSort, Table.mem_select, get_iff, beq_iff_eq]
  simp

theorem ends_iff : s.ends r = true ↔ ∃ a, s.getDelegation r.id = some a ∧ a.status = .running := by
  rw [ends, Option.any_eq_true]
  simp

/-- The row of an id after a write that replaces rows of the id of `r`. -/
theorem get_replace {p : DelegationRecord → Bool} : (s.replaceOne p r).getDelegation id =
    (s.getDelegation id).map fun a => if p a = true then replacing r a else a := by
  have key : ∀ a, (if p a = true then replacing r a else a).id = a.id := by
    intro a
    unfold replacing
    split <;> (try split) <;> simp_all
  have mem : ∀ x, x ∈ (s.replaceOne p r).tasks ↔
      ∃ a ∈ s.tasks, x = if p a = true then replacing r a else a := fun x => by
    rw [replaceOne, Table.mem_update]
  cases h : s.getDelegation id with
  | none =>
    rw [Option.map_none, Option.eq_none_iff_forall_not_mem]
    intro x hx
    obtain ⟨hx, hid⟩ := get_iff.1 hx
    obtain ⟨a, ha, rfl⟩ := (mem _).1 hx
    have ha : s.getDelegation id = some a := get_iff.2 ⟨ha, (key a).symm.trans hid⟩
    rw [h] at ha
    cases ha
  | some a =>
    obtain ⟨ha, hid⟩ := get_iff.1 h
    rw [Option.map_some, get_iff]
    exact ⟨(mem _).2 ⟨a, ha, rfl⟩, (key a).trans hid⟩

theorem get_save : (s.saveDelegation r).getDelegation id =
    if id = r.id then some r else s.getDelegation id := by
  unfold saveDelegation
  split
  · rename_i T h
    split
    · rename_i hid
      exact get_iff.2 ⟨(Table.mem_insert h).2 (.inr rfl), hid.symm⟩
    · rename_i hid
      refine Option.ext fun x => ?_
      simp only [get_iff, Table.mem_insert h]
      constructor
      · rintro ⟨hx | rfl, hx'⟩
        · exact ⟨hx, hx'⟩
        · exact absurd hx'.symm hid
      · rintro ⟨hx, hx'⟩
        exact ⟨.inl hx, hx'⟩
  · rename_i h
    rw [get_replace]
    obtain ⟨a, ha, hc⟩ := Table.insert_eq_none.1 h
    have hid := clash_iff.1 hc
    split
    · rename_i he
      subst he
      rw [get_iff.2 ⟨ha, hid⟩]
      simp [replacing, hid]
    · rename_i hne
      refine (Option.map_congr fun x hx => ?_).trans Option.map_id'
      have hx : x.id ≠ r.id := fun hxr => hne ((get_iff.1 hx).2.symm.trans hxr)
      simp [hx]

theorem get_end : (s.endDelegation r).1.getDelegation id =
    if id = r.id ∧ s.ends r = true then some r else s.getDelegation id := by
  rw [endDelegation, get_replace]
  cases h : s.getDelegation id with
  | none =>
    rw [if_neg]
    · rfl
    · rintro ⟨rfl, he⟩
      obtain ⟨a, ha, -⟩ := ends_iff.1 he
      rw [h] at ha
      cases ha
  | some a =>
    obtain ⟨-, rfl⟩ := get_iff.1 h
    by_cases hid : a.id = r.id
    · have he : s.ends r = (a.status == .running) := by
        rw [ends, ← hid, h]
        rfl
      by_cases hs : a.status = .running <;> simp [he, hs, hid, replacing]
    · simp [hid]

theorem end_present : (s.endDelegation r).1.present = s.present := rfl

theorem save_present : (s.saveDelegation r).present = s.present := by
  unfold saveDelegation
  split <;> rfl

end Store

/-- `EventReport`. -/
structure EventReport where
  source : String
  text : String
  deriving DecidableEq, Repr

/-- `TurnRequest`, with its scope's id and attributes. -/
structure TurnRequest where
  agent : String
  channelId : String
  conversationId : String
  kind : String
  text : String
  messageId : String
  userId : String
  username : String
  isFromBot : Bool
  event : EventReport
  turnId : String
  attributes : List (String × String)
  deriving DecidableEq, Repr

/-- `_VERB_BY_STATUS`, `ended` where the status is not in it. -/
def verbByStatus : Status → String
  | .answered => "finished"
  | .failed => "failed at"
  | .timedOut => "ran out of time on"
  | .running | .cancelled => "ended"

/-- The value of each `Status` in the store. -/
def Status.value : Status → String
  | .running => "running"
  | .answered => "answered"
  | .failed => "failed"
  | .timedOut => "timed_out"
  | .cancelled => "cancelled"

/-- `{**attributes, key: value}`. -/
def withAttribute (key value : String) : List (String × String) → List (String × String)
  | [] => [(key, value)]
  | a :: rest => if a.1 = key then (key, value) :: rest else a :: withAttribute key value rest

/-- What `_answer` asks the dispatcher to run: the asker's turn on how the task ended. -/
def answerRequest (ended : DelegationRecord) : TurnRequest where
  agent := ended.agent
  channelId := ended.channelId
  conversationId := ended.conversationId
  kind := ended.kind
  text := ended.toAgent ++ " " ++ verbByStatus ended.status ++ " task " ++ ended.id ++
    if ended.notice = "" then "" else
      " (" ++ ended.notice.map (fun c => if c = '_' then ' ' else c) ++ ")"
  messageId := ended.id ++ "-answer"
  userId := ended.userId
  username := ended.toAgent
  isFromBot := true
  event :=
    { source := ended.toAgent ++ " (agent)"
      text := if ended.answer = "" then
          "(no answer: the turn ended with " ++
            (if ended.notice = "" then ended.status.value else ended.notice) ++ ")"
        else ended.answer }
  turnId := ended.id ++ "-answer"
  attributes := withAttribute "delegation_task" ended.id ended.attributes

end Delegation
