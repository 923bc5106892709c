import ImpiAgent.Store.Leases

/-!
# Which replica owns a conversation

A replica is alive while the lease `replica:<id>` runs, and its address is that lease's owner.
`claim_conversation` makes a replica the owner of a conversation where it is free or its owner is
not alive, and says who the owner is then. SQLite looks at the lease in the `UPDATE` itself and reads
the row back; MongoDB reads the row, then the lease, and then replaces the owner it read, three
times at most.

`Replicas.lts b`: claims, heartbeats and the other calls of the lease store over one database of
backend `b`. SQLite's process lock is left out, which only adds interleavings.
-/

namespace Replicas

/-- The key of `conversation_owners`. -/
structure Conversation where
  agent : String
  conversation : String
  deriving DecidableEq

/-- A row of `conversation_owners`. -/
structure Owner where
  key : Conversation
  replica : String
  deriving DecidableEq

instance : Keyed Owner where
  clash a b := a.key = b.key
  refl _ := decide_eq_true rfl
  symm _ _ := decide_eq_decide.2 eq_comm

structure ConversationOwner where
  replica : String
  url : String := ""
  deriving DecidableEq

/-- The arguments of `claim_conversation`. -/
structure ClaimArgs where
  key : Conversation
  replica : String
  take : Bool := false
  deriving DecidableEq

def replicaLeasePrefix : String := "replica:"

structure Store where
  leases : Leases.Store
  owners : Table Owner

namespace Store

def nowIso (s : Store) : Time := s.leases.nowIso

/-- The replica a conversation's row names. -/
def get (s : Store) (c : Conversation) : Option String :=
  (s.owners.find? fun r => r.key = c).map (·.replica)

/-- `_live_url`: the address of a replica that was alive at `now`. -/
def liveUrl (s : Store) (replica : String) (now : Time) : Option String :=
  (s.leases.leases.find? fun r =>
    r.name = replicaLeasePrefix ++ replica ∧ Clock.fromIso now ≤ r.till).map (·.owner)

/-- A replica is alive. -/
def Live (s : Store) (replica : String) : Prop := (s.liveUrl replica s.nowIso).isSome = true

instance (s : Store) (replica : String) : Decidable (s.Live replica) :=
  inferInstanceAs (Decidable (_ = true))

/-- The conversation's row names `replica` from now on. -/
def set (s : Store) (a : ClaimArgs) : Store :=
  { s with
    owners := s.owners.update (fun r => r.key = a.key) (fun r => { r with replica := a.replica })
      fun _ _ => rfl }

/-- `none` where the conversation has a row. -/
def insert (s : Store) (a : ClaimArgs) : Option Store :=
  (s.owners.insert ⟨a.key, a.replica⟩).map fun owners => { s with owners }

/-- The `WHERE` of SQLite's `UPDATE`, on the row's replica: mine, taken by force, or not alive. -/
def mayReplace (s : Store) (a : ClaimArgs) (now : Time) (owner : String) : Bool :=
  owner = a.replica || a.take || (s.liveUrl owner now).isNone

/-- SQLite's `UPDATE`, and the `INSERT` where it changed no row, in one transaction. -/
def claim (s : Store) (a : ClaimArgs) (now : Time) : Store :=
  if (s.get a.key).any (s.mayReplace a now) then s.set a else (s.insert a).getD s

end Store

/-- A call between two statements. -/
inductive Point
  | lease (k : Leases.Point)
  | reading (a : ClaimArgs)
  | updating (a : ClaimArgs) (now : Time)
  | readingBack (a : ClaimArgs) (now : Time)
  | finding (a : ClaimArgs) (left : Nat)
  | inserting (a : ClaimArgs) (left : Nat)
  | dating (a : ClaimArgs) (left : Nat) (owner : String)
  | asking (a : ClaimArgs) (left : Nat) (owner : String) (now : Time)
  | moving (a : ClaimArgs) (left : Nat) (owner : String)
  | findingLast (a : ClaimArgs)
  | datingLast (a : ClaimArgs) (owner : String)
  | addressing (a : ClaimArgs) (owner : String) (now : Time)
  | told (a : ClaimArgs) (owner : ConversationOwner)
  deriving DecidableEq

/-- The next pass of MongoDB's loop, `left` of them left. -/
def pass (a : ClaimArgs) : Nat → Point
  | 0 => .findingLast a
  | left + 1 => .finding a left

/-- `claim_conversation`, where it begins. -/
def claimConversation (b : Backend) (a : ClaimArgs) : Point :=
  match b with
  | .sqlite => .reading a
  | .mongo => pass a 3

/-- The next statement of a call. -/
def Point.step (b : Backend) : Point → Store → Option (Store × Point)
  | .lease k, s => (k.step b s.leases).map fun q => ({ s with leases := q.1 }, .lease q.2)
  | .reading a, s => some (s, .updating a s.nowIso)
  | .updating a now, s => some (s.claim a now, .readingBack a now)
  | .readingBack a now, s =>
    let owner := (s.get a.key).getD a.replica
    some (s, if owner = a.replica then .told a ⟨owner, ""⟩ else .addressing a owner now)
  | .finding a left, s =>
    some (s, match s.get a.key with
      | none => .inserting a left
      | some owner => if owner = a.replica then .told a ⟨a.replica, ""⟩ else .dating a left owner)
  | .inserting a left, s =>
    some <| match s.insert a with
      | some s' => (s', .told a ⟨a.replica, ""⟩)
      | none => (s, pass a left)
  | .dating a left owner, s => some (s, .asking a left owner s.nowIso)
  | .asking a left owner now, s =>
    some (s, match s.liveUrl owner now with
      | some url => if a.take then .moving a left owner else .told a ⟨owner, url⟩
      | none => .moving a left owner)
  | .moving a left owner, s =>
    some <| if s.get a.key = some owner then (s.set a, .told a ⟨a.replica, ""⟩)
      else (s, pass a left)
  | .findingLast a, s =>
    let owner := (s.get a.key).getD a.replica
    some (s, if owner = a.replica then .told a ⟨owner, ""⟩ else .datingLast a owner)
  | .datingLast a owner, s => some (s, .addressing a owner s.nowIso)
  | .addressing a owner now, s => some (s, .told a ⟨owner, (s.liveUrl owner now).getD ""⟩)
  | .told .., _ => none

/-- The owner a call is going to name, once that is settled. -/
def Point.answer : Point → Option (ClaimArgs × String)
  | .told a owner => some (a, owner.replica)
  | .addressing a owner _ | .datingLast a owner => some (a, owner)
  | _ => none

abbrev State := Pool Store Point

inductive Event
  | advance (d : Nat)
  | acquire (a : Leases.AcquireArgs)
  | release (name owner : String)
  | claim (a : ClaimArgs)
  | step (i : Nat)
  | drop (i : Nat)
  deriving DecidableEq

def next (b : Backend) (s : State) : Event → Option State
  | .advance d => some { s with store := { s.store with leases := s.store.leases.advance d } }
  | .acquire a => some (s.start (.lease (.reading a)))
  | .release name owner => some (s.start (.lease (.releasing name owner)))
  | .claim a => some (s.start (claimConversation b a))
  | .step i => s.exec (Point.step b) i
  | .drop i => some (s.kill i)

/-- The calls, over an empty database. -/
def lts (b : Backend) : Lts State Event where
  init s := s.store.leases.leases = .empty ∧ s.store.owners = .empty ∧ s.calls = []
  next := next b

/-! ## The rows -/

variable {b : Backend} {s s' : Store} {a : ClaimArgs} {c : Conversation} {o : String}

theorem get_iff : s.get c = some o ↔ ⟨c, o⟩ ∈ s.owners := by
  rw [Store.get, Option.map_eq_some_iff]
  constructor
  · rintro ⟨⟨c', o'⟩, hr, rfl⟩
    obtain ⟨hm, hc⟩ := Table.find?_some hr
    cases of_decide_eq_true hc
    exact hm
  · intro hm
    exact ⟨⟨c, o⟩, Table.find?_eq hm (decide_eq_true rfl) fun _ h => h, rfl⟩

theorem get_set : (s.set a).get c = if c = a.key then (s.get c).map fun _ => a.replica
    else s.get c := by
  have hm : ∀ o, (s.set a).get c = some o ↔
      (c = a.key ∧ a.replica = o ∧ ∃ p, s.get c = some p) ∨ c ≠ a.key ∧ s.get c = some o := by
    intro o
    simp only [get_iff, Store.set, Table.mem_update]
    constructor
    · rintro ⟨⟨c', o'⟩, hr, he⟩
      split at he <;> rename_i hc <;> simp only [decide_eq_true_eq] at hc <;> cases he
      · exact .inl ⟨hc, rfl, o', hr⟩
      · exact .inr ⟨hc, hr⟩
    · rintro (⟨rfl, rfl, p, hp⟩ | ⟨hc, hp⟩)
      · exact ⟨_, hp, by simp⟩
      · exact ⟨_, hp, by simp [hc]⟩
  ext o
  rw [hm]
  split <;> rename_i hc
  · simp [hc, and_comm]
  · simp [hc]

theorem get_insert (h : s.insert a = some s') :
    s'.leases = s.leases ∧ s.get a.key = none ∧
      ∀ c, s'.get c = if c = a.key then some a.replica else s.get c := by
  obtain ⟨owners, hi, rfl⟩ := Option.map_eq_some_iff.1 h
  have hnone : s.get a.key = none := by
    rw [Option.eq_none_iff_forall_ne_some]
    intro o ho
    exact absurd (Table.free_of_insert hi _ (get_iff.1 ho)) (by simp [clash])
  refine ⟨rfl, hnone, fun c => ?_⟩
  ext o
  rw [get_iff, Table.mem_insert hi, ← get_iff]
  by_cases hc : c = a.key
  · subst hc
    simp [hnone, eq_comm]
  · simp [hc]

theorem get_of_refused (h : s.insert a = none) : ∃ o, s.get a.key = some o := by
  obtain ⟨⟨c, o⟩, hr, hc⟩ := Table.insert_eq_none.1 (Option.map_eq_none_iff.1 h)
  cases of_decide_eq_true hc
  exact ⟨o, get_iff.2 hr⟩

/-- What a statement does: it leaves the rows, is one of the lease store, or makes the caller a
conversation's owner. -/
inductive Changes (b : Backend) (s : Store) : Point → Store → Prop
  | quiet {k : Point} : Changes b s k s
  | lease {k k' : Leases.Point} {l : Leases.Store} : k.step b s.leases = some (l, k') →
      Changes b s (.lease k) { s with leases := l }
  | sets {k : Point} {s' : Store} {a : ClaimArgs} : s'.leases = s.leases →
      (∀ c, s'.get c = if c = a.key then some a.replica else s.get c) →
      (∀ o, s.get a.key = some o → (∃ left, k = .moving a left o) ∨
        ∃ now, k = .updating a now ∧ s.mayReplace a now o = true) →
      Changes b s k s'

theorem set_changes {k : Point} (ho : s.get a.key = some o)
    (hk : (∃ left, k = .moving a left o) ∨
      ∃ now, k = .updating a now ∧ s.mayReplace a now o = true) : Changes b s k (s.set a) := by
  refine .sets (a := a) rfl (fun c => ?_) fun p hp => ?_
  · rw [get_set]
    split
    · rename_i hc
      rw [hc, ho, Option.map_some]
    · rfl
  · cases ho.symm.trans hp
    exact hk

theorem insert_changes {k : Point} (h : s.insert a = some s') : Changes b s k s' := by
  obtain ⟨hl, hn, hg⟩ := get_insert h
  exact .sets (a := a) hl hg fun o ho => absurd ho (by simp [hn])

theorem step_changes {k k' : Point} (h : k.step b s = some (s', k')) : Changes b s k s' := by
  cases k <;> simp only [Point.step, Option.some.injEq, Prod.mk.injEq, reduceCtorEq] at h
  case lease k =>
    obtain ⟨⟨l, q⟩, hk, he⟩ := Option.map_eq_some_iff.1 h
    cases he
    exact .lease hk
  case updating a now =>
    obtain ⟨rfl, -⟩ := h
    unfold Store.claim
    split
    · rename_i hany
      obtain ⟨o, ho, hp⟩ := (Option.any_eq_true _ _).1 hany
      exact set_changes ho (.inr ⟨now, rfl, hp⟩)
    · cases hi : s.insert a with
      | none => exact .quiet
      | some t => exact insert_changes hi
  case inserting a left =>
    split at h
    · rename_i t hi
      cases h
      exact insert_changes hi
    · cases h
      exact .quiet
  case moving a left owner =>
    split at h
    · rename_i ho
      cases h
      exact set_changes ho (.inl ⟨left, rfl⟩)
    · cases h
      exact .quiet
  all_goals
    obtain ⟨rfl, -⟩ := h
    exact .quiet

end Replicas
