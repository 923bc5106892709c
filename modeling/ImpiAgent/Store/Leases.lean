import ImpiAgent.Lib.Pool
import ImpiAgent.Lib.Table
import ImpiAgent.Store.Backend
import ImpiAgent.Store.Clock

/-!
# Leases

One row per lease name: its owner and when it lapses. `acquire_lease` reads the clock twice, for
`now` and in `_until`, and then writes: SQLite updates or inserts in one transaction, MongoDB updates
and, where nothing matched, inserts. A lifetime may have fractions of a second, so a row's end is a
`Moment`; its ISO string still orders as text against those of whole seconds.

`Leases.lts b`: any number of calls over one store of backend `b` and one clock that does not run
back.
-/

namespace Leases

/-- A row of `leases`. -/
structure Lease where
  name : String
  owner : String
  till : Moment
  deriving DecidableEq

instance : Keyed Lease where
  clash a b := a.name = b.name
  refl _ := decide_eq_true rfl
  symm _ _ := decide_eq_decide.2 eq_comm

theorem name_of_clash {a b : Lease} (h : clash a b = true) : a.name = b.name := of_decide_eq_true h

/-- The arguments of `acquire_lease`, the lifetime in microseconds. -/
structure AcquireArgs where
  name : String
  owner : String
  ttl : Int
  deriving DecidableEq

/-- `_until`, where its reading of the clock is `t`. -/
def AcquireArgs.till (a : AcquireArgs) (t : Time) : Moment := Clock.fromIso t + a.ttl

/-- The row an acquire writes. -/
def AcquireArgs.row (a : AcquireArgs) (t : Time) : Lease := ⟨a.name, a.owner, a.till t⟩

/-- Mine, or lapsed. -/
def AcquireArgs.free (a : AcquireArgs) (now : Time) (r : Lease) : Bool :=
  r.name = a.name ∧ (r.owner = a.owner ∨ r.till < Clock.fromIso now)

structure Store where
  clock : Moment
  leases : Table Lease

namespace Store

/-- `clock.now_iso`. -/
def nowIso (s : Store) : Time := Clock.toIso s.clock

/-- The `UPDATE` of an acquire. -/
def update (s : Store) (a : AcquireArgs) (now t : Time) : Store :=
  { s with
    leases := s.leases.update (a.free now) (fun r => { r with owner := a.owner, till := a.till t })
      fun _ _ => rfl }

/-- Its `rowcount == 1`. -/
def matched (s : Store) (a : AcquireArgs) (now : Time) : Bool :=
  (s.leases.find? (a.free now)).isSome

/-- Its `INSERT`, `none` where the name is there. -/
def insert (s : Store) (a : AcquireArgs) (t : Time) : Option Store :=
  (s.leases.insert (a.row t)).map fun leases => { s with leases }

/-- `release_lease`. -/
def release (s : Store) (name owner : String) : Store :=
  { s with leases := s.leases.delete fun r => r.name = name ∧ r.owner = owner }

/-- The row of a lease. -/
def get (s : Store) (name : String) : Option Lease := s.leases.find? fun r => r.name = name

end Store

/-- A call between two statements. -/
inductive Point
  | reading (a : AcquireArgs)
  | dating (a : AcquireArgs) (now : Time)
  | taking (a : AcquireArgs) (now t : Time)
  | inserting (a : AcquireArgs) (t : Time)
  | acquired (a : AcquireArgs) (t : Time)
  | refused (a : AcquireArgs)
  | releasing (name owner : String)
  | released
  deriving DecidableEq

/-- The insert of an acquire, and its answer. -/
def insertOrRefuse (a : AcquireArgs) (t : Time) (s : Store) : Store × Point :=
  match s.insert a t with
  | some s' => (s', .acquired a t)
  | none => (s, .refused a)

/-- The next statement of a call. -/
def Point.step (b : Backend) : Point → Store → Option (Store × Point)
  | .reading a, s => some (s, .dating a s.nowIso)
  | .dating a now, s => some (s, .taking a now s.nowIso)
  | .taking a now t, s =>
    some <| if s.matched a now then (s.update a now t, .acquired a t)
      else match b with
        | .sqlite => insertOrRefuse a t s
        | .mongo => (s, .inserting a t)
  | .inserting a t, s => some (insertOrRefuse a t s)
  | .releasing name owner, s => some (s.release name owner, .released)
  | .acquired .., _ | .refused _, _ | .released, _ => none

abbrev State := Pool Store Point

inductive Event
  | advance (d : Nat)
  | acquire (a : AcquireArgs)
  | release (name owner : String)
  | step (i : Nat)
  | drop (i : Nat)
  deriving DecidableEq

/-- Time passes. -/
def Store.advance (s : Store) (d : Nat) : Store := { s with clock := s.clock + d }

def next (b : Backend) (s : State) : Event → Option State
  | .advance d => some { s with store := s.store.advance d }
  | .acquire a => some (s.start (.reading a))
  | .release name owner => some (s.start (.releasing name owner))
  | .step i => s.exec (Point.step b) i
  | .drop i => some (s.kill i)

/-- The calls, over an empty store. -/
def lts (b : Backend) : Lts State Event where
  init s := s.store.leases = .empty ∧ s.calls = []
  next := next b

/-- What a statement does: it leaves the rows, wins a lease or lets one go. -/
inductive Writes (s : Store) : Point → Store → Point → Prop
  | reads {k k' : Point} : (∀ a t, k' ≠ .acquired a t) → (∀ name owner, k ≠ .releasing name owner) →
      Writes s k s k'
  | wins {k : Point} {s' : Store} {a : AcquireArgs} {t : Time} :
      k = .inserting a t ∨ (∃ now, k = .taking a now t) →
      (∀ r ∈ s.leases, r.name = a.name →
        r.owner = a.owner ∨ ∃ now, k = .taking a now t ∧ r.till < Clock.fromIso now) →
      s'.clock = s.clock →
      (∀ r, r ∈ s'.leases ↔ r = a.row t ∨ r ∈ s.leases ∧ r.name ≠ a.name) →
      Writes s k s' (.acquired a t)
  | lets {name owner : String} : Writes s (.releasing name owner) (s.release name owner) .released

theorem Store.mem_release {s : Store} {name owner : String} {r : Lease} :
    r ∈ (s.release name owner).leases ↔ r ∈ s.leases ∧ ¬(r.name = name ∧ r.owner = owner) := by
  rw [Store.release, Table.mem_delete, decide_eq_false_iff_not]

theorem AcquireArgs.free_iff {a : AcquireArgs} {now : Time} {r : Lease} :
    a.free now r = true ↔ r.name = a.name ∧ (r.owner = a.owner ∨ r.till < Clock.fromIso now) := by
  rw [free, decide_eq_true_eq]

/-- An update that matched wrote the lease's one row. -/
theorem mem_update {s : Store} {a : AcquireArgs} {now t : Time} (h : s.matched a now = true)
    {r : Lease} : r ∈ (s.update a now t).leases ↔ r = a.row t ∨ r ∈ s.leases ∧ r.name ≠ a.name := by
  obtain ⟨q, hq⟩ := Option.isSome_iff_exists.1 h
  obtain ⟨hq, hfree⟩ := Table.find?_some hq
  have hname := (AcquireArgs.free_iff.1 hfree).1
  rw [Store.update, Table.mem_update]
  constructor
  · rintro ⟨p, hp, rfl⟩
    split
    · rename_i hp'
      left
      have := (AcquireArgs.free_iff.1 hp').1
      simp [AcquireArgs.row, this]
    · rename_i hp'
      refine .inr ⟨hp, fun hn => hp' ?_⟩
      rw [Table.unique hp hq (decide_eq_true (hn.trans hname.symm))]
      exact hfree
  · rintro (rfl | ⟨hr, hne⟩)
    · exact ⟨q, hq, by simp [hfree, AcquireArgs.row, hname]⟩
    · exact ⟨r, hr, by simp [AcquireArgs.free, hne]⟩

theorem insert_writes {s s' : Store} {a : AcquireArgs} {t : Time} {k k' : Point}
    (hk : k = .inserting a t ∨ ∃ now, k = .taking a now t) (h : insertOrRefuse a t s = (s', k')) :
    Writes s k s' k' := by
  unfold insertOrRefuse at h
  split at h
  · rename_i σ hi
    cases h
    obtain ⟨leases, hl, rfl⟩ := Option.map_eq_some_iff.1 hi
    have hfree : ∀ r ∈ s.leases, r.name ≠ a.name := fun r hr =>
      of_decide_eq_false (Table.free_of_insert hl r hr)
    refine .wins hk (fun r hr hn => absurd hn (hfree r hr)) rfl fun r => ?_
    rw [Table.mem_insert hl, or_comm]
    exact or_congr_right ⟨fun hr => ⟨hr, hfree r hr⟩, And.left⟩
  · cases h
    refine .reads (fun _ _ he => by cases he) fun _ _ he => ?_
    rcases hk with rfl | ⟨now, rfl⟩ <;> cases he

theorem step_writes {b : Backend} {s s' : Store} {k k' : Point}
    (h : k.step b s = some (s', k')) : Writes s k s' k' := by
  cases k with
  | reading a =>
    cases h
    exact .reads nofun nofun
  | dating a now =>
    cases h
    exact .reads nofun nofun
  | taking a now t =>
    simp only [Point.step, Option.some.injEq] at h
    split at h
    · rename_i hm
      cases h
      obtain ⟨q, hq⟩ := Option.isSome_iff_exists.1 hm
      obtain ⟨hq, hfree⟩ := Table.find?_some hq
      obtain ⟨hname, hown⟩ := AcquireArgs.free_iff.1 hfree
      refine .wins (.inr ⟨now, rfl⟩) (fun r hr hn => ?_) rfl fun r => mem_update hm
      rw [Table.unique hr hq (decide_eq_true (hn.trans hname.symm))]
      exact hown.imp_right fun hlt => ⟨now, rfl, hlt⟩
    · cases b with
      | sqlite => exact insert_writes (.inr ⟨now, rfl⟩) h
      | mongo =>
        cases h
        exact .reads nofun nofun
  | inserting a t =>
    simp only [Point.step, Option.some.injEq] at h
    exact insert_writes (.inl rfl) h
  | releasing name owner =>
    cases h
    exact .lets
  | acquired a t => cases h
  | refused a => cases h
  | released => cases h

end Leases
