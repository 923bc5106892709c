import ImpiAgent.Gateways.Leased
import ImpiAgent.Store.Proof.Leases

/-!
# What a stopped gateway leaves behind

A store call under way outlives the coroutine that issued it: a renewal that lands after the release
takes the lease back (`renewed_after_stop`), for a gateway that is gone. `Ordered` says when the
release is the last word: nothing that may still acquire is under way when the lease is let go, and
whoever still holds it is asked to let it go. Under it `Inv` holds, and from it `never_again`.
-/

namespace Leases

variable {b : Backend} {s s' : Store} {k k' : Point}

/-- The acquire a call is. -/
def Point.args : Point → Option AcquireArgs
  | .reading a | .dating a _ | .taking a _ _ | .inserting a _ | .acquired a _ | .refused a => some a
  | .releasing .. | .released => none

/-- The call may still acquire. -/
def Point.flying : Point → Bool
  | .reading _ | .dating .. | .taking .. | .inserting .. => true
  | _ => false

/-- The call has found the lease not its own. -/
def Point.turned : Point → Bool
  | .inserting .. | .refused _ => true
  | _ => false

/-- The lease's row names the owner. -/
def Named (name owner : String) (s : Store) : Prop := ∃ r ∈ s.leases, r.name = name ∧ r.owner = owner

theorem insert_cases {a : AcquireArgs} {t : Time} (h : insertOrRefuse a t s = (s', k')) :
    k' = .acquired a t ∨ s' = s ∧ k' = .refused a := by
  unfold insertOrRefuse at h
  cases hi : s.insert a t <;> rw [hi] at h <;> cases h
  · exact .inr ⟨rfl, rfl⟩
  · exact .inl rfl

end Leases

namespace LeasedGateway

open Leases

variable {b : Backend} {g : Settings} {s s' : State} {e : Event}

/-- The acquire whose answer `run` waits for, or waited for when it was cancelled. -/
def Run.call : Run → Option Nat
  | .acquiring call => some call
  | .cancelled call => call
  | _ => none

namespace State

/-- A store call of the instance may still acquire. -/
def Flying (s : State) (j : Nat) : Prop := j ∈ s.mine ∧ ∃ k, s.db.At j k ∧ k.flying = true

/-- The row names the instance. -/
def Named (g : Settings) (s : State) : Prop := Leases.Named g.name g.owner s.db.store

/-- A release of the instance is under way. -/
def LettingGo (g : Settings) (s : State) : Prop :=
  ∃ j ∈ s.mine, s.db.At j (.releasing g.name g.owner)

/-- A call of `stop` has looked whether the lease is held. -/
def Past (s : State) : Prop := .done ∈ s.stops ∨ ∃ j, .releasing j ∈ s.stops

end State

/-- The release is the last word: when `stop` looks whether the lease is held, and when `run` lets it
go, no acquire of the instance is under way; `stop` does not miss one that was won and never told;
the renewal does not end on `stop` before `stop` has looked; and a release is carried out. -/
structure Ordered (g : Settings) (s : State) (e : Event) : Prop where
  landed : (∃ i, e = .stopClosed i) ∨ (∃ c, e = .gatewayEnded c) → ∀ j, ¬ s.Flying j
  told : ∀ i, e = .stopClosed i → s.held = false → ∀ j, s.run.call = some j →
    ∀ a t, ¬ s.db.At j (.acquired a t)
  kept : e = .keepEnded → s.keep = .ended false → s.held = true → ∃ j, .releasing j ∈ s.stops
  carried : ∀ j, e = .drop j → j ∈ s.mine → ¬ s.db.At j (.releasing g.name g.owner)

/-- A store call of the instance. -/
def Own (g : Settings) (k : Point) : Prop :=
  k.args = some g.args ∨ k = .releasing g.name g.owner ∨ k = .released

/-- `_keep` is under way. -/
def Keep.alive : Keep → Bool
  | .looking | .sleeping | .acquiring _ => true
  | .idle | .ended _ => false

/-- What holds of the instance and its store calls. -/
structure Inv (g : Settings) (s : State) : Prop where
  own : ∀ j ∈ s.mine, ∀ k, s.db.At j k → Own g k
  theirs : ∀ j, j ∉ s.mine → ∀ k a, s.db.At j k → k.args = some a →
    ¬(a.name = g.name ∧ a.owner = g.owner)
  old : ∀ j ∈ s.mine, j < s.fresh
  calls : ∀ j, s.run.call = some j ∨ s.keep = .acquiring j → j ∈ s.mine
  asked : s.stops ≠ [] → s.stopped = true
  alive : s.keep.alive = true → s.run = .running ∧ (s.held = true ∨ .done ∈ s.stops)
  holds : s.held = true → s.run = .running ∨ s.run = .gathering ∨ s.run = .cancelled none
  done : .done ∈ s.stops → s.held = false
  flight : ∀ j, s.Flying j → s.run.call = some j ∨
    (s.run = .running ∧ s.keep = .acquiring j ∨ s.run = .gathering ∨ s.run = .cancelled none) ∧
      s.held = true
  past : s.Past → (∀ j, ¬ s.Flying j) ∧
    ∀ j, s.run.call = some j → ∀ a t, ¬ s.db.At j (.acquired a t)
  named : s.Named g → s.held = true ∨
    (∃ j a t, s.run.call = some j ∧ s.db.At j (.acquired a t)) ∨ s.LettingGo g
  turned : s.run = .running → ∀ j k, s.keep = .acquiring j → s.db.At j k → k.turned = true →
    ¬ s.Named g
  refused : s.run = .running → s.keep = .ended true → ¬ s.Named g
  releases : ∀ j, .releasing j ∈ s.stops →
    j ∈ s.mine ∧ (s.db.At j (.releasing g.name g.owner) ∨ ¬ s.Named g)

/-! ## The store calls go on -/

/-- What the store calls do while the instance does nothing. -/
structure Moves (g : Settings) (s : State) (db : Leases.State) : Prop where
  own : ∀ j ∈ s.mine, ∀ k, db.At j k → Own g k
  theirs : ∀ j, j ∉ s.mine → ∀ k a, db.At j k → k.args = some a →
    ¬(a.name = g.name ∧ a.owner = g.owner)
  old : s.fresh ≤ db.calls.length
  flying : ∀ j ∈ s.mine, ∀ k, db.At j k → k.flying = true → s.Flying j
  won : ∀ j ∈ s.mine, ∀ a t, db.At j (.acquired a t) → s.db.At j (.acquired a t) ∨ s.Flying j
  stays : ∀ j ∈ s.mine, ∀ a t, s.db.At j (.acquired a t) → db.At j (.acquired a t)
  named : Leases.Named g.name g.owner db.store →
    s.Named g ∨ ∃ j a t, s.Flying j ∧ db.At j (.acquired a t)
  lets : ∀ j ∈ s.mine, s.db.At j (.releasing g.name g.owner) →
    db.At j (.releasing g.name g.owner) ∨ ¬ Leases.Named g.name g.owner db.store
  turned : ∀ j ∈ s.mine, ∀ k, db.At j k → k.turned = true →
    (∃ k₀, s.db.At j k₀ ∧ k₀.turned = true) ∨ ¬ Leases.Named g.name g.owner db.store

/-- `run` is at a point at which it neither waits for an acquire nor has the lease. -/
structure Idle (s : State) : Prop where
  call : s.run.call = none
  held : s.held = false
  keep : s.keep.alive = false
  flying : ∀ j, ¬ s.Flying j

/-- The points of `run` at which it is idle. -/
def Run.off : Run → Bool
  | .idle | .sleeping | .releasing .. | .closing | .returned _ | .crashed => true
  | .acquiring _ | .running | .gathering | .cancelled _ => false

theorem Run.call_of_off {r : Run} (h : r.off = true) : r.call = none := by
  cases r <;> first | rfl | cases h

theorem idle_of (h : Inv g s) (hr : s.run.off = true) : Idle s where
  call := Run.call_of_off hr
  held := by
    cases hh : s.held with
    | false => rfl
    | true => rcases h.holds hh with he | he | he <;> rw [he] at hr <;> cases hr
  keep := by
    cases hk : s.keep.alive with
    | false => rfl
    | true =>
      rw [(h.alive hk).1] at hr
      cases hr
  flying j hj := by
    rcases h.flight j hj with hc | ⟨⟨he, -⟩ | he | he, -⟩
    · rw [Run.call_of_off hr] at hc
      cases hc
    · rw [he] at hr
      cases hr
    · rw [he] at hr
      cases hr
    · rw [he] at hr
      cases hr

/-- Only the release under way is left of an idle instance's lease. -/
theorem Idle.named (hi : Idle s) (h : Inv g s) (hn : s.Named g) : s.LettingGo g := by
  rcases h.named hn with hh | ⟨j, a, t, hj, -⟩ | hl
  · rw [hi.held] at hh
    cases hh
  · rw [hi.call] at hj
    cases hj
  · exact hl

namespace Sample

def settings : Settings := ⟨"gateway:chat:bot", "pod-a", 30000000⟩

def start : State := ⟨⟨⟨0, .empty⟩, []⟩, [], false, false, .idle, .idle, []⟩

/-- Another owner takes the lease. -/
def taken : List Event :=
  [.acquire ⟨"gateway:chat:bot", "pod-b", 30000000⟩, .call 3, .call 3, .call 3]

end Sample

end LeasedGateway
