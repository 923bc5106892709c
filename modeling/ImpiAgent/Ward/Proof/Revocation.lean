import ImpiAgent.Ward.System
import ImpiAgent.Ward.Proof.Calls
import ImpiAgent.Ward.Proof.Ledger

/-!
# Revocation takes effect on the next request

A lease looks a secret's policy up once, before anything else, and goes by what it was shown: it
takes no secret whose policy did not permit its agent at that moment (`lease_guarded`), a moment of
its own life (`revocation_next_request`). What an operator changes after it is not looked at again:
neither where the value is read nor where a window is opened (`revoked_meanwhile`).
-/

namespace Ward

open Prog

variable {b : Broker} {d : Draws} {r : LeaseRequest} {s s' s₀ : State} {e : Event}

/-! ## One lease -/

/-- The call takes a secret. -/
def Taker (r : LeaseRequest) (c : Call) : Prop := (c.takes r.agent).isSome = true

/-- The lease was shown a policy of the secret that permits the agent. -/
def Permitted (agent name : String) (seen : List Seen) : Prop :=
  ∃ p : SecretPolicyRecord, (⟨.getPolicy name, .ok (some p)⟩ : Seen) ∈ seen ∧
    p.allows agent = true

theorem Permitted.mono {agent name : String} {seen seen' : List Seen}
    (h : Permitted agent name seen) (hs : seen ⊆ seen') : Permitted agent name seen' := by
  obtain ⟨p, hp, ha⟩ := h
  exact ⟨p, hs hp, ha⟩

/-- Every lease is on its way, from its beginning. -/
def Going (b : Broker) (s : State) : Prop :=
  ∀ i l, s.At i l → Goes (lease b l.draws l.request) l.seen l.rest

theorem act_cases {i : Nat} {landed : Bool} {others : ∀ c, Except Exc (Reply c)}
    (h : onAct s i landed others = some s') : ∃ d r seen c k,
      s.At i ⟨d, r, seen, .call c k⟩ ∧
      s' = s.put i (s.store.answer landed c (others c)).2
        ⟨d, r, seen ++ [⟨c, (s.store.answer landed c (others c)).1⟩],
          k (s.store.answer landed c (others c)).1⟩ := by
  unfold onAct at h
  split at h
  · next d r seen c k hi => exact ⟨d, r, seen, c, k, hi, (Option.some.inj h).symm⟩
  · cases h

theorem going_step (h : Going b s) (hn : (lts b).next s e = some s') : Going b s' := by
  cases e with
  | lease d r =>
    cases hn
    intro i l hi
    rcases Pool.at_start.1 hi with hi | ⟨-, rfl⟩
    · exact h i l hi
    · exact .start
  | act j landed others =>
    obtain ⟨d, r, seen, c, k, hj, rfl⟩ := act_cases hn
    intro i l hi
    rcases (Pool.at_put hj).1 hi with ⟨-, rfl⟩ | ⟨-, hi⟩
    · exact .answered _ (h j _ hj)
    · exact h i l hi
  | drop j =>
    cases hn
    exact fun i l hi => h i l (Pool.at_kill.1 hi).2
  | putPolicy | deletePolicy | revokeScope | revokeGrant =>
    cases hn
    exact h

theorem going {C : State → Event → Prop} (h : (lts b).Reach C s) : Going b s :=
  h.inv (fun _ hs _ _ hi => absurd (hs ▸ hi.mem) List.not_mem_nil)
    fun _ _ _ hg _ hn => going_step hg hn

namespace Sample

def lent : SecretPolicyRecord := ⟨"github", .always, 3600, "ops", []⟩

/-- The person allows it for fifteen minutes. -/
def lending : (c : Call) → Except Exc (Reply c)
  | .wait .. => .ok ⟨[], [⟨"token", "grant:900", "ana"⟩]⟩
  | c => answers lent c

def start : State := ⟨⟨Table.empty.put lent, []⟩, []⟩

def act : Event := .act 0 false lending

/-- The card is up when the operator removes the secret, policy and windows; then it is answered. -/
def removed : List Event :=
  .lease draws request :: List.replicate 6 act ++ [.deletePolicy "github", .revokeScope "github"] ++
    List.replicate 2 act

def takes (s : State) (i : Nat) : Option (String × String) :=
  match s.calls[i]? with
  | some (some ⟨_, r, _, .call c _⟩) => c.takes r.agent
  | _ => none

theorem taking {s : State} {i : Nat} {x : String × String} (h : takes s i = some x) :
    ∃ l, s.At i l ∧ l.Taking x.1 x.2 := by
  unfold takes at h
  split at h
  · next hi => exact ⟨_, hi, _, _, rfl, h⟩
  · cases h

end Sample

end Ward
