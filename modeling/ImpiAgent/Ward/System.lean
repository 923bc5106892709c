import ImpiAgent.Lib.Pool
import ImpiAgent.Lib.Table
import ImpiAgent.Ward.Broker

/-!
# Leases beside operators

Any number of leases over the one store, and what operators do to it meanwhile: `put_policy`,
`delete_policy`, `revoke_scope` and `revoke_grant`, each statement of an operation on its own, in any
order. The store answers a lease from what it holds at that moment; everybody else answers as they
like. A statement that writes and raises may have been carried out.
-/

namespace Ward

open Prog

instance : Keyed SecretPolicyRecord where
  clash a b := a.name = b.name
  refl _ := decide_eq_true rfl
  symm _ _ := decide_eq_decide.2 eq_comm

/-- The policies and the windows. -/
structure Store where
  policies : Table SecretPolicyRecord
  grants : List ApprovalGrant

namespace Store

def getPolicy (s : Store) (name : String) : Option SecretPolicyRecord :=
  s.policies.find? (·.name = name)

/-- `put_policy`: an upsert. -/
def putPolicy (s : Store) (policy : SecretPolicyRecord) : Store :=
  { s with policies := s.policies.put policy }

def deletePolicy (s : Store) (name : String) : Store :=
  { s with policies := s.policies.delete (·.name = name) }

def createGrant (s : Store) (grant : ApprovalGrant) : Store :=
  { s with grants := s.grants ++ [grant] }

/-- `revoke_scope`: every window over one secret. -/
def revokeScope (s : Store) (name : String) : Store :=
  { s with grants := s.grants.map fun g =>
      if g.kind = kindSecret ∧ g.scope = name then { g with revoked := true } else g }

def revokeGrant (s : Store) (id : String) : Store :=
  { s with grants := s.grants.map fun g => if g.id = id then { g with revoked := true } else g }

/-- The policy in force permits the agent the secret. -/
def Permits (s : Store) (agent name : String) : Prop :=
  ∃ p, s.getPolicy name = some p ∧ p.allows agent = true

/-- What a call of a lease comes to, given what everybody else would answer; of a write that raises,
whether it `landed`. -/
def answer (s : Store) (landed : Bool) : (c : Call) → Except Exc (Reply c) →
    Except Exc (Reply c) × Store
  | .getPolicy name, .ok _ => (.ok (s.getPolicy name), s)
  | .liveGrant _ _, .ok (g : Grants) => (.ok (⟨s.grants, g.now⟩ : Grants), s)
  | .createGrant grant, .ok x => (.ok x, s.createGrant grant)
  | .createGrant grant, .error e => (.error e, if landed then s.createGrant grant else s)
  | _, x => (x, s)

end Store

/-- A lease: what it has seen, and what is left of it. -/
structure Running where
  draws : Draws
  request : LeaseRequest
  seen : List (Step Exc Call Reply)
  rest : Lease LeaseResult

abbrev State := Pool Store Running

inductive Event
  | lease (d : Draws) (r : LeaseRequest)
  | act (i : Nat) (landed : Bool) (others : ∀ c, Except Exc (Reply c))
  | drop (i : Nat)
  | putPolicy (policy : SecretPolicyRecord)
  | deletePolicy (name : String)
  | revokeScope (name : String)
  | revokeGrant (id : String)

/-- Lease `i` is answered. -/
def onAct (s : State) (i : Nat) (landed : Bool) (others : ∀ c, Except Exc (Reply c)) :
    Option State :=
  match s.calls[i]? with
  | some (some ⟨d, r, seen, .call c k⟩) =>
    let (x, store) := s.store.answer landed c (others c)
    some (s.put i store ⟨d, r, seen ++ [⟨c, x⟩], k x⟩)
  | _ => none

def next (b : Broker) (s : State) : Event → Option State
  | .lease d r => some (s.start ⟨d, r, [], lease b d r⟩)
  | .act i landed others => onAct s i landed others
  | .drop i => some (s.kill i)
  | .putPolicy policy => some { s with store := s.store.putPolicy policy }
  | .deletePolicy name => some { s with store := s.store.deletePolicy name }
  | .revokeScope name => some { s with store := s.store.revokeScope name }
  | .revokeGrant id => some { s with store := s.store.revokeGrant id }

/-- Leases and operators, over any store. -/
def lts (b : Broker) : Lts State Event where
  init s := s.calls = []
  next := next b

/-! ## What a lease takes -/

/-- The agent and the secret of a call that reads one, or opens a window on one. -/
def Call.takes (agent : String) : Call → Option (String × String)
  | .read ref => some (agent, ref.name)
  | .createGrant grant => some (grant.principal, grant.scope)
  | _ => none

/-- The lease is about to take the secret `name` for the agent. -/
def Running.Taking (l : Running) (agent name : String) : Prop :=
  ∃ c k, l.rest = .call c k ∧ c.takes l.request.agent = some (agent, name)

/-- The lease has looked up the policy of the secret, and was shown `p`. -/
def Running.Shown (l : Running) (name : String) (p : SecretPolicyRecord) : Prop :=
  (⟨.getPolicy name, .ok (some p)⟩ : Step Exc Call Reply) ∈ l.seen

end Ward
