import ImpiAgent.Lib.Agree
import ImpiAgent.Ward.Proof.Calls
import ImpiAgent.Ward.Proof.SecretExec
import ImpiAgent.Ward.Proof.Window

/-!
# What the door tells

An agent that is refused learns nothing of the policies: a secret that is not there, one it is not
listed for, and one of each look alike from outside (`door_blind`).
-/

namespace Ward

open Json Prog

variable {identifier : String → Bool} {shown : PyValue → String} {b : Broker} {d : Draws}
  {r : LeaseRequest} {tr tr' : List Seen}

/-! ## What an agent cannot see -/

/-- The calls an agent does not see: what its request is judged by, and the ledger. -/
def Hidden : Call → Prop
  | .getPolicy _ | .recordDecision _ => True
  | _ => False

instance hiddenDecidable : DecidablePred Hidden
  | .getPolicy _ | .recordDecision _ => .isTrue trivial
  | .status | .liveGrant .. | .approvers | .poster _ | .openDirect _ | .postConfirmation .. |
    .updateConfirmation .. | .wait .. | .createGrant _ | .read _ | .notices .. | .fold .. =>
    .isFalse id

/-- Everything else a lease was answered, in order. -/
def heard (tr : List Seen) : List Seen := tr.filter (¬Hidden ·.call)

/-- The agent may ask for the secret at all. -/
def Listed (agent : String) (policy : Option SecretPolicyRecord) : Prop :=
  ∃ p, policy = some p ∧ p.allows agent = true

/-- The same policy, or none that lists the agent. -/
def Alike (agent : String) (p p' : Option SecretPolicyRecord) : Prop :=
  p = p' ∨ ¬Listed agent p ∧ ¬Listed agent p'

/-- The policies are not looked at again, and each row was written. -/
def Settled : Seen → Prop
  | ⟨.getPolicy _, _⟩ => False
  | ⟨.recordDecision _, y⟩ => y = .ok .done
  | _ => True

theorem settled_of_not_hidden (x : Seen) (h : ¬Hidden x.call) : Settled x := by
  obtain ⟨c, y⟩ := x
  cases c <;> first | exact trivial | exact absurd trivial h

theorem settled_hidden (c : Call) (x y : Except Exc (Reply c)) (h : Hidden c)
    (hx : Settled ⟨c, x⟩) (hy : Settled ⟨c, y⟩) : x = y := by
  cases c with
  | getPolicy => exact hx.elim
  | recordDecision =>
    have hx' : x = .ok .done := hx
    have hy' : y = .ok .done := hy
    rw [hx', hy']
  | _ => exact h.elim

/-! ## The parts of a lease -/

def IsPolicy : Call → Prop
  | .getPolicy _ => True
  | _ => False

theorem plain_not_policy (c : Call) (h : c.plain = true) : ¬IsPolicy c := by
  cases c <;> first | exact id | cases h

theorem settles_quiet {α : Type} {p : Lease α} (hq : Quiet r p) (hp : Avoids IsPolicy p) :
    Settles Settled p := by
  refine .of_avoids (fun tr res h x hx hh => ?_) settled_of_not_hidden
  have hrecord := (hq tr res h).1 x hx
  have hpolicy := hp tr res h x hx
  generalize x.call = c at hh hrecord hpolicy
  cases c with
  | getPolicy => exact hpolicy trivial
  | recordDecision => exact hrecord trivial
  | _ => exact hh

theorem settles_record (row : ApprovalAudit) : Settles Settled (record row) := by
  refine .call fun x => ?_
  rcases x with e | (_ | e)
  · exact .inr ⟨e, rfl⟩
  · exact .inl ⟨rfl, .ret ()⟩
  · exact .inr ⟨e, rfl⟩

theorem settles_refuse {verdicts : Verdicts} {governing : Decision} {approver : String}
    {grantIds : GrantIds} : Settles Settled (refuse d r verdicts governing approver grantIds) :=
  (Settles.forM fun _ => settles_record _).bind fun _ => .ret _

theorem settles_serve {verdicts : Verdicts} {uncovered : List String} {decisions : Decisions}
    {grantIds : GrantIds} {approver : String} :
    Settles Settled (serve b d r verdicts uncovered decisions grantIds approver) := by
  refine (settles_quiet (r := r) (quiet_readAll _)
    (avoids_readAll fun _ _ => id)).bind fun values => ?_
  cases values with
  | error sealed => exact settles_refuse
  | ok values =>
    refine (Settles.forM fun _ => settles_record _).bind fun _ => .ite ?_ (.ret _)
    exact (settles_quiet (r := r) (quiet_notify _)
      (avoids_notify plain_not_policy _)).bind fun _ => .ret _

theorem settles_await {c : Call} (hc : ¬Hidden c) : Settles Settled (await c) :=
  .of_avoids (.await hc) settled_of_not_hidden

theorem settles_answered {policies : Policies} {uncovered : List String}
    {answer : Approvals.Approval} {x : Decisions × GrantIds} {name : String} :
    Settles Settled (answered b d r policies uncovered answer x name) :=
  .ite (((settles_await id).bind fun _ => .ret _).bind fun _ => .ret _) (.ret _)

/-! ## What a refusal says -/

theorem evaluate_unlisted {agent : String} {command : List String}
    {policy : Option SecretPolicyRecord} (h : ¬Listed agent policy) :
    (evaluate policy agent command).outcome = .refuse ∧
      ∀ e, (evaluate policy agent command).decision = some e → wireStatus e = wireRefused := by
  cases policy with
  | none =>
    refine ⟨rfl, fun e he => ?_⟩
    cases he
    rfl
  | some p =>
    have ha : ¬p.allows agent = true := fun ha => h ⟨p, rfl, ha⟩
    rw [evaluate, if_pos ha]
    refine ⟨rfl, fun e he => ?_⟩
    cases he
    rfl

theorem evaluate_listed {agent : String} {command : List String}
    {policy : Option SecretPolicyRecord}
    (h : (evaluate policy agent command).outcome = .refuse) : ¬Listed agent policy := by
  rintro ⟨p, rfl, ha⟩
  rw [evaluate, if_neg (not_not.2 ha)] at h
  split at h
  · cases h
  · dsimp only at h
    split at h <;> split at h <;> cases h

/-- The policies a lease is judged by are those its way shows. -/
theorem policies_eq {policies : Policies} {tr₁ tr₂ : List Seen}
    (h : Exec (r.names.mapM fun name => do
      let policy : Option SecretPolicyRecord ← await (Call.getPolicy name)
      return (name, policy)) tr₁ (.ok policies)) :
    policies = r.names.map fun name => (name, policyIn (tr₁ ++ tr₂) name) := by
  obtain ⟨hk, -⟩ := exec_policies h
  have hd : Dict.Distinct policies := by
    rw [Dict.Distinct, hk]
    exact names_nodup r
  rw [← hk, List.map_map]
  refine ((List.map_congr_left fun x hx => ?_).trans (List.map_id policies)).symm
  have hx' : policies.lookup x.1 = some x.2 := hd.lookup hx
  change (x.1, policyIn (tr₁ ++ tr₂) x.1) = x
  rw [policyIn, List.findSome?_append, policies_shown h, hx']
  rfl

/-- A secret the agent is not listed for, and one that is not there, are refused in one word. -/
theorem lease_refused {result : LeaseResult} (h : Exec (lease b d r) tr (.ok result))
    (hn : ∃ name ∈ r.names, ¬Listed r.agent (policyIn tr name)) :
    result.granted = false ∧ wireStatus result.decision = wireRefused := by
  obtain ⟨name, hname, hlisted⟩ := hn
  obtain ⟨tr₁, tr₂, policies, rfl, h₁, h2⟩ := exec_bind_ok.1 h
  have hp := @policies_eq _ _ tr₁ tr₂ h₁
  cases hf : (judge r policies).find? (·.2.outcome = .refuse) with
  | none =>
    have hm : (name, evaluate (policyIn (tr₁ ++ tr₂) name) r.agent r.command) ∈ judge r policies :=
      List.mem_map.2 ⟨_, hp ▸ List.mem_map_of_mem hname, rfl⟩
    have hout := List.find?_eq_none.1 hf _ hm
    simp [(evaluate_unlisted hlisted).1] at hout
  | some x =>
    have hx : x.2.outcome = .refuse := by simpa using List.find?_some hf
    obtain ⟨y, -, rfl⟩ := List.mem_map.1 (List.mem_of_find?_eq_some hf)
    obtain ⟨e, he, -⟩ := exists_of_refuse hx
    have hword := (evaluate_unlisted (evaluate_listed hx)).2 e he
    dsimp only at h2
    rw [hf, Option.bind_some, he] at h2
    obtain ⟨_, _, _, _, _, h3⟩ := exec_bind_ok.1 h2
    cases h3
    exact ⟨rfl, hword⟩

theorem heard_policies {policies : Policies} {tr₁ tr₂ : List Seen}
    (h : Exec (r.names.mapM fun name => do
      let policy : Option SecretPolicyRecord ← await (Call.getPolicy name)
      return (name, policy)) tr₁ (.ok policies)) : heard (tr₁ ++ tr₂) = heard tr₂ := by
  have hall : ∀ x ∈ tr₁, Hidden x.call := by
    have hasks : Avoids (fun c : Call => ¬Hidden c) (r.names.mapM fun name => (do
        let policy : Option SecretPolicyRecord ← await (Call.getPolicy name)
        return (name, policy) : Lease (String × Option SecretPolicyRecord))) :=
      .mapM fun name => (Avoids.await (c := Call.getPolicy name) (not_not.2 trivial)).bind
        fun _ => .ret _
    exact fun x hx => not_not.1 (hasks _ _ h x hx)
  have hnone : heard tr₁ = [] := List.filter_eq_nil_iff.2 fun x hx => by simpa using hall x hx
  rw [heard, List.filter_append]
  exact congrArg (· ++ heard tr₂) hnone

/-- Two leases that were judged by the same policies, and were answered the same. -/
theorem lease_agree {result result' : LeaseResult} (h : Exec (lease b d r) tr (.ok result))
    (h' : Exec (lease b d r) tr' (.ok result'))
    (hp : ∀ name ∈ r.names, policyIn tr name = policyIn tr' name) (hsame : heard tr = heard tr') :
    result = result' := by
  obtain ⟨tr₁, tr₂, policies, rfl, h₁, h2⟩ := exec_bind_ok.1 h
  obtain ⟨tr₁', tr₂', policies', rfl, h₁', h2'⟩ := exec_bind_ok.1 h'
  have hpolicies : policies' = policies := by
    rw [@policies_eq _ _ tr₁ tr₂ h₁, @policies_eq _ _ tr₁' tr₂' h₁']
    exact List.map_congr_left fun name hn => by rw [hp name hn]
  subst hpolicies
  rw [heard_policies h₁, heard_policies h₁'] at hsame
  refine Settles.agree ?_ settled_hidden h2 h2' hsame
  dsimp only
  split
  · exact settles_refuse
  refine (settles_await id).bind fun state => .ite settles_refuse ?_
  refine (Settles.mapM fun name => (settles_await id).bind fun _ => .ret _).bind fun covered => ?_
  refine .ite settles_serve ?_
  refine (settles_quiet (r := r) (quiet_ask _)
    (avoids_ask plain_not_policy (fun _ _ => id) _)).bind fun answer => ?_
  cases answer with
  | none => exact settles_refuse
  | some answer =>
    exact .ite settles_refuse ((Settles.foldlM (fun _ _ => settles_answered) _).bind fun _ =>
      settles_serve)

/-! ## The door -/

theorem leaseRequest_agent {agent : String} {body : PyValue} {r : LeaseRequest}
    (h : leaseRequest identifier shown agent body = .ok r) : r.agent = agent := by
  unfold leaseRequest at h
  split at h
  · split at h
    · split at h
      · cases h
      · split at h
        · cases h
        · cases h
          rfl
    · cases h
  · cases h

/-- Where a request's policies are alike for the agent, and all else it was answered is the same, the
door answers the same: it does not tell a secret that is not there from one that is another's. -/
theorem door_blind {agent : String} {body : Option PyValue} {a a' : Response}
    (h : Exec (door identifier shown b d agent body) tr (.ok a))
    (h' : Exec (door identifier shown b d agent body) tr' (.ok a'))
    (hpolicies : ∀ name, Alike agent (policyIn tr name) (policyIn tr' name))
    (hheard : heard tr = heard tr') : a = a' := by
  unfold door at h h'
  by_cases hagent : agent = "" ∨ agent = operatorCn
  · rw [if_pos hagent] at h h'
    cases h
    cases h'
    rfl
  rw [if_neg hagent] at h h'
  cases hr : leaseRequest identifier shown agent (body.getD (.dict [])) with
  | error e =>
    rw [hr] at h h'
    cases h
    cases h'
    rfl
  | ok r =>
    rw [hr] at h h'
    have hprincipal : r.agent = agent := leaseRequest_agent hr
    obtain ⟨tr₁, tr₂, result, rfl, h₁, h₂⟩ := exec_bind_ok.1 h
    obtain ⟨tr₁', tr₂', result', rfl, h₁', h₂'⟩ := exec_bind_ok.1 h'
    obtain ⟨rfl, ha⟩ := exec_pure.1 h₂
    obtain ⟨rfl, ha'⟩ := exec_pure.1 h₂'
    cases ha
    cases ha'
    rw [List.append_nil, List.append_nil] at hheard
    simp only [List.append_nil] at hpolicies
    by_cases hall : ∀ name ∈ r.names, Listed agent (policyIn tr₁ name)
    · have hsame : ∀ name ∈ r.names, policyIn tr₁ name = policyIn tr₁' name := fun name hn =>
        (hpolicies name).resolve_right fun hno => hno.1 (hall name hn)
      rw [lease_agree h₁ h₁' hsame hheard]
    · push Not at hall
      obtain ⟨name, hn, hlisted⟩ := hall
      have hlisted' : ¬Listed agent (policyIn tr₁' name) := by
        rcases hpolicies name with heq | ⟨-, hno⟩
        · rwa [← heq]
        · exact hno
      rw [← hprincipal] at hlisted hlisted'
      obtain ⟨hg, hw⟩ := lease_refused h₁ ⟨name, hn, hlisted⟩
      obtain ⟨hg', hw'⟩ := lease_refused h₁' ⟨name, hn, hlisted'⟩
      simp [LeaseResult.response, hg, hg', hw, hw']

namespace Sample

/-- A store with the one policy, if any. -/
def ruled (p : Option SecretPolicyRecord) : (c : Call) → Except Exc (Reply c)
  | .getPolicy _ => .ok p
  | .recordDecision _ => .ok .done
  | _ => .error .other

def knocking : Lease Response :=
  door (· ≠ "") (fun _ => "") broker draws "ops"
    (some (SecretExec.payload asked ["git", "push"]))

def knocked (p : Option SecretPolicyRecord) : List Seen × Except Exc Response :=
  knocking.runWith (ruled p)

/-- A policy that lists somebody else. -/
def others : SecretPolicyRecord := ⟨"github", .always, 60, "finance", []⟩

theorem reply_runWith {α : Type} (o : ∀ c, Except Exc (Reply c)) (p : Lease α) :
    ∀ x ∈ (p.runWith o).1, x.reply = o x.call := by
  induction p with
  | ret | raise => exact List.forall_mem_nil _
  | call c k ih => exact List.forall_mem_cons.2 ⟨rfl, ih (o c)⟩

theorem unlisted_knocked {p : Option SecretPolicyRecord} (hp : ¬Listed "ops" p) (name : String) :
    ¬Listed "ops" (policyIn (knocked p).1 name) := by
  cases hf : (knocked p).1.findSome? (policyShown name) with
  | none =>
    rw [policyIn, hf]
    rintro ⟨_, h, -⟩
    cases h
  | some q =>
    obtain ⟨x, hx, hq⟩ := List.exists_of_findSome?_eq_some hf
    have hreply := reply_runWith (ruled p) _ x hx
    obtain ⟨c, y⟩ := x
    cases c <;> try cases hq
    have hy : y = .ok p := hreply
    rw [hy] at hq
    simp only [policyShown] at hq
    split at hq
    · cases hq
      rwa [policyIn, hf]
    · cases hq

end Sample

/-- One asks for a secret that is not there, one for another's. -/
theorem door_blind_sample :
    policyIn (Sample.knocked none).1 "github" = none ∧
      policyIn (Sample.knocked (some Sample.others)).1 "github" = some Sample.others ∧
      Response.refused "refused" = Response.refused "refused" := by
  have hothers : ¬Listed "ops" (some Sample.others) := by
    rintro ⟨p, hp, ha⟩
    cases hp
    revert ha
    decide
  have hnone : ¬Listed "ops" none := by
    rintro ⟨p, hp, -⟩
    cases hp
  have h : Exec Sample.knocking (Sample.knocked none).1 (Sample.knocked none).2 :=
    exec_runWith (Sample.ruled none) Sample.knocking
  have h' : Exec Sample.knocking (Sample.knocked (some Sample.others)).1
      (Sample.knocked (some Sample.others)).2 :=
    exec_runWith (Sample.ruled (some Sample.others)) Sample.knocking
  have hrefused : (Sample.knocked none).2 = .ok (Response.refused "refused") := by decide
  have hrefused' : (Sample.knocked (some Sample.others)).2 = .ok (Response.refused "refused") := by
    decide
  rw [hrefused] at h
  rw [hrefused'] at h'
  have hheard : heard (Sample.knocked none).1 = heard (Sample.knocked (some Sample.others)).1 := by
    rw [List.eq_nil_of_length_eq_zero (by decide : (heard (Sample.knocked none).1).length = 0),
      List.eq_nil_of_length_eq_zero
        (by decide : (heard (Sample.knocked (some Sample.others)).1).length = 0)]
  exact ⟨by decide, by decide, door_blind h h' (fun name =>
    .inr ⟨Sample.unlisted_knocked hnone name, Sample.unlisted_knocked hothers name⟩) hheard⟩

end Ward
