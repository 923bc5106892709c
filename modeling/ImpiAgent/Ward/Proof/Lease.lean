import ImpiAgent.Ward.Proof.Ledger

/-!
# Who gets a value

What a granted lease was answered on its way: for each secret a policy that lists the agent, and what
cleared the secret. Everything else a lease returns carries no value.
-/

namespace Ward

open Approvals Prog

variable {b : Broker} {d : Draws} {r : LeaseRequest} {tr : List Seen}

/-- A name's policy asks nobody, a rule of it covers the command, a window was open, or someone the
card was addressed to allowed the request. -/
inductive Cleared (b : Broker) (d : Draws) (r : LeaseRequest) (tr : List Seen) (name : String)
    (p : SecretPolicyRecord) : Prop
  | never : p.approval = .never → Cleared b d r tr name p
  | rule {rule : Rule} : rule ∈ p.rules → ruleMatches rule r.command = true →
      Cleared b d r tr name p
  | window {grants : Grants} {grant : ApprovalGrant} :
      (⟨.liveGrant r.agent name, .ok grants⟩ : Seen) ∈ tr → grant ∈ grants.rows →
      grant.live r.agent name grants.now = true → Cleared b d r tr name p
  | answer {entry : Pending} {waited : Waited} {click : Click} :
      (⟨.approvers, .ok entry.approvers⟩ : Seen) ∈ tr →
      (⟨.wait d.token entry, .ok waited⟩ : Seen) ∈ tr → name ∈ entry.scopes →
      click ∈ waited.clicks → click.token = d.token → click.user ∈ entry.approvers →
      (Approvals.decide b.int click.value click.user).allowed = true → Cleared b d r tr name p

/-- The policy in force allows the agent, and the name was cleared. -/
def Served (b : Broker) (d : Draws) (r : LeaseRequest) (tr : List Seen) (name : String) : Prop :=
  ∃ p : SecretPolicyRecord, (⟨.getPolicy name, .ok (some p)⟩ : Seen) ∈ tr ∧
    p.allows r.agent = true ∧ Cleared b d r tr name p

/-- A result that carries nothing. -/
def LeaseResult.Empty (result : LeaseResult) : Prop := result.granted = false ∧ result.values = []

theorem Cleared.mono {tr tr' : List Seen} {name : String} {p : SecretPolicyRecord}
    (h : Cleared b d r tr name p) (hs : tr ⊆ tr') : Cleared b d r tr' name p := by
  cases h with
  | never h => exact .never h
  | rule hm h => exact .rule hm h
  | window h hm hl => exact .window (hs h) hm hl
  | answer ha hw hn hc ht hu hd => exact .answer (hs ha) (hs hw) hn hc ht hu hd

theorem refuse_empty {verdicts : Verdicts} {governing : Decision} {approver : String}
    {grantIds : GrantIds} {result : LeaseResult}
    (h : Exec (refuse d r verdicts governing approver grantIds) tr (.ok result)) :
    result.Empty := by
  obtain ⟨_, _, _, _, _, h'⟩ := exec_bind_ok.1 h
  cases h'
  exact ⟨rfl, rfl⟩

/-- An answer that allows is the click of someone the card was addressed to. -/
theorem exec_ask {ceilingS : Int} {answer : Approval}
    (h : Exec (ask b d r ceilingS) tr (.ok (some answer))) (ha : answer.allowed = true)
    {name : String} (hn : name ∈ r.names) {p : SecretPolicyRecord} : Cleared b d r tr name p := by
  obtain ⟨tr₁, _, approvers, rfl, h₁, h2⟩ := exec_bind_ok.1 h
  obtain ⟨tr₂, _, poster, rfl, -, h3⟩ := exec_bind_ok.1 h2
  split at h3
  · cases h3
  next hsome =>
  obtain ⟨tr₃, _, channel, rfl, -, h4⟩ := exec_bind_ok.1 h3
  split at h4
  · cases h4
  obtain ⟨tr₄, _, posted, rfl, -, h5⟩ := exec_bind_ok.1 h4
  cases posted with
  | none => cases h5
  | some postId =>
    obtain ⟨tr₅, _, waited, rfl, h₅, h6⟩ := exec_bind_ok.1 h5
    obtain ⟨tr₆, _, _, rfl, -, h7⟩ := exec_bind_ok.1 h6
    obtain ⟨rfl, h8⟩ := exec_pure.1 h7
    cases h8
    have hids : tr₁ = [⟨.approvers, .ok approvers⟩] := exec_await.1 h₁
    have hwait : tr₅ = [⟨.wait d.token ⟨kindSecret, r.agent, r.names, approvers⟩, .ok waited⟩] :=
      exec_await.1 h₅
    cases hset : (waited.others.register d.token ⟨kindSecret, r.agent, r.names, approvers⟩).settled
        b.int d.token waited.clicks with
    | none =>
      rw [hset] at ha
      cases ha
    | some x =>
      rw [hset] at ha
      have hreg : (waited.others.register d.token
          ⟨kindSecret, r.agent, r.names, approvers⟩).lookup d.token =
            some ⟨kindSecret, r.agent, r.names, approvers⟩ := by
        rw [Registry.register, Dict.lookup_assign, if_pos rfl]
      obtain ⟨click, hclick, htoken, hmay, rfl⟩ := mem_of_settled hreg hset
      have huser : click.user ∈ approvers := by
        rw [Pending.mayAnswer, Bool.or_eq_true] at hmay
        exact hmay.elim (fun h => absurd (.inl h) hsome) List.contains_iff_mem.1
      have hmem : (⟨.wait d.token ⟨kindSecret, r.agent, r.names, approvers⟩, .ok waited⟩ : Seen) ∈
          tr₁ ++ (tr₂ ++ (tr₃ ++ (tr₄ ++ (tr₅ ++ (tr₆ ++ []))))) := by simp [hwait]
      refine .answer ?_ hmem hn hclick htoken huser ha
      simp [hids]

/-- A lease from where everybody has answered: every value, or a result that carries nothing. -/
theorem exec_serve {verdicts : Verdicts} {uncovered : List String} {decisions : Decisions}
    {grantIds : GrantIds} {approver : String} {result : LeaseResult}
    (h : Exec (serve b d r verdicts uncovered decisions grantIds approver) tr (.ok result)) :
    result.granted = true ∨ result.Empty := by
  obtain ⟨_, _, values, rfl, -, h2⟩ := exec_bind_ok.1 h
  cases values with
  | error sealed => exact .inr (refuse_empty h2)
  | ok values =>
    obtain ⟨_, _, _, rfl, -, h3⟩ := exec_bind_ok.1 h2
    split at h3
    · obtain ⟨_, _, _, _, _, h4⟩ := exec_bind_ok.1 h3
      cases h4
      exact .inl rfl
    · cases h3
      exact .inl rfl

/-- What a fold leaves that only ever takes what it comes to. -/
theorem mem_of_foldl {α : Type} {f : Option α → α → Option α} {y : α}
    (hf : ∀ best x, f best x = some y → best = some y ∨ x = y) :
    ∀ {l : List α} {best : Option α}, l.foldl f best = some y → best = some y ∨ y ∈ l
  | [], _, h => .inl h
  | x :: l, best, h => by
    obtain h | h := mem_of_foldl hf (l := l) h
    · rcases hf best x h with h | rfl
      · exact .inl h
      · exact .inr List.mem_cons_self
    · exact .inr (List.mem_cons_of_mem _ h)

theorem mem_of_liveGrant {g : Grants} {principal scope : String} {grant : ApprovalGrant}
    (h : g.liveGrant principal scope = some grant) :
    grant ∈ g.rows ∧ grant.live principal scope g.now = true := by
  obtain h | h := mem_of_foldl (fun best x hx => by
    cases best with
    | none => exact .inr (Option.some.inj hx)
    | some y =>
      dsimp only at hx
      split at hx
      · exact .inr (Option.some.inj hx)
      · exact .inl hx) h
  · cases h
  · exact List.mem_filter.1 h

/-- The window of a covered name is in what the store answered about it. -/
theorem exec_covered {l : List String} {covered : Covered}
    (h : Exec (l.mapM fun name => do
      let grants : Grants ← await (Call.liveGrant r.agent name)
      return (name, grants.liveGrant r.agent name)) tr (.ok covered)) {name : String}
    (hw : (covered.of name).isSome = true) : ∃ grants grant,
      (⟨.liveGrant r.agent name, .ok grants⟩ : Seen) ∈ tr ∧
        Grants.liveGrant grants r.agent name = some grant := by
  obtain ⟨grant, hg⟩ := Option.isSome_iff_exists.1 hw
  have hl : covered.lookup name = some (some grant) := by
    unfold Covered.of at hg
    cases hc : covered.lookup name with
    | none =>
      rw [hc] at hg
      cases hg
    | some x =>
      rw [hc] at hg
      exact congrArg some hg
  have hstep : ∀ n tr' (x : String × Option ApprovalGrant), tr' ⊆ tr →
      Exec (await (Call.liveGrant r.agent n) >>= fun grants =>
        pure (n, Grants.liveGrant grants r.agent n)) tr' (.ok x) →
      x.1 = n ∧ ∃ grants, (⟨.liveGrant r.agent x.1, .ok grants⟩ : Seen) ∈ tr ∧
        Grants.liveGrant grants r.agent x.1 = x.2 := by
    intro n tr' x hs h'
    obtain ⟨tr₁, _, grants, rfl, h₁, h₂⟩ := exec_bind_ok.1 h'
    obtain ⟨rfl, hx⟩ := exec_pure.1 h₂
    cases hx
    have htr : tr₁ = [⟨.liveGrant r.agent n, .ok grants⟩] := exec_await.1 h₁
    exact ⟨rfl, grants, hs (by simp [htr]), rfl⟩
  obtain ⟨grants, hm, hgr⟩ := (exec_pairs hstep h).2 _ (Dict.mem_of_lookup hl)
  exact ⟨grants, grant, hm, hgr⟩

/-- A lease hands over values only if for every secret asked for the policy in force lists the agent
and the secret was cleared; all else it returns is empty. -/
theorem lease_safe {res : Except Exc LeaseResult} (h : Exec (lease b d r) tr res) :
    (∀ result, res = .ok result → result.Empty) ∨
      (∃ result, res = .ok result ∧ result.granted = true) ∧
        ∀ name ∈ r.names, Served b d r tr name := by
  cases res with
  | error => exact .inl (by simp)
  | ok result =>
    have hempty : result.Empty → (∀ x, (.ok result : Except Exc LeaseResult) = .ok x → x.Empty) :=
      fun he x hx => by cases hx; exact he
    obtain ⟨tr₁, _, policies, rfl, h₁, h2⟩ := exec_bind_ok.1 h
    obtain ⟨hk, hpol⟩ := exec_policies h₁
    dsimp only at h2
    split at h2
    · exact .inl (hempty (refuse_empty h2))
    next href =>
    obtain ⟨tr₂, _, state, rfl, -, h3⟩ := exec_bind_ok.1 h2
    split at h3
    · exact .inl (hempty (refuse_empty h3))
    obtain ⟨tr₃, tr₄, covered, rfl, h₃, h4⟩ := exec_bind_ok.1 h3
    have hserved : (∀ name ∈ (r.names.filter fun name =>
          ((judge r policies).of name).outcome = .ask).filter (fun name =>
            (covered.of name).isNone), ∀ p, Cleared b d r tr₄ name p) →
        ∀ name ∈ r.names, Served b d r (tr₁ ++ (tr₂ ++ (tr₃ ++ tr₄))) name := by
      intro hask name hn
      obtain ⟨p, hp, hallows, hper⟩ := not_refused href hk hn
      refine ⟨p, List.mem_append_left _ (hpol _ hp), hallows, ?_⟩
      generalize hv : (judge r policies).of name = v at hper
      cases hper with
      | never h => exact .never h
      | rule _ hm h => exact .rule hm h
      | ask =>
        by_cases hw : (covered.of name).isSome = true
        · obtain ⟨grants, grant, hg, hlive⟩ := exec_covered h₃ hw
          obtain ⟨hm, hl⟩ := mem_of_liveGrant hlive
          exact .window (List.mem_append_right tr₁ (List.mem_append_right tr₂
            (List.mem_append_left tr₄ hg))) hm hl
        · refine (hask name (List.mem_filter.2 ⟨List.mem_filter.2 ⟨hn, ?_⟩, ?_⟩) p).mono ?_
          · simp [hv]
          · simpa using hw
          · exact fun x hx => by simp [hx]
    split at h4
    · next hnone =>
      obtain hg | he := exec_serve h4
      swap
      · exact .inl (hempty he)
      refine .inr ⟨⟨result, rfl, hg⟩, hserved fun name hn => ?_⟩
      rw [List.isEmpty_iff.1 hnone] at hn
      cases hn
    obtain ⟨tr₅, _, answer, rfl, h₅, h5⟩ := exec_bind_ok.1 h4
    cases answer with
    | none => exact .inl (hempty (refuse_empty h5))
    | some answer =>
      dsimp only at h5
      split at h5
      · exact .inl (hempty (refuse_empty h5))
      next hallowed =>
      obtain ⟨_, _, _, rfl, -, h6⟩ := exec_bind_ok.1 h5
      obtain hg | he := exec_serve h6
      swap
      · exact .inl (hempty he)
      refine .inr ⟨⟨result, rfl, hg⟩, hserved fun name hn p => ?_⟩
      have hmem := (List.mem_filter.1 (List.mem_filter.1 hn).1).1
      exact (exec_ask h₅ (not_not.1 hallowed) hmem).mono (List.subset_append_left ..)

/-- The values of a request one person allowed, whom the card was addressed to. -/
theorem lease_safe_run : ∃ tr,
    Exec (lease Sample.broker Sample.draws Sample.request) tr (.ok Sample.result) ∧
      ∀ name ∈ Sample.request.names, Served Sample.broker Sample.draws Sample.request tr name := by
  have h : Exec (lease Sample.broker Sample.draws Sample.request)
      (Sample.trace (Sample.answers (Sample.policy .always []))) (.ok Sample.result) :=
    exec_runWith _ _
  obtain he | ⟨-, hs⟩ := lease_safe h
  · exact absurd (he _ rfl).1 nofun
  · exact ⟨_, h, hs⟩

end Ward
