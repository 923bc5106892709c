import ImpiAgent.Ward.Broker

/-!
# One ledger row for each secret asked for

A lease leaves its rows in one place: in the loop of a refusal or in that of a grant. What runs before
those writes none (`Steady`), so an exception there that nothing catches leaves the request without
rows; one in a loop leaves it with some of them; and one after a grant's rows leaves rows that say
granted to a caller who was given nothing. `Calm` is what remains.
-/

namespace Ward

open Approvals Prog

abbrev Seen := Step Exc Call Reply

/-- The row a call wrote. -/
def rowOf : Seen → Option ApprovalAudit
  | ⟨.recordDecision row, .ok _⟩ => some row
  | _ => none

def rows (tr : List Seen) : List ApprovalAudit := tr.filterMap rowOf

/-- The caller was given the values. -/
def Given (res : Except Exc LeaseResult) : Prop := ∃ result, res = .ok result ∧ result.granted = true

/-- One row for each distinct name under the request's id, which say granted exactly if the caller was
given the values. -/
structure Accounted (d : Draws) (r : LeaseRequest) (tr : List Seen)
    (res : Except Exc LeaseResult) : Prop where
  once : (((rows tr).filter (·.requestId = d.requestId)).map (·.scope)).Perm r.names
  granted : ∀ row ∈ rows tr, row.granted = true ↔ Given res

/-- An answer that is not raised past the code: no exception but those of the chat platform while it
posts or rewrites a card and the backend's own; or the one of the last row of a refusal, which was
written. -/
def Calm (r : LeaseRequest) : Seen → Prop
  | ⟨.recordDecision row, .ok (.butRaised _)⟩ =>
    row.granted = false ∧ r.names.getLast? = some row.scope
  | ⟨.postConfirmation .., .error e⟩ => e.isException = true
  | ⟨.updateConfirmation .., .error e⟩ => e.isException = true
  | ⟨.read _, .error e⟩ => ∃ sealed, e = .backend sealed
  | ⟨_, .error _⟩ => False
  | ⟨_, .ok _⟩ => True

def IsRecord : Call → Prop
  | .recordDecision _ => True
  | _ => False

/-! ## Before the rows -/

variable {d : Draws} {r : LeaseRequest} {b : Broker}

/-- Writes no row, and returns exactly where nothing was raised past it. -/
abbrev Quiet (r : LeaseRequest) {α : Type} (p : Lease α) : Prop := Steady (Calm r) IsRecord p

/-- A call whose exceptions nothing catches. -/
def Call.bare : Call → Bool
  | .postConfirmation .. | .updateConfirmation .. | .read _ | .recordDecision _ => false
  | _ => true

theorem quiet_await {c : Call} (hc : c.bare = true) : Quiet r (await c) := by
  have hS : ¬IsRecord c := fun h => by cases c <;> first | exact h | cases hc
  refine .await hS fun x => ?_
  cases c <;> simp only [Call.bare, Bool.false_eq_true] at hc <;> cases x <;> simp [Calm]

theorem quiet_tryAwait {c : Call} (hc : ¬IsRecord c)
    (hQ : ∀ x, Calm r ⟨c, x⟩ ↔ ∀ e, x = .error e → e.isException = true) :
    Quiet r (tryAwait c) := by
  refine Steady.call hc fun x => ?_
  cases x with
  | ok a => exact .inl ⟨(hQ _).2 nofun, .ret _⟩
  | error e =>
    by_cases he : e.isException = true
    · simp only [he, if_true]
      exact .inl ⟨(hQ _).2 fun e' h => by cases h; exact he, .ret _⟩
    · simp only [he, Bool.false_eq_true, if_false]
      exact .inr ⟨fun h => he ((hQ _).1 h e rfl), e, rfl⟩

theorem quiet_post (channel : String) (card : Card) :
    Quiet r (tryAwait (Call.postConfirmation channel card)) := by
  refine quiet_tryAwait id fun x => ?_
  cases x <;> simp [Calm]

theorem quiet_update (postId : String) (card : Card) :
    Quiet r (tryAwait (Call.updateConfirmation postId card)) := by
  refine quiet_tryAwait id fun x => ?_
  cases x <;> simp [Calm]

theorem quiet_openFirst (users : List String) : Quiet r (openFirst users) := by
  induction users with
  | nil => exact .ret ""
  | cons user users ih =>
    exact (quiet_await rfl).bind fun channel => .ite (.ret _) ih

theorem quiet_approvalConversation (agent : String) (approvers : List String) :
    Quiet r (approvalConversation b agent approvers) :=
  .ite (.ret _) (.ite (.ret _) (quiet_openFirst _))

theorem quiet_rewrite (postId : String) (card : Card) : Quiet r (rewrite postId card) :=
  .ite (.ret _) ((quiet_update postId card).bind fun _ => .ret _)

theorem quiet_ask (ceilingS : Int) : Quiet r (ask b d r ceilingS) := by
  refine (quiet_await rfl).bind fun approvers => (quiet_await rfl).bind fun poster => ?_
  refine .ite (.ret _) ((quiet_approvalConversation _ _).bind fun channel => .ite (.ret _) ?_)
  refine (quiet_post _ _).bind fun posted => ?_
  cases posted with
  | none => exact .ret none
  | some postId =>
    exact (quiet_await rfl).bind fun waited => (quiet_rewrite _ _).bind fun _ => .ret _

theorem quiet_openWindow (agent name : String) (policy : Option SecretPolicyRecord)
    (answer : Approval) : Quiet r (openWindow b d agent name policy answer) :=
  (quiet_await rfl).bind fun _ => .ret _

theorem quiet_answered {policies : Policies}
    {uncovered : List String} {answer : Approval} (x : Decisions × GrantIds) (name : String) :
    Quiet r (answered b d r policies uncovered answer x name) :=
  .ite ((quiet_openWindow _ _ _ _).bind fun _ => .ret _) (.ret _)

theorem quiet_readAll (bindings : List (String × SecretRef)) : Quiet r (readAll bindings) := by
  induction bindings with
  | nil => exact .ret _
  | cons x bindings ih =>
    obtain ⟨envName, ref⟩ := x
    refine Steady.call id fun x => ?_
    match x with
    | .error (.backend sealed) => exact .inl ⟨⟨sealed, rfl⟩, .ret _⟩
    | .error .cancelled => exact .inr ⟨nofun, .cancelled, rfl⟩
    | .error .other => exact .inr ⟨nofun, .other, rfl⟩
    | .ok value => exact .inl ⟨trivial, ih.bind fun _ => .ret _⟩

theorem quiet_notify (verdicts : Verdicts) : Quiet r (notify b r verdicts) := by
  refine .ite (.ret _) ?_
  refine (quiet_await rfl).bind fun approvers => (quiet_await rfl).bind fun poster => ?_
  refine .ite (.ret _) ((quiet_approvalConversation _ _).bind fun channel => .ite (.ret _) ?_)
  refine (quiet_await rfl).bind fun (seen, now) => ?_
  dsimp only
  split
  · refine (quiet_update _ _).bind fun posted => ?_
    cases posted with
    | none => exact .ret _
    | some _ => exact quiet_await rfl
  · refine (quiet_post _ _).bind fun posted => ?_
    cases posted with
    | none => exact .ret _
    | some _ => exact quiet_await rfl

/-! ## The rows -/

@[simp] theorem rows_append (tr tr' : List Seen) : rows (tr ++ tr') = rows tr ++ rows tr' :=
  List.filterMap_append

theorem rows_quiet {tr : List Seen} (h : ∀ x ∈ tr, ¬IsRecord x.call) : rows tr = [] := by
  refine List.filterMap_eq_nil_iff.2 fun x hx => ?_
  obtain ⟨c, x⟩ := x
  cases c with
  | recordDecision row => exact absurd trivial (h _ hx)
  | _ => rfl

/-- The call that wrote `row`. -/
def wrote (row : ApprovalAudit) : Seen := ⟨.recordDecision row, .ok .done⟩

theorem rows_wrote (l : List ApprovalAudit) : rows (l.map wrote) = l := by
  induction l with
  | nil => rfl
  | cons row l ih => exact congrArg (row :: ·) ih

/-- The rows of some names are all written, or an exception stops the loop at one of them, whose row
is then written or not. -/
theorem exec_records {row : String → ApprovalAudit} {names : List String} {tr : List Seen}
    {res : Except Exc PUnit} (h : Exec (names.forM fun name => record (row name)) tr res) :
    (res = .ok () ∧ tr = (names.map row).map wrote) ∨
      ∃ pre name post x e, names = pre ++ name :: post ∧ res = .error e ∧
        tr = (pre.map row).map wrote ++ [⟨.recordDecision (row name), x⟩] ∧
        (x = .error e ∨ x = .ok (.butRaised e)) := by
  induction names generalizing tr with
  | nil =>
    obtain ⟨rfl, rfl⟩ := exec_pure.1 h
    exact .inl ⟨rfl, rfl⟩
  | cons name names ih =>
    change Exec (record (row name) >>= fun _ => names.forM fun name => record (row name)) tr res at h
    obtain ⟨tr₁, tr₂, _, rfl, h₁, h₂⟩ | ⟨e, rfl, he⟩ := exec_bind.1 h
    · have h₁' : tr₁ = [wrote (row name)] := by
        cases h₁ with
        | call x h₁ =>
          match x with
          | .ok .done =>
            cases h₁
            rfl
          | .ok (.butRaised e) => cases h₁
          | .error e => cases h₁
      subst h₁'
      obtain ⟨rfl, rfl⟩ | ⟨pre, n, post, x, e, rfl, rfl, rfl, hx⟩ := ih h₂
      · exact .inl ⟨rfl, rfl⟩
      · exact .inr ⟨name :: pre, n, post, x, e, rfl, rfl, rfl, hx⟩
    · refine .inr ⟨[], name, names, ?_⟩
      cases he with
      | call x he =>
        match x with
        | .ok .done => cases he
        | .ok (.butRaised e) =>
          cases he
          exact ⟨_, _, rfl, rfl, rfl, .inr rfl⟩
        | .error e =>
          cases he
          exact ⟨_, _, rfl, rfl, rfl, .inl rfl⟩

/-! ## What a loop leaves -/

theorem mem_names {n : String} : n ∈ r.names ↔ n ∈ r.bindings.map (·.2.name) := by
  rw [LeaseRequest.names, fromKeys, Dict.mem_keys_ofPairs, List.map_map]
  exact (List.map_id _) ▸ Iff.rfl

theorem names_nodup (r : LeaseRequest) : r.names.Nodup := Dict.ofPairs_distinct _

/-- Where the rows of a loop are complete, they are one for each name. -/
theorem once_of_rows {row : String → ApprovalAudit} (hs : ∀ n, (row n).scope = n)
    (hi : ∀ n, (row n).requestId = d.requestId) (l : List String) :
    ((l.map row).filter (·.requestId = d.requestId)).map (·.scope) = l := by
  have hf : (l.map row).filter (·.requestId = d.requestId) = l.map row :=
    List.filter_eq_self.2 fun x hx => by
      obtain ⟨n, -, rfl⟩ := List.mem_map.1 hx
      simpa using hi n
  rw [hf, List.map_map]
  exact (List.map_congr_left fun n _ => hs n).trans (List.map_id l)

theorem given_ok {result : LeaseResult} : Given (.ok result) ↔ result.granted = true :=
  ⟨fun ⟨_, h, hg⟩ => by cases h; exact hg, fun h => ⟨result, rfl, h⟩⟩

theorem not_given_error (e : Exc) : ¬Given (.error e) := fun ⟨_, h, _⟩ => nomatch h

section Loop

variable {row : String → ApprovalAudit} (hs : ∀ n, (row n).scope = n)
  (hi : ∀ n, (row n).requestId = d.requestId) {g : Bool}
  (hg : ∀ n ∈ r.names, (row n).granted = g)
include hs hi hg

theorem accounted_done {result : LeaseResult} (hres : result.granted = g) :
    Accounted d r ((r.names.map row).map wrote) (.ok result) where
  once := by rw [rows_wrote, once_of_rows hs hi]
  granted x hx := by
    rw [rows_wrote] at hx
    obtain ⟨n, hn, rfl⟩ := List.mem_map.1 hx
    rw [given_ok, hg n hn, hres]

/-- A loop that an exception stops accounts for the request only where it had written the last row of
a refusal. -/
theorem accounted_stopped {pre post : List String} {name : String}
    {x : Except Exc (Reply (.recordDecision (row name)))} {e : Exc}
    (hnames : r.names = pre ++ name :: post) (hx : x = .error e ∨ x = .ok (.butRaised e)) :
    Accounted d r ((pre.map row).map wrote ++ [⟨.recordDecision (row name), x⟩]) (.error e) ↔
      ∀ y ∈ (pre.map row).map wrote ++ [(⟨.recordDecision (row name), x⟩ : Seen)], Calm r y := by
  have hwrote : ∀ y ∈ (pre.map row).map wrote, Calm r y := by
    intro y hy
    obtain ⟨a, -, rfl⟩ := List.mem_map.1 hy
    exact trivial
  have hmem : name ∈ r.names := by simp [hnames]
  rw [List.forall_mem_append, List.forall_mem_singleton, and_iff_right hwrote]
  obtain rfl | rfl := hx
  · refine ⟨fun h => ?_, False.elim⟩
    have hl := h.once.length_eq
    rw [rows_append, rows_wrote, show rows [_] = [] from rfl, List.append_nil,
      once_of_rows hs hi, hnames, List.length_append, List.length_cons] at hl
    omega
  · have hrows : rows ((pre.map row).map wrote ++
        [(⟨.recordDecision (row name), .ok (.butRaised e)⟩ : Seen)]) = (pre ++ [name]).map row := by
      rw [rows_append, rows_wrote, List.map_append]
      rfl
    constructor
    · intro h
      have hl := h.once.length_eq
      rw [hrows, once_of_rows hs hi, hnames, List.length_append, List.length_append,
        List.length_cons, List.length_cons, List.length_nil] at hl
      have hpost : post = [] := List.eq_nil_of_length_eq_zero (by omega)
      refine ⟨Bool.eq_false_iff.2 fun ht => ?_, ?_⟩
      · exact not_given_error e ((h.granted (row name) (hrows ▸ by simp)).1 ht)
      · rw [hnames, hpost, List.getLast?_append, hs]
        rfl
    · rintro ⟨hfalse, hlast⟩
      have hpost : post = [] := by
        apply Classical.byContradiction
        intro hne
        have hin : name ∈ post := by
          rw [hnames, List.getLast?_append_cons, List.getLast?_cons_of_ne_nil hne, hs] at hlast
          exact List.mem_of_getLast? hlast
        have hnd := hnames ▸ names_nodup r
        exact (List.nodup_cons.1 (List.nodup_append.1 hnd).2.1).1 hin
      subst hpost
      refine ⟨?_, fun a ha => ?_⟩
      · rw [hrows, once_of_rows hs hi, hnames]
      · rw [hrows, ← hnames] at ha
        obtain ⟨n, hn, rfl⟩ := List.mem_map.1 ha
        rw [hg n hn, ← hg name hmem, hfalse]
        exact iff_of_false nofun (not_given_error e)

end Loop

/-! ## The parts of a lease -/

/-- `p` accounts for the request exactly where it is answered calmly. -/
def Accounts (d : Draws) (r : LeaseRequest) (p : Lease LeaseResult) : Prop :=
  ∀ tr res, Exec p tr res → (Accounted d r tr res ↔ ∀ x ∈ tr, Calm r x)

/-- A request no row was written for is not accounted for. -/
theorem not_accounted {tr : List Seen} {res : Except Exc LeaseResult} (hr : r.names ≠ [])
    (hrows : rows tr = []) : ¬Accounted d r tr res := fun h => by
  have hp := h.once
  rw [hrows] at hp
  exact hr hp.symm.eq_nil

theorem Accounts.after {α : Type} {p : Lease α} {f : α → Lease LeaseResult} (P : α → Prop)
    (hr : r.names ≠ []) (hp : Quiet r p) (hP : ∀ tr a, Exec p tr (.ok a) → P a)
    (hf : ∀ a, P a → Accounts d r (f a)) : Accounts d r (p >>= f) := by
  intro tr res h
  obtain ⟨tr₁, tr₂, a, rfl, h₁, h₂⟩ | ⟨e, rfl, he⟩ := exec_bind.1 h
  · obtain ⟨hs, hc⟩ := hp _ _ h₁
    have hrows : rows (tr₁ ++ tr₂) = rows tr₂ := by rw [rows_append, rows_quiet hs, List.nil_append]
    rw [List.forall_mem_append, and_iff_right (hc.1 ⟨a, rfl⟩), ← hf a (hP _ _ h₁) _ _ h₂]
    constructor
    · exact fun ⟨ho, hg⟩ => ⟨hrows ▸ ho, hrows ▸ hg⟩
    · exact fun ⟨ho, hg⟩ => ⟨hrows ▸ ho, hrows ▸ hg⟩
  · obtain ⟨hs, hc⟩ := hp _ _ he
    exact iff_of_false (not_accounted hr (rows_quiet hs)) fun h => nomatch hc.2 h

/-- A refusal that names no secret's decision granted. -/
theorem refuse_accounts {verdicts : Verdicts} {governing : Decision} {approver : String}
    {grantIds : GrantIds}
    (hg : ∀ n, (refusedAs verdicts governing n).any Decision.granted = false) :
    Accounts d r (refuse d r verdicts governing approver grantIds) := by
  intro tr res h
  have hg' : ∀ n ∈ r.names, (auditRow d r n (refusedAs verdicts governing n) approver
      ((grantIds.lookup n).getD "") "").granted = false := fun n _ => hg n
  obtain ⟨tr₁, tr₂, _, rfl, h₁, h₂⟩ | ⟨e, rfl, he⟩ := exec_bind.1 h
  · obtain ⟨rfl, rfl⟩ := exec_pure.1 h₂
    obtain ⟨-, rfl⟩ | ⟨_, _, _, _, _, _, he, _⟩ := exec_records h₁
    · rw [List.append_nil]
      refine iff_of_true (accounted_done (fun _ => rfl) (fun _ => rfl) hg' rfl) ?_
      intro x hx
      obtain ⟨a, -, rfl⟩ := List.mem_map.1 hx
      exact trivial
    · cases he
  · obtain ⟨he, _⟩ | ⟨pre, n, post, x, _, hnames, hee, rfl, hx⟩ := exec_records he
    · cases he
    · cases hee
      exact accounted_stopped (fun _ => rfl) (fun _ => rfl) hg' hnames hx

/-- The rows of a grant, and what is still done once they are written: should that raise, the rows
say granted and the caller has nothing. -/
theorem Accounts.granting {row : String → ApprovalAudit} {p : Lease LeaseResult}
    (hr : r.names ≠ []) (hs : ∀ n, (row n).scope = n) (hi : ∀ n, (row n).requestId = d.requestId)
    (hg : ∀ n ∈ r.names, (row n).granted = true) (hp : Quiet r p)
    (hres : ∀ tr result, Exec p tr (.ok result) → result.granted = true) :
    Accounts d r (r.names.forM (fun name => record (row name)) >>= fun _ => p) := by
  intro tr res h
  obtain ⟨tr₁, tr₂, _, rfl, h₁, h₂⟩ | ⟨e, rfl, he⟩ := exec_bind.1 h
  · obtain ⟨-, rfl⟩ | ⟨_, _, _, _, _, _, he, _⟩ := exec_records h₁
    · obtain ⟨hquiet, hc⟩ := hp _ _ h₂
      have hrows : rows ((r.names.map row).map wrote ++ tr₂) = rows ((r.names.map row).map wrote) :=
        by rw [rows_append, rows_quiet hquiet, List.append_nil]
      have hwrote : ∀ x ∈ (r.names.map row).map wrote, Calm r x := by
        intro x hx
        obtain ⟨a, -, rfl⟩ := List.mem_map.1 hx
        exact trivial
      rw [List.forall_mem_append, and_iff_right hwrote, ← hc]
      cases res with
      | ok result =>
        obtain ⟨ho, hgr⟩ := accounted_done hs hi hg (hres _ _ h₂)
        exact iff_of_true ⟨hrows ▸ ho, hrows ▸ hgr⟩ ⟨result, rfl⟩
      | error e =>
        refine iff_of_false (fun hacc => ?_) nofun
        obtain ⟨n, hn⟩ := List.exists_mem_of_ne_nil _ hr
        refine not_given_error e ((hacc.granted (row n) ?_).1 (hg n hn))
        rw [hrows, rows_wrote]
        exact List.mem_map_of_mem hn
    · cases he
  · obtain ⟨he, _⟩ | ⟨pre, n, post, x, _, hnames, hee, rfl, hx⟩ := exec_records he
    · cases he
    · cases hee
      exact accounted_stopped hs hi hg hnames hx

theorem serve_accounts {verdicts : Verdicts} {uncovered : List String} {decisions : Decisions}
    {grantIds : GrantIds} {approver : String} (hr : r.names ≠ [])
    (hv : ∀ n g, g.granted = false → (refusedAs verdicts g n).any Decision.granted = false)
    (hg : ∀ n ∈ r.names, ((decisions.lookup n).getD none).any Decision.granted = true) :
    Accounts d r (serve b d r verdicts uncovered decisions grantIds approver) := by
  refine .after (fun _ => True) hr (quiet_readAll _) (fun _ _ _ => trivial) fun values _ => ?_
  cases values with
  | error sealed =>
    refine refuse_accounts fun n => hv n _ ?_
    cases sealed <;> rfl
  | ok values =>
    have hg' : ∀ n ∈ r.names, (auditRow d r n ((decisions.lookup n).getD none) approver
        ((grantIds.lookup n).getD "") (verdicts.of n).rule).granted = true := hg
    dsimp only
    split
    · refine .granting hr (fun _ => rfl) (fun _ => rfl) hg' ((quiet_notify _).bind fun _ => .ret _) ?_
      intro tr result h
      obtain ⟨_, _, _, _, _, h'⟩ := exec_bind_ok.1 h
      cases h'
      rfl
    · refine .granting hr (fun _ => rfl) (fun _ => rfl) hg' (.ret _) fun tr result h => ?_
      obtain ⟨-, h⟩ := exec_pure.1 h
      cases h
      rfl

/-! ## What a lease decides before it writes -/

variable {policies : Policies}

variable (r policies) in
theorem judge_of (n : String) : (judge r policies).of n = ⟨.ask, none, ""⟩ ∨
    ∃ policy, (judge r policies).of n = evaluate policy r.agent r.command := by
  unfold Verdicts.of judge
  rw [Dict.lookup_map fun p => evaluate p r.agent r.command]
  cases policies.lookup n with
  | none => exact .inl rfl
  | some p => exact .inr ⟨p, rfl⟩

theorem judge_of_mem (hk : policies.map Prod.fst = r.names) {n : String} (hn : n ∈ r.names) :
    ∃ policy, (n, policy) ∈ policies ∧
      (judge r policies).of n = evaluate policy r.agent r.command := by
  cases hl : policies.lookup n with
  | none => exact absurd (hk ▸ hn) (Dict.lookup_eq_none.1 hl)
  | some p =>
    refine ⟨p, Dict.mem_of_lookup hl, ?_⟩
    unfold Verdicts.of judge
    rw [Dict.lookup_map fun p => evaluate p r.agent r.command, hl]
    rfl

/-- No row of a refusal says granted. -/
theorem refusedAs_judge {governing : Decision} (hg : governing.granted = false) (n : String) :
    (refusedAs (judge r policies) governing n).any Decision.granted = false := by
  unfold refusedAs
  dsimp only
  split
  · next ho =>
    obtain h | ⟨policy, h⟩ := judge_of r policies n
    · rw [h] at ho
      cases ho
    · rw [h] at ho ⊢
      obtain ⟨d, hd, hgr⟩ := exists_of_refuse ho
      rw [hd]
      exact hgr
  · split
    · rfl
    · exact hg

/-- The refusal that governs is one of them. -/
theorem not_granted_of_refusal {refusal : Decision}
    (h : ((judge r policies).find? (·.2.outcome = .refuse)).bind (·.2.decision) = some refusal) :
    refusal.granted = false := by
  obtain ⟨x, hx, hd⟩ := Option.bind_eq_some_iff.1 h
  have ho : x.2.outcome = .refuse := by simpa using List.find?_some hx
  obtain ⟨y, -, rfl⟩ := List.mem_map.1 (List.mem_of_find?_eq_some hx)
  obtain ⟨d, hd', hg⟩ := exists_of_refuse ho
  cases hd.symm.trans hd'
  exact hg

/-- Where none governs, no policy refuses. -/
theorem not_refused
    (h : ((judge r policies).find? (·.2.outcome = .refuse)).bind (·.2.decision) = none)
    (hk : policies.map Prod.fst = r.names) {n : String} (hn : n ∈ r.names) :
    ∃ p, (n, some p) ∈ policies ∧ p.allows r.agent = true ∧
      Permits p r.agent r.command ((judge r policies).of n) := by
  obtain ⟨policy, hp, hv⟩ := judge_of_mem hk hn
  obtain ⟨d, text, he, -⟩ | ⟨p, rfl, ha, hper⟩ := evaluate_cases policy r.agent r.command
  · cases hf : (judge r policies).find? (·.2.outcome = .refuse) with
    | none =>
      have hm : (n, evaluate policy r.agent r.command) ∈ judge r policies :=
        List.mem_map.2 ⟨_, hp, rfl⟩
      have := List.find?_eq_none.1 hf _ hm
      simp [he] at this
    | some x =>
      rw [hf] at h
      have ho : x.2.outcome = .refuse := by simpa using List.find?_some hf
      obtain ⟨y, -, rfl⟩ := List.mem_map.1 (List.mem_of_find?_eq_some hf)
      obtain ⟨d, hd, -⟩ := exists_of_refuse ho
      exact nomatch hd.symm.trans h
  · exact ⟨p, hp, ha, hv ▸ hper⟩

theorem exec_pair {c : Call} {n : String} {tr : List Seen} {x : String × Reply c}
    (h : Exec (await c >>= fun a => pure (n, a)) tr (.ok x)) :
    x.1 = n ∧ (⟨c, .ok x.2⟩ : Seen) ∈ tr := by
  obtain ⟨tr₁, tr₂, a, rfl, h₁, h₂⟩ := exec_bind_ok.1 h
  obtain ⟨rfl, hx⟩ := exec_pure.1 h₂
  cases hx
  rw [exec_await.1 h₁]
  exact ⟨rfl, List.mem_append_left _ List.mem_cons_self⟩

/-- What was asked of a store about some names, one after the other. -/
theorem exec_pairs {α : Type} {f : String → Lease (String × α)} {names : List String}
    {tr : List Seen} {out : List (String × α)} {P : String × α → Prop}
    (hf : ∀ n tr' x, tr' ⊆ tr → Exec (f n) tr' (.ok x) → x.1 = n ∧ P x)
    (h : Exec (names.mapM f) tr (.ok out)) : out.map Prod.fst = names ∧ ∀ x ∈ out, P x := by
  have h2 : List.Forall₂ (fun n x => x.1 = n ∧ P x) names out :=
    (exec_mapM h).imp fun n x ⟨tr', hs, h⟩ => hf n tr' x hs h
  clear h
  induction h2 with
  | nil => exact ⟨rfl, nofun⟩
  | cons hx _ ih =>
    rw [List.map_cons, hx.1, ih.1, List.forall_mem_cons]
    exact ⟨rfl, hx.2, ih.2⟩

/-- The policies are what the store answered for each name. -/
theorem exec_policies {tr : List Seen}
    (h : Exec (r.names.mapM fun name => do
      let policy : Option SecretPolicyRecord ← await (Call.getPolicy name)
      return (name, policy)) tr (.ok policies)) :
    policies.map Prod.fst = r.names ∧
      ∀ x ∈ policies, (⟨.getPolicy x.1, .ok x.2⟩ : Seen) ∈ tr := by
  refine exec_pairs (P := fun x => (⟨.getPolicy x.1, .ok x.2⟩ : Seen) ∈ tr) ?_ h
  intro n tr' x hs h'
  obtain ⟨hn, hx⟩ := exec_pair (c := .getPolicy n) h'
  exact ⟨hn, hn ▸ hs hx⟩

/-- A name nobody has still to be asked about is decided. -/
theorem unasked_granted {verdicts : Verdicts} {covered : Covered} {n : String}
    {p : SecretPolicyRecord} (hp : Permits p r.agent r.command (verdicts.of n))
    (h : (verdicts.of n).outcome = .ask → (covered.of n).isSome = true) :
    (unasked verdicts covered n).any Decision.granted = true := by
  unfold unasked
  split
  · rfl
  · next hn => exact hp.granted fun ha => hn (h ha)

/-- The answered names are granted, the others as they were. -/
theorem exec_answered {uncovered : List String} {answer : Approval} {l : List String}
    {x y : Decisions × GrantIds} {tr : List Seen}
    (h : Exec (l.foldlM (answered b d r policies uncovered answer) x) tr (.ok y)) (n : String)
    (hx : n ∉ l → ((x.1.lookup n).getD none).any Decision.granted = true) :
    ((y.1.lookup n).getD none).any Decision.granted = true := by
  induction l generalizing x tr with
  | nil =>
    obtain ⟨-, h⟩ := exec_pure.1 h
    cases h
    exact hx nofun
  | cons m l ih =>
    rw [List.foldlM_cons] at h
    obtain ⟨tr₁, tr₂, x', rfl, h₁, h₂⟩ := exec_bind_ok.1 h
    refine ih h₂ fun hn => ?_
    have hx' : ∃ g, x'.1 = Dict.assign m (some g) x.1 ∧ g.granted = true := by
      unfold answered at h₁
      split at h₁
      · obtain ⟨_, _, id, _, _, h₃⟩ := exec_bind_ok.1 h₁
        cases h₃
        exact ⟨_, rfl, rfl⟩
      · cases h₁
        exact ⟨_, rfl, rfl⟩
    obtain ⟨g, hg, hgr⟩ := hx'
    rw [hg, Dict.lookup_assign]
    split
    · exact hgr
    · next hne => exact hx fun hm => (List.mem_cons.1 hm).elim hne hn

theorem lease_accounts (hr : r.names ≠ []) : Accounts d r (lease b d r) := by
  refine .after (fun policies => policies.map Prod.fst = r.names) hr
    (.mapM fun n => (quiet_await rfl).bind fun _ => .ret _) (fun _ _ h => (exec_policies h).1)
    fun policies hk => ?_
  have hv : ∀ n g, g.granted = false →
      (refusedAs (judge r policies) g n).any Decision.granted = false :=
    fun n g hg => refusedAs_judge hg n
  dsimp only
  split
  · next refusal href => exact refuse_accounts fun n => hv n _ (not_granted_of_refusal href)
  next href =>
  refine .after (fun _ => True) hr (quiet_await rfl) (fun _ _ _ => trivial) fun state _ => ?_
  split
  · refine refuse_accounts fun n => hv n _ ?_
    unfold BackendStatus.unusable
    split
    · rfl
    · split <;> rfl
  refine .after (fun _ => True) hr (.mapM fun n => (quiet_await rfl).bind fun _ => .ret _)
    (fun _ _ _ => trivial) fun covered _ => ?_
  have hun : ∀ n ∈ r.names, n ∉ (r.names.filter fun name =>
      ((judge r policies).of name).outcome = .ask).filter (fun name =>
        (Covered.of covered name).isNone) →
      (((r.names.map fun name => (name, unasked (judge r policies) covered name)).lookup n).getD
        none).any Decision.granted = true := by
    intro n hn hnot
    obtain ⟨p, -, -, hp⟩ := not_refused href hk hn
    rw [Dict.lookup_map_keys _ hn]
    refine unasked_granted hp fun hask => ?_
    apply Classical.byContradiction
    intro hw
    refine hnot (List.mem_filter.2 ⟨List.mem_filter.2 ⟨hn, by simpa using hask⟩, ?_⟩)
    simpa using hw
  split
  · next hnone =>
    refine serve_accounts hr hv fun n hn => hun n hn ?_
    rw [List.isEmpty_iff.1 hnone]
    simp
  refine .after (fun _ => True) hr (quiet_ask _) (fun _ _ _ => trivial) fun answer _ => ?_
  cases answer with
  | none => exact refuse_accounts fun n => hv n _ rfl
  | some answer =>
    dsimp only
    split
    · refine refuse_accounts fun n => hv n _ ?_
      split <;> rfl
    · refine .after (fun x => ∀ n ∈ r.names, ((x.1.lookup n).getD none).any Decision.granted = true)
        hr (.foldlM (fun x n => quiet_answered x n) _) ?_ fun x hx => serve_accounts hr hv hx
      intro tr x h n hn
      refine exec_answered h n fun hnot => hun n hn fun hu => hnot (List.mem_filter.2 ⟨hn, ?_⟩)
      exact decide_eq_true (.inr (List.contains_iff_mem.2 hu))

/-- A lease of at least one secret leaves one row for each, saying granted exactly if the caller was
given the values, if and only if nothing was raised past the code at any await, but after the write of
a refusal's last row. -/
theorem ledger_rows {tr : List Seen} {res : Except Exc LeaseResult} (hr : r.bindings ≠ [])
    (h : Exec (lease b d r) tr res) : Accounted d r tr res ↔ ∀ x ∈ tr, Calm r x := by
  refine lease_accounts (fun hn => ?_) tr res h
  obtain ⟨x, hx⟩ := List.exists_mem_of_ne_nil _ hr
  have := mem_names.2 (List.mem_map_of_mem hx)
  rw [hn] at this
  cases this

namespace Sample

def broker : Broker := ⟨[], "#approvals", 3600, 900, fun _ => none⟩

def draws : Draws := ⟨"rq", "token", fun n => "gr " ++ n, fun _ => 0⟩

def request : LeaseRequest := ⟨"ops", [("TOKEN", ⟨"github", "value"⟩)], "to push", ["git", "push"]⟩

def policy (approval : ApprovalMode) (rules : List Rule) : SecretPolicyRecord :=
  ⟨"github", approval, 0, "ops", rules⟩

/-- Everything answers; a person in the approver set allows the request once. -/
def answers (p : SecretPolicyRecord) : (c : Call) → Except Exc (Reply c)
  | .getPolicy _ => .ok (some p)
  | .status => .ok ⟨true, false, true⟩
  | .liveGrant .. => .ok ⟨[], 0⟩
  | .approvers => .ok ["ana"]
  | .poster _ => .ok true
  | .openDirect _ => .ok ""
  | .postConfirmation .. => .ok "post"
  | .updateConfirmation .. => .error .other
  | .wait .. => .ok ⟨[], [⟨"token", "once", "bob"⟩, ⟨"token", "once", "ana"⟩]⟩
  | .createGrant _ => .ok ()
  | .read _ => .ok "s3cret"
  | .recordDecision _ => .ok .done
  | .notices .. => .ok (none, 0)
  | .fold .. => .ok ()

/-- The task is cancelled while the card is up. -/
def cancelled : (c : Call) → Except Exc (Reply c)
  | .wait .. => .error .cancelled
  | c => answers (policy .always []) c

/-- An approver's name cannot be resolved, once a rule has granted the request. -/
def unresolved : (c : Call) → Except Exc (Reply c)
  | .approvers => .error .other
  | c => answers (policy .always [["git", "*"]]) c

def trace (o : ∀ c, Except Exc (Reply c)) : List Seen := ((lease broker draws request).runWith o).1

def result : LeaseResult := ⟨true, .approvedOnce, [("TOKEN", "s3cret")]⟩

end Sample

/-- A person allows a request once; someone else's click before that, and a card that cannot be
rewritten after it, change nothing. -/
theorem ledger_rows_run : ∃ tr,
    Exec (lease Sample.broker Sample.draws Sample.request) tr (.ok Sample.result) ∧
      (∀ x ∈ tr, Calm Sample.request x) ∧
      Accounted Sample.draws Sample.request tr (.ok Sample.result) := by
  have h : Exec (lease Sample.broker Sample.draws Sample.request)
      (Sample.trace (Sample.answers (Sample.policy .always []))) (.ok Sample.result) :=
    exec_runWith _ _
  have hgranted : ∀ row ∈ rows (Sample.trace (Sample.answers (Sample.policy .always []))),
      row.granted = true := by decide
  have hacc : Accounted Sample.draws Sample.request
      (Sample.trace (Sample.answers (Sample.policy .always []))) (.ok Sample.result) :=
    ⟨by decide, fun row hrow => iff_of_true (hgranted row hrow) ⟨_, rfl, rfl⟩⟩
  exact ⟨_, h, (ledger_rows (List.cons_ne_nil _ _) h).1 hacc, hacc⟩

/-- A task cancelled while its card is up leaves no row; one that cannot name the approvers for a
notice has the row of a grant, and its caller has nothing. -/
theorem ledger_incomplete :
    (∃ tr, Exec (lease Sample.broker Sample.draws Sample.request) tr (.error .cancelled) ∧
      rows tr = [] ∧ ¬Accounted Sample.draws Sample.request tr (.error .cancelled)) ∧
      ∃ tr, Exec (lease Sample.broker Sample.draws Sample.request) tr (.error .other) ∧
        (rows tr).map (·.decision) = [some .autoCommand] ∧
        ¬Accounted Sample.draws Sample.request tr (.error .other) := by
  have h : Exec (lease Sample.broker Sample.draws Sample.request)
      (Sample.trace Sample.cancelled) (.error .cancelled) := exec_runWith _ _
  have h' : Exec (lease Sample.broker Sample.draws Sample.request)
      (Sample.trace Sample.unresolved) (.error .other) := exec_runWith _ _
  have hrows : rows (Sample.trace Sample.cancelled) = [] := by decide
  have hrows' : (rows (Sample.trace Sample.unresolved)).map (·.decision) = [some .autoCommand] := by
    decide
  refine ⟨⟨_, h, hrows, not_accounted (by decide) hrows⟩, _, h', hrows', fun hacc => ?_⟩
  have hm : some Decision.autoCommand ∈
      (rows (Sample.trace Sample.unresolved)).map (·.decision) := hrows' ▸ List.mem_cons_self
  obtain ⟨row, hrow, hd⟩ := List.mem_map.1 hm
  refine not_given_error _ ((hacc.granted row hrow).1 ?_)
  rw [ApprovalAudit.granted, hd]
  rfl

end Ward
