import ImpiAgent.Ward.Proof.Calls
import ImpiAgent.Ward.Proof.Lease

/-!
# How long a window stays open

A card offers no window longer than the tightest policy of its basket allows, but a window is opened
for as long as the answer says, and is capped by its own secret's policy alone. What a lease was shown
and answered is read off its calls (`policyIn`, `coveredIn`, `answerIn`); `exec_lease` says which
windows it opens, and `tight_iff` when they are within the basket's tightest.
-/

namespace Ward

open Approvals Prog

variable {b : Broker} {d : Draws} {r : LeaseRequest} {tr tr' : List Seen}

/-! ## What a lease was answered -/

def policyShown (name : String) : Seen → Option (Option SecretPolicyRecord)
  | ⟨.getPolicy n, .ok p⟩ => if n = name then some p else none
  | _ => none

def windowShown (r : LeaseRequest) (name : String) : Seen → Option (Option ApprovalGrant)
  | ⟨.liveGrant _ n, .ok grants⟩ =>
    if n = name then some (Grants.liveGrant grants r.agent n) else none
  | _ => none

def answerShown (b : Broker) : Seen → Option Approval
  | ⟨.wait token entry, .ok waited⟩ =>
    (Registry.register (Waited.others waited) token entry).settled b.int token
      (Waited.clicks waited)
  | _ => none

def windowAsked : Seen → Option ApprovalGrant
  | ⟨.createGrant grant, _⟩ => some grant
  | _ => none

/-- The policy of a name, as the store had it. -/
def policyIn (tr : List Seen) (name : String) : Option SecretPolicyRecord :=
  (tr.findSome? (policyShown name)).getD none

/-- The window that was open for a name. -/
def coveredIn (r : LeaseRequest) (tr : List Seen) (name : String) : Option ApprovalGrant :=
  (tr.findSome? (windowShown r name)).getD none

/-- What the card was answered with, by the click that settled it. -/
def answerIn (b : Broker) (tr : List Seen) : Option Approval := tr.findSome? (answerShown b)

/-- The windows the store was given to open. -/
def opened (tr : List Seen) : List ApprovalGrant := tr.filterMap windowAsked

/-- The names a person has to be asked about: their policy asks, and no window is open. -/
def uncoveredIn (r : LeaseRequest) (tr : List Seen) : List String :=
  r.names.filter fun name =>
    (evaluate (policyIn tr name) r.agent r.command).outcome = .ask ∧ (coveredIn r tr name).isNone

def ceilingIn (b : Broker) (tr : List Seen) (name : String) : Int :=
  ceiling (policyIn tr name) b.maxGrantS

/-- The least ceiling among the names a person has to be asked about. -/
def tightest (b : Broker) (r : LeaseRequest) (tr : List Seen) : Int :=
  ((uncoveredIn r tr).map (ceilingIn b tr)).min?.getD 0

/-- No window outlives the tightest ceiling of the basket, and none is ever open where that is zero. -/
structure Tight (b : Broker) (r : LeaseRequest) (tr : List Seen) : Prop where
  within : ∀ g ∈ opened tr, g.expiresAt - g.grantedAt ≤ tightest b r tr
  shut : tightest b r tr ≤ 0 → ∀ g ∈ opened tr, ∀ agent name now, g.grantedAt ≤ now →
    g.live agent name now = false

/-- The answer opens no window, or one the tightest ceiling allows, or all the ceilings are one. -/
def Level (b : Broker) (r : LeaseRequest) (tr : List Seen) : Prop :=
  ∀ answer, answerIn b tr = some answer → answer.grantS ≤ 0 ∨ answer.grantS ≤ tightest b r tr ∨
    ∀ name ∈ uncoveredIn r tr, ceilingIn b tr name = tightest b r tr

/-- The window an answer opens over a name, under its own secret's policy. -/
def windowOf (b : Broker) (d : Draws) (r : LeaseRequest)
    (policy : String → Option SecretPolicyRecord) (answer : Approval) (name : String) :
    ApprovalGrant :=
  ⟨d.grantId name, kindSecret, r.agent, name, answer.approver, d.openedAt name,
    d.openedAt name + min answer.grantS (ceiling (policy name) b.maxGrantS), false⟩

theorem opened_append : opened (tr ++ tr') = opened tr ++ opened tr' := List.filterMap_append

theorem answerIn_append : answerIn b (tr ++ tr') = (answerIn b tr).or (answerIn b tr') :=
  List.findSome?_append

/-! ## Calls that show nothing of it -/

/-- The calls by which a window is answered and opened. -/
def Marks : Call → Prop
  | .wait .. | .createGrant _ => True
  | _ => False

theorem plain_not_marks (c : Call) (h : c.plain = true) : ¬Marks c := by
  cases c <;> simp_all [Call.plain, Marks]

/-- The call that shows a window. -/
def Looks : Call → Prop
  | .liveGrant .. => True
  | _ => False

theorem windowShown_none {α : Type} {p : Lease α} {res : Except Exc α} (h : Avoids Looks p)
    (hx : Exec p tr res) (name : String) : tr.findSome? (windowShown r name) = none := by
  refine h.findSome? (fun x hs => ?_) hx
  obtain ⟨c, x⟩ := x
  cases c with
  | liveGrant principal scope => exact absurd trivial hs
  | _ => rfl

theorem shown_not_marks {x : Seen} (h : ¬Marks x.call) :
    windowAsked x = none ∧ answerShown b x = none := by
  obtain ⟨c, x⟩ := x
  cases c with
  | createGrant g => exact absurd trivial h
  | wait token entry => exact absurd trivial h
  | _ => exact ⟨rfl, rfl⟩

/-- Where nothing is answered and nothing opened. -/
def Plain (b : Broker) (tr : List Seen) : Prop := opened tr = [] ∧ answerIn b tr = none

theorem Plain.of_avoids {α : Type} {p : Lease α} {res : Except Exc α} (h : Avoids Marks p)
    (hx : Exec p tr res) : Plain b tr :=
  ⟨h.filterMap (fun _ hs => (shown_not_marks (b := b) hs).1) hx,
    h.findSome? (fun _ hs => (shown_not_marks hs).2) hx⟩

theorem Plain.append (h : Plain b tr) (h' : Plain b tr') : Plain b (tr ++ tr') :=
  ⟨by rw [opened_append, h.1, h'.1]; rfl, by rw [answerIn_append, h.2, h'.2]; rfl⟩

theorem plain_refuse {verdicts : Verdicts} {governing : Decision} {approver : String}
    {grantIds : GrantIds} {res : Except Exc LeaseResult}
    (h : Exec (refuse d r verdicts governing approver grantIds) tr res) : Plain b tr :=
  .of_avoids (avoids_refuse plain_not_marks) h

theorem plain_serve {verdicts : Verdicts} {uncovered : List String} {decisions : Decisions}
    {grantIds : GrantIds} {approver : String} {res : Except Exc LeaseResult}
    (h : Exec (serve b d r verdicts uncovered decisions grantIds approver) tr res) : Plain b tr :=
  .of_avoids (avoids_serve plain_not_marks fun _ _ => id) h

/-! ## The answer -/

/-- What was asked comes back as it was answered, and a silence as a refusal. -/
theorem finds_ask (ceilingS : Int) : Finds (answerShown b) Answered (ask b d r ceilingS) := by
  have hp := plain_not_marks
  have quiet : ∀ {α : Type} {p : Lease α} {tr : List Seen} {res : Except Exc α},
      Avoids Marks p → Exec p tr res → tr.findSome? (answerShown b) = none :=
    fun h hx => (Plain.of_avoids h hx).2
  refine .after (fun _ _ => quiet (.await (hp _ rfl))) fun approvers =>
    .after (fun _ _ => quiet (.await (hp _ rfl))) fun poster => ?_
  dsimp only
  split
  · exact .ret .nobody
  refine .after (fun _ _ => quiet (avoids_approvalConversation hp _ _)) fun channel => ?_
  split
  · exact .ret .nobody
  refine .after (fun _ _ => quiet (avoids_tryAwait (hp _ rfl))) fun posted => ?_
  cases posted with
  | none => exact .ret .nobody
  | some postId =>
    refine .call (fun x tr res hx => ?_) fun x tr answer hx => ?_
    · cases x with
      | error e => exact quiet (.raise e) hx
      | ok waited => exact quiet ((avoids_rewrite hp _ _).bind fun _ => .ret _) hx
    · cases x with
      | error e => cases hx
      | ok waited =>
        obtain ⟨_, _, _, -, hw, h⟩ := exec_bind_ok.1 hx
        cases hw
        obtain ⟨_, _, _, -, -, h'⟩ := exec_bind_ok.1 h
        cases h'
        exact answered_settled

/-- The asking opens no window. -/
theorem opened_ask {ceilingS : Int} {res : Except Exc (Option Approval)}
    (h : Exec (ask b d r ceilingS) tr res) : opened tr = [] := by
  refine Avoids.filterMap (S := fun c => ∃ g, c = .createGrant g) (avoids_ask
    (fun c hc ⟨g, he⟩ => by rw [he] at hc; cases hc) (fun _ _ ⟨_, he⟩ => nomatch he) _)
    (fun x hx => ?_) h
  obtain ⟨c, x⟩ := x
  cases c with
  | createGrant g => exact absurd ⟨g, rfl⟩ hx
  | _ => rfl

/-! ## The windows -/

/-- The policy of a name, as the lease goes by it. -/
def Policies.of (policies : Policies) (name : String) : Option SecretPolicyRecord :=
  (policies.lookup name).getD none

variable {policies : Policies} {uncovered : List String} {answer : Approval}

/-- An answer without seconds opens nothing. -/
theorem avoids_answered_once (h : answer.grantS ≤ 0) (x : Decisions × GrantIds) (name : String) :
    Avoids Marks (answered b d r policies uncovered answer x name) := by
  unfold answered
  rw [if_neg fun hc => absurd hc.1 (Int.not_lt.2 h)]
  exact .ret _

/-- What one answered name leaves: its window, where a person was asked about it. -/
theorem exec_window (hg : 0 < answer.grantS) {x : Decisions × GrantIds} {name : String}
    {res : Except Exc (Decisions × GrantIds)}
    (h : Exec (answered b d r policies uncovered answer x name) tr res) :
    answerIn b tr = none ∧
      opened tr = if name ∈ uncovered then [windowOf b d r policies.of answer name] else [] := by
  unfold answered at h
  by_cases hu : name ∈ uncovered
  · rw [if_pos ⟨hg, List.contains_iff_mem.2 hu⟩] at h
    rw [if_pos hu]
    have hopen : ∀ {tr : List Seen} {res : Except Exc String},
        Exec (openWindow b d r.agent name (policies.of name) answer) tr res →
          ∃ x, tr = [⟨.createGrant (windowOf b d r policies.of answer name), x⟩] := by
      intro tr res h
      obtain ⟨tr₁, tr₂, _, rfl, h₁, h₂⟩ | ⟨e, rfl, he⟩ := exec_bind.1 h
      · obtain ⟨rfl, -⟩ := exec_pure.1 h₂
        exact ⟨_, by rw [exec_await.1 h₁]; rfl⟩
      · exact ⟨_, exec_await.1 he⟩
    obtain ⟨tr₁, tr₂, _, rfl, h₁, h₂⟩ | ⟨e, rfl, he⟩ := exec_bind.1 h
    · obtain ⟨rfl, -⟩ := exec_pure.1 h₂
      obtain ⟨y, rfl⟩ := hopen h₁
      exact ⟨rfl, rfl⟩
    · obtain ⟨y, rfl⟩ := hopen he
      exact ⟨rfl, rfl⟩
  · rw [if_neg fun hc => hu (List.contains_iff_mem.1 hc.2)] at h
    obtain ⟨rfl, -⟩ := exec_pure.1 h
    exact ⟨rfl, by rw [if_neg hu]; rfl⟩

/-- The windows of the names asked about, in order; those up to one that could not be opened. -/
theorem exec_windows (hg : 0 < answer.grantS) {l : List String} {x : Decisions × GrantIds}
    {res : Except Exc (Decisions × GrantIds)}
    (h : Exec (l.foldlM (answered b d r policies uncovered answer) x) tr res) :
    answerIn b tr = none ∧ ∃ names, names <+: l.filter (· ∈ uncovered) ∧
      opened tr = names.map (windowOf b d r policies.of answer) ∧
      ∀ y, res = .ok y → names = l.filter (· ∈ uncovered) := by
  induction l generalizing x tr with
  | nil =>
    obtain ⟨rfl, -⟩ := exec_pure.1 h
    exact ⟨rfl, [], List.prefix_rfl, rfl, fun _ _ => rfl⟩
  | cons name l ih =>
    rw [List.foldlM_cons] at h
    obtain ⟨tr₁, tr₂, x', rfl, h₁, h₂⟩ | ⟨e, rfl, he⟩ := exec_bind.1 h
    · obtain ⟨ha, ho⟩ := exec_window hg h₁
      obtain ⟨ha', names, hpre, ho', hall⟩ := ih h₂
      refine ⟨by rw [answerIn_append, ha, ha']; rfl, ?_⟩
      rw [opened_append, ho, ho']
      by_cases hu : name ∈ uncovered
      · rw [if_pos hu, List.filter_cons_of_pos (by simpa using hu)]
        exact ⟨name :: names, List.cons_prefix_cons.2 ⟨rfl, hpre⟩, rfl,
          fun y hy => by rw [hall y hy]⟩
      · rw [if_neg hu, List.filter_cons_of_neg (by simpa using hu)]
        exact ⟨names, hpre, rfl, hall⟩
    · obtain ⟨ha, ho⟩ := exec_window hg he
      refine ⟨ha, ?_⟩
      rw [ho]
      by_cases hu : name ∈ uncovered
      · rw [if_pos hu, List.filter_cons_of_pos (by simpa using hu)]
        exact ⟨[name], List.cons_prefix_cons.2 ⟨rfl, List.nil_prefix⟩, rfl, nofun⟩
      · rw [if_neg hu]
        exact ⟨[], List.nil_prefix, rfl, nofun⟩

/-! ## What the stores showed -/

/-- What is read off the calls of a loop over names is what the loop returned. -/
theorem shown_mapM {α : Type} {f : String → Lease (String × α)} {φ : String → Seen → Option α}
    (hf : ∀ n tr x, Exec (f n) tr (.ok x) →
      x.1 = n ∧ ∀ m, tr.findSome? (φ m) = if n = m then some x.2 else none)
    {names : List String} {out : List (String × α)} (h : Exec (names.mapM f) tr (.ok out))
    (m : String) : tr.findSome? (φ m) = out.lookup m := by
  induction names generalizing tr out with
  | nil =>
    rw [List.mapM_nil] at h
    obtain ⟨rfl, ho⟩ := exec_pure.1 h
    cases ho
    rfl
  | cons n names ih =>
    rw [List.mapM_cons] at h
    obtain ⟨tr₁, _, x, rfl, h₁, h₂⟩ := exec_bind_ok.1 h
    obtain ⟨tr₂, _, xs, rfl, h₃, h₄⟩ := exec_bind_ok.1 h₂
    obtain ⟨rfl, ho⟩ := exec_pure.1 h₄
    cases ho
    obtain ⟨hn, hx⟩ := hf n tr₁ x h₁
    obtain ⟨k, v⟩ := x
    cases hn
    rw [List.append_nil, List.findSome?_append, hx, ih h₃, List.lookup_cons]
    by_cases hm : k = m
    · rw [if_pos hm, hm, beq_self_eq_true]
      rfl
    · rw [if_neg hm, beq_false_of_ne (Ne.symm hm)]
      rfl

theorem policies_shown
    (h : Exec (r.names.mapM fun name => do
      let policy : Option SecretPolicyRecord ← await (Call.getPolicy name)
      return (name, policy)) tr (.ok policies)) (m : String) :
    tr.findSome? (policyShown m) = policies.lookup m := by
  refine shown_mapM (fun n tr x h' => ?_) h m
  obtain ⟨tr₁, _, policy, rfl, h₁, h₂⟩ := exec_bind_ok.1 h'
  obtain ⟨rfl, hx⟩ := exec_pure.1 h₂
  cases hx
  rw [exec_await.1 h₁]
  exact ⟨rfl, fun m => List.findSome?_singleton⟩

theorem windows_shown {l : List String} {covered : Covered}
    (h : Exec (l.mapM fun name => do
      let grants : Grants ← await (Call.liveGrant r.agent name)
      return (name, grants.liveGrant r.agent name)) tr (.ok covered)) (m : String) :
    tr.findSome? (windowShown r m) = covered.lookup m := by
  refine shown_mapM (fun n tr x h' => ?_) h m
  obtain ⟨tr₁, _, grants, rfl, h₁, h₂⟩ := exec_bind_ok.1 h'
  obtain ⟨rfl, hx⟩ := exec_pure.1 h₂
  cases hx
  rw [exec_await.1 h₁]
  exact ⟨rfl, fun m => List.findSome?_singleton⟩

theorem exec_covered_keys {l : List String} {covered : Covered}
    (h : Exec (l.mapM fun name => do
      let grants : Grants ← await (Call.liveGrant r.agent name)
      return (name, grants.liveGrant r.agent name)) tr (.ok covered)) :
    covered.map Prod.fst = l := by
  refine (exec_pairs (P := fun _ => True) (fun n tr' x _ h' => ?_) h).1
  obtain ⟨_, _, grants, -, -, h₂⟩ := exec_bind_ok.1 h'
  obtain ⟨-, hx⟩ := exec_pure.1 h₂
  cases hx
  exact ⟨rfl, trivial⟩

/-- Everything a lease goes by before it asks is shown by its first calls. -/
theorem shown_first {tr₁ tr₂ tr₃ : List Seen} (tr : List Seen) {covered : Covered}
    (hk : policies.map Prod.fst = r.names)
    (hpol : ∀ m, tr₁.findSome? (policyShown m) = policies.lookup m)
    (hno : ∀ m, (tr₁ ++ tr₂).findSome? (windowShown r m) = none)
    (hcov : ∀ m, tr₃.findSome? (windowShown r m) = covered.lookup m)
    (hkeys : covered.map Prod.fst =
      r.names.filter fun name => ((judge r policies).of name).outcome = .ask) :
    (∀ name ∈ r.names, policyIn (tr₁ ++ (tr₂ ++ (tr₃ ++ tr))) name = policies.of name) ∧
      uncoveredIn r (tr₁ ++ (tr₂ ++ (tr₃ ++ tr))) =
        (r.names.filter fun name => ((judge r policies).of name).outcome = .ask).filter fun name =>
          (covered.of name).isNone := by
  have hpolicy : ∀ name ∈ r.names, policyIn (tr₁ ++ (tr₂ ++ (tr₃ ++ tr))) name = policies.of name ∧
      (judge r policies).of name = evaluate (policies.of name) r.agent r.command := by
    intro name hn
    cases hl : policies.lookup name with
    | none => exact absurd (hk ▸ hn) (Dict.lookup_eq_none.1 hl)
    | some p =>
      constructor
      · rw [policyIn, List.findSome?_append, hpol, hl, Policies.of, hl]
        rfl
      · unfold Verdicts.of judge
        rw [Dict.lookup_map fun p => evaluate p r.agent r.command, Policies.of, hl]
        rfl
  refine ⟨fun name hn => (hpolicy name hn).1, ?_⟩
  rw [uncoveredIn, List.filter_filter]
  refine List.filter_congr fun name hn => ?_
  obtain ⟨h₁, h₂⟩ := hpolicy name hn
  rw [h₁, ← h₂]
  by_cases hask : ((judge r policies).of name).outcome = .ask
  · have hmem : name ∈ covered.map Prod.fst :=
      hkeys ▸ List.mem_filter.2 ⟨hn, decide_eq_true hask⟩
    have hc : coveredIn r (tr₁ ++ (tr₂ ++ (tr₃ ++ tr))) name = covered.of name := by
      cases hl : covered.lookup name with
      | none => exact absurd hmem (Dict.lookup_eq_none.1 hl)
      | some w =>
        rw [coveredIn, ← List.append_assoc, List.findSome?_append, hno, List.findSome?_append, hcov,
          Covered.of, hl]
        rfl
    simp only [hc, hask, true_and, decide_true, Bool.and_true, Bool.decide_eq_true]
  · rw [decide_eq_false hask, Bool.and_false]
    exact decide_eq_false fun h => hask h.1

/-- From where everybody has answered: the windows, and what is served. -/
theorem exec_granting {l : List String} {x : Decisions × GrantIds}
    {k : Decisions × GrantIds → Lease LeaseResult} (hk : ∀ y, Avoids Marks (k y))
    {res : Except Exc LeaseResult}
    (h : Exec (l.foldlM (answered b d r policies uncovered answer) x >>= k) tr res) :
    answerIn b tr = none ∧ (answer.grantS ≤ 0 → opened tr = []) ∧
      (0 < answer.grantS → ∃ names, names <+: l.filter (· ∈ uncovered) ∧
        opened tr = names.map (windowOf b d r policies.of answer) ∧
        ∀ result, res = .ok result → names = l.filter (· ∈ uncovered)) := by
  by_cases hg : 0 < answer.grantS
  · obtain ⟨tr₁, tr₂, y, rfl, h₁, h₂⟩ | ⟨e, rfl, he⟩ := exec_bind.1 h
    · have hq : Plain b tr₂ := .of_avoids (hk y) h₂
      obtain ⟨ha, names, hpre, ho, hall⟩ := exec_windows hg h₁
      refine ⟨by rw [answerIn_append, ha, hq.2]; rfl, fun h => absurd hg (Int.not_lt.2 h),
        fun _ => ⟨names, hpre, ?_, fun _ _ => hall y rfl⟩⟩
      rw [opened_append, ho, hq.1, List.append_nil]
    · obtain ⟨ha, names, hpre, ho, -⟩ := exec_windows hg he
      exact ⟨ha, fun h => absurd hg (Int.not_lt.2 h), fun _ => ⟨names, hpre, ho, nofun⟩⟩
  · have hq : Plain b tr := .of_avoids ((Avoids.foldlM
      (fun x name _ => avoids_answered_once (Int.not_lt.1 hg) x name) x).bind hk) h
    exact ⟨hq.2, fun _ => hq.1, fun h => absurd h hg⟩

/-- Among the names that are answered, those a person was asked about are just those. -/
theorem filter_asked (l : List String) (p q : String → Prop) [DecidablePred p] [DecidablePred q] :
    (l.filter fun n => p n ∨ (l.filter (q ·)).contains n).filter (· ∈ l.filter (q ·)) =
      l.filter (q ·) := by
  rw [List.filter_filter]
  refine List.filter_congr fun n hn => ?_
  by_cases hq : q n
  · have hm : n ∈ l.filter (q ·) := List.mem_filter.2 ⟨hn, decide_eq_true hq⟩
    rw [decide_eq_true hm, decide_eq_true (.inr (List.contains_iff_mem.2 hm)), decide_eq_true hq]
    rfl
  · have hm : n ∉ l.filter (q ·) := fun h => hq (of_decide_eq_true (List.mem_filter.1 h).2)
    rw [decide_eq_false hm, decide_eq_false hq]
    rfl

/-! ## A whole lease -/

/-- A lease opens a window for each name a person was asked about, if the answer has seconds; fewer
only if it raises. -/
theorem exec_lease {res : Except Exc LeaseResult} (h : Exec (lease b d r) tr res) :
    (opened tr = [] ∧ ∀ result, res = .ok result → ∀ answer, answerIn b tr = some answer →
        answer.grantS ≤ 0) ∨
      ∃ answer names, answerIn b tr = some answer ∧ 0 < answer.grantS ∧
        names <+: uncoveredIn r tr ∧ opened tr = names.map (windowOf b d r (policyIn tr) answer) ∧
        ∀ result, res = .ok result → names = uncoveredIn r tr := by
  have hp := plain_not_marks
  have hplain : ∀ {tr : List Seen} {res : Except Exc LeaseResult}, Plain b tr →
      opened tr = [] ∧ ∀ result, res = .ok result → ∀ answer, answerIn b tr = some answer →
        answer.grantS ≤ 0 :=
    fun h => ⟨h.1, fun _ _ a ha => by cases h.2.symm.trans ha⟩
  obtain ⟨tr₁, _, policies, rfl, h₁, h2⟩ | ⟨e, rfl, he⟩ := exec_bind.1 h
  swap
  · exact .inl (hplain (.of_avoids
      (.mapM fun name => (Avoids.await (by rintro ⟨⟩)).bind fun _ => .ret _) he))
  have hq₁ : Plain b tr₁ := .of_avoids
    (.mapM fun name => (Avoids.await (by rintro ⟨⟩)).bind fun _ => .ret _) h₁
  obtain ⟨hk, -⟩ := exec_policies h₁
  dsimp only at h2
  split at h2
  · exact .inl (hplain (hq₁.append (plain_refuse h2)))
  obtain ⟨tr₂, _, state, rfl, h₂, h3⟩ | ⟨e, rfl, he⟩ := exec_bind.1 h2
  swap
  · exact .inl (hplain (hq₁.append (.of_avoids (.await (by rintro ⟨⟩)) he)))
  have hq₂ := hq₁.append (Plain.of_avoids (.await (by rintro ⟨⟩)) h₂)
  split at h3
  · exact .inl (hplain (List.append_assoc .. ▸ hq₂.append (plain_refuse h3)))
  obtain ⟨tr₃, tr₄, covered, rfl, h₃, h4⟩ | ⟨e, rfl, he⟩ := exec_bind.1 h3
  swap
  · exact .inl (hplain (List.append_assoc .. ▸ hq₂.append (.of_avoids
      (.mapM fun name => (Avoids.await (by rintro ⟨⟩)).bind fun _ => .ret _) he)))
  have hq₃ := hq₂.append (Plain.of_avoids
    (.mapM fun name => (Avoids.await (by rintro ⟨⟩)).bind fun _ => .ret _) h₃)
  have hno : ∀ m, (tr₁ ++ tr₂).findSome? (windowShown r m) = none := fun m => by
    rw [List.findSome?_append, windowShown_none (.mapM fun name =>
      (Avoids.await (by rintro ⟨⟩)).bind fun _ => .ret _) h₁ m, windowShown_none (.await (by rintro ⟨⟩)) h₂ m]
    rfl
  obtain ⟨hpolicy, hunc⟩ := shown_first tr₄ hk (policies_shown h₁) hno
    (windows_shown h₃) (exec_covered_keys h₃)
  have hopen : opened (tr₁ ++ (tr₂ ++ (tr₃ ++ tr₄))) = opened tr₄ := by
    rw [← List.append_assoc, ← List.append_assoc, opened_append, hq₃.1]
    rfl
  have hans : answerIn b (tr₁ ++ (tr₂ ++ (tr₃ ++ tr₄))) = answerIn b tr₄ := by
    rw [← List.append_assoc, ← List.append_assoc, answerIn_append, hq₃.2]
    rfl
  rw [hopen, hans]
  rw [← hunc] at h4
  generalize tr₁ ++ (tr₂ ++ (tr₃ ++ tr₄)) = t at hpolicy hunc h4
  split at h4
  · exact .inl (hplain (plain_serve h4))
  obtain ⟨tr₅, tr₆, heard, rfl, h₅, h5⟩ | ⟨e, rfl, he⟩ := exec_bind.1 h4
  swap
  · exact .inl ⟨opened_ask he, by simp⟩
  have hheard := finds_ask _ _ _ h₅
  rw [opened_append, opened_ask h₅, List.nil_append, answerIn_append]
  -- a refusal after the answer: it opens nothing
  have hrefused : Plain b tr₆ → (∀ a, answerIn b tr₅ = some a → a.grantS ≤ 0) →
      opened tr₆ = [] ∧ ∀ result, res = .ok result → ∀ answer,
        (answerIn b tr₅).or (answerIn b tr₆) = some answer → answer.grantS ≤ 0 := by
    intro hq ha
    refine ⟨hq.1, fun _ _ a h => ha a ?_⟩
    rwa [hq.2, Option.or_none] at h
  generalize hclick : tr₅.findSome? (answerShown b) = found at hheard
  change answerIn b tr₅ = found at hclick
  cases hheard with
  | nobody => exact .inl (hrefused (plain_refuse h5) fun a ha => by cases hclick.symm.trans ha)
  | silence hallowed =>
    dsimp only at h5
    rw [if_pos (by simp [hallowed])] at h5
    exact .inl (hrefused (plain_refuse h5) fun a ha => by cases hclick.symm.trans ha)
  | @click answer hdeny =>
    dsimp only at h5
    by_cases hallowed : answer.allowed = true
    swap
    · rw [if_pos hallowed] at h5
      refine .inl (hrefused (plain_refuse h5) fun a ha => ?_)
      cases hclick.symm.trans ha
      exact hdeny (by simpa using hallowed)
    rw [if_neg (not_not.2 hallowed)] at h5
    obtain ⟨ha₆, hnone, hsome⟩ := exec_granting (fun y =>
      avoids_serve hp fun _ _ => id) h5
    rw [ha₆, Option.or_none]
    by_cases hg : 0 < answer.grantS
    · obtain ⟨names, hpre, ho, hall⟩ := hsome hg
      have hasked : (r.names.filter fun name => ((judge r policies).of name).rule ≠ "" ∨
          (uncoveredIn r t).contains name).filter (· ∈ uncoveredIn r t) = uncoveredIn r t :=
        filter_asked r.names (fun name => ((judge r policies).of name).rule ≠ "") fun name =>
          (evaluate (policyIn t name) r.agent r.command).outcome = .ask ∧ (coveredIn r t name).isNone
      rw [hasked] at hpre hall
      refine .inr ⟨answer, names, hclick, hg, hpre, ?_, hall⟩
      rw [ho]
      refine List.map_congr_left fun name hn => ?_
      have hin : name ∈ r.names := (List.mem_filter.1 (hpre.subset hn)).1
      rw [windowOf, windowOf, hpolicy name hin]
    · refine .inl ⟨hnone (Int.not_lt.1 hg), fun _ _ a ha => ?_⟩
      cases hclick.symm.trans ha
      exact Int.not_lt.1 hg

/-! ## The tightest ceiling -/

theorem tightest_le {name : String} (hn : name ∈ uncoveredIn r tr) :
    tightest b r tr ≤ ceilingIn b tr name := by
  have hm : ceilingIn b tr name ∈ (uncoveredIn r tr).map (ceilingIn b tr) :=
    List.mem_map_of_mem hn
  cases hmin : ((uncoveredIn r tr).map (ceilingIn b tr)).min? with
  | none => exact absurd hm (List.min?_eq_none_iff.1 hmin ▸ List.not_mem_nil)
  | some least =>
    rw [tightest, hmin]
    exact (List.min?_eq_some_iff.1 hmin).2 _ hm

theorem windowOf_lasts (answer : Approval) (name : String) :
    (windowOf b d r (policyIn tr) answer name).expiresAt -
      (windowOf b d r (policyIn tr) answer name).grantedAt =
        min answer.grantS (ceilingIn b tr name) := by
  change d.openedAt name + min answer.grantS (ceilingIn b tr name) - d.openedAt name = _
  omega

/-- A window that lasts no time is never open. -/
theorem Tight.of_within
    (h : ∀ g ∈ opened tr, g.expiresAt - g.grantedAt ≤ tightest b r tr) : Tight b r tr where
  within := h
  shut hz g hg agent name now hnow := by
    have hw := h g hg
    refine decide_eq_false fun hl => ?_
    have hlive : now < g.expiresAt := hl.2.2.2.2
    omega

/-- In every way a lease may go, its windows are within the tightest ceiling of the basket if the
answer opens none, is within that ceiling itself, or all the ceilings are one; where the lease
returns, only then. -/
theorem tight_iff {res : Except Exc LeaseResult} (h : Exec (lease b d r) tr res) :
    (Level b r tr → Tight b r tr) ∧ ∀ result, res = .ok result → Tight b r tr → Level b r tr := by
  obtain ⟨hnone, hgrant⟩ | ⟨answer, names, hans, hg, hpre, ho, hall⟩ := exec_lease h
  · exact ⟨fun _ => .of_within (hnone ▸ nofun), fun result hres _ a ha => .inl (hgrant _ hres a ha)⟩
  constructor
  · intro hl
    refine .of_within fun g hgm => ?_
    rw [ho] at hgm
    obtain ⟨name, hn, rfl⟩ := List.mem_map.1 hgm
    rw [windowOf_lasts]
    obtain h0 | hle | heq := hl answer hans
    · omega
    · exact (min_le_left _ _).trans hle
    · exact (min_le_right _ _).trans (heq name (hpre.subset hn)).le
  · rintro result hres ht a ha
    cases hans.symm.trans ha
    refine .inr (Classical.or_iff_not_imp_left.2 fun hlong name hn => ?_)
    have hw := ht.within (windowOf b d r (policyIn tr) answer name)
      (ho ▸ List.mem_map_of_mem (hall result hres ▸ hn))
    have hle := tightest_le (b := b) hn
    rw [windowOf_lasts] at hw
    omega

namespace Sample

def basket : LeaseRequest :=
  ⟨"ops", [("TOKEN", ⟨"github", "value"⟩), ("KEY", ⟨"prod", "value"⟩)], "to ship", ["ship"]⟩

def ceilings (name : String) : SecretPolicyRecord :=
  ⟨name, .always, if name = "github" then 300 else 3600, "ops", []⟩

/-- A person in the approver set answers with a value, of whatever a control may carry. -/
def clicked (value : String) : (c : Call) → Except Exc (Reply c)
  | .getPolicy name => .ok (some (ceilings name))
  | .wait .. => .ok ⟨[], [⟨"token", value, "ana"⟩]⟩
  | c => answers (policy .always []) c

/-- A broker whose `int` reads the seconds of one answer. -/
def reading (seconds : Int) : Broker := { broker with int := fun _ => some seconds }

def shipped (seconds : Int) (value : String) : List Seen × Except Exc LeaseResult :=
  (lease (reading seconds) draws basket).runWith (clicked value)

def pair : LeaseResult := ⟨true, .approvedGrant, [("TOKEN", "s3cret"), ("KEY", "s3cret")]⟩

end Sample

/-- An answer the card offers: both windows stay open as long as the tightest policy allows. -/
theorem tight_iff_run : ∃ tr,
    Exec (lease (Sample.reading 300) Sample.draws Sample.basket) tr (.ok Sample.pair) ∧
      (opened tr).map (fun g => (g.scope, g.expiresAt - g.grantedAt)) =
        [("github", 300), ("prod", 300)] ∧ Tight (Sample.reading 300) Sample.basket tr := by
  have h : Exec (lease (Sample.reading 300) Sample.draws Sample.basket)
      (Sample.shipped 300 "grant:300").1 (.ok Sample.pair) := exec_runWith _ _
  refine ⟨_, h, by decide, (tight_iff h).1 fun answer ha => .inr (.inl ?_)⟩
  have hans : answerIn (Sample.reading 300) (Sample.shipped 300 "grant:300").1 =
      some ⟨true, 300, "ana", false⟩ := by decide
  cases hans.symm.trans ha
  decide

/-- A hand-made answer leaves the looser secret of a basket open for an hour, where the other's
policy allows five minutes. -/
theorem loosest_window : ∃ tr,
    Exec (lease (Sample.reading 3600) Sample.draws Sample.basket) tr (.ok Sample.pair) ∧
      (opened tr).map (fun g => (g.scope, g.expiresAt - g.grantedAt)) =
        [("github", 300), ("prod", 3600)] ∧
      tightest (Sample.reading 3600) Sample.basket tr = 300 ∧
      ¬Tight (Sample.reading 3600) Sample.basket tr := by
  have h : Exec (lease (Sample.reading 3600) Sample.draws Sample.basket)
      (Sample.shipped 3600 "grant:3600").1 (.ok Sample.pair) := exec_runWith _ _
  have hlast : (opened (Sample.shipped 3600 "grant:3600").1).map
      (fun g => (g.scope, g.expiresAt - g.grantedAt)) = [("github", 300), ("prod", 3600)] := by
    decide
  have hmin : tightest (Sample.reading 3600) Sample.basket
      (Sample.shipped 3600 "grant:3600").1 = 300 := by decide
  refine ⟨_, h, hlast, hmin, fun ht => ?_⟩
  have hm : ("prod", (3600 : Int)) ∈ (opened (Sample.shipped 3600 "grant:3600").1).map
      fun g => (g.scope, g.expiresAt - g.grantedAt) := by
    rw [hlast]
    exact List.mem_cons_of_mem _ List.mem_cons_self
  obtain ⟨g, hg, heq⟩ := List.mem_map.1 hm
  have hw := ht.within g hg
  rw [hmin, show g.expiresAt - g.grantedAt = 3600 from congrArg Prod.snd heq] at hw
  omega

end Ward
