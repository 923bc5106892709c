import ImpiAgent.Tools.Proof.Gate

/-!
# One row for a confirmation

What a confirmation leaves in the ledger, however it ends. A statement whose task is cancelled while
it runs may have been carried out: the store works in a thread (`Carried`). A caller who is cancelled
while the question is asked is recorded; one who is cancelled in any other await is not, or is
recorded as what the answer was, with the window it opened (`one_row`, `cancelled_unrecorded`).
-/

namespace ToolServer

open Approvals Prog Tools

variable {d : Draws} {tr : List Seen}

namespace ToolGate

variable {g : ToolGate} {q : Question}

/-! ## What is written -/

/-- The statements of the ledger. -/
def Stores : Call → Bool
  | .liveGrant .. | .createGrant _ | .recordDecision _ => true
  | _ => false

def rowOf : Call → Option ApprovalAudit
  | .recordDecision row => some row
  | _ => none

def windowOf : Call → Option ApprovalGrant
  | .createGrant grant => some grant
  | _ => none

/-- The calls of a run that were carried out: those that returned, and any of those that raised. -/
inductive Carried : List Seen → List Call → Prop
  | nil : Carried [] []
  | done {x : Seen} {tr : List Seen} {cs : List Call} : Carried tr cs →
      Carried (x :: tr) (x.call :: cs)
  | lost {x : Seen} {tr : List Seen} {cs : List Call} (e : Exc) : x.reply = .error e →
      Carried tr cs → Carried (x :: tr) cs

/-- The decision a row has for an outcome. -/
def Fits (decision : Decision) (res : Except Exc ConfirmOutcome) : Prop :=
  match decision with
  | .approvedOnce | .approvedGrant | .reusedGrant => res = .ok .allowed
  | .denied => res = .ok .denied
  | .timeout => res = .ok .unanswered
  | .noApprover => res = .ok .noApprover
  | .abandoned => res = .error .cancelled

/-- The confirmation left one row, which says how it ended; one whose caller was cancelled left no
window. It is over then, and waits on no click. -/
structure Recorded (d : Draws) (cs : List Call) (res : Except Exc ConfirmOutcome) : Prop where
  row : ∃ row, cs.filterMap rowOf = [row] ∧ row.requestId = d.requestId ∧ Fits row.decision res
  window : res = .error .cancelled → cs.filterMap windowOf = []

/-- Every statement of the ledger returned; or the caller was cancelled while the question was asked,
and the statements of rows were carried out. -/
def Unbroken (tr : List Seen) (cs : List Call) : Prop :=
  (∀ x ∈ tr, Stores x.call = true → ∃ r, x.reply = .ok r) ∨
    (∃ x ∈ tr, Stores x.call = false ∧ x.reply = .error .cancelled) ∧
      ∀ x ∈ tr, (rowOf x.call).isSome = true → x.call ∈ cs

section

variable {tr tr' : List Seen} {cs : List Call}

theorem carried_append : Carried (tr ++ tr') cs ↔
    ∃ cs₁ cs₂, cs = cs₁ ++ cs₂ ∧ Carried tr cs₁ ∧ Carried tr' cs₂ := by
  constructor
  · intro h
    induction tr generalizing cs with
    | nil => exact ⟨[], cs, rfl, .nil, h⟩
    | cons x tr ih =>
      cases h with
      | done h =>
        obtain ⟨cs₁, cs₂, rfl, h₁, h₂⟩ := ih h
        exact ⟨_ :: cs₁, cs₂, rfl, .done h₁, h₂⟩
      | lost e he h =>
        obtain ⟨cs₁, cs₂, rfl, h₁, h₂⟩ := ih h
        exact ⟨cs₁, cs₂, rfl, .lost e he h₁, h₂⟩
  · rintro ⟨cs₁, cs₂, rfl, h₁, h₂⟩
    induction h₁ with
    | nil => exact h₂
    | done _ ih => exact .done ih
    | lost e he _ ih => exact .lost e he ih

theorem carried_singleton {x : Seen} :
    Carried [x] cs ↔ cs = [x.call] ∨ cs = [] ∧ ∃ e, x.reply = .error e := by
  constructor
  · intro h
    cases h with
    | done h =>
      cases h
      exact .inl rfl
    | lost e he h =>
      cases h
      exact .inr ⟨rfl, e, he⟩
  · rintro (rfl | ⟨rfl, e, he⟩)
    · exact .done .nil
    · exact .lost e he .nil

theorem carried_none {α : Type} {f : Call → Option α} (h : Carried tr cs)
    (hf : ∀ x ∈ tr, f x.call = none) : cs.filterMap f = [] := by
  induction h with
  | nil => rfl
  | done _ ih =>
    rw [List.filterMap_cons_none (hf _ List.mem_cons_self)]
    exact ih fun x hx => hf x (List.mem_cons_of_mem _ hx)
  | lost _ _ _ ih => exact ih fun x hx => hf x (List.mem_cons_of_mem _ hx)

end

/-! ## The question -/

theorem passes_tryAwait {c : Call} : Passes .cancelled (tryAwait c) := by
  refine .call (fun tr res h => (exec_raise.1 h).2) fun x hx => ?_
  cases x with
  | ok a => exact .ret _
  | error e =>
    cases e with
    | cancelled => exact absurd rfl hx
    | toolError | other => exact .ret none

theorem raises_tell {c : Call} : Raises (· = .cancelled) (tell c) := by
  refine .bind (.call fun x => ?_) fun _ => .ret ()
  cases x with
  | ok a => exact .ret _
  | error e =>
    cases e with
    | cancelled => exact .raise rfl
    | toolError | other => exact .ret none

theorem passes_tell {c : Call} : Passes .cancelled (tell c) :=
  passes_tryAwait.bind fun _ => .ret ()

theorem passes_rewriteAll {card : Card} {copies : List (String × Poster × String)} :
    Passes .cancelled (rewriteAll card copies) :=
  (Passes.mapM fun _ => .ite (.ret ()) passes_tell).bind fun _ => .ret ()

theorem passes_setWaiting {views : List String} {waiting : Bool} :
    Passes .cancelled (setWaiting views waiting) :=
  (Passes.mapM fun _ => passes_tell).bind fun _ => .ret ()

theorem raises_rewriteAll {card : Card} {copies : List (String × Poster × String)} :
    Raises (· = .cancelled) (rewriteAll card copies) :=
  (Raises.mapM fun _ => .ite (.ret ()) raises_tell).bind fun _ => .ret ()

theorem raises_setWaiting {views : List String} {waiting : Bool} :
    Raises (· = .cancelled) (setWaiting views waiting) :=
  (Raises.mapM fun _ => raises_tell).bind fun _ => .ret ()

/-- What the asking does once its wait raised. -/
def withdraw (q : Question) (copies views : List (String × Poster × String)) (e : Exc) :
    Serve (Option Approval) := do
  rewriteAll (q.closed .withdrawn) copies
  setWaiting (views.map (·.1)) false
  raise e

theorem exec_withdraw {copies views : List (String × Poster × String)} {tr : List Seen}
    {res : Except Exc (Option Approval)} (h : Exec (withdraw q copies views .cancelled) tr res) :
    res = .error .cancelled := by
  cases res with
  | ok a =>
    obtain ⟨_, _, _, _, _, h₂⟩ := exec_bind_ok.1 h
    obtain ⟨_, _, _, _, _, h₃⟩ := exec_bind_ok.1 h₂
    cases h₃
  | error e =>
    have hr : Raises (· = .cancelled) (withdraw q copies views .cancelled) :=
      raises_rewriteAll.bind fun _ => raises_setWaiting.bind fun _ => .raise rfl
    exact congrArg Except.error (hr tr e h)

/-- The asking ends cancelled exactly if one of its awaits was. -/
theorem passes_ask : Passes .cancelled (ask g d q) := by
  refine Passes.await.bind fun record => Passes.await.bind fun place => ?_
  cases record with
  | none => exact .ret none
  | some record =>
    refine ((Passes.mapM fun _ => Passes.await.bind fun _ => .ret _).bind fun _ => .ret _).bind
      fun posters => .ite (.ret none) ?_
    refine (Passes.ite .await (.ret none)).bind fun scope =>
      ((Passes.mapM fun _ => passes_tryAwait.bind fun _ => .ret _).bind fun _ => .ret _).bind
        fun copies => .ite (.ret none) (passes_setWaiting.bind fun _ => ?_)
    refine .call (fun tr res h => ?_) fun waited hw => ?_
    · -- the card is retired, and the cancellation goes on
      replace h : Exec (withdraw q copies (copies.filter fun x =>
        x.1 = place.getD record.lastGateway ∧ x.2.1.view) .cancelled) tr res := h
      exact exec_withdraw h
    · cases waited with
      | error e =>
        exact passes_rewriteAll.bind fun _ => passes_setWaiting.bind fun _ =>
          .raise fun he => hw (he ▸ rfl)
      | ok waited =>
        dsimp only [Prog.bind]
        split
        · exact passes_rewriteAll.bind fun _ => passes_setWaiting.bind fun _ => .ret _
        · exact passes_setWaiting.bind fun _ => passes_rewriteAll.bind fun _ => .ret _

theorem stores_of_ask {x : Seen} {res : Except Exc (Option Approval)}
    (h : Exec (ask g d q) tr res) (hx : x ∈ tr) :
    Stores x.call = false ∧ rowOf x.call = none ∧ windowOf x.call = none := by
  have he : ¬Elsewhere x.call := avoids_ask _ _ h x hx
  generalize x.call = c at he
  cases c <;> first | exact ⟨rfl, rfl, rfl⟩ | exact absurd trivial he

/-! ## How a confirmation ends -/

/-- Writes no row, and no statement of the ledger raised. -/
structure Clean (before : List Seen) : Prop where
  rows : ∀ x ∈ before, rowOf x.call = none
  stores : ∀ x ∈ before, Stores x.call = true → ∃ r, x.reply = .ok r

/-- The caller was not cancelled in an await of the question. -/
def Heard (tr : List Seen) : Prop := ∀ x ∈ tr, Stores x.call = false → x.reply ≠ .error .cancelled

inductive Ends (d : Draws) : List Seen → Except Exc ConfirmOutcome → Prop
  /-- A statement before the row raised. -/
  | broken {tr : List Seen} {x : Seen} {e : Exc} {res : Except Exc ConfirmOutcome} :
      (∀ y ∈ tr, rowOf y.call = none) → x ∈ tr → Stores x.call = true → x.reply = .error e →
      Heard tr → Ends d tr res
  | concluded {before : List Seen} {row : ApprovalAudit} {outcome : ConfirmOutcome}
      (x : Except Exc Unit) : Clean before → Heard before → row.requestId = d.requestId →
      Fits row.decision (.ok outcome) →
      Ends d (before ++ [⟨.recordDecision row, x⟩]) (x.bind fun _ => .ok outcome)
  | abandoned {before : List Seen} {row : ApprovalAudit} {y : Seen} (x : Except Exc Unit) :
      Clean before → (∀ z ∈ before, windowOf z.call = none) → y ∈ before →
      Stores y.call = false → y.reply = .error .cancelled → row.requestId = d.requestId →
      row.decision = .abandoned →
      Ends d (before ++ [⟨.recordDecision row, x⟩]) (x.bind fun _ => .error .cancelled)
  /-- Something else raised. -/
  | failed {tr : List Seen} {e : Exc} : e ≠ .cancelled → Ends d tr (.error e)

theorem exec_record {α : Type} {decision : Decision} {approver grantId : String}
    {p : Serve α} {res : Except Exc α}
    (h : Exec (record d q decision approver grantId >>= fun _ => p) tr res)
    {y : Except Exc α} (hp : ∀ tr' res', Exec p tr' res' → tr' = [] ∧ res' = y) :
    ∃ x, tr = [⟨.recordDecision ⟨kindTool, q.agent, toolScope q.tool q.session, q.args, decision,
      approver, grantId, d.requestId⟩, x⟩] ∧ res = x.bind fun _ => y := by
  obtain ⟨tr₁, tr₂, a, rfl, h₁, h₂⟩ | ⟨e, rfl, he⟩ := exec_bind.1 h
  · have htr := exec_await.1 h₁
    obtain ⟨rfl, rfl⟩ := hp _ _ h₂
    exact ⟨.ok a, (List.append_nil _).trans htr, rfl⟩
  · exact ⟨.error e, exec_await.1 he, rfl⟩

/-- The window was looked up, and that is all. -/
theorem exec_window {res : Except Exc (Option ApprovalGrant)} (h : Exec (window q) tr res) :
    (∃ grant, res = .ok grant ∧ ∀ x ∈ tr, rowOf x.call = none ∧ windowOf x.call = none ∧
      Stores x.call = true ∧ ∃ r, x.reply = .ok r) ∨
    ∃ e x, res = .error e ∧ tr = [x] ∧ rowOf x.call = none ∧ Stores x.call = true ∧
      x.reply = .error e := by
  unfold window at h
  split at h
  · obtain ⟨tr₁, tr₂, a, rfl, h₁, h₂⟩ | ⟨e, rfl, he⟩ := exec_bind.1 h
    · obtain ⟨rfl, rfl⟩ := exec_pure.1 h₂
      rw [exec_await.1 h₁]
      refine .inl ⟨_, rfl, fun x hx => ?_⟩
      obtain rfl : x = _ := List.mem_singleton.1 (List.append_nil _ ▸ hx)
      exact ⟨rfl, rfl, rfl, a, rfl⟩
    · exact .inr ⟨e, _, rfl, exec_await.1 he, rfl, rfl, rfl⟩
  · obtain ⟨rfl, rfl⟩ := exec_pure.1 h
    exact .inl ⟨none, rfl, fun x hx => absurd hx List.not_mem_nil⟩

theorem exec_openWindow {answer : Approval} {res : Except Exc String}
    (h : Exec (openWindow g d q answer) tr res) :
    ∃ grant x, tr = [⟨.createGrant grant, x⟩] ∧ res = x.bind fun _ => .ok d.grantId := by
  obtain ⟨tr₁, tr₂, a, rfl, h₁, h₂⟩ | ⟨e, rfl, he⟩ := exec_bind.1 h
  · obtain ⟨rfl, rfl⟩ := exec_pure.1 h₂
    exact ⟨_, .ok a, (List.append_nil _).trans (exec_await.1 h₁), rfl⟩
  · exact ⟨_, .error e, exec_await.1 he, rfl⟩

/-- What has been seen when the question was asked: a look at the windows, and the asking. -/
theorem clean_ask {tr₁ tr₂ : List Seen} {res : Except Exc (Option Approval)}
    (h₁ : ∀ x ∈ tr₁, rowOf x.call = none ∧ windowOf x.call = none ∧ Stores x.call = true ∧
      ∃ r, x.reply = .ok r) (h₂ : Exec (ask g d q) tr₂ res) :
    Clean (tr₁ ++ tr₂) ∧ (∀ x ∈ tr₁ ++ tr₂, windowOf x.call = none) := by
  refine ⟨⟨fun x hx => ?_, fun x hx hs => ?_⟩, fun x hx => ?_⟩ <;>
    rcases List.mem_append.1 hx with hx | hx
  · exact (h₁ x hx).1
  · exact (stores_of_ask h₂ hx).2.1
  · exact (h₁ x hx).2.2.2
  · exact absurd (hs.symm.trans (stores_of_ask h₂ hx).1) nofun
  · exact (h₁ x hx).2.1
  · exact (stores_of_ask h₂ hx).2.2

theorem heard_ask {tr₁ tr₂ : List Seen} {answer : Option Approval}
    (h₁ : ∀ x ∈ tr₁, Stores x.call = true) (h₂ : Exec (ask g d q) tr₂ (.ok answer)) :
    Heard (tr₁ ++ tr₂) := by
  intro x hx hs he
  rcases List.mem_append.1 hx with hx | hx
  · exact absurd ((h₁ x hx).symm.trans hs) nofun
  · exact nomatch (passes_ask _ _ h₂).2 ⟨x, hx, he⟩

theorem confirm_ends {res : Except Exc ConfirmOutcome} (h : Exec (confirm g d q) tr res) :
    Ends d tr res := by
  obtain ⟨tr₁, tr₂, grant, rfl, h₁, h₂⟩ | ⟨e, rfl, he⟩ := exec_bind.1 h
  swap
  · obtain ⟨_, hr, -⟩ | ⟨e', x, hr, rfl, hrow, hs, hx⟩ := exec_window he
    · cases hr
    · refine .broken (fun y hy => ?_) List.mem_cons_self hs hx fun y hy hy' => ?_ <;>
        obtain rfl := List.mem_singleton.1 hy
      · exact hrow
      · exact absurd (hs.symm.trans hy') nofun
  obtain ⟨_, -, hw⟩ | ⟨_, _, hr, -⟩ := exec_window h₁
  swap
  · cases hr
  have hstored : ∀ x ∈ tr₁, Stores x.call = true := fun x hx => (hw x hx).2.2.1
  cases grant with
  | some grant =>
    obtain ⟨x, rfl, rfl⟩ := exec_record h₂ fun _ _ => exec_pure.1
    exact .concluded x ⟨fun y hy => (hw y hy).1, fun y hy _ => (hw y hy).2.2.2⟩
      (fun y hy hs => absurd ((hstored y hy).symm.trans hs) nofun) rfl rfl
  | none =>
    obtain ⟨tr₃, tr₄, answer, rfl, h₃, h₄⟩ | ⟨e, rfl, he⟩ := exec_bind.1 h₂
    · have hask : Exec (ask g d q) tr₃ (.ok answer) := by
        obtain ⟨a, he, ha⟩ | ⟨_, _, e, rfl, -, h₅⟩ := exec_handle.1 h₃
        · exact Except.ok.inj he ▸ ha
        · split at h₅
          · obtain ⟨_, _, _, _, _, h₆⟩ := exec_bind_ok.1 h₅
            cases h₆
          · cases h₅
      obtain ⟨hclean, hwin⟩ := clean_ask hw hask
      have hheard := heard_ask hstored hask
      rw [← List.append_assoc]
      cases answer with
      | none =>
        obtain ⟨x, rfl, rfl⟩ := exec_record h₄ fun _ _ => exec_pure.1
        exact .concluded x hclean hheard rfl rfl
      | some answer =>
        dsimp only at h₄
        split at h₄
        · obtain ⟨x, rfl, rfl⟩ := exec_record h₄ fun _ _ => exec_pure.1
          refine .concluded x hclean hheard rfl ?_
          cases answer.timedOut <;> rfl
        split at h₄
        swap
        · obtain ⟨x, rfl, rfl⟩ := exec_record h₄ fun _ _ => exec_pure.1
          exact .concluded x hclean hheard rfl rfl
        obtain ⟨tr₅, tr₆, grantId, rfl, h₅, h₆⟩ | ⟨e, rfl, he⟩ := exec_bind.1 h₄
        · obtain ⟨x, rfl, rfl⟩ := exec_record h₆ fun _ _ => exec_pure.1
          obtain ⟨grant, y, rfl, hy⟩ := exec_openWindow h₅
          rw [← List.append_assoc]
          refine .concluded x ⟨fun z hz => ?_, fun z hz hs => ?_⟩ (fun z hz hs => ?_) rfl rfl <;>
            rcases List.mem_append.1 hz with hz | hz
          · exact hclean.rows z hz
          · exact List.mem_singleton.1 hz ▸ rfl
          · exact hclean.stores z hz hs
          · cases y with
            | ok r => exact List.mem_singleton.1 hz ▸ ⟨r, rfl⟩
            | error e => cases hy
          · exact hheard z hz hs
          · exact absurd (List.mem_singleton.1 hz ▸ hs) nofun
        · obtain ⟨grant, y, rfl, hy⟩ := exec_openWindow he
          cases y with
          | ok r => cases hy
          | error e' =>
            refine .broken (fun z hz => ?_) (List.mem_append_right _ List.mem_cons_self) rfl rfl
              fun z hz hs => ?_ <;> rcases List.mem_append.1 hz with hz | hz
            · exact hclean.rows z hz
            · exact List.mem_singleton.1 hz ▸ rfl
            · exact hheard z hz hs
            · exact absurd (List.mem_singleton.1 hz ▸ hs) nofun
    · obtain ⟨_, hr, -⟩ | ⟨tr₃, tr₄, e', rfl, hask, h₅⟩ := exec_handle.1 he
      · cases hr
      split at h₅
      · next hc =>
        subst hc
        obtain ⟨x, rfl, hres⟩ := exec_record h₅ fun _ _ => exec_raise.1
        obtain ⟨y, hy, hyc⟩ := (passes_ask _ _ hask).1 rfl
        obtain ⟨hclean, hwin⟩ := clean_ask hw hask
        rw [← List.append_assoc]
        have hends : ∀ row : ApprovalAudit, row.requestId = d.requestId →
            row.decision = .abandoned → Ends d (tr₁ ++ tr₃ ++ [⟨.recordDecision row, x⟩])
              (x.bind fun _ => .error .cancelled) := fun row =>
          .abandoned x hclean hwin (List.mem_append_right _ hy) (stores_of_ask hask hy).1 hyc
        cases x <;> cases hres <;> exact hends _ rfl rfl
      · next hc =>
        cases (exec_raise.1 h₅).2
        exact .failed hc

/-! ## What it leaves -/

theorem rows_append {before : List Seen} {x : Seen} {cs : List Call} {r : ApprovalAudit}
    (hb : ∀ y ∈ before, rowOf y.call = none) (hx : x.call = .recordDecision r)
    (hc : Carried (before ++ [x]) cs) :
    cs.filterMap rowOf = [r] ∧ x.call ∈ cs ∨
      cs.filterMap rowOf = [] ∧ x.call ∉ cs ∧ ∃ e, x.reply = .error e := by
  obtain ⟨cs₁, cs₂, rfl, h₁, h₂⟩ := carried_append.1 hc
  have hnone := carried_none h₁ hb
  rcases carried_singleton.1 h₂ with rfl | ⟨rfl, he⟩
  · exact .inl ⟨by simp [hnone, hx, rowOf], by simp⟩
  · refine .inr ⟨by simp [hnone], fun hm => ?_, he⟩
    rw [List.append_nil] at hm
    have : r ∈ cs₁.filterMap rowOf := List.mem_filterMap.2 ⟨_, hm, by rw [hx]; rfl⟩
    rw [hnone] at this
    cases this

/-- The row of an answer does not say that the caller was cancelled. -/
theorem fits_one {decision : Decision} {outcome : ConfirmOutcome} {e : Exc}
    (h : Fits decision (.ok outcome)) : ¬Fits decision (.error e) := by
  cases decision with
  | abandoned => cases h
  | _ => exact nofun

/-- A statement of the ledger raised, and the caller was not cancelled while the question was
asked. -/
theorem broken_of_heard {x : Seen} {e : Exc} {cs : List Call} (hx : x ∈ tr)
    (hs : Stores x.call = true) (he : x.reply = .error e) (hh : Heard tr) : ¬Unbroken tr cs := by
  rintro (hall | ⟨⟨y, hy, hys, hyc⟩, -⟩)
  · obtain ⟨r, hr⟩ := hall x hx hs
    exact nomatch he.symm.trans hr
  · exact hh y hy hys hyc

theorem stores_snoc {before : List Seen} {row : ApprovalAudit} {r : Unit} (hb : Clean before) :
    ∀ y ∈ before ++ [(⟨.recordDecision row, .ok r⟩ : Seen)], Stores y.call = true →
      ∃ r, y.reply = .ok r := by
  intro y hy hs
  rcases List.mem_append.1 hy with hy | hy
  · exact hb.stores y hy hs
  · obtain rfl := List.mem_singleton.1 hy
    exact ⟨r, rfl⟩

/-- However a confirmation ends, one whose caller met no other exception than a cancellation left
its one row exactly if no statement of the ledger was interrupted but that of the row itself, for a
caller who was cancelled while the question was asked. -/
theorem one_row {res : Except Exc ConfirmOutcome} {cs : List Call}
    (h : Exec (confirm g d q) tr res) (hc : Carried tr cs)
    (he : ∀ e, res = .error e → e = .cancelled) : Recorded d cs res ↔ Unbroken tr cs := by
  cases confirm_ends h with
  | @broken _ x e _ hrows hx hs hxe hheard =>
    refine iff_of_false (fun ⟨⟨row, hrow, _⟩, _⟩ => ?_) ?_
    · rw [carried_none hc hrows] at hrow
      cases hrow
    · exact broken_of_heard hx hs hxe hheard
  | failed hne => exact absurd (he _ rfl) hne
  | @concluded before row outcome x hclean hheard hid hfit =>
    have hrows := rows_append (r := row) hclean.rows rfl hc
    cases x with
    | ok r =>
      obtain ⟨hrow, -⟩ | ⟨-, -, e, hx⟩ := hrows
      · exact iff_of_true ⟨⟨row, hrow, hid, hfit⟩, nofun⟩ (.inl (stores_snoc hclean))
      · cases hx
    | error e =>
      refine iff_of_false (fun ⟨⟨row', hrow', _, hfit'⟩, _⟩ => ?_) (broken_of_heard (e := e)
        (List.mem_append_right _ List.mem_cons_self) rfl rfl fun y hy hs => ?_)
      · obtain ⟨hrow, -⟩ | ⟨hrow, -⟩ := hrows <;> cases hrow.symm.trans hrow'
        exact fits_one hfit hfit'
      · rcases List.mem_append.1 hy with hy | hy
        · exact hheard y hy hs
        · exact absurd (List.mem_singleton.1 hy ▸ hs) nofun
  | @abandoned before row y x hclean hwin hy hys hyc hid hdec =>
    have hwindow : cs.filterMap windowOf = [] := carried_none hc fun z hz => by
      rcases List.mem_append.1 hz with hz | hz
      · exact hwin z hz
      · exact List.mem_singleton.1 hz ▸ rfl
    have hrows := rows_append (r := row) hclean.rows rfl hc
    cases x with
    | ok r =>
      obtain ⟨hrow, -⟩ | ⟨-, -, e, hx⟩ := hrows
      · exact iff_of_true ⟨⟨row, hrow, hid, hdec ▸ rfl⟩, fun _ => hwindow⟩
          (.inl (stores_snoc hclean))
      · cases hx
    | error e =>
      cases he e rfl
      obtain ⟨hrow, hm⟩ | ⟨hrow, hm, -⟩ := hrows
      · -- the row was written although its statement was interrupted
        refine iff_of_true ⟨⟨row, hrow, hid, hdec ▸ rfl⟩, fun _ => hwindow⟩
          (.inr ⟨⟨y, List.mem_append_left _ hy, hys, hyc⟩, fun z hz hzr => ?_⟩)
        rcases List.mem_append.1 hz with hz | hz
        · exact absurd (hclean.rows z hz ▸ hzr) nofun
        · exact List.mem_singleton.1 hz ▸ hm
      · refine iff_of_false (fun ⟨⟨row', hrow', _⟩, _⟩ => ?_) ?_
        · cases hrow.symm.trans hrow'
        · rintro (hall | ⟨-, hall⟩)
          · obtain ⟨r, hr⟩ := hall _ (List.mem_append_right _ List.mem_cons_self) rfl
            cases hr
          · exact hm (hall _ (List.mem_append_right _ List.mem_cons_self) rfl)

theorem carried_all (tr : List Seen) : Carried tr (tr.map (·.call)) := by
  induction tr with
  | nil => exact .nil
  | cons x tr ih => exact .done ih

end ToolGate

namespace Sample

def question : ToolGate.Question := ⟨"reader", "post", "\x7b\x7d", "reader--dm", none, "", true⟩

/-- The caller hangs up while the card is up. -/
def hungUp : ∀ c : Call, Except Exc (Reply c)
  | .wait .. => .error .cancelled
  | c => answers c

/-- The caller hangs up before the windows are looked up. -/
def hungUpEarly : ∀ c : Call, Except Exc (Reply c)
  | .liveGrant .. => .error .cancelled
  | c => answers c

/-- The caller hangs up while the row of a window is written. -/
def hungUpLate : ∀ c : Call, Except Exc (Reply c)
  | .wait .. => .ok ⟨[], [⟨"k", "grant:900", "u1"⟩]⟩
  | .recordDecision _ => .error .cancelled
  | c => answers c

def lending : ToolGate := { gate with int := fun _ => some 900 }

def trace (o : ∀ c, Except Exc (Reply c)) : List Seen :=
  ((lending.confirm draws question).runWith o).1

end Sample

open ToolGate in
/-- The caller hangs up while the card is up: the row says so. -/
theorem one_row_run : ∃ tr, Exec (Sample.lending.confirm Sample.draws Sample.question) tr
      (.error .cancelled) ∧
    Recorded Sample.draws (tr.map (·.call)) (.error .cancelled) := by
  have h : Exec (Sample.lending.confirm Sample.draws Sample.question)
      (Sample.trace Sample.hungUp) (.error .cancelled) := exec_runWith _ _
  have hall : (Sample.trace Sample.hungUp).all
      (fun x => !Stores x.call || x.reply.isOk) = true := by decide
  refine ⟨_, h, (one_row h (carried_all _) fun e he => (Except.error.inj he).symm).2
    (.inl fun x hx hs => ?_)⟩
  have hx' := List.all_eq_true.1 hall x hx
  rw [hs] at hx'
  cases hr : x.reply with
  | ok r => exact ⟨r, rfl⟩
  | error e =>
    rw [hr] at hx'
    cases hx'

open ToolGate in
/-- A caller who hangs up while the windows are looked up leaves no row; one who does while the row
of a window is written is recorded as allowed, and leaves the window. -/
theorem cancelled_unrecorded :
    (∃ tr cs, Exec (Sample.lending.confirm Sample.draws Sample.question) tr (.error .cancelled) ∧
      Carried tr cs ∧ cs.filterMap rowOf = [] ∧
      ¬Recorded Sample.draws cs (.error .cancelled)) ∧
    ∃ tr cs, Exec (Sample.lending.confirm Sample.draws Sample.question) tr (.error .cancelled) ∧
      Carried tr cs ∧ (cs.filterMap rowOf).map (·.decision) = [.approvedGrant] ∧
      (cs.filterMap windowOf).map (·.id) = ["gr"] ∧
      ¬Recorded Sample.draws cs (.error .cancelled) := by
  have h : Exec (Sample.lending.confirm Sample.draws Sample.question)
      (Sample.trace Sample.hungUpEarly) (.error .cancelled) := exec_runWith _ _
  have h' : Exec (Sample.lending.confirm Sample.draws Sample.question)
      (Sample.trace Sample.hungUpLate) (.error .cancelled) := exec_runWith _ _
  have hrows : ((Sample.trace Sample.hungUpEarly).map (·.call)).filterMap rowOf = [] := rfl
  have hrows' : (((Sample.trace Sample.hungUpLate).map (·.call)).filterMap rowOf).map (·.decision) =
      [.approvedGrant] := by decide
  have hwindows : (((Sample.trace Sample.hungUpLate).map (·.call)).filterMap windowOf).map (·.id) =
      ["gr"] := by decide
  refine ⟨⟨_, _, h, carried_all _, hrows, fun ⟨⟨row, hrow, _⟩, _⟩ => ?_⟩,
    ⟨_, _, h', carried_all _, hrows', hwindows, fun hrec => ?_⟩⟩
  · cases hrows.symm.trans hrow
  · rw [hrec.window rfl] at hwindows
    cases hwindows

end ToolServer
