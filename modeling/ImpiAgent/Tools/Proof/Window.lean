import ImpiAgent.Gateways.Clicks
import ImpiAgent.Tools.Proof.Audit

/-!
# The windows of a tool

A confirmation of a tool that grants no window looks at none and offers none, but opens the one its
answer asks for (`exec_confirm_windows`). Every window is capped by the gate. So a tool that grants
none gets none where no answer asks for one (`withheld_iff`): the routes of the HTTP gateway pass none
on (`Clicks.unoffered_http`), a callback does.
-/

namespace ToolServer

open Approvals Prog Tools

namespace ToolGate

variable {g : ToolGate} {d : Draws} {q : Question} {tr tr' : List Seen}

/-! ## What a confirmation was answered -/

def answerShown (g : ToolGate) : Seen → Option Approval
  | ⟨.wait token entry, .ok waited⟩ =>
    (Registry.register (Waited.others waited) token entry).settled g.int token
      (Waited.clicks waited)
  | _ => none

/-- What the card was answered with, by the click that settled it. -/
def answerIn (g : ToolGate) (tr : List Seen) : Option Approval := tr.findSome? (answerShown g)

/-- The windows the store was given to open. -/
def opened (tr : List Seen) : List ApprovalGrant := tr.filterMap (windowOf ·.call)

/-- The call looks for a window, or records that one let the call through. -/
def Reuses : Call → Prop
  | .liveGrant .. => True
  | .recordDecision row => row.decision = .reusedGrant
  | _ => False

/-- A tool that grants no window is given none and let through by none; one that does is given none
that is longer than the gate allows. -/
structure Withheld (g : ToolGate) (q : Question) (tr : List Seen) : Prop where
  unopened : q.grantable = false → opened tr = []
  unused : q.grantable = false → ∀ x ∈ tr, ¬Reuses x.call
  capped : ∀ w ∈ opened tr, w.expiresAt - w.grantedAt ≤ g.maxGrantS

/-- The tool grants windows, or the answer asks for none. -/
def Unasked (g : ToolGate) (q : Question) (tr : List Seen) : Prop :=
  q.grantable = true ∨ ∀ answer, answerIn g tr = some answer → answer.grantS ≤ 0

theorem opened_append : opened (tr ++ tr') = opened tr ++ opened tr' := List.filterMap_append

theorem answerIn_append : answerIn g (tr ++ tr') = (answerIn g tr).or (answerIn g tr') :=
  List.findSome?_append

/-! ## The question -/

/-- The calls by which a window is answered and opened. -/
def Marks : Call → Prop
  | .wait .. | .createGrant _ => True
  | _ => False

theorem asks_not_marks (c : Call) (h : Asks c = true) : ¬Marks c := by
  cases c <;> first | exact id | cases h

theorem shown_not_marks {x : Seen} (h : ¬Marks x.call) :
    windowOf x.call = none ∧ answerShown g x = none := by
  obtain ⟨c, x⟩ := x
  cases c with
  | wait token entry => exact absurd trivial h
  | createGrant grant => exact absurd trivial h
  | _ => exact ⟨rfl, rfl⟩

/-- Where nothing is answered and nothing opened. -/
def Plain (g : ToolGate) (tr : List Seen) : Prop := opened tr = [] ∧ answerIn g tr = none

theorem Plain.of_avoids {α : Type} {p : Serve α} {res : Except Exc α} (h : Avoids Marks p)
    (hx : Exec p tr res) : Plain g tr :=
  ⟨h.filterMap (fun _ hs => (shown_not_marks (g := g) hs).1) hx,
    h.findSome? (fun _ hs => (shown_not_marks hs).2) hx⟩

theorem Plain.append (h : Plain g tr) (h' : Plain g tr') : Plain g (tr ++ tr') :=
  ⟨by rw [opened_append, h.1, h'.1]; rfl, by rw [answerIn_append, h.2, h'.2]; rfl⟩

/-- The asking opens no window. -/
theorem opened_ask {res : Except Exc (Option Approval)} (h : Exec (ask g d q) tr res) :
    opened tr = [] :=
  List.filterMap_eq_nil_iff.2 fun _ hx => (stores_of_ask h hx).2.2

/-- What was asked comes back as it was answered, and a silence as a refusal. -/
theorem finds_ask : Finds (answerShown g) Answered (ask g d q) := by
  have hS := asks_not_marks
  have quiet : ∀ {α : Type} {p : Serve α} {tr : List Seen} {res : Except Exc α},
      Avoids Marks p → Exec p tr res → tr.findSome? (answerShown g) = none :=
    fun h hx => (Plain.of_avoids h hx).2
  refine .after (fun _ _ => quiet (.await (hS _ rfl))) fun record =>
    .after (fun _ _ => quiet (.await (hS _ rfl))) fun place => ?_
  cases record with
  | none => exact .ret .nobody
  | some record =>
    refine .after (fun _ _ => quiet (avoids_posters hS)) fun posters => ?_
    split
    · exact .ret .nobody
    refine .after (fun _ _ => quiet (avoids_turnOf (hS _ rfl))) fun scope =>
      .after (fun _ _ => quiet (avoids_postAll hS)) fun copies => ?_
    split
    · exact .ret .nobody
    refine .after (fun _ _ => quiet (avoids_setWaiting hS)) fun _ =>
      .call (fun x tr res hx => ?_) fun x tr answer hx => ?_
    · refine quiet ?_ hx
      cases x with
      | error e => exact (avoids_rewriteAll hS).bind fun _ => (avoids_setWaiting hS).bind fun _ => .raise e
      | ok waited =>
        dsimp only [Prog.bind]
        split
        · exact (avoids_rewriteAll hS).bind fun _ => (avoids_setWaiting hS).bind fun _ => .ret _
        · exact (avoids_setWaiting hS).bind fun _ => (avoids_rewriteAll hS).bind fun _ => .ret _
    · cases x with
      | error e =>
        dsimp only [Prog.bind] at hx
        obtain ⟨_, _, _, _, _, h⟩ := exec_bind_ok.1 hx
        obtain ⟨_, _, _, _, _, h'⟩ := exec_bind_ok.1 h
        cases h'
      | ok waited =>
        dsimp only [Prog.bind] at hx
        have hsettled := @answered_settled g.int d.token (q.entry (g.who record scope))
          waited.others waited.clicks
        change Answered ((waited.others.register d.token (q.entry (g.who record scope))).settled
          g.int d.token waited.clicks) answer
        split at hx
        · next hnone =>
          obtain ⟨_, _, _, _, _, h⟩ := exec_bind_ok.1 hx
          obtain ⟨_, _, _, _, _, h'⟩ := exec_bind_ok.1 h
          cases h'
          rw [hnone] at hsettled ⊢
          exact hsettled
        · next answer hsome =>
          obtain ⟨_, _, _, _, _, h⟩ := exec_bind_ok.1 hx
          obtain ⟨_, _, _, _, _, h'⟩ := exec_bind_ok.1 h
          cases h'
          rw [hsome] at hsettled ⊢
          exact hsettled

/-! ## The confirmation -/

/-- The window `_open_window` opens. -/
def windowFor (g : ToolGate) (d : Draws) (q : Question) (answer : Approval) : ApprovalGrant :=
  ⟨d.grantId, kindTool, q.agent, toolScope q.tool q.session, answer.approver, d.openedAt,
    d.openedAt + min answer.grantS g.maxGrantS, false⟩

theorem avoids_row {decision : Decision} {approver grantId : String} :
    Avoids Marks (record d q decision approver grantId) :=
  .await (by nofun)

theorem exec_openWindow_for {answer : Approval} {res : Except Exc String}
    (h : Exec (openWindow g d q answer) tr res) :
    opened tr = [windowFor g d q answer] ∧ answerIn g tr = none := by
  obtain ⟨tr₁, tr₂, _, rfl, h₁, h₂⟩ | ⟨e, rfl, he⟩ := exec_bind.1 h
  · obtain ⟨rfl, -⟩ := exec_pure.1 h₂
    rw [exec_await.1 h₁]
    exact ⟨rfl, rfl⟩
  · rw [exec_await.1 he]
    exact ⟨rfl, rfl⟩

/-- What a confirmation opens: nothing, or the window of the answer. -/
theorem exec_confirm_windows {res : Except Exc ConfirmOutcome} (h : Exec (confirm g d q) tr res) :
    (opened tr = [] ∧ ∀ outcome, res = .ok outcome → ∀ answer, answerIn g tr = some answer →
        answer.grantS ≤ 0) ∨
      ∃ answer, answerIn g tr = some answer ∧ 0 < answer.grantS ∧
        opened tr = [windowFor g d q answer] := by
  have hplain : ∀ {tr : List Seen} {res : Except Exc ConfirmOutcome}, Plain g tr →
      opened tr = [] ∧ ∀ outcome, res = .ok outcome → ∀ answer, answerIn g tr = some answer →
        answer.grantS ≤ 0 :=
    fun h => ⟨h.1, fun _ _ a ha => nomatch h.2.symm.trans ha⟩
  have hwindow : Avoids Marks (window q) :=
    .ite ((Avoids.await (by nofun)).bind fun _ => .ret _) (.ret none)
  obtain ⟨tr₁, tr₂, grant, rfl, h₁, h₂⟩ | ⟨e, rfl, he⟩ := exec_bind.1 h
  swap
  · exact .inl (hplain (.of_avoids hwindow he))
  have hq₁ : Plain g tr₁ := .of_avoids hwindow h₁
  cases grant with
  | some grant =>
    exact .inl (hplain (hq₁.append (.of_avoids (avoids_row.bind fun _ => .ret _) h₂)))
  | none =>
    rw [opened_append, hq₁.1, List.nil_append, answerIn_append, hq₁.2, Option.none_or]
    obtain ⟨tr₃, tr₄, answer, rfl, h₃, h₄⟩ | ⟨e, rfl, he⟩ := exec_bind.1 h₂
    swap
    · obtain ⟨_, hr, -⟩ | ⟨tr₃, tr₄, e', rfl, hask, h₅⟩ := exec_handle.1 he
      · cases hr
      have hq₄ : Plain g tr₄ := .of_avoids (.ite (avoids_row.bind fun _ => .raise _) (.raise _)) h₅
      exact .inl ⟨by rw [opened_append, opened_ask hask, hq₄.1]; rfl, nofun⟩
    have hask : Exec (ask g d q) tr₃ (.ok answer) := by
      obtain ⟨a, he, ha⟩ | ⟨_, _, e, rfl, -, h₅⟩ := exec_handle.1 h₃
      · exact Except.ok.inj he ▸ ha
      · split at h₅
        · obtain ⟨_, _, _, _, _, h₆⟩ := exec_bind_ok.1 h₅
          cases h₆
        · cases h₅
    rw [opened_append, opened_ask hask, List.nil_append, answerIn_append]
    -- what is only recorded opens nothing
    have hrecorded : Plain g tr₄ → (∀ a, answerIn g tr₃ = some a → a.grantS ≤ 0) →
        opened tr₄ = [] ∧ ∀ outcome, res = .ok outcome → ∀ answer,
          (answerIn g tr₃).or (answerIn g tr₄) = some answer → answer.grantS ≤ 0 := by
      intro hq ha
      refine ⟨hq.1, fun _ _ a h => ha a ?_⟩
      rwa [hq.2, Option.or_none] at h
    have hfound := finds_ask _ _ hask
    generalize hclick : tr₃.findSome? (answerShown g) = found at hfound
    change answerIn g tr₃ = found at hclick
    have hrow : ∀ {decision : Decision} {approver grantId : String} {outcome : ConfirmOutcome},
        Avoids Marks (record d q decision approver grantId >>= fun _ => pure outcome) :=
      avoids_row.bind fun _ => .ret _
    cases hfound with
    | nobody =>
      exact .inl (hrecorded (.of_avoids hrow h₄) fun a ha => nomatch hclick.symm.trans ha)
    | silence hallowed =>
      dsimp only at h₄
      rw [if_pos (by simp [hallowed])] at h₄
      exact .inl (hrecorded (.of_avoids hrow h₄) fun a ha => nomatch hclick.symm.trans ha)
    | @click answer hdeny =>
      dsimp only at h₄
      by_cases hallowed : answer.allowed = true
      swap
      · rw [if_pos hallowed] at h₄
        refine .inl (hrecorded (.of_avoids hrow h₄) fun a ha => ?_)
        cases hclick.symm.trans ha
        exact hdeny (by simpa using hallowed)
      rw [if_neg (not_not.2 hallowed)] at h₄
      by_cases hg : 0 < answer.grantS
      · rw [if_pos hg] at h₄
        refine .inr ⟨answer, ?_, hg, ?_⟩
        · rw [hclick]
          rfl
        · obtain ⟨tr₅, tr₆, grantId, rfl, h₅, h₆⟩ | ⟨e, rfl, he⟩ := exec_bind.1 h₄
          · have hq₆ : Plain g tr₆ := .of_avoids hrow h₆
            rw [opened_append, (exec_openWindow_for h₅).1, hq₆.1, List.append_nil]
          · exact (exec_openWindow_for he).1
      · rw [if_neg hg] at h₄
        refine .inl (hrecorded (.of_avoids hrow h₄) fun a ha => ?_)
        cases hclick.symm.trans ha
        exact Int.not_lt.1 hg

/-- A confirmation of a tool that grants no window looks for none. -/
theorem avoids_reuses (hq : q.grantable = false) : Avoids Reuses (confirm g d q) := by
  have hwindow : window q = pure none := if_neg (by simp [hq])
  have hrow : ∀ {α : Type} {decision : Decision} {approver grantId : String} {p : Serve α},
      decision ≠ .reusedGrant → Avoids Reuses p →
        Avoids Reuses (record d q decision approver grantId >>= fun _ => p) := by
    intro α decision approver grantId p hd hp
    have hs : Avoids Reuses (record d q decision approver grantId) := .await hd
    exact hs.bind fun _ => hp
  change Avoids Reuses (window q >>= _)
  rw [hwindow, pure_bind]
  refine (Avoids.handle (avoids_asking (fun c hc => ?_) fun _ _ => id) fun e => ?_).bind
    fun answer => ?_
  · cases c <;> first | exact id | cases hc
  · exact .ite (hrow nofun (.raise _)) (.raise _)
  · cases answer with
    | none => exact hrow nofun (.ret _)
    | some answer =>
      refine .ite (hrow ?_ (.ret _)) (.ite ?_ (hrow nofun (.ret _)))
      · split <;> exact nofun
      · have hopen : Avoids Reuses (openWindow g d q answer) :=
          (Avoids.await id).bind fun _ => .ret _
        exact hopen.bind fun _ => hrow nofun (.ret _)

/-- In every way a confirmation may go, a tool that grants no window gets none and every window is
capped, if the tool grants windows or the answer asks for none; where it comes to an outcome, only
then. -/
theorem withheld_iff {res : Except Exc ConfirmOutcome} (h : Exec (confirm g d q) tr res) :
    (Unasked g q tr → Withheld g q tr) ∧
      ∀ outcome, res = .ok outcome → Withheld g q tr → Unasked g q tr := by
  have hunused : q.grantable = false → ∀ x ∈ tr, ¬Reuses x.call :=
    fun hq => avoids_reuses hq _ _ h
  obtain ⟨hnone, hgrant⟩ | ⟨answer, hans, hg, ho⟩ := exec_confirm_windows h
  · exact ⟨fun _ => ⟨fun _ => hnone, hunused, hnone ▸ nofun⟩,
      fun outcome hres _ => .inr (hgrant outcome hres)⟩
  constructor
  · intro hu
    refine ⟨fun hq => ?_, hunused, fun w hw => ?_⟩
    · obtain hgr | hle := hu
      · exact nomatch hq.symm.trans hgr
      · exact absurd (hle answer hans) (Int.not_le.2 hg)
    · rw [ho] at hw
      obtain rfl := List.mem_singleton.1 hw
      change d.openedAt + min answer.grantS g.maxGrantS - d.openedAt ≤ g.maxGrantS
      omega
  · intro outcome _ hw
    cases hq : q.grantable with
    | true => exact .inl hq
    | false => exact nomatch ho.symm.trans (hw.unopened hq)

end ToolGate

namespace Sample

/-- A tool whose every call a person reads. -/
def read : ToolGate.Question := { question with grantable := false }

/-- The card is answered with a callback whose context carries a value. -/
def called (value : String) : Clicks.Callback :=
  ⟨[(approvalKey, "k"), ("value", value)], "u1"⟩

def answeredBy (value : String) : ∀ c : Call, Except Exc (Reply c)
  | .wait .. => .ok ⟨[], ((called value).approval lending.people).toList⟩
  | c => answers c

def readings (value : String) : List Seen × Except Exc ConfirmOutcome :=
  (lending.confirm draws read).runWith (answeredBy value)

end Sample

open ToolGate in
/-- A call allowed once leaves no window. -/
theorem withheld_iff_run : ∃ tr, Exec (Sample.lending.confirm Sample.draws Sample.read) tr
      (.ok .allowed) ∧
    answerIn Sample.lending tr = some ⟨true, 0, "u1", false⟩ ∧
    Withheld Sample.lending Sample.read tr := by
  have h : Exec (Sample.lending.confirm Sample.draws Sample.read)
      (Sample.readings "once").1 (.ok .allowed) := exec_runWith _ _
  have hans : answerIn Sample.lending (Sample.readings "once").1 =
      some ⟨true, 0, "u1", false⟩ := by decide
  refine ⟨_, h, hans, (withheld_iff h).1 (.inr fun answer ha => ?_)⟩
  cases hans.symm.trans ha
  exact Int.le_refl 0

open ToolGate in
/-- A callback that asks for a window opens it over a tool that grants none. -/
theorem window_ungranted : ∃ tr, Exec (Sample.lending.confirm Sample.draws Sample.read) tr
      (.ok .allowed) ∧
    (opened tr).map (fun w => (w.scope, w.expiresAt - w.grantedAt)) = [("post@reader--dm", 900)] ∧
    ¬Withheld Sample.lending Sample.read tr := by
  have h : Exec (Sample.lending.confirm Sample.draws Sample.read)
      (Sample.readings "grant:900").1 (.ok .allowed) := exec_runWith _ _
  have hopen : (opened (Sample.readings "grant:900").1).map
      (fun w => (w.scope, w.expiresAt - w.grantedAt)) = [("post@reader--dm", 900)] := by decide
  refine ⟨_, h, hopen, fun hw => ?_⟩
  rw [hw.unopened rfl] at hopen
  cases hopen

end ToolServer
