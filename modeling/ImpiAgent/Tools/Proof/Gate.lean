import ImpiAgent.Tools.Server

/-!
# What a tool runs on

`tool_gate`: wherever a call is served, its tool runs only on what the server has found before: an
agent the token names, an allowlist with the tool, a session and its proof, a conversation and a
gateway that let the tool through, and a confirmation of this call where the tool declares one.

The server believes the proof of a session whoever's session it is (`proof_of_another`): the book of
proofs knows sessions, not agents.
-/

namespace ToolServer

open Approvals Prog Tools

variable {s : Server} {g : ToolGate} {d : Draws} {r : Request} {q : ToolGate.Question}
  {tr : List Seen}

/-! ## Nothing runs while a call is decided -/

section

variable {S : Call → Prop}

theorem avoids_tryAwait {c : Call} (h : ¬S c) : Avoids S (tryAwait c) := by
  refine .call h fun x => ?_
  rcases x with e | a
  · dsimp only
    split
    · exact .ret none
    · exact .raise e
  · exact .ret (some a)

theorem avoids_tell {c : Call} (h : ¬S c) : Avoids S (tell c) :=
  (avoids_tryAwait h).bind fun _ => .ret ()

theorem avoids_turnOf {turns : Bool} {session : String} (h : ¬S (.turn session)) :
    Avoids S (turnOf turns session) :=
  .ite (.await h) (.ret none)

end

theorem Confirmed.mono {tool : ServedTool} {c : ToolCall} {seen seen' : List Seen}
    (h : Confirmed g d tool c seen) (hs : seen ⊆ seen') : Confirmed g d tool c seen' := by
  cases h with
  | window hg hgrants hrow hlive => exact .window hg (hs hgrants) hrow hlive
  | answer hrecord hscope hpost hwait hclick htoken hwho hdecide =>
    exact .answer (hs hrecord) (fun ht => hs (hscope ht)) (hs hpost) (hs hwait) hclick htoken hwho
      hdecide

namespace ToolGate

/-- A call the asking makes, the wait for its answer apart. -/
def Asks : Call → Bool
  | .sessionRecord _ | .place _ | .poster .. | .turn _ | .postConfirmation ..
  | .updateConfirmation .. | .setWaiting .. => true
  | _ => false

section

variable {S : Call → Prop} (hS : ∀ c, Asks c = true → ¬S c)
include hS

theorem avoids_posters {agent : String} {record : SessionRecord} :
    Avoids S (posters agent record) :=
  (Avoids.mapM fun _ => (Avoids.await (hS _ rfl)).bind fun _ => .ret _).bind fun _ => .ret _

theorem avoids_postAll {card : Card} {posters : List (String × Poster)} :
    Avoids S (postAll card posters) :=
  (Avoids.mapM fun _ => (avoids_tryAwait (hS _ rfl)).bind fun _ => .ret _).bind fun _ => .ret _

theorem avoids_rewriteAll {card : Card} {copies : List (String × Poster × String)} :
    Avoids S (rewriteAll card copies) :=
  (Avoids.mapM fun _ => .ite (.ret ()) (avoids_tell (hS _ rfl))).bind fun _ => .ret ()

theorem avoids_setWaiting {views : List String} {waiting : Bool} :
    Avoids S (setWaiting views waiting) :=
  (Avoids.mapM fun _ => avoids_tell (hS _ rfl)).bind fun _ => .ret ()

theorem avoids_asking (hw : ∀ token entry, ¬S (.wait token entry)) : Avoids S (ask g d q) := by
  refine (Avoids.await (hS _ rfl)).bind fun record => (Avoids.await (hS _ rfl)).bind fun place => ?_
  cases record with
  | none => exact .ret none
  | some record =>
    refine (avoids_posters hS).bind fun posters => .ite (.ret none) ?_
    refine (avoids_turnOf (hS _ rfl)).bind fun scope => (avoids_postAll hS).bind fun copies =>
      .ite (.ret none) ((avoids_setWaiting hS).bind fun _ => .call (hw _ _) fun waited => ?_)
    cases waited with
    | error e => exact (avoids_rewriteAll hS).bind fun _ => (avoids_setWaiting hS).bind fun _ => .raise e
    | ok waited =>
      dsimp only [Prog.bind]
      split
      · exact (avoids_rewriteAll hS).bind fun _ => (avoids_setWaiting hS).bind fun _ => .ret _
      · exact (avoids_setWaiting hS).bind fun _ => (avoids_rewriteAll hS).bind fun _ => .ret _

end

/-- The call is none that the asking makes. -/
def Elsewhere : Call → Prop
  | .sessionRecord _ | .place _ | .poster .. | .turn _ | .postConfirmation ..
  | .updateConfirmation .. | .setWaiting .. | .wait .. => False
  | _ => True

theorem avoids_ask : Avoids Elsewhere (ask g d q) :=
  avoids_asking (fun c hc => by cases c <;> first | exact id | cases hc) fun _ _ => id

theorem elsewhere_of_runs {c : Call} (h : ¬Elsewhere c) : ¬Runs c := by
  cases c <;> first | exact id | exact absurd trivial h

theorem avoids_record {decision : Decision} {approver grantId : String} :
    Avoids Runs (record d q decision approver grantId) :=
  .await (by nofun)

theorem avoids_window : Avoids Runs (window q) :=
  .ite ((Avoids.await (by nofun)).bind fun _ => .ret _) (.ret none)

theorem avoids_confirm : Avoids Runs (confirm g d q) := by
  refine avoids_window.bind fun grant => ?_
  cases grant with
  | some grant => exact avoids_record.bind fun _ => .ret _
  | none =>
    refine ((avoids_ask.mono fun _ => elsewhere_of_runs).handle fun e => ?_).bind fun answer => ?_
    · split
      · exact avoids_record.bind fun _ => .raise e
      · exact .raise e
    · cases answer with
      | none => exact avoids_record.bind fun _ => .ret _
      | some answer =>
        refine .ite (avoids_record.bind fun _ => .ret _) (.ite ?_ ?_)
        · exact ((Avoids.await (by nofun)).bind fun _ => .ret _).bind fun _ =>
            avoids_record.bind fun _ => .ret _
        · exact avoids_record.bind fun _ => .ret _

/-! ## A confirmation -/

theorem mem_of_liveGrant {grants : Grants} {principal scope : String} {grant : ApprovalGrant}
    (h : grants.liveGrant principal scope = some grant) :
    grant ∈ grants.rows ∧ grant.live principal scope grants.now := by
  have hm := (List.mem_insertionSort _).1 (List.mem_of_mem_head? h)
  obtain ⟨hrow, hlive⟩ := List.mem_filter.1 hm
  exact ⟨hrow, of_decide_eq_true hlive⟩

/-- A card that was posted is among what the gate saw. -/
theorem exec_postAll {card : Card} {posters : List (String × Poster)}
    {copies : List (String × Poster × String)} (h : Exec (postAll card posters) tr (.ok copies))
    (hc : copies ≠ []) :
    ∃ gateway postId, (⟨.postConfirmation gateway card, .ok postId⟩ : Seen) ∈ tr := by
  obtain ⟨tr₁, _, posted, rfl, h₁, h2⟩ := exec_bind_ok.1 h
  obtain ⟨rfl, hp⟩ := exec_pure.1 h2
  cases hp
  obtain ⟨copy, hcopy⟩ := List.exists_mem_of_ne_nil _ hc
  obtain ⟨x, hx, hxc⟩ := List.mem_filterMap.1 hcopy
  obtain ⟨y, -, tr₃, hs, hy⟩ := exec_mapM_mem h₁ hx
  obtain ⟨tr₄, _, postId, rfl, h₄, h5⟩ := exec_bind_ok.1 hy
  obtain ⟨rfl, hpost⟩ := exec_pure.1 h5
  cases postId with
  | none =>
    cases hpost
    cases hxc
  | some postId =>
    refine ⟨y.1, postId, List.mem_append_left _ (hs (List.mem_append_left _ ?_))⟩
    cases h₄ with
    | call reply h₆ =>
      cases reply with
      | ok r =>
        cases h₆
        exact List.mem_cons_self
      | error e =>
        dsimp only at h₆
        split at h₆ <;> cases h₆

theorem exec_ask {answer : Approval} (h : Exec (ask g d q) tr (.ok (some answer)))
    (ha : answer.allowed = true) :
    ∃ (record : SessionRecord) (scope : Option TurnScope) (gateway postId : String)
      (offers : List Int) (waited : Waited) (click : Click),
      (⟨.sessionRecord q.session, .ok (some record)⟩ : Seen) ∈ tr ∧
      (g.turns = true → (⟨.turn q.session, .ok scope⟩ : Seen) ∈ tr) ∧
      (⟨.postConfirmation gateway (q.card d.token offers), .ok postId⟩ : Seen) ∈ tr ∧
      (⟨.wait d.token (q.entry (g.who record scope)), .ok waited⟩ : Seen) ∈ tr ∧
      click ∈ waited.clicks ∧ click.token = d.token ∧
      (q.entry (g.who record scope)).mayAnswer click.user = true ∧
      (Approvals.decide g.int click.value click.user).allowed = true := by
  obtain ⟨tr₁, _, record, rfl, h₁, h2⟩ := exec_bind_ok.1 h
  obtain ⟨tr₂, _, place, rfl, -, h3⟩ := exec_bind_ok.1 h2
  cases record with
  | none => cases h3
  | some record =>
    obtain ⟨tr₃, _, posters, rfl, -, h4⟩ := exec_bind_ok.1 h3
    split at h4
    · cases h4
    obtain ⟨tr₄, _, scope, rfl, h₄, h5⟩ := exec_bind_ok.1 h4
    obtain ⟨tr₅, _, copies, rfl, h₅, h6⟩ := exec_bind_ok.1 h5
    split at h6
    · cases h6
    next hcopies =>
    obtain ⟨tr₆, _, _, rfl, -, h7⟩ := exec_bind_ok.1 h6
    obtain ⟨tr₇, tr₈, waited, rfl, h₇, h8⟩ := exec_bind_ok.1 h7
    obtain ⟨x, rfl, hx⟩ := exec_attempt.1 h₇
    cases hx
    have hrecord : tr₁ = [⟨.sessionRecord q.session, .ok (some record)⟩] := exec_await.1 h₁
    obtain ⟨gateway, postId, hpost⟩ := exec_postAll h₅ (by simpa using hcopies)
    have hscope : g.turns = true → (⟨.turn q.session, .ok scope⟩ : Seen) ∈ tr₄ := by
      intro ht
      rw [ht] at h₄
      have htr : tr₄ = [⟨.turn q.session, .ok scope⟩] := exec_await.1 h₄
      simp [htr]
    cases waited with
    | error e =>
      obtain ⟨_, _, _, _, _, h9⟩ := exec_bind_ok.1 h8
      obtain ⟨_, _, _, _, _, h10⟩ := exec_bind_ok.1 h9
      cases h10
    | ok waited =>
      dsimp only at h8
      have hreg : (waited.others.register d.token (q.entry (g.who record scope))).lookup d.token =
          some (q.entry (g.who record scope)) := by
        rw [Registry.register, Dict.lookup_assign, if_pos rfl]
      cases hset : (waited.others.register d.token (q.entry (g.who record scope))).settled g.int
          d.token waited.clicks with
      | none =>
        rw [hset] at h8
        obtain ⟨_, _, _, _, _, h9⟩ := exec_bind_ok.1 h8
        obtain ⟨_, _, _, _, _, h10⟩ := exec_bind_ok.1 h9
        cases h10
        cases ha
      | some answer' =>
        rw [hset] at h8
        obtain ⟨_, _, _, _, _, h9⟩ := exec_bind_ok.1 h8
        obtain ⟨_, _, _, _, _, h10⟩ := exec_bind_ok.1 h9
        cases h10
        obtain ⟨click, hclick, htoken, hmay, rfl⟩ := mem_of_settled hreg hset
        refine ⟨record, scope, gateway, postId, if q.grantable then windows g.maxGrantS else [],
          waited, click, ?_, fun ht => ?_, ?_, ?_, hclick, htoken, hmay, ha⟩
        · simp [hrecord]
        · simp [hscope ht]
        · simp [hpost]
        · refine List.mem_append_right _ (List.mem_append_right _ (List.mem_append_right _
            (List.mem_append_right _ (List.mem_append_right _ (List.mem_append_right _
              (List.mem_append_left _ List.mem_cons_self))))))

/-- A question that ends allowed was let through by a window or by a person. -/
theorem exec_confirm {tool : ServedTool} {c : ToolCall} {preview : Option String}
    (h : Exec (confirm g d ⟨c.agent, c.tool, c.args, c.session, preview, tool.displayName,
      tool.grantable⟩) tr (.ok .allowed)) : Confirmed g d tool c tr := by
  obtain ⟨tr₁, tr₂, grant, rfl, h₁, h2⟩ := exec_bind_ok.1 h
  cases grant with
  | some grant =>
    rw [window] at h₁
    split at h₁
    swap
    · cases h₁
    next hgrantable =>
    obtain ⟨tr₃, _, grants, rfl, h₃, h4⟩ := exec_bind_ok.1 h₁
    obtain ⟨rfl, hg⟩ := exec_pure.1 h4
    have htr : tr₃ = [⟨.liveGrant c.agent (toolScope c.tool c.session), .ok grants⟩] :=
      exec_await.1 h₃
    obtain ⟨hrow, hlive⟩ := mem_of_liveGrant (Except.ok.inj hg).symm
    exact .window hgrantable (by simp [htr]) hrow hlive
  | none =>
    obtain ⟨tr₃, tr₄, answer, rfl, h₃, h4⟩ := exec_bind_ok.1 h2
    have hask : Exec (ask g d ⟨c.agent, c.tool, c.args, c.session, preview, tool.displayName,
        tool.grantable⟩) tr₃ (.ok answer) := by
      obtain ⟨a, he, ha⟩ | ⟨_, tr₅, e, rfl, -, h5⟩ := exec_handle.1 h₃
      · exact Except.ok.inj he ▸ ha
      · -- whatever was raised is raised again
        split at h5
        · obtain ⟨_, _, _, _, _, h6⟩ := exec_bind_ok.1 h5
          cases h6
        · cases h5
    cases answer with
    | none =>
      obtain ⟨_, _, _, _, _, h5⟩ := exec_bind_ok.1 h4
      cases h5
    | some answer =>
      dsimp only at h4
      split at h4
      · obtain ⟨_, _, _, _, _, h5⟩ := exec_bind_ok.1 h4
        obtain ⟨-, h6⟩ := exec_pure.1 h5
        split at h6 <;> cases h6
      · next hallowed =>
        obtain ⟨record, scope, gateway, postId, offers, waited, click, hrecord, hscope, hpost,
          hwait, hclick, htoken, hmay, hdecide⟩ := exec_ask hask (not_not.1 hallowed)
        rw [Pending.mayAnswer, Bool.or_eq_true] at hmay
        exact .answer (by simp [hrecord]) (fun ht => by simp [hscope ht])
          (List.mem_append_right _ (List.mem_append_left _ hpost))
          (List.mem_append_right _ (List.mem_append_left _ hwait)) hclick htoken
          (hmay.imp List.isEmpty_iff.1 List.contains_iff_mem.1) hdecide

end ToolGate

/-! ## The way to a tool -/

theorem avoids_bodyArgs : Avoids Runs bodyArgs := by
  refine .call (by nofun) fun x => ?_
  rcases x with e | args
  · dsimp only
    split
    · exact .ret _
    · exact .raise e
  · exact .ret _

theorem avoids_previewOf {tool : ServedTool} {c : ToolCall} : Avoids Runs (previewOf tool c) :=
  .ite (avoids_tryAwait (by nofun)) (.ret none)

theorem avoids_sessionSet {session : String} : Avoids Runs (sessionSet session) :=
  .ite (.await (by nofun)) (.ret none)

theorem avoids_conversationOf {agent session : String} :
    Avoids Runs (s.conversationOf agent session) :=
  .ite (.await (by nofun)) (.ret none)

theorem avoids_confirmed {tool : ServedTool} {c : ToolCall} :
    Avoids Runs (confirmed s d tool c) := by
  rw [confirmed]
  split
  · exact .ret _
  · next gate _ =>
    refine avoids_previewOf.bind fun preview => ?_
    split
    · exact .ret _
    · refine ToolGate.avoids_confirm.bind fun outcome => ?_
      cases outcome with
      | denied | unanswered | noApprover => exact .ret _
      | allowed => exact (Avoids.await (by nofun)).bind fun _ => .ite (.ret _) (.ret _)

/-- A call the server goes ahead with was confirmed. -/
theorem exec_confirmed {tool : ServedTool} {c : ToolCall}
    (h : Exec (confirmed s d tool c) tr (.ok none)) :
    ∃ gate, s.gate = some gate ∧ Confirmed gate d tool c tr := by
  rw [confirmed] at h
  split at h
  · cases h
  next gate hgate =>
  refine ⟨gate, hgate, ?_⟩
  obtain ⟨tr₁, _, preview, rfl, -, h2⟩ := exec_bind_ok.1 h
  split at h2
  · cases h2
  obtain ⟨tr₂, tr₃, outcome, rfl, h₂, h3⟩ := exec_bind_ok.1 h2
  cases outcome with
  | denied | unanswered | noApprover => cases h3
  | allowed => exact (ToolGate.exec_confirm h₂).mono (by simp)

/-- The tool of a call runs on what lets the call through. -/
theorem guards_run {tool : ServedTool} {c : ToolCall} {P : Call → List Seen → Prop}
    (h : P (.execute c) []) : Guards Runs P (run tool c) := by
  refine .call (fun _ => h) fun x => .of_avoids ?_
  rcases x with e | result
  · cases e with
    | cancelled => exact .raise _
    | toolError | other => exact .ret _
  · exact .ret _

/-- From where the session is believed. `before` is what was seen by then. -/
theorem guards_serveIn {agent args : String} {tool : ServedTool} (before : List Seen)
    (hagent : s.agentForToken r.token = some agent) (htool : s.get r.name = some tool)
    (hallowed : ∃ allowed, (⟨.allowlist agent, .ok (some allowed)⟩ : Seen) ∈ before ∧
      r.name ∈ allowed)
    (hproven : s.proofs = true → r.session ≠ "" ∧ ∃ p : Proof,
      (⟨.proof r.session, .ok (some p)⟩ : Seen) ∈ before ∧ p.secret = r.proof) :
    Guards Runs (fun call seen => ∀ c, call = .execute c → Admitted s d r c (before ++ seen))
      (serveIn s d r agent tool args) := by
  refine .bind avoids_sessionSet fun tr₁ own h₁ =>
    .ite (fun _ => .of_avoids (.ret _)) fun hown => ?_
  refine .bind avoids_conversationOf fun tr₂ conversation _ => ?_
  refine .bind (avoids_turnOf id) fun tr₃ turn _ => ?_
  refine .bind (.await (by nofun)) fun tr₄ caps h₄ =>
    .ite (fun _ => .of_avoids (.ret _)) fun hcaps => ?_
  have hown : ∀ names ∈ own, r.name ∈ names := by
    intro names hn
    rw [Option.mem_def] at hn
    by_contra hc
    exact hown (by simp [hn, hc])
  have hcaps : ∀ names ∈ caps, tool.needs ⊆ names := by
    intro names hn
    rw [Option.mem_def] at hn
    by_contra hc
    exact hcaps (by simpa [hn, Finset.sdiff_eq_empty_iff_subset] using hc)
  have hset : r.session ≠ "" → (⟨.sessionAllowlist r.session, .ok own⟩ : Seen) ∈ tr₁ := by
    intro hs
    have hread : sessionSet r.session = await (Call.sessionAllowlist r.session) := if_pos hs
    rw [hread] at h₁
    have htr : tr₁ = [⟨.sessionAllowlist r.session, .ok own⟩] := exec_await.1 h₁
    simp [htr]
  have hgateway :
      (⟨.gatewayCaps agent (conversation.elim "" (·.gateway)), .ok caps⟩ : Seen) ∈ tr₄ := by
    have htr : tr₄ = [⟨.gatewayCaps agent (conversation.elim "" (·.gateway)), .ok caps⟩] :=
      exec_await.1 h₄
    simp [htr]
  have hadmitted : ∀ seen : List Seen,
      (tool.requiresConfirmation = true → ∃ g, s.gate = some g ∧
        Confirmed g d tool ⟨agent, r.name, args, r.session, conversation, turn⟩ seen) →
      Admitted s d r ⟨agent, r.name, args, r.session, conversation, turn⟩
        (before ++ (tr₁ ++ (tr₂ ++ (tr₃ ++ (tr₄ ++ seen))))) := by
    intro seen hconfirmed
    obtain ⟨allowed, ha, hin⟩ := hallowed
    refine ⟨hagent, ⟨rfl, rfl⟩, ⟨allowed, List.mem_append_left _ ha, hin⟩, fun hp => ?_,
      fun hs => ?_, tool, htool, ⟨caps, by simp [hgateway], hcaps⟩, fun hc => ?_⟩
    · obtain ⟨hsession, p, hmem, hsecret⟩ := hproven hp
      exact ⟨hsession, p, List.mem_append_left _ hmem, hsecret⟩
    · exact ⟨own, by simp [hset hs], hown⟩
    · obtain ⟨g, hg, hgate⟩ := hconfirmed hc
      exact ⟨g, hg, hgate.mono fun x hx => by simp [hx]⟩
  refine .ite (fun hconfirm => .bind avoids_confirmed fun tr₅ refusal h₅ => ?_) fun hconfirm => ?_
  · cases refusal with
    | some refusal => exact .of_avoids (.ret _)
    | none =>
      refine guards_run fun c hc => ?_
      cases hc
      exact hadmitted _ fun _ => (exec_confirmed h₅).imp fun _ h => h.imp_right (·.mono (by simp))
  · refine guards_run fun c hc => ?_
    cases hc
    exact hadmitted _ fun hc => absurd hc hconfirm

/-- Wherever a call is served, a tool runs only on what the server has found before. -/
theorem tool_gate {res : Except Exc Response} {c : ToolCall} {reply : Except Exc String}
    {seen rest : List Seen} (h : Exec (serve s d r) (seen ++ ⟨.execute c, reply⟩ :: rest) res) :
    Admitted s d r c seen := by
  suffices hg : Guards Runs (fun call seen => ∀ c, call = .execute c → Admitted s d r c seen)
      (serve s d r) from hg _ _ h _ _ _ rfl trivial c rfl
  rw [serve]
  split
  · exact .of_avoids (.ret _)
  next agent hagent =>
  split
  · exact .of_avoids (.ret _)
  next tool htool =>
  refine .bind (.await (by nofun)) fun tr₁ allowed h₁ =>
    .ite (fun _ => .of_avoids (.ret _)) fun hallowed => ?_
  have hallowed : ∃ names,
      (⟨.allowlist agent, .ok (some names)⟩ : Seen) ∈ tr₁ ∧ r.name ∈ names := by
    have htr : tr₁ = [⟨.allowlist agent, .ok allowed⟩] := exec_await.1 h₁
    cases allowed with
    | none => simp at hallowed
    | some names => exact ⟨names, by simp [htr], by simpa using hallowed⟩
  refine .bind avoids_bodyArgs fun tr₂ args _ =>
    .ite (fun _ => .of_avoids (.ret _)) fun hsession => ?_
  refine .ite (fun hproofs => ?_) fun hproofs => ?_
  · refine .bind (.await (by nofun)) fun tr₃ proof h₃ =>
      .ite (fun _ => .of_avoids (.ret _)) fun hproof => ?_
    have hproven : r.session ≠ "" ∧ ∃ p : Proof,
        (⟨.proof r.session, .ok (some p)⟩ : Seen) ∈ tr₃ ∧ p.secret = r.proof := by
      have htr : tr₃ = [⟨.proof r.session, .ok proof⟩] := exec_await.1 h₃
      refine ⟨fun hs => hsession ⟨hproofs, hs⟩, ?_⟩
      cases proof with
      | none => simp at hproof
      | some p => exact ⟨p, by simp [htr], by simpa using hproof⟩
    have hbefore : tr₁ ⊆ tr₁ ++ (tr₂ ++ tr₃) ∧ tr₃ ⊆ tr₁ ++ (tr₂ ++ tr₃) := by simp
    refine (guards_serveIn (tr₁ ++ (tr₂ ++ tr₃)) hagent htool
      (hallowed.imp fun _ h => h.imp_left (hbefore.1 ·))
      fun _ => hproven.imp_right fun ⟨p, hp, hs⟩ => ⟨p, hbefore.2 hp, hs⟩).mono ?_
    intro call seen hseen c hc
    simpa only [List.append_assoc] using hseen c hc
  · refine (guards_serveIn (tr₁ ++ tr₂) hagent htool
      (hallowed.imp fun _ h => h.imp_left (List.mem_append_left _))
      fun hp => absurd hp hproofs).mono ?_
    intro call seen hseen c hc
    simpa only [List.append_assoc] using hseen c hc

/-! ## One call, and one in another's name -/

namespace Sample

/-- A tool that asks a person before it posts. -/
def post : ServedTool where
  name := "post"
  description := "Posts a message."
  parameters := "\x7b\x7d"
  requires := {capWidgets}
  requiresConfirmation := true
  speaksToUser := true
  returnsUntrusted := false
  destructive := true
  displayName := "Post"
  grantable := true
  describing := false

def gate : ToolGate where
  approvers := []
  maxGrantS := 900
  people _ user := user
  turns := false
  int _ := none

def server : Server where
  tokens := [("t1", "writer"), ("t2", "reader")]
  registry := [post, { post with name := "read", requiresConfirmation := false, displayName := "" }]
  proofs := true
  resolver := true
  turns := false
  gate := some gate

def draws : Draws where
  requestId := "rq"
  token := "k"
  grantId := "gr"
  openedAt := 0

/-- The conversation of an agent, on its one gateway. -/
def conversation (session : String) : Conversation where
  channelId := "dm"
  userId := "u1"
  gateway := "chat"
  conversationId := session

def record (agent session : String) : SessionRecord where
  agent := agent
  conversationId := session
  gateways := []
  lastGateway := "chat"
  lastUserId := "u1"

/-- Every agent may call both tools, and the person asked says yes once. -/
def answers : ∀ c : Call, Except Exc (Reply c)
  | .allowlist _ => .ok (some {"post", "read"})
  | .body => .ok none
  | .proof session => .ok (some ⟨"s-" ++ session, "reader"⟩)
  | .sessionAllowlist _ => .ok none
  | .conversation agent session =>
    .ok (if agent = "reader" then some (conversation session) else none)
  | .turn _ => .ok none
  | .gatewayCaps _ gateway =>
    .ok (if gateway = "chat" then some {capWidgets, capConfirmation} else none)
  | .describe _ => .error .other
  | .liveGrant .. => .ok ⟨[], 0⟩
  | .sessionRecord session => .ok (some (record "reader" session))
  | .poster .. => .ok (some ⟨false⟩)
  | .postConfirmation .. => .ok "p1"
  | .updateConfirmation .. => .ok ()
  | .setWaiting .. => .ok ()
  | .place _ => .ok none
  | .wait .. => .ok ⟨[], [⟨"k", "once", "u1"⟩]⟩
  | .createGrant _ => .ok ()
  | .recordDecision _ => .ok ()
  | .closing => .ok false
  | .execute _ => .ok "done"

/-- The reader posts in its own conversation. -/
def asked : Request := ⟨"t2", "post", "reader--dm", "s-reader--dm"⟩

def askedCall : ToolCall :=
  ⟨"reader", "post", "\x7b\x7d", "reader--dm", some (conversation "reader--dm"), none⟩

/-- The writer reads with the session and the proof of the reader's process. -/
def borrowed : Request := ⟨"t1", "read", "reader--dm", "s-reader--dm"⟩

def borrowedCall : ToolCall := ⟨"writer", "read", "\x7b\x7d", "reader--dm", none, none⟩

end Sample

/-- A tool that ran because the person asked said yes to this call. -/
theorem tool_gate_run : ∃ seen reply rest res,
    Exec (serve Sample.server Sample.draws Sample.asked)
      (seen ++ ⟨.execute Sample.askedCall, reply⟩ :: rest) res ∧
    Admitted Sample.server Sample.draws Sample.asked Sample.askedCall seen := by
  have h := exec_runWith Sample.answers (serve Sample.server Sample.draws Sample.asked)
  have hsplit : ((serve Sample.server Sample.draws Sample.asked).runWith Sample.answers).1 =
      ((serve Sample.server Sample.draws Sample.asked).runWith Sample.answers).1.take 15 ++
        [⟨.execute Sample.askedCall, .ok "done"⟩] := rfl
  rw [hsplit] at h
  exact ⟨_, _, _, _, h, tool_gate h⟩

/-- A tool that ran for one agent on the proof of another's session. -/
theorem proof_of_another : ∃ seen reply rest res,
    Exec (serve Sample.server Sample.draws Sample.borrowed)
      (seen ++ ⟨.execute Sample.borrowedCall, reply⟩ :: rest) res ∧
    ∀ p : Proof, (⟨.proof Sample.borrowedCall.session, .ok (some p)⟩ : Seen) ∈ seen →
      p.agent ≠ Sample.borrowedCall.agent := by
  have h := exec_runWith Sample.answers (serve Sample.server Sample.draws Sample.borrowed)
  have hsplit : ((serve Sample.server Sample.draws Sample.borrowed).runWith Sample.answers).1 =
      [⟨.allowlist "writer", .ok (some {"post", "read"})⟩, ⟨.body, .ok none⟩,
        ⟨.proof "reader--dm", .ok (some ⟨"s-reader--dm", "reader"⟩)⟩,
        ⟨.sessionAllowlist "reader--dm", .ok none⟩,
        ⟨.conversation "writer" "reader--dm", .ok none⟩, ⟨.gatewayCaps "writer" "", .ok none⟩] ++
        [⟨.execute Sample.borrowedCall, .ok "done"⟩] := rfl
  rw [hsplit] at h
  refine ⟨_, _, _, _, h, fun p hp => ?_⟩
  simp only [List.mem_cons, List.not_mem_nil, or_false] at hp
  rcases hp with hp | hp | hp | hp | hp | hp <;> cases hp
  decide

end ToolServer
