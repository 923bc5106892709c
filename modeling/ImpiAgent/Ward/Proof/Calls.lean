import ImpiAgent.Ward.Broker

/-!
# What the parts of a lease call

A lease looks the policies and the windows up, asks, opens windows, reads and records. Its parts that
only speak to people and write the ledger make none of the other calls: one lemma for each part, for
whatever set of other calls a proof is about.
-/

namespace Ward

open Approvals Prog

/-- A call to the chat platform or to the ledger, for which nothing is waited for. -/
def Call.plain : Call → Bool
  | .approvers | .poster _ | .openDirect _ | .postConfirmation .. | .updateConfirmation .. => true
  | .recordDecision _ | .notices .. | .fold .. => true
  | _ => false

variable {S : Call → Prop} {b : Broker} {d : Draws} {r : LeaseRequest}

theorem avoids_tryAwait {c : Call} (h : ¬S c) : Avoids S (tryAwait c) := by
  refine .call h fun x => ?_
  cases x with
  | ok a => exact .ret _
  | error e => exact .ite (.ret _) (.raise _)

section

variable (hS : ∀ c : Call, c.plain = true → ¬S c)
include hS

theorem avoids_openFirst (users : List String) : Avoids S (openFirst users) := by
  induction users with
  | nil => exact .ret ""
  | cons user users ih =>
    exact (Avoids.await (hS _ rfl)).bind fun channel => .ite (.ret _) ih

theorem avoids_approvalConversation (agent : String) (approvers : List String) :
    Avoids S (approvalConversation b agent approvers) :=
  .ite (.ret _) (.ite (.ret _) (avoids_openFirst hS _))

theorem avoids_rewrite (postId : String) (card : Card) : Avoids S (rewrite postId card) :=
  .ite (.ret _) ((avoids_tryAwait (hS _ rfl)).bind fun _ => .ret _)

/-- What asks waits as well. -/
theorem avoids_ask (hw : ∀ token entry, ¬S (.wait token entry)) (ceilingS : Int) :
    Avoids S (ask b d r ceilingS) := by
  refine (Avoids.await (hS _ rfl)).bind fun approvers =>
    (Avoids.await (hS _ rfl)).bind fun poster => ?_
  refine .ite (.ret _) ((avoids_approvalConversation hS _ _).bind fun channel =>
    .ite (.ret _) ?_)
  refine (avoids_tryAwait (hS _ rfl)).bind fun posted => ?_
  cases posted with
  | none => exact .ret none
  | some postId =>
    exact (Avoids.await (hw _ _)).bind fun waited =>
      (avoids_rewrite hS _ _).bind fun _ => .ret _

theorem avoids_notify (verdicts : Verdicts) : Avoids S (notify b r verdicts) := by
  refine .ite (.ret _) ?_
  refine (Avoids.await (hS _ rfl)).bind fun approvers =>
    (Avoids.await (hS _ rfl)).bind fun poster => ?_
  refine .ite (.ret _) ((avoids_approvalConversation hS _ _).bind fun channel => .ite (.ret _) ?_)
  refine (Avoids.await (hS _ rfl)).bind fun (seen, now) => ?_
  dsimp only
  split
  · refine (avoids_tryAwait (hS _ rfl)).bind fun posted => ?_
    cases posted with
    | none => exact .ret _
    | some _ => exact .await (hS _ rfl)
  · refine (avoids_tryAwait (hS _ rfl)).bind fun posted => ?_
    cases posted with
    | none => exact .ret _
    | some _ => exact .await (hS _ rfl)

theorem avoids_record (row : ApprovalAudit) : Avoids S (record row) := by
  refine .call (hS _ rfl) fun x => ?_
  match x with
  | .ok .done => exact .ret ()
  | .ok (.butRaised e) => exact .raise e
  | .error e => exact .raise e

theorem avoids_refuse {verdicts : Verdicts} {governing : Decision} {approver : String}
    {grantIds : GrantIds} : Avoids S (refuse d r verdicts governing approver grantIds) :=
  (Avoids.forM fun _ => avoids_record hS _).bind fun _ => .ret _

end

theorem avoids_readAll {bindings : List (String × SecretRef)}
    (h : ∀ x ∈ bindings, ¬S (.read x.2)) : Avoids S (readAll bindings) := by
  induction bindings with
  | nil => exact .ret _
  | cons x bindings ih =>
    obtain ⟨envName, ref⟩ := x
    refine .call (h _ List.mem_cons_self) fun x => ?_
    match x with
    | .error (.backend sealed) => exact .ret _
    | .error .cancelled => exact .raise _
    | .error .other => exact .raise _
    | .ok value =>
      exact (ih fun x hx => h x (List.mem_cons_of_mem _ hx)).bind fun _ => .ret _

/-- Once everybody has answered, a lease reads the secrets it was asked for. -/
theorem avoids_serve (hS : ∀ c : Call, c.plain = true → ¬S c)
    (hr : ∀ x ∈ r.bindings, ¬S (.read x.2)) {verdicts : Verdicts} {uncovered : List String}
    {decisions : Decisions} {grantIds : GrantIds} {approver : String} :
    Avoids S (serve b d r verdicts uncovered decisions grantIds approver) := by
  refine (avoids_readAll hr).bind fun values => ?_
  cases values with
  | error sealed => exact avoids_refuse hS
  | ok values =>
    exact (Avoids.forM fun _ => avoids_record hS _).bind fun _ =>
      .ite ((avoids_notify hS _).bind fun _ => .ret _) (.ret _)

end Ward
