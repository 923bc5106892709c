import ImpiAgent.Lib.Pool

/-!
# Calls as plans of transactions

A call on a store goes through points. At each it has a `Plan`: the statements it issues as one
transaction (one statement, where the store has no larger unit; none, where it only reads), and the
point it is at afterwards, `ok` where every statement succeeded, `no` where one failed and the
transaction was rolled back. `Plan.machine` makes of the plans of all points the machine a `Pool`
runs.

What a transaction keeps follows from what its statements keep (`run_tx_inv`, `run_tx_rel`), so a
property of a store is checked once against every statement and holds of every call.
-/

universe u v w

variable {σ : Type u} {τ : Type v} {κ : Type w}

/-- The statements of a transaction in order; `none` where one fails. -/
def runTx (apply : τ → σ → Option σ) : List τ → σ → Option σ
  | [], s => some s
  | q :: tx, s => (apply q s).bind (runTx apply tx)

/-- What a call does next. -/
structure Plan (τ : Type v) (κ : Type w) where
  tx : List τ
  ok : κ
  no : κ

namespace Plan

/-- The store after the transaction, and where the call then is. -/
def exec (apply : τ → σ → Option σ) (p : Plan τ κ) (s : σ) : σ × κ :=
  match runTx apply p.tx s with
  | some s' => (s', p.ok)
  | none => (s, p.no)

/-- The machine of the plans; a call without a plan has ended. -/
def machine (apply : τ → σ → Option σ) (plan : κ → σ → Option (Plan τ κ)) (k : κ) (s : σ) :
    Option (σ × κ) :=
  (plan k s).map (exec apply · s)

/-- A plan that only reads. -/
def read (k : κ) : Plan τ κ := ⟨[], k, k⟩

/-- A plan whose statements do not fail. -/
def write (tx : List τ) (k : κ) : Plan τ κ := ⟨tx, k, k⟩

end Plan

variable {apply : τ → σ → Option σ}

@[simp] theorem run_tx_nil {s : σ} : runTx apply [] s = some s := rfl

@[simp] theorem run_tx_singleton {q : τ} {s : σ} : runTx apply [q] s = apply q s := by
  cases h : apply q s <;> simp [runTx, h]

theorem run_tx_cons {q : τ} {tx : List τ} {s s' : σ} :
    runTx apply (q :: tx) s = some s' ↔
      ∃ s₁, apply q s = some s₁ ∧ runTx apply tx s₁ = some s' := Option.bind_eq_some_iff

/-- What every statement of a transaction keeps, the transaction keeps. -/
theorem run_tx_inv {I : σ → Prop} {tx : List τ} {s s' : σ}
    (hs : ∀ q ∈ tx, ∀ s s', I s → apply q s = some s' → I s') (h0 : I s)
    (h : runTx apply tx s = some s') : I s' := by
  induction tx generalizing s with
  | nil =>
    cases h
    exact h0
  | cons q tx ih =>
    obtain ⟨s₁, h1, h2⟩ := run_tx_cons.1 h
    exact ih (fun q hq => hs q (List.mem_cons_of_mem _ hq))
      (hs q List.mem_cons_self _ _ h0 h1) h2

/-- A relation between stores that every statement meets, the transaction meets. -/
theorem run_tx_rel {R : σ → σ → Prop} {tx : List τ} {s s' : σ} (refl : ∀ s, R s s)
    (trans : ∀ {s s₁ s'}, R s s₁ → R s₁ s' → R s s')
    (hs : ∀ q ∈ tx, ∀ s s', apply q s = some s' → R s s')
    (h : runTx apply tx s = some s') : R s s' :=
  run_tx_inv (I := R s) (fun q hq _ _ hr ha => trans hr (hs q hq _ _ ha)) (refl s) h

/-- Statements that never fail make a transaction that does not. -/
theorem run_tx_total {tx : List τ} (hs : ∀ q ∈ tx, ∀ s, ∃ s', apply q s = some s') (s : σ) :
    ∃ s', runTx apply tx s = some s' := by
  induction tx generalizing s with
  | nil => exact ⟨s, rfl⟩
  | cons q tx ih =>
    obtain ⟨s₁, h1⟩ := hs q List.mem_cons_self s
    obtain ⟨s', h2⟩ := ih (fun q hq => hs q (List.mem_cons_of_mem _ hq)) s₁
    exact ⟨s', run_tx_cons.2 ⟨s₁, h1, h2⟩⟩

/-- What issuing the next transaction does. -/
theorem machine_cases {plan : κ → σ → Option (Plan τ κ)} {k k' : κ} {s s' : σ}
    (h : Plan.machine apply plan k s = some (s', k')) :
    ∃ p, plan k s = some p ∧ (runTx apply p.tx s = some s' ∧ k' = p.ok ∨
      runTx apply p.tx s = none ∧ s' = s ∧ k' = p.no) := by
  unfold Plan.machine at h
  rw [Option.map_eq_some_iff] at h
  obtain ⟨p, hp, he⟩ := h
  refine ⟨p, hp, ?_⟩
  unfold Plan.exec at he
  split at he
  · rename_i s₁ hs
    cases he
    exact .inl ⟨hs, rfl⟩
  · rename_i hs
    cases he
    exact .inr ⟨hs, rfl, rfl⟩

/-- What every statement of the transaction keeps, the step keeps. -/
theorem machine_inv {plan : κ → σ → Option (Plan τ κ)} {k k' : κ} {s s' : σ} {I : σ → Prop}
    (h : Plan.machine apply plan k s = some (s', k'))
    (hs : ∀ p, plan k s = some p → ∀ q ∈ p.tx, ∀ s s', I s → apply q s = some s' → I s')
    (h0 : I s) : I s' := by
  obtain ⟨p, hp, ⟨ht, -⟩ | ⟨-, rfl, -⟩⟩ := machine_cases h
  · exact run_tx_inv (hs p hp) h0 ht
  · exact h0
