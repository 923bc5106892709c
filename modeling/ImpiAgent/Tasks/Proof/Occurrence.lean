import ImpiAgent.Tasks.Proof.Runs

/-!
# Nothing fires twice

`holds_row`: the row a call holds for an occurrence is in the ledger, as long as pruning and
deleting leave it alone. With the unique index on occurrences and ids drawn once, two claims of one
occurrence are one call, also when the first was lost in between (`claimed_once`).

`Fired`: where a claim that returned a run, or a skip that returned true, comes from. A tick read
the task, `_dispatch` made the call of what it read, and a later transaction of that call found
`due_at` as it was read and put the call's own pair in its place (`fired`).
-/

namespace Tasks

open Triggers Scheduler

variable {cal : Calendar} {b : Backend} {p p' : Config} {s s' : Store}

/-! ## The row of a call -/

/-- A call holds a row that it held before, or that it has just inserted. -/
theorem plan_holds {k : Call} {pl : Plan Statement Call} {r : TaskRunRecord}
    (h : k.plan b s = some pl) :
    (pl.ok.holds = some r → k.holds = some r ∨ .insertRun r ∈ pl.tx) ∧
      (pl.no.holds = some r → k.holds = some r) := by
  replace h := plan_issues h
  cases h <;>
    first
    | (simp only [Plan.read, Plan.write, next_orphan_holds, reduceCtorEq, false_implies, and_self]
       done)
    | simp_all [Plan.read, Plan.write, Call.holds]

/-- A call that holds its row after a step, and had it there if it held it before, has it there. -/
theorem step_row_own {k k' : Call} {r : TaskRunRecord} (h : k.step b s = some (s', k'))
    (hk' : k'.holds = some r) (hs : k.holds = some r → s.HasRow r.runId r.occurrence) :
    s'.HasRow r.runId r.occurrence := by
  obtain ⟨pl, hp, ⟨ht, rfl⟩ | ⟨-, hss, rfl⟩⟩ := machine_cases h
  · rcases (plan_holds hp).1 hk' with hk | hi
    · exact has_row_of_tx (plan_spares_own hp hk (.inl hk')) ht (hs hk)
    · exact run_tx_inserts (plan_insert_spares hp hi) hi ht
  · exact hss ▸ hs ((plan_holds hp).2 hk')

/-- A step of another call leaves a row of the occurrence there. -/
theorem step_row_other {k k' : Call} {i : Nat} {id : RunId} {occ : TaskId × Time}
    (hK : Keeps b occ p (.exec i)) (hk : p.pool.At i k) (hne : ∀ r, k.brings = some r → r.runId ≠ id)
    (h : k.step b p.store = some (s', k')) (hs : p.store.HasRow id occ) : s'.HasRow id occ := by
  cases hr : k.removes with
  | true =>
    obtain ⟨u, hu, hid, hocc⟩ := hs
    exact ⟨u, hK i k s' k' rfl hk hr h u hu hocc, hid, hocc⟩
  | false =>
    exact machine_inv (I := fun s => s.HasRow id occ) h
      (fun pl hp q hq _ _ hi ha => has_row_of_apply (plan_spares hp hr hne q hq) ha hi) hs

/-- The row a call holds is in the ledger. -/
theorem holds_row {occ : TaskId × Time} (h : (lts cal b).Reach (Keeps b occ) p) :
    ∀ i k r, p.pool.At i k → k.holds = some r → r.occurrence = occ →
      p.store.HasRow r.runId occ := by
  refine h.inv_using (I := fun p => ∀ i k r, p.pool.At i k → k.holds = some r →
    r.occurrence = occ → p.store.HasRow r.runId occ) (fun p h0 => ?_) fun p e p' hr ih hC hn => ?_
  · cases h0
    intro i k r hi
    simp [Pool.At] at hi
  · intro j c r hj hc hocc
    cases next_step hn with
    | @start _ k ids hb =>
      rcases Pool.at_start.1 hj with hj | ⟨-, rfl⟩
      · exact ih j c r hj hc hocc
      · cases begins_spec hb with
        | dispatch _ _ _ _ _ hd => cases dispatch_spec hd <;> cases hc
        | _ => cases hc
    | @exec i k k' s' hk hm =>
      rcases (Pool.at_put hk).1 hj with ⟨-, rfl⟩ | ⟨hne, hj⟩
      · exact hocc ▸ step_row_own hm hc fun hh => hocc.symm ▸ ih _ _ _ hk hh hocc
      · refine step_row_other hC hk (fun u hu he => hne ?_) hm (ih j c r hj hc hocc)
        exact (drawn hr).apart hj hk (brings_of_holds hc) hu he.symm
    | crash => exact ih j c r (Pool.at_kill.1 hj).2 hc hocc

/-! ## One claim for an occurrence -/

/-- The run `id` is in the ledger for `occ`, and only call `i`, which has won it, brings it. -/
structure Taken (id : RunId) (occ : TaskId × Time) (i : Nat) (p : Config) : Prop where
  row : p.store.HasRow id occ
  minted : id ∈ p.minted
  only : ∀ j c r, p.pool.At j c → c.brings = some r → r.runId = id → j = i ∧ ∃ o, c.won = some o

theorem no_step_of_won {k k' : Call} {o : Opening} (hw : k.won = some o) :
    k.step b s ≠ some (s', k') := by
  intro h
  obtain ⟨pl, hp, -⟩ := machine_cases h
  cases k <;> simp [Call.won] at hw <;> simp [Call.plan] at hp

theorem taken_run {id : RunId} {occ : TaskId × Time} {i : Nat} {es : List Label}
    (hr : (lts cal b).Reach (Keeps b occ) p) (h : (lts cal b).Run (Keeps b occ) p es p')
    (h0 : Taken id occ i p) : Taken id occ i p' := by
  refine h.inv hr h0 fun p e p' _ ih hC hn => ?_
  cases next_step hn with
  | @start _ k ids hb =>
    refine ⟨ih.row, List.mem_append_right _ ih.minted, fun j c r hj hc hid => ?_⟩
    rcases Pool.at_start.1 hj with hj | ⟨-, rfl⟩
    · exact ih.only j c r hj hc hid
    · exact absurd (hid ▸ ih.minted) (begins_brings (begins_spec hb) hc).2
  | @exec j k k' s' hk hm =>
    have hne : ∀ r, k.brings = some r → r.runId ≠ id := by
      intro r hr he
      obtain ⟨-, o, ho⟩ := ih.only j k r hk hr he
      exact no_step_of_won ho hm
    refine ⟨step_row_other hC hk hne hm ih.row, ih.minted, fun l c r hl hc hid => ?_⟩
    rcases (Pool.at_put hk).1 hl with ⟨-, rfl⟩ | ⟨-, hl⟩
    · exact absurd hid (hne r ((step_brings hm).symm.trans hc))
    · exact ih.only l c r hl hc hid
  | crash =>
    exact ⟨ih.row, ih.minted, fun j c r hj => ih.only j c r (Pool.at_kill.1 hj).2⟩

/-- Two claims of one occurrence that return a run, the second at any later time, are one. -/
theorem claimed_once {occ : TaskId × Time} {i j : Nat} {a c : ClaimArgs} {es : List Label}
    (hr : (lts cal b).Reach (Keeps b occ) p) (h : (lts cal b).Run (Keeps b occ) p es p')
    (hi : p.pool.At i (.claimed a)) (hj : p'.pool.At j (.claimed c))
    (ha : a.run.occurrence = occ) (hc : c.run.occurrence = occ) : i = j := by
  have hd := drawn hr
  have taken : Taken a.run.runId occ i p := by
    refine ⟨holds_row hr i _ _ hi rfl ha, hd.minted hi rfl, fun l k r hl hk hid => ?_⟩
    cases hd.apart hl hi hk rfl hid
    cases hl.eq hi
    exact ⟨rfl, _, rfl⟩
  have later := taken_run hr h taken
  obtain ⟨u, hu, huid, huocc⟩ := later.row
  obtain ⟨v, hv, hvid, hvocc⟩ := holds_row (hr.run h) j _ _ hj rfl hc
  have huv := occurrence_unique hu hv (huocc.trans hvocc.symm)
  exact (later.only j _ _ hj rfl (hvid.symm.trans (huv ▸ huid))).1.symm

/-! ## What a claim or a skip replaced -/

/-- The task of `o` had the token `o` was read with, and has the pair `o` was given. -/
def Moves (o : Opening) (s s' : Store) : Prop :=
  ∃ t ∈ s.tasks, ∃ u ∈ s'.tasks, t.id = o.taskId ∧ u.id = o.taskId ∧ t.dueAt = o.seenDueAt ∧
    o.seenDueAt ≠ none ∧ u.nextRunAt = o.nextRunAt ∧ u.dueAt = o.dueAt

theorem claim_task_moves {a : ClaimArgs} (h : s.claimTask a = some s') : Moves a.opening s s' := by
  obtain ⟨t, ht, hid, hs, hd, hn⟩ := Store.claim_task_found h
  refine ⟨t, ht, t.claim a, ?_, hid, hid, hd, hn, rfl, rfl⟩
  refine (apply_tasks (q := .claimTask a) h _).2 (.inl ⟨t, ht, ?_⟩)
  simp [Statement.onTask, hid, Store.claimable_iff.2 ⟨hs, hd, hn⟩]

theorem advance_task_moves {a : SkipArgs} (h : s.advanceTask a = some s') :
    Moves a.opening s s' := by
  obtain ⟨t, ht, hid, hd, hn⟩ := Store.advance_task_found h
  refine ⟨t, ht, t.skip a, ?_, hid, hid, hd, hn, rfl, rfl⟩
  refine (apply_tasks (q := .advanceTask a) h _).2 (.inl ⟨t, ht, ?_⟩)
  simp [Statement.onTask, hid, Store.due_still_iff.2 ⟨hd, hn⟩]

/-- A call wins by a transaction that begins with its compare-and-swap. -/
theorem plan_won {k : Call} {pl : Plan Statement Call} {o : Opening} (h : k.plan b s = some pl) :
    (pl.ok.won = some o → ∃ q tx, pl.tx = q :: tx ∧ (tx = [] ∨ tx = [.insertRun o.run]) ∧
      ((∃ a : ClaimArgs, a.opening = o ∧ q = .claimTask a) ∨
        ∃ a : SkipArgs, a.opening = o ∧ q = .advanceTask a)) ∧ pl.no.won = none := by
  replace h := plan_issues h
  cases h <;>
    first
    | (simp only [Plan.read, Plan.write, next_orphan_won, reduceCtorEq, false_implies, and_self]
       done)
    | simp [Plan.read, Plan.write, Call.won]
  all_goals
    rintro rfl
    simp [ClaimArgs.opening, SkipArgs.opening]

/-- The transaction that makes a call win moves the schedule. -/
theorem step_moves {k k' : Call} {o : Opening} (h : k.step b s = some (s', k'))
    (hw : k'.won = some o) : Moves o s s' := by
  obtain ⟨pl, hp, ⟨ht, rfl⟩ | ⟨-, -, rfl⟩⟩ := machine_cases h
  · obtain ⟨q, tx, htx, hrest, hq⟩ := (plan_won hp).1 hw
    rw [htx] at ht
    obtain ⟨s₁, h1, h2⟩ := run_tx_cons.1 ht
    -- what follows the swap inserts the run row and leaves the tasks alone
    have htasks : s'.tasks = s₁.tasks := by
      rcases hrest with rfl | rfl
      · cases h2
        rfl
      · exact (Store.insert_run_spec (run_tx_singleton.symm.trans h2)).1
    have hm : Moves o s s₁ := by
      rcases hq with ⟨a, rfl, rfl⟩ | ⟨a, rfl, rfl⟩
      · exact claim_task_moves h1
      · exact advance_task_moves h1
    obtain ⟨t, ht, u, hu, hm⟩ := hm
    exact ⟨t, ht, u, htasks ▸ hu, hm⟩
  · rw [(plan_won (o := o) hp).2] at hw
    cases hw

/-- Call `i`, which won `o`, was made by a tick that had read the task of `o` with the token of `o`,
and by a transaction of its own replaced the pair it found under that token. -/
structure Fired (cal : Calendar) (b : Backend) (p : Config) (i : Nat) (o : Opening) : Prop where
  read : ∃ p₀ p₁ es j k rows t hook, (lts cal b).Reach Lts.Any p₀ ∧
    p₀.pool.At j (.gotDue k rows) ∧ t ∈ rows ∧ t.id = o.taskId ∧ t.dueAt = o.seenDueAt ∧
    next cal b p₀ (.dispatch j t o.run.runId hook) = some p₁ ∧ i = p₀.pool.calls.length ∧
    (lts cal b).Run Lts.Any p₁ es p
  moved : ∃ p₀ p₁ es, (lts cal b).Reach Lts.Any p₀ ∧ next cal b p₀ (.exec i) = some p₁ ∧
    Moves o p₀.store p₁.store ∧ (lts cal b).Run Lts.Any p₁ es p

/-- Where a call of a claim or a skip began. -/
theorem opened (h : (lts cal b).Reach Lts.Any p) :
    ∀ i k o, p.pool.At i k → k.opens = some o → ∃ p₀ p₁ es j q rows t hook,
      (lts cal b).Reach Lts.Any p₀ ∧ p₀.pool.At j (.gotDue q rows) ∧ t ∈ rows ∧ t.id = o.taskId ∧
      t.dueAt = o.seenDueAt ∧ next cal b p₀ (.dispatch j t o.run.runId hook) = some p₁ ∧
      i = p₀.pool.calls.length ∧ (lts cal b).Run Lts.Any p₁ es p := by
  refine h.inv_using (I := fun p => ∀ i k o, p.pool.At i k → k.opens = some o →
    ∃ p₀ p₁ es j q rows t hook, (lts cal b).Reach Lts.Any p₀ ∧ p₀.pool.At j (.gotDue q rows) ∧
      t ∈ rows ∧ t.id = o.taskId ∧ t.dueAt = o.seenDueAt ∧
      next cal b p₀ (.dispatch j t o.run.runId hook) = some p₁ ∧ i = p₀.pool.calls.length ∧
      (lts cal b).Run Lts.Any p₁ es p) (fun p h0 => ?_) fun p e p' hr ih hC hn => ?_
  · cases h0
    intro i k o hi
    simp [Pool.At] at hi
  intro i k o hi ho
  -- a call that was there before has the same beginning, one step further back
  have old : ∀ {c : Call}, p.pool.At i c → c.opens = some o → ∃ p₀ p₁ es j q rows t hook,
      (lts cal b).Reach Lts.Any p₀ ∧ p₀.pool.At j (.gotDue q rows) ∧ t ∈ rows ∧ t.id = o.taskId ∧
      t.dueAt = o.seenDueAt ∧ next cal b p₀ (.dispatch j t o.run.runId hook) = some p₁ ∧
      i = p₀.pool.calls.length ∧ (lts cal b).Run Lts.Any p₁ es p' := by
    intro c hc hco
    obtain ⟨p₀, p₁, es, j, q, rows, t, hook, h1, h2, h3, h4, h5, h6, h7, h8⟩ := ih i c o hc hco
    exact ⟨p₀, p₁, es ++ [e], j, q, rows, t, hook, h1, h2, h3, h4, h5, h6, h7, h8.snoc trivial hn⟩
  cases next_step hn with
  | @start _ k₀ ids hb =>
    rcases Pool.at_start.1 hi with hi | ⟨hil, rfl⟩
    · exact old hi ho
    · cases begins_spec hb with
      | dispatch hj ht _ _ _ hd =>
        cases dispatch_spec hd with
        | claim hid hseen _ hrun _ =>
          cases ho
          subst hrun
          exact ⟨p, _, [], _, _, _, _, _, hr, hj, ht, hid.symm, hseen.symm, hn, hil, .nil⟩
        | skip hid hseen _ hrun =>
          cases ho
          subst hrun
          exact ⟨p, _, [], _, _, _, _, _, hr, hj, ht, hid.symm, hseen.symm, hn, hil, .nil⟩
        | move => cases ho
      | _ => cases ho
  | exec hk hm =>
    rcases (Pool.at_put hk).1 hi with ⟨rfl, rfl⟩ | ⟨-, hi⟩
    · exact old hk ((step_opens hm).symm.trans ho)
    · exact old hi ho
  | crash => exact old (Pool.at_kill.1 hi).2 ho

/-- Where a claim or a skip was won. -/
theorem fired (h : (lts cal b).Reach Lts.Any p) :
    ∀ i k o, p.pool.At i k → k.won = some o → Fired cal b p i o := by
  intro i k o hi ho
  refine ⟨opened h i k o hi (opens_of_won ho), ?_⟩
  refine h.inv_using (I := fun p => ∀ i k o, p.pool.At i k → k.won = some o →
    ∃ p₀ p₁ es, (lts cal b).Reach Lts.Any p₀ ∧ next cal b p₀ (.exec i) = some p₁ ∧
      Moves o p₀.store p₁.store ∧ (lts cal b).Run Lts.Any p₁ es p) (fun p h0 => ?_)
    (fun p e p' hr ih hC hn => ?_) i k o hi ho
  · cases h0
    intro i k o hi
    simp [Pool.At] at hi
  intro i k o hi ho
  have old : p.pool.At i k → ∃ p₀ p₁ es, (lts cal b).Reach Lts.Any p₀ ∧
      next cal b p₀ (.exec i) = some p₁ ∧ Moves o p₀.store p₁.store ∧
      (lts cal b).Run Lts.Any p₁ es p' := by
    intro hi
    obtain ⟨p₀, p₁, es, h1, h2, h3, h4⟩ := ih i k o hi ho
    exact ⟨p₀, p₁, es ++ [e], h1, h2, h3, h4.snoc trivial hn⟩
  cases next_step hn with
  | @start _ k₀ ids hb =>
    rcases Pool.at_start.1 hi with hi | ⟨-, rfl⟩
    · exact old hi
    · cases begins_spec hb with
      | dispatch _ _ _ _ _ hd => cases dispatch_spec hd <;> cases ho
      | _ => cases ho
  | exec hk hm =>
    rcases (Pool.at_put hk).1 hi with ⟨rfl, rfl⟩ | ⟨-, hi⟩
    · exact ⟨p, _, [], hr, hn, step_moves hm ho, .nil⟩
    · exact old hi
  | crash => exact old (Pool.at_kill.1 hi).2

/-- At most one claim of an occurrence ever returns a run, at most one run row of it exists, and
every claim that returned a run and every skip that returned true moved the schedule from what its
tick had read to the pair it was given. -/
theorem nothing_fires_twice {occ : TaskId × Time} {es : List Label}
    (hr : (lts cal b).Reach (Keeps b occ) p) (h : (lts cal b).Run (Keeps b occ) p es p') :
    (∀ i j a c, p.pool.At i (.claimed a) → p'.pool.At j (.claimed c) → a.run.occurrence = occ →
      c.run.occurrence = occ → i = j) ∧
    (∀ r ∈ p'.store.runs, ∀ u ∈ p'.store.runs, r.occurrence = occ → u.occurrence = occ → r = u) ∧
    (∀ i a, p'.pool.At i (.claimed a) → Fired cal b p' i a.opening) ∧
    ∀ i a, p'.pool.At i (.skipped a) → Fired cal b p' i a.opening := by
  have hr' := (hr.run h).any
  refine ⟨fun i j a c hi hj => claimed_once hr h hi hj, fun r hx u hu hro huo =>
    occurrence_unique hx hu (hro.trans huo.symm), fun i a hi => fired hr' i _ _ hi rfl,
    fun i a hi => fired hr' i _ _ hi rfl⟩

/-- The check that a step neither prunes nor deletes. -/
def keepsAll (p : Config) : Label → Bool
  | .exec i => match p.pool.calls[i]? with
    | some (some k) => !k.removes
    | _ => true
  | _ => true

theorem keeps_of_all {occ : TaskId × Time} {e : Label} (h : keepsAll p e = true) :
    Keeps b occ p e := by
  rintro i k s' k' rfl hk hr
  unfold Pool.At at hk
  simp [keepsAll, hk, hr] at h

/-- A call that has claimed the task's first occurrence. -/
def hasClaimed : Option Call → Bool
  | some (.claimed a) => a.run.occurrence == (1, 60)
  | _ => false

/-- A claim on MongoDB whose call is lost after it returned, and a second tick that reads the task
again: nothing else returns the first occurrence. -/
theorem nothing_fires_twice_run : ∃ p p' es a, (lts Sample.calendar .mongo).Run
    (Keeps .mongo (1, 60)) p es p' ∧ p.pool.At 2 (.claimed a) ∧ a.run.occurrence = (1, 60) ∧
    Fired Sample.calendar .mongo p 2 a.opening ∧ p'.pool.calls[2]? = some none ∧
    ∀ j c, p'.pool.At j (.claimed c) → c.run.occurrence = (1, 60) → 2 = j := by
  have h1 : ((lts Sample.calendar .mongo).check keepsAll Sample.start
      (Sample.claimed .mongo)).any (fun p => p.pool.calls[2]?.any hasClaimed &&
        ((lts Sample.calendar .mongo).check keepsAll p
          [.crash 2, .tick Sample.engine (125 * Clock.second), .exec 3]).any
          fun p' => p'.pool.calls[2]? == some none) = true := by decide
  obtain ⟨p, hp, hq⟩ := (Option.any_eq_true _ _).1 h1
  obtain ⟨hk, hq⟩ := Bool.and_eq_true_iff.1 hq
  obtain ⟨k, hi, hk⟩ := (Option.any_eq_true _ _).1 hk
  obtain ⟨p', hp', hk'⟩ := (Option.any_eq_true _ _).1 hq
  unfold hasClaimed at hk
  split at hk
  · rename_i a
    have hr := Lts.reach_of_check (L := lts Sample.calendar .mongo)
      (C := Keeps .mongo (1, 60)) (fun _ _ => keeps_of_all) (s := Sample.start) rfl hp
    have h := Lts.run_of_check (L := lts Sample.calendar .mongo)
      (C := Keeps .mongo (1, 60)) (fun _ _ => keeps_of_all) hp'
    have ha := beq_iff_eq.1 hk
    refine ⟨p, p', _, a, h, hi, ha, ?_, beq_iff_eq.1 hk', ?_⟩
    · exact (nothing_fires_twice hr .nil).2.2.1 2 a hi
    · exact fun j c hj hc => (nothing_fires_twice hr h).1 2 j a c hi hj ha hc
  · cases hk

end Tasks
