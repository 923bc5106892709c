import ImpiAgent.Tasks.Proof.Verdict

/-!
# Task state and run ledger agree after a start-up

`Covered`: a task is `running` only while a run row of it is running under a claim that has gone
through, or a call is about to release it. It holds of every run in which no call is lost between
ending a run and releasing its task (`Clean`), and it is what `reclaim_orphans` needs: with every
other call gone, a start-up that finds no run of its own leaves no task and no run `running`
(`ledger_agrees`). A call lost between the two writes leaves a task `running` that no start-up can
see (`ledger_disagrees`).
-/

namespace Tasks

open Triggers Scheduler

variable {cal : Calendar} {b : Backend} {p p' : Config} {e : Label} {s s' : Store}

/-- The claim a call is in the middle of. -/
def Call.claiming : Call → Option ClaimArgs
  | .claimSwap a | .claimUndo a => some a
  | _ => none

/-- The skip whose row a call holds. -/
def Call.skipping : Call → Option SkipArgs
  | .skipSwap a | .skipUndo a | .skipped a => some a
  | _ => none

/-- The task a call is about to release. -/
def Call.releases : Call → Option TaskId
  | .completeRelease a => some a.taskId
  | .reclaimTask _ orphan _ _ => some orphan.taskId
  | _ => none

/-- No call is lost between ending a run and releasing its task, no run is interrupted in the middle
of its own claim, and no task is deleted. -/
structure Clean (p : Config) (e : Label) : Prop where
  crash : ∀ i k, e = .crash i → p.pool.At i k → k.releases = none
  interrupt : ∀ i k, e = .exec i → p.pool.At i k → ∀ r ∈ k.interrupts, ∀ j c a, p.pool.At j c →
    c.claiming = some a → a.run.runId ≠ r.runId
  delete : ∀ id, e ≠ .delete id

/-! ## What calls know of runs -/

/-- The run has been entered, for this task. -/
structure Known (id : RunId) (task : TaskId) (p : Config) : Prop extends Entered id p where
  rows : ∀ u ∈ p.store.runs, u.runId = id → u.taskId = task

theorem known_step {id : RunId} {task : TaskId} (h : Known id task p)
    (hn : next cal b p e = some p') : Known id task p' :=
  ⟨entered_step h.toEntered hn, h.toEntered.rows_step (Q := fun u => u.taskId = task) hn
    (fun _ _ _ _ _ _ _ _ _ _ hru _ hr => (on_run_keys hru).2.1.trans hr) h.rows⟩

theorem known_of_row {C : Config → Label → Prop} (h : (lts cal b).Reach C p) {u : TaskRunRecord}
    (hu : u ∈ p.store.runs) : Known u.runId u.taskId p :=
  ⟨entered_of_row h hu, fun _ hv he => by rw [run_unique hv hu he]⟩

/-- The runs a call goes by, with their tasks. -/
def Call.knows : Call → List (RunId × TaskId)
  | .claimSwap a | .claimUndo a | .claimed a => [(a.run.runId, a.run.taskId)]
  | .completeRun a | .completeRelease a => [(a.runId, a.taskId)]
  | .reclaimLeases _ todo orphans => (todo ++ orphans).map fun r => (r.runId, r.taskId)
  | .reclaimCommit _ orphans => orphans.map fun r => (r.runId, r.taskId)
  | .reclaimRun _ o todo _ | .reclaimTask _ o todo _ =>
    (o :: todo).map fun r => (r.runId, r.taskId)
  | _ => []

theorem next_orphan_knows {a : ReclaimArgs} {todo orphans : List TaskRunRecord} {x : RunId × TaskId}
    (h : x ∈ (nextOrphan a orphans todo).knows) : x ∈ todo.map fun r => (r.runId, r.taskId) := by
  cases todo with
  | nil => cases h
  | cons r todo => exact h

/-- What a call comes to go by it went by before, or has read, or has inserted. -/
theorem plan_knows {k : Call} {pl : Plan Statement Call} {x : RunId × TaskId}
    (h : k.plan b s = some pl) :
    (x ∈ pl.ok.knows → x ∈ k.knows ∨ (∃ r ∈ s.runs, x = (r.runId, r.taskId)) ∨
      ∃ r, .insertRun r ∈ pl.tx ∧ x = (r.runId, r.taskId)) ∧
    (x ∈ pl.no.knows → x ∈ k.knows ∨ ∃ r ∈ s.runs, x = (r.runId, r.taskId)) := by
  have orphan : ∀ {a : ReclaimArgs} {todo orphans l : List TaskRunRecord},
      (∀ r ∈ todo, r ∈ l) → x ∈ (nextOrphan a orphans todo).knows →
      x ∈ l.map fun r => (r.runId, r.taskId) := by
    intro a todo orphans l hl hx
    obtain ⟨r, hr, he⟩ := List.mem_map.1 (next_orphan_knows hx)
    exact List.mem_map.2 ⟨r, hl r hr, he⟩
  cases k
  case reclaimOrphans a =>
    cases h
    have key : x ∈ (Call.reclaimLeases a s.runningRuns []).knows →
        ∃ r ∈ s.runs, x = (r.runId, r.taskId) := by
      intro hx
      obtain ⟨r, hr, he⟩ := List.mem_map.1 hx
      rw [List.append_nil] at hr
      exact ⟨r, (Table.mem_select.1 hr).1, he.symm⟩
    exact ⟨fun hx => .inr (.inl (key hx)), fun hx => .inr (key hx)⟩
  case reclaimLeases a todo orphans =>
    simp only [Call.plan] at h
    split at h
    · split at h
      · cases h
        have key : x ∈ (if orphans.isEmpty = true then Call.reclaimed a []
            else .reclaimCommit a orphans).knows →
            x ∈ (Call.reclaimLeases a [] orphans).knows := by
          intro hx
          split at hx
          · cases hx
          · exact hx
        exact ⟨fun hx => .inl (key hx), fun hx => .inl (key hx)⟩
      · rename_i r todo
        cases h
        have key : x ∈ (Call.reclaimLeases a todo
            (if s.isOrphan a r = true then orphans ++ [r] else orphans)).knows →
            x ∈ (Call.reclaimLeases a (r :: todo) orphans).knows := by
          intro hx
          obtain ⟨o, ho, he⟩ := List.mem_map.1 hx
          refine List.mem_map.2 ⟨o, ?_, he⟩
          split at ho <;> simp only [List.mem_append, List.mem_cons, List.not_mem_nil,
            or_false] at ho ⊢ <;> tauto
        exact ⟨fun hx => .inl (key hx), fun hx => .inl (key hx)⟩
    · cases h
      have key : x ∈ (nextOrphan a (todo.filter (s.isOrphan a))
          (todo.filter (s.isOrphan a))).knows →
          x ∈ (Call.reclaimLeases a todo orphans).knows := by
        refine orphan (l := todo ++ orphans) fun r hr => ?_
        exact List.mem_append_left _ (List.mem_filter.1 hr).1
      exact ⟨fun hx => .inl (key hx), fun hx => .inl (key hx)⟩
  case reclaimTask a o todo orphans =>
    cases h
    have key : x ∈ (nextOrphan a orphans todo).knows →
        x ∈ (Call.reclaimTask a o todo orphans).knows :=
      orphan (l := o :: todo) fun r hr => List.mem_cons_of_mem _ hr
    exact ⟨fun hx => .inl (key hx), fun hx => .inl (key hx)⟩
  all_goals
    simp only [Call.plan] at h
    (repeat' split at h) <;> cases h <;>
      simp [Plan.read, Plan.write, Call.knows] <;> first | exact .inl | tauto

/-- A row that a step inserts is there after it, or the transaction was rolled back. -/
theorem inserted_row {k : Call} {pl : Plan Statement Call} {r : TaskRunRecord}
    (hp : k.plan b s = some pl) (hr : Statement.insertRun r ∈ pl.tx)
    (ht : runTx Statement.apply pl.tx s = some s') : s'.HasRow r.runId r.occurrence :=
  run_tx_inserts (plan_insert_spares hp hr) hr ht

theorem known {C : Config → Label → Prop} (h : (lts cal b).Reach C p) :
    ∀ i k, p.pool.At i k → ∀ x ∈ k.knows, Known x.1 x.2 p := by
  refine calls_inv (P := fun p k => ∀ x ∈ k.knows, Known x.1 x.2 p) h ?_ ?_ ?_
  · intro p e p' k ids hr _ hn hb ih x hx
    have back : Known x.1 x.2 p → Known x.1 x.2 p' := fun hk => known_step hk hn
    cases hb with
    | dispatch _ _ _ _ _ hd => cases dispatch_spec hd <;> cases hx
    | @finish i c a hi h1 h2 =>
      refine back ?_
      cases List.mem_singleton.1 hx
      have := ih i _ hi (c.run.runId, c.run.taskId) (List.mem_singleton.2 rfl)
      rwa [c.runTask, ← h1, ← h2] at this
    | _ => cases hx
  · intro p i p' k k' s' hr hC hn hk hm hP x hx
    have old : ∀ {r : TaskRunRecord}, r ∈ p.store.runs → x = (r.runId, r.taskId) →
        Known x.1 x.2 p' := by
      rintro r hrow rfl
      exact known_step (known_of_row hr hrow) hn
    obtain ⟨pl, hp, ⟨ht, rfl⟩ | ⟨-, rfl, rfl⟩⟩ := machine_cases hm
    · rcases (plan_knows hp).1 hx with hx | ⟨r, hrow, hx⟩ | ⟨r, hins, rfl⟩
      · exact known_step (hP x hx) hn
      · exact old hrow hx
      · obtain ⟨u, hu, hid, hocc⟩ := inserted_row hp hins ht
        have hr' := hr.step hC hn
        rw [exec_next hk hm] at hn
        cases hn
        have := known_of_row hr' hu
        rw [hid, show u.taskId = r.taskId from congrArg Prod.fst hocc] at this
        exact this
    · rcases (plan_knows hp).2 hx with hx | ⟨r, hrow, hx⟩
      · exact known_step (hP x hx) hn
      · exact old hrow hx
  · exact fun p e p' j k _ _ hn _ _ hP x hx => known_step (hP x hx) hn

/-! ## Rows that are running -/

theorem brings_open {k : Call} {r : TaskRunRecord} (h : k.brings = some r)
    (hr : r.status = .running) : r.finishedAt = none := by
  cases k <;> simp only [Call.brings, Call.opens, Option.map_some, Option.map_none, reduceCtorEq,
    Option.some.injEq] at h <;> subst h
  all_goals
    rename_i a
    first
    | exact a.runOpen.2
    | exact absurd hr a.runEnded

/-- A row that a statement leaves running was running, and is open if it was. -/
theorem on_run_running {q : Statement} {r u : TaskRunRecord} (h : q.onRun r = some u)
    (hu : u.status = .running) : r.status = .running ∧ u.finishedAt = r.finishedAt := by
  by_cases hr : r.status = .running
  · refine ⟨hr, ?_⟩
    cases q <;> simp only [Statement.onRun] at h <;> (try split at h) <;> cases h <;>
      (try rfl)
    · rename_i a _
      exact absurd hu a.ended
    · simp [TaskRunRecord.interrupt] at hu
  · exact absurd hu (on_run_verdict h hr).1

theorem running_open {C : Config → Label → Prop} (h : (lts cal b).Reach C p) :
    ∀ r ∈ p.store.runs, r.status = .running → r.finishedAt = none := by
  refine h.inv (I := fun p => ∀ r ∈ p.store.runs, r.status = .running → r.finishedAt = none)
    (fun p h0 => ?_) fun p e p' ih _ hn => ?_
  · cases h0
    intro r hr
    simp [Table.empty, Table.mem_def] at hr
  cases next_step hn with
  | start => exact ih
  | exec hk hm =>
    refine machine_inv (I := fun s => ∀ r ∈ s.runs, r.status = .running → r.finishedAt = none) hm
      (fun pl hp q hq s₁ s₂ hi ha u hu hs => ?_) ih
    rcases (apply_runs ha u).1 hu with ⟨r, hr, hru⟩ | rfl
    · obtain ⟨hrun, hfin⟩ := on_run_running hru hs
      rw [hfin]
      exact hi r hr hrun
    · exact brings_open (plan_inserts hp hq) hs
  | crash => exact ih

theorem plan_skipping {k : Call} {pl : Plan Statement Call} {a : SkipArgs}
    (h : k.plan b s = some pl) :
    (pl.ok.skipping = some a → k.skipping = some a ∨ .insertRun a.run ∈ pl.tx) ∧
      (pl.no.skipping = some a → k.skipping = some a) := by
  have orphan : ∀ {a todo orphans}, (nextOrphan a orphans todo).skipping = none := by
    intro a todo orphans
    cases todo <;> rfl
  replace h := plan_issues h
  cases h <;>
    first
    | (simp only [Plan.read, Plan.write, orphan, reduceCtorEq, false_implies, and_self]
       done)
    | simp_all [Plan.read, Plan.write, Call.skipping]

/-- The row of a skip never runs. -/
theorem skip_spent {C : Config → Label → Prop} (h : (lts cal b).Reach C p) :
    ∀ i k, p.pool.At i k → ∀ a, k.skipping = some a → Spent a.run.runId p := by
  refine calls_inv (P := fun p k => ∀ a, k.skipping = some a → Spent a.run.runId p) h ?_ ?_
    fun p e p' j k _ _ hn _ _ hP a ha => spent_step (hP a ha) hn
  · intro p e p' k ids _ _ _ hb _ a ha
    cases hb with
    | dispatch _ _ _ _ _ hd => cases dispatch_spec hd <;> cases ha
    | _ => cases ha
  · intro p i p' k k' s' hr hC hn hk hm hP a ha
    obtain ⟨pl, hp, ⟨ht, rfl⟩ | ⟨-, rfl, rfl⟩⟩ := machine_cases hm
    · rcases (plan_skipping hp).1 ha with hka | hins
      · exact spent_step (hP a hka) hn
      · obtain ⟨u, hu, hid, -⟩ := inserted_row hp hins ht
        have hbr := plan_inserts hp hins
        -- the only row of this id is the one the skip has just inserted
        have key : ∀ u ∈ s'.runs, u.runId = a.run.runId → u.status ≠ .running := by
          refine run_tx_inv (I := fun s => ∀ u ∈ s.runs, u.runId = a.run.runId →
            u.status ≠ .running) (fun q hq s₁ s₂ hi hap u hu he => ?_) (fun u hu he => ?_) ht
          · rcases (apply_runs hap u).1 hu with ⟨r, hrow, hru⟩ | rfl
            · exact (on_run_verdict hru (hi r hrow ((on_run_keys hru).1.symm.trans he))).1
            · cases hbr.symm.trans (plan_inserts hp hq)
              exact a.runEnded
          · exact absurd he (absent hr i k hk (plan_inserts_fresh hp hins) _ hbr u hu)
        have hr' := hr.step hC hn
        rw [exec_next hk hm] at hn
        cases hn
        exact hid ▸ spent_of_row hr' hu (key u hu hid)
    · exact spent_step (hP a ((plan_skipping hp).2 ha)) hn

/-! ## Claims in the middle -/

theorem plan_claiming {k : Call} {pl : Plan Statement Call} {a : ClaimArgs}
    (h : k.plan b s = some pl) :
    (pl.ok.claiming = some a → k = .claimDue a ∧ .insertRun a.run ∈ pl.tx) ∧
      (pl.no.claiming = some a → k = .claimSwap a) := by
  have orphan : ∀ {a todo orphans}, (nextOrphan a orphans todo).claiming = none := by
    intro a todo orphans
    cases todo <;> rfl
  replace h := plan_issues h
  cases h <;>
    first
    | (simp only [Plan.read, Plan.write, orphan, reduceCtorEq, false_implies, and_self]
       done)
    | simp_all [Plan.read, Plan.write, Call.claiming]

theorem begins_claiming {k : Call} {ids : List Nat} (h : Begins cal p e k ids) :
    k.claiming = none := by
  cases h with
  | dispatch _ _ _ _ _ hd => cases dispatch_spec hd <;> rfl
  | _ => rfl

/-- No call is in the middle of a claim under this id. -/
def Unclaimed (id : RunId) (p : Config) : Prop :=
  ∀ i k a, p.pool.At i k → k.claiming = some a → a.run.runId ≠ id

theorem unclaimed_step {id : RunId} (hE : Entered id p) (h : Unclaimed id p)
    (hn : next cal b p e = some p') : Unclaimed id p' := by
  intro j c a hj hc
  cases next_step hn with
  | start hb =>
    rcases Pool.at_start.1 hj with hj | ⟨-, rfl⟩
    · exact h j c a hj hc
    · rw [begins_claiming (begins_spec hb)] at hc
      cases hc
  | exec hk hm =>
    rcases (Pool.at_put hk).1 hj with ⟨-, rfl⟩ | ⟨-, hj⟩
    · obtain ⟨pl, hp, ⟨-, rfl⟩ | ⟨-, -, rfl⟩⟩ := machine_cases hm
      · obtain ⟨rfl, -⟩ := (plan_claiming hp).1 hc
        exact hE.calls _ _ a.run hk rfl rfl
      · cases (plan_claiming hp).2 hc
        exact h _ _ a hk rfl
    · exact h j c a hj hc
  | crash => exact h j c a (Pool.at_kill.1 hj).2 hc

/-- The run of a verdict has been claimed for good. -/
theorem ended_unclaimed {C : Config → Label → Prop} (h : (lts cal b).Reach C p) :
    ∀ i k, p.pool.At i k → ∀ a : CompleteArgs, (k = .completeRun a ∨ k = .completeRelease a) →
      Unclaimed a.runId p := by
  refine calls_inv (P := fun p k => ∀ a : CompleteArgs,
    (k = .completeRun a ∨ k = .completeRelease a) → Unclaimed a.runId p) h ?_ ?_ ?_
  · intro p e p' k ids hr _ hn hb _ a ha
    cases hb with
    | dispatch _ _ _ _ _ hd => cases dispatch_spec hd <;> simp at ha
    | @finish i c a₀ hi h1 h2 =>
      have he : a = a₀ := by simpa [eq_comm] using ha
      subst he
      have hK := known hr i _ hi (c.run.runId, c.run.taskId) (List.mem_singleton.2 rfl)
      rw [h1]
      refine unclaimed_step hK.toEntered (fun j d x hj hd he => ?_) hn
      have hbr : d.brings = some x.run := by
        cases d <;> simp only [Call.claiming, Option.some.injEq, reduceCtorEq] at hd <;>
          subst hd <;> rfl
      cases (drawn hr).apart hj hi hbr rfl he
      cases hj.eq hi
      cases hd
    | _ => simp [adminSetPaused] at ha
  · intro p i p' k k' s' hr _ hn hk hm hP a ha
    have hka : k = .completeRun a := by
      obtain ⟨pl, hp, hres⟩ := machine_cases hm
      have orphan : ∀ {x todo orphans}, nextOrphan x orphans todo ≠ .completeRun a ∧
          nextOrphan x orphans todo ≠ .completeRelease a := by
        intro x todo orphans
        cases todo <;> simp [nextOrphan]
      have hpl : (pl.ok = .completeRun a ∨ pl.ok = .completeRelease a) ∨
          pl.no = .completeRun a ∨ pl.no = .completeRelease a := by
        rcases hres with ⟨-, rfl⟩ | ⟨-, -, rfl⟩
        · exact .inl ha
        · exact .inr ha
      replace hp := plan_issues hp
      cases hp <;>
        simp_all [Plan.read, Plan.write]
    have hK := known hr i k hk (a.runId, a.taskId) (by rw [hka]; exact List.mem_singleton.2 rfl)
    exact unclaimed_step hK.toEntered (hP a (.inl hka)) hn
  · intro p e p' j k hr _ hn hj _ hP a ha
    have hK := known hr j k hj (a.runId, a.taskId) (by
      rcases ha with rfl | rfl <;> exact List.mem_singleton.2 rfl)
    exact unclaimed_step hK.toEntered (hP a ha) hn

/-! ## One document at a time -/

/-- The points MongoDB has no part in, or that delete a task. -/
def Call.elsewhere : Call → Bool
  | .reclaimCommit .. | .deleteTask _ | .deleteRuns _ => true
  | _ => false

theorem not_elsewhere (h : (lts cal .mongo).Reach Clean p) :
    ∀ i k, p.pool.At i k → k.elsewhere = false := by
  refine calls_inv (P := fun _ k => k.elsewhere = false) h ?_ ?_
    fun _ _ _ _ _ _ _ _ _ _ hP => hP
  · intro p e p' k ids _ hC _ hb _
    cases hb with
    | dispatch _ _ _ _ _ hd => cases dispatch_spec hd <;> rfl
    | delete => exact absurd rfl (hC.delete _)
    | _ => rfl
  · intro p i p' k k' s' _ _ _ _ hm hP
    have orphan : ∀ {a todo orphans}, (nextOrphan a orphans todo).elsewhere = false := by
      intro a todo orphans
      cases todo <;> rfl
    obtain ⟨pl, hp, hres⟩ := machine_cases hm
    have hpl : pl.ok.elsewhere = false ∧ pl.no.elsewhere = false := by
      cases k <;> simp only [Call.elsewhere, Bool.true_eq_false] at hP <;>
        simp only [Call.plan] at hp <;> (try split at hp) <;> cases hp <;>
        first
        | exact ⟨rfl, rfl⟩
        | exact ⟨orphan, orphan⟩
    rcases hres with ⟨-, rfl⟩ | ⟨-, -, rfl⟩
    · exact hpl.1
    · exact hpl.2

/-- What a MongoDB call does next: it reads, or it issues one statement. -/
theorem mongo_step {k k' : Call} (h : k.step .mongo s = some (s', k'))
    (hk : k.elsewhere = false) : ∃ pl, k.plan .mongo s = some pl ∧
      (pl.tx = [] ∧ s' = s ∧ k' = pl.ok ∨ ∃ q, pl.tx = [q] ∧
        (q.apply s = some s' ∧ k' = pl.ok ∨ q.apply s = none ∧ s' = s ∧ k' = pl.no)) := by
  obtain ⟨pl, hp, hres⟩ := machine_cases h
  have htx : pl.tx = [] ∨ ∃ q, pl.tx = [q] := by
    cases k <;> simp only [Call.elsewhere, Bool.true_eq_false] at hk <;>
      simp only [Call.plan] at hp <;> (try split at hp) <;> cases hp <;>
      simp [Plan.read, Plan.write]
  refine ⟨pl, hp, ?_⟩
  rcases htx with htx | ⟨q, htx⟩
  · rw [htx] at hres
    rcases hres with ⟨ht, rfl⟩ | ⟨ht, -⟩
    · cases ht
      exact .inl ⟨htx, rfl, rfl⟩
    · cases ht
  · rw [htx, run_tx_singleton] at hres
    exact .inr ⟨q, htx, hres⟩

/-- What becomes of a running row at the hands of a statement: it stays, or its run is ended by a
verdict or an interruption, or the row goes: undone by its own call, or with its task. -/
theorem running_row_fate {k : Call} {pl : Plan Statement Call} {q : Statement} {r : TaskRunRecord}
    (hp : k.plan .mongo s = some pl) (hk : k.elsewhere = false) (htx : pl.tx = [q])
    (hrun : r.status = .running) (hopen : r.finishedAt = none) :
    (∃ u, q.onRun r = some u ∧ u.status = .running) ∨
      (∃ a : CompleteArgs, k = .completeRun a ∧ a.runId = r.runId ∧ pl.ok = .completeRelease a) ∨
      (∃ a o todo orphans, k = .reclaimRun a o todo orphans ∧ o.runId = r.runId ∧
        pl.ok = .reclaimTask a o todo orphans) ∨
      (∃ a, k.claiming = some a ∧ a.run.runId = r.runId) ∨
      ∃ a, k.skipping = some a ∧ a.run.runId = r.runId := by
  cases k <;> simp only [Call.elsewhere, Bool.true_eq_false] at hk <;>
    simp only [Call.plan] at hp <;> (try split at hp) <;> cases hp <;>
    simp only [Plan.read, Plan.write, List.cons.injEq, and_true, reduceCtorEq] at htx <;>
    subst htx
  case claimUndo a =>
    by_cases hid : r.runId = a.run.runId
    · exact .inr (.inr (.inr (.inl ⟨a, rfl, hid.symm⟩)))
    · exact .inl ⟨r, if_neg hid, hrun⟩
  case skipUndo a =>
    by_cases hid : r.runId = a.run.runId
    · exact .inr (.inr (.inr (.inr ⟨a, rfl, hid.symm⟩)))
    · exact .inl ⟨r, if_neg hid, hrun⟩
  case completeRun.refl a =>
    by_cases hid : r.runId = a.runId
    · exact .inr (.inl ⟨a, rfl, hid.symm, rfl⟩)
    · exact .inl ⟨r, congrArg some (if_neg fun h => hid h.1), hrun⟩
  case reclaimRun.refl a o todo orphans =>
    by_cases hid : r.runId = o.runId
    · exact .inr (.inr (.inl ⟨a, o, todo, orphans, rfl, hid.symm, rfl⟩))
    · exact .inl ⟨r, congrArg some (if_neg hid), hrun⟩
  case markNotified id =>
    refine .inl ⟨_, rfl, ?_⟩
    split <;> exact hrun
  case h_1.refl a keep => exact .inl ⟨r, if_neg (by simp [hopen]), hrun⟩
  all_goals exact .inl ⟨r, rfl, hrun⟩

/-- While a claim is in the middle, its row is there and running. -/
theorem claiming_row (h : (lts cal .mongo).Reach Clean p) :
    ∀ i k, p.pool.At i k → ∀ a, k.claiming = some a →
      ∃ r ∈ p.store.runs, r.runId = a.run.runId ∧ r.status = .running := by
  have brings : ∀ {k : Call} {a : ClaimArgs}, k.claiming = some a → k.brings = some a.run := by
    intro k a ha
    cases k <;> simp only [Call.claiming, Option.some.injEq, reduceCtorEq] at ha <;>
      subst ha <;> rfl
  refine calls_inv (P := fun p k => ∀ a, k.claiming = some a →
    ∃ r ∈ p.store.runs, r.runId = a.run.runId ∧ r.status = .running) h ?_ ?_ ?_
  · intro p e p' k ids _ _ _ hb _ a ha
    rw [begins_claiming hb] at ha
    cases ha
  · intro p i p' k k' s' hr hC hn hk hm hP a ha
    have he := hn
    rw [exec_next hk hm] at he
    cases he
    obtain ⟨pl, hp, ⟨htx, rfl, rfl⟩ | ⟨q, htx, ⟨hq, rfl⟩ | ⟨-, rfl, rfl⟩⟩⟩ :=
      mongo_step hm (not_elsewhere hr i k hk)
    · have hins := ((plan_claiming hp).1 ha).2
      rw [htx] at hins
      cases hins
    · have hins := ((plan_claiming hp).1 ha).2
      rw [htx, List.mem_singleton] at hins
      subst hins
      exact ⟨a.run, ((Store.insert_run_spec hq).2 a.run).2 (.inr rfl), rfl, a.runOpen.1⟩
    · obtain rfl := (plan_claiming hp).2 ha
      exact hP a rfl
  · intro p e p' j c hr hC hn hj hj' hP a ha
    obtain ⟨r, hrow, hid, hrun⟩ := hP a ha
    cases next_step hn with
    | start => exact ⟨r, hrow, hid, hrun⟩
    | @exec i k k' s' hk hm =>
      obtain ⟨pl, hp, ⟨-, rfl, -⟩ | ⟨q, htx, ⟨hq, rfl⟩ | ⟨-, rfl, -⟩⟩⟩ :=
        mongo_step hm (not_elsewhere hr i k hk)
      · exact ⟨r, hrow, hid, hrun⟩
      rotate_left
      · exact ⟨r, hrow, hid, hrun⟩
      have other : ∀ x, k.brings = some x → x.runId = r.runId → i = j := fun x hx he =>
        (drawn hr).apart hk hj hx (brings ha) (he.trans hid)
      -- the call's own undo is not a step of another call
      have hne : i ≠ j := by
        rintro rfl
        cases hk.eq hj
        rcases (Pool.at_put hk).1 hj' with ⟨-, hcc⟩ | ⟨hne, -⟩
        · rw [hcc] at ha
          obtain ⟨hk₀, -⟩ := (plan_claiming hp).1 ha
          rw [hk₀] at hcc
          rw [← hcc] at ha
          cases ha
        · exact hne rfl
      rcases running_row_fate hp (not_elsewhere hr i k hk) htx hrun
        (running_open hr r hrow hrun) with ⟨u, hu, hur⟩ | ⟨a', rfl, ha', -⟩ |
          ⟨a', o, todo, orphans, rfl, ho, -⟩ | ⟨a', ha', he⟩ | ⟨a', ha', he⟩
      · exact ⟨u, (apply_runs hq u).2 (.inl ⟨r, hrow, hu⟩), (on_run_keys hu).1.trans hid, hur⟩
      · exact absurd (hid.symm.trans ha'.symm)
          (ended_unclaimed hr i _ hk a' (.inl rfl) j c a hj ha)
      · exact absurd (hid.symm.trans ho.symm)
          (hC.interrupt i _ rfl hk o (List.mem_singleton.2 rfl) j c a hj ha)
      · exact absurd (other _ (brings ha') he) hne
      · exact absurd hrun ((skip_spent hr i k hk a' ha').rows r hrow he.symm)
    | crash => exact ⟨r, hrow, hid, hrun⟩

/-! ## Running tasks -/

/-- Only a claim sets a task running. -/
theorem on_task_running {q : Statement} {t u : TaskRecord} (h : q.onTask t = some u)
    (hu : u.state = .running) : t.state = .running ∨ ∃ a, q = .claimTask a ∧ u.id = a.taskId := by
  by_cases ht : t.state = .running
  · exact .inl ht
  refine .inr ?_
  cases q <;> simp only [Statement.onTask] at h <;> (try split at h) <;> cases h <;>
    (try exact absurd hu ht)
  · rename_i a hc
    exact ⟨a, rfl, hc.1⟩
  · rename_i a _
    exact absurd hu a.released
  · cases hu
  · rename_i paused _ _ _ _
    cases paused <;> cases hu

/-- A task is created as the admin makes it. -/
theorem created_fresh {C : Config → Label → Prop} (h : (lts cal b).Reach C p) :
    ∀ i k, p.pool.At i k → ∀ t, k = .createTask t → t.Fresh := by
  refine calls_inv (P := fun _ k => ∀ t, k = .createTask t → t.Fresh) h ?_ ?_
    fun _ _ _ _ _ _ _ _ _ _ hP => hP
  · intro p e p' k ids _ _ _ hb _ t ht
    cases hb with
    | dispatch _ _ _ _ _ hd => cases dispatch_spec hd <;> cases ht
    | create _ hf =>
      cases ht
      exact hf
    | _ => cases ht
  · intro p i p' k k' s' _ _ _ _ hm _ t ht
    have orphan : ∀ {a todo orphans}, nextOrphan a orphans todo ≠ .createTask t := by
      intro a todo orphans
      cases todo <;> simp [nextOrphan]
    obtain ⟨pl, hp, hres⟩ := machine_cases hm
    have hpl : pl.ok ≠ .createTask t ∧ pl.no ≠ .createTask t := by
      replace hp := plan_issues hp
      cases hp <;>
        first
        | exact ⟨orphan, orphan⟩
        | simp [Plan.read, Plan.write]
    rcases hres with ⟨-, rfl⟩ | ⟨-, -, rfl⟩
    · exact absurd ht hpl.1
    · exact absurd ht hpl.2

/-- A running task has a running row whose claim has gone through, or is about to be released. -/
def Covered (p : Config) : Prop :=
  ∀ t ∈ p.store.tasks, t.state = .running →
    (∃ r ∈ p.store.runs, r.taskId = t.id ∧ r.status = .running ∧ Unclaimed r.runId p) ∨
      ∃ i k, p.pool.At i k ∧ k.releases = some t.id

/-- The statement of a pending release. -/
theorem plan_releases {k : Call} {pl : Plan Statement Call} {q : Statement} {id : TaskId}
    {t u : TaskRecord} (hp : k.plan .mongo s = some pl) (hk : k.releases = some id)
    (htx : pl.tx = [q]) : (∃ s', q.apply s = some s') ∧
      (q.onTask t = some u → u.id = id → u.state ≠ .running) := by
  cases k <;> simp only [Call.releases, Option.some.injEq, reduceCtorEq] at hk <;> subst hk <;>
    cases hp <;> simp only [Plan.write, List.cons.injEq, and_true] at htx <;> subst htx <;>
    refine ⟨⟨_, rfl⟩, fun hu hid hs => ?_⟩ <;> simp only [Statement.onTask] at hu <;>
    split at hu <;> cases hu
  · rename_i a _
    exact a.released hs
  · rename_i hne
    exact hne hid
  · cases hs
  · rename_i hne
    exact hne ⟨hid, hs⟩

theorem covered (h : (lts cal .mongo).Reach Clean p) : Covered p := by
  refine h.inv_using (fun p h0 => ?_) fun p e p' hr ih hC hn t ht hs => ?_
  · cases h0
    intro t ht
    simp [Table.empty, Table.mem_def] at ht
  have row : ∀ {r u : TaskRunRecord}, r ∈ p.store.runs → Unclaimed r.runId p →
      u.runId = r.runId → Unclaimed u.runId p' :=
    fun hrow hun he => he ▸ unclaimed_step (entered_of_row hr hrow) hun hn
  have hn' := hn
  cases next_step hn with
  | start =>
    rcases ih t ht hs with ⟨r, hrow, hid, hrun, hun⟩ | ⟨i, k, hi, hk⟩
    · exact .inl ⟨r, hrow, hid, hrun, row hrow hun rfl⟩
    · exact .inr ⟨i, k, Pool.at_start.2 (.inl hi), hk⟩
  | crash =>
    rcases ih t ht hs with ⟨r, hrow, hid, hrun, hun⟩ | ⟨i, k, hi, hk⟩
    · exact .inl ⟨r, hrow, hid, hrun, row hrow hun rfl⟩
    · refine .inr ⟨i, k, Pool.at_kill.2 ⟨?_, hi⟩, hk⟩
      rintro rfl
      rw [hC.crash _ k rfl hi] at hk
      cases hk
  | @exec i k k' s' hk hm =>
    have hel := not_elsewhere hr i k hk
    obtain ⟨pl, hp, hres⟩ := mongo_step hm hel
    -- where the store stays, only the call itself moves, and it released nothing
    have still : s' = p.store → (∀ q, pl.tx = [q] → q.apply p.store = none) →
        (∃ r ∈ s'.runs, r.taskId = t.id ∧ r.status = .running ∧
          Unclaimed r.runId ⟨p.pool.put i s' k', p.minted, p.tally ++ k.streaks .mongo p.store⟩) ∨
          ∃ j c, (p.pool.put i s' k').At j c ∧ c.releases = some t.id := by
      rintro rfl hno
      rcases ih t ht hs with ⟨r, hrow, hid, hrun, hun⟩ | ⟨j, c, hj, hc⟩
      · exact .inl ⟨r, hrow, hid, hrun, row hrow hun rfl⟩
      · refine .inr ⟨j, c, Pool.at_put_ne hk hj ?_, hc⟩
        rintro rfl
        cases hk.eq hj
        have htx : ∃ q, pl.tx = [q] := by
          cases k <;> simp only [Call.releases, reduceCtorEq] at hc <;> cases hp <;>
            exact ⟨_, rfl⟩
        obtain ⟨q, htx⟩ := htx
        obtain ⟨⟨s₁, h1⟩, -⟩ := plan_releases (t := t) (u := t) hp hc htx
        rw [hno q htx] at h1
        cases h1
    rcases hres with ⟨htx, he, -⟩ | ⟨q, htx, ⟨hq, rfl⟩ | ⟨hq, he, -⟩⟩
    · exact still he (by simp [htx])
    rotate_left
    · exact still he (by
        intro q' hq'
        rw [htx] at hq'
        cases hq'
        exact hq)
    have hself := Pool.at_put_self (s := s') (k := pl.ok) hk
    rcases (apply_tasks hq t).1 ht with ⟨t₀, ht₀, hon⟩ | rfl
    · have htid := on_task_id hon
      rcases on_task_running hon hs with hs₀ | ⟨a, rfl, hta⟩
      · rcases ih t₀ ht₀ hs₀ with ⟨r, hrow, hid, hrun, hun⟩ | ⟨j, c, hj, hc⟩
        · have hkn := fun {x} hx => known hr i k hk x hx
          rcases running_row_fate hp hel htx hrun (running_open hr r hrow hrun) with
            ⟨u, hu, hur⟩ | ⟨a, rfl, ha, hok⟩ | ⟨a, o, todo, orphans, rfl, ho, hok⟩ |
              ⟨a, ha, he⟩ | ⟨a, ha, he⟩
          · obtain ⟨hui, hut, -⟩ := on_run_keys hu
            exact .inl ⟨u, (apply_runs hq u).2 (.inl ⟨r, hrow, hu⟩),
              (hut.trans hid).trans htid.symm, hur, row hrow hun hui⟩
          · have hrt := (hkn (List.mem_singleton.2 rfl)).rows r hrow ha.symm
            refine .inr ⟨i, _, hself, ?_⟩
            rw [hok]
            exact congrArg some (hrt.symm.trans (hid.trans htid.symm))
          · have hrt := (hkn (x := (o.runId, o.taskId)) List.mem_cons_self).rows r hrow ho.symm
            refine .inr ⟨i, _, hself, ?_⟩
            rw [hok]
            exact congrArg some (hrt.symm.trans (hid.trans htid.symm))
          · exact absurd he (hun i k a hk ha)
          · exact absurd hrun ((skip_spent hr i k hk a ha).rows r hrow he.symm)
        · by_cases hji : j = i
          · subst hji
            cases hk.eq hj
            exact absurd hs ((plan_releases hp hc htx).2 hon htid)
          · exact .inr ⟨j, c, Pool.at_put_ne hk hj hji, htid ▸ hc⟩
      · -- the claim goes through: its row is there, and the claim is no longer in the middle
        have hka : k = .claimSwap a ∧ pl.ok = .claimed a := by
          cases k <;> simp only [Call.elsewhere, Bool.true_eq_false] at hel <;>
            simp only [Call.plan] at hp <;> (try split at hp) <;> cases hp <;>
            simp_all [Plan.read, Plan.write]
        obtain ⟨rfl, hok⟩ := hka
        obtain ⟨r, hrow, hid, hrun⟩ := claiming_row hr i _ hk a rfl
        have hK := known hr i _ hk (a.run.runId, a.run.taskId) (List.mem_singleton.2 rfl)
        refine .inl ⟨r, (apply_runs hq r).2 (.inl ⟨r, hrow, rfl⟩),
          (hK.rows r hrow hid).trans (a.runTask.trans hta.symm), hrun, fun j c x hj hc he => ?_⟩
        rcases (Pool.at_put hk).1 hj with ⟨-, rfl⟩ | ⟨hne, hj⟩
        · rw [hok] at hc
          cases hc
        · have hbr : c.brings = some x.run := by
            cases c <;> simp only [Call.claiming, Option.some.injEq, reduceCtorEq] at hc <;>
              subst hc <;> rfl
          exact hne ((drawn hr).apart hj hk hbr rfl (he.trans hid))
    · have hka : k = .createTask t := by
        cases k <;> simp only [Call.elsewhere, Bool.true_eq_false] at hel <;>
          simp only [Call.plan] at hp <;> (try split at hp) <;> cases hp <;>
          simp_all [Plan.read, Plan.write]
      rw [(created_fresh hr i k hk t hka).1] at hs
      cases hs

/-! ## A start-up with no other call about -/

/-- No run and no task is running but those of `todo`. -/
structure Outstanding (todo : List TaskRunRecord) (s : Store) : Prop where
  runs : ∀ r ∈ s.runs, r.status = .running → ∃ o ∈ todo, o.runId = r.runId
  tasks : ∀ t ∈ s.tasks, t.state = .running → ∃ o ∈ todo, o.taskId = t.id

theorem Outstanding.interrupt {o : TaskRunRecord} {todo : List TaskRunRecord}
    (h : Outstanding (o :: todo) s) (now : Time) : Outstanding (o :: todo) (s.interruptRun o now) ∧
      ∀ r ∈ (s.interruptRun o now).runs, r.status = .running → ∃ o ∈ todo, o.runId = r.runId := by
  have hq : (Statement.interruptRun o now).apply s = some (s.interruptRun o now) := rfl
  have hrow : ∀ r ∈ (s.interruptRun o now).runs, r.status = .running →
      ∃ o ∈ todo, o.runId = r.runId := by
    intro u hu hrun
    rcases (apply_runs hq u).1 hu with ⟨r, hr, hru⟩ | hi
    · simp only [Statement.onRun] at hru
      split at hru <;> cases hru
      · cases hrun
      · rename_i hne
        obtain ⟨o', ho', he⟩ := h.runs u hr hrun
        rcases List.mem_cons.1 ho' with rfl | ho'
        · exact absurd he.symm hne
        · exact ⟨o', ho', he⟩
    · cases hi
  refine ⟨⟨fun r hr hrun => ?_, h.tasks⟩, hrow⟩
  obtain ⟨o', ho', he⟩ := hrow r hr hrun
  exact ⟨o', List.mem_cons_of_mem _ ho', he⟩

theorem Outstanding.idle {o : TaskRunRecord} {todo : List TaskRunRecord} {now : Time}
    (h : Outstanding (o :: todo) s)
    (hr : ∀ r ∈ s.runs, r.status = .running → ∃ o ∈ todo, o.runId = r.runId) :
    Outstanding todo (s.idleTask o now) := by
  have hq : (Statement.idleTask o now).apply s = some (s.idleTask o now) := rfl
  refine ⟨hr, fun u hu hs => ?_⟩
  rcases (apply_tasks hq u).1 hu with ⟨t, ht, htu⟩ | hi
  · simp only [Statement.onTask] at htu
    split at htu <;> cases htu
    · cases hs
    · rename_i hne
      obtain ⟨o', ho', he⟩ := h.tasks u ht hs
      rcases List.mem_cons.1 ho' with rfl | ho'
      · exact absurd ⟨he.symm, hs⟩ hne
      · exact ⟨o', ho', he⟩
  · cases hi

/-- The loop over the orphans, alone: it ends, and leaves nothing running. -/
theorem reclaim_loop (cal : Calendar) {a : ReclaimArgs} {orphans : List TaskRunRecord} {j : Nat} :
    ∀ {todo : List TaskRunRecord} {p : Config}, p.pool.At j (nextOrphan a orphans todo) →
      Outstanding todo p.store → ∃ n p', (lts cal .mongo).Run Lts.Any p
        (List.replicate n (.exec j)) p' ∧ p'.pool.At j (.reclaimed a orphans) ∧
        Outstanding [] p'.store
  | [], p, hj, h => ⟨0, p, .nil, hj, h⟩
  | o :: todo, p, hj, h => by
    obtain ⟨p₁, h1, hs1, hj1⟩ := exec_plan (b := .mongo) cal hj rfl run_tx_singleton
    obtain ⟨hout, hrow⟩ := h.interrupt a.now
    obtain ⟨p₂, h2, hs2, hj2⟩ := exec_plan (b := .mongo) cal hj1 rfl run_tx_singleton
    have hnext : Outstanding todo p₂.store := by
      rw [hs2, hs1]
      exact hout.idle hrow
    obtain ⟨n, p', hrun, hj', h'⟩ := reclaim_loop cal hj2 hnext
    exact ⟨n + 2, p', .cons trivial h1 (.cons trivial h2 hrun), hj', h'⟩

/-- The condition of a start-up: every call has returned or is lost, and no run is recorded under
the new scheduler's id. -/
structure Boots (a : ReclaimArgs) (p : Config) : Prop where
  quiet : ∀ i k, p.pool.At i k → k.ended = true
  fresh : ∀ r ∈ p.store.runs, r.owner ≠ a.schedulerId

/-- A task is running exactly where one run of it is. -/
def Store.Agrees (s : Store) : Prop :=
  ∀ t ∈ s.tasks, t.state = .running ↔
    ∃! r, r ∈ s.runs ∧ r.taskId = t.id ∧ r.status = .running

/-- Once a start-up's reclaim is through, a task is running exactly where one run of it is, if no
call was lost between ending a run and releasing its task. -/
theorem ledger_agrees {a : ReclaimArgs} (h : (lts cal .mongo).Reach Clean p) (hb : Boots a p) :
    ∃ n p', (lts cal .mongo).Run Lts.Any p
        (.recover a :: List.replicate n (.exec p.pool.calls.length)) p' ∧
      (∃ orphans, p'.pool.At p.pool.calls.length (.reclaimed a orphans)) ∧ p'.store.Agrees := by
  have hall : p.store.runningRuns.filter (p.store.isOrphan a) = p.store.runningRuns := by
    refine List.filter_eq_self.2 fun r hr => ?_
    have hne := hb.fresh r (Table.mem_select.1 hr).1
    simp [Store.isOrphan, hne]
  have hout : Outstanding p.store.runningRuns p.store := by
    refine ⟨fun r hr hrun => ⟨r, Table.mem_select.2 ⟨hr, by simp [hrun]⟩, rfl⟩,
      fun t ht hs => ?_⟩
    rcases covered h t ht hs with ⟨r, hr, hid, hrun, -⟩ | ⟨i, k, hi, hk⟩
    · exact ⟨r, Table.mem_select.2 ⟨hr, by simp [hrun]⟩, hid⟩
    · have hend := hb.quiet i k hi
      cases k <;> simp only [Call.releases, reduceCtorEq] at hk <;> cases hend
  have h0 : (lts cal .mongo).next p (.recover a) =
      some ⟨p.pool.start (.reclaimOrphans a), p.minted, p.tally⟩ := rfl
  have hj0 : (p.pool.start (.reclaimOrphans a)).At p.pool.calls.length (.reclaimOrphans a) :=
    Pool.at_start.2 (.inr ⟨rfl, rfl⟩)
  obtain ⟨p₁, h1, hs1, hj1⟩ := exec_plan (b := .mongo) cal
    (p := ⟨p.pool.start (.reclaimOrphans a), p.minted, p.tally⟩) hj0 rfl run_tx_nil
  obtain ⟨p₂, h2, hs2, hj2⟩ := exec_plan (b := .mongo) cal hj1 rfl run_tx_nil
  simp only [Plan.read] at hj2
  rw [hs1] at hj2
  change p₂.pool.At _ (nextOrphan a (p.store.runningRuns.filter (p.store.isOrphan a))
    (p.store.runningRuns.filter (p.store.isOrphan a))) at hj2
  rw [hall] at hj2
  have hs : p₂.store = p.store := hs2.trans hs1
  obtain ⟨n, p', hrun, hj', hnone⟩ := reclaim_loop cal hj2 (hs ▸ hout)
  refine ⟨n + 2, p', .cons trivial h0 (.cons trivial h1 (.cons trivial h2 hrun)), ⟨_, hj'⟩,
    fun t ht => ⟨fun hrunning => ?_, fun hone => ?_⟩⟩
  · obtain ⟨o, ho, -⟩ := hnone.tasks t ht hrunning
    cases ho
  · obtain ⟨r, ⟨hr, -, hrunning⟩, -⟩ := hone
    obtain ⟨o, ho, -⟩ := hnone.runs r hr hrunning
    cases ho

/-- A step that crashes nothing, interrupts nothing and deletes nothing. -/
def tidy (p : Config) : Label → Bool
  | .crash _ | .delete _ => false
  | .exec i => (p.pool.calls[i]?.join.map Call.interrupts).all List.isEmpty
  | _ => true

theorem clean_of_tidy (h : tidy p e = true) : Clean p e := by
  refine ⟨fun i k he _ => ?_, fun i k he hk r hr => ?_, fun id he => ?_⟩ <;> subst he
  · cases h
  · unfold Pool.At at hk
    simp only [tidy, hk, Option.join_some, Option.map_some, Option.all_some,
      List.isEmpty_iff] at h
    rw [h] at hr
    cases hr
  · cases h

/-- The check of `Boots`. -/
def boots (a : ReclaimArgs) (p : Config) : Bool :=
  p.pool.calls.all (·.all Call.ended) && p.store.runs.rows.all fun r => r.owner != a.schedulerId

theorem boots_iff {a : ReclaimArgs} (h : boots a p = true) : Boots a p := by
  obtain ⟨hq, hf⟩ := Bool.and_eq_true_iff.1 h
  refine ⟨fun i k hi => ?_, fun r hr => ?_⟩
  · simpa using List.all_eq_true.1 hq _ hi.mem
  · simpa using List.all_eq_true.1 hf r hr

/-- The engine dies in the middle of run 2: the next one to start agrees with the ledger. -/
theorem ledger_agrees_run : ∃ p n p', (lts Sample.calendar .mongo).Reach Clean p ∧
    (∃ t ∈ p.store.tasks, t.state = .running) ∧
    (lts Sample.calendar .mongo).Run Lts.Any p
      (.recover ⟨8, 120⟩ :: List.replicate n (.exec p.pool.calls.length)) p' ∧ p'.store.Agrees := by
  have h : ((lts Sample.calendar .mongo).check tidy Sample.start (Sample.claimed .mongo)).any
      (fun p => boots ⟨8, 120⟩ p && p.store.tasks.rows.any fun t => t.state == .running) =
      true := by decide
  obtain ⟨p, hp, hq⟩ := (Option.any_eq_true _ _).1 h
  obtain ⟨hb, ht⟩ := Bool.and_eq_true_iff.1 hq
  obtain ⟨t, ht, hs⟩ := List.any_eq_true.1 ht
  have hr := Lts.reach_of_check (L := lts Sample.calendar .mongo) (fun _ _ => clean_of_tidy)
    (s := Sample.start) rfl hp
  obtain ⟨n, p', hrun, -, hagree⟩ := ledger_agrees hr (boots_iff hb)
  exact ⟨p, n, p', hr, ⟨t, ht, beq_iff_eq.1 hs⟩, hrun, hagree⟩

/-- The engine dies between ending run 2 and releasing its task: no later start-up sees the task. -/
theorem ledger_disagrees : ∃ p n p', (lts Sample.calendar .mongo).Reach Lts.Any p ∧
    Boots ⟨8, 120⟩ p ∧
    (lts Sample.calendar .mongo).Run Lts.Any p
      (.recover ⟨8, 120⟩ :: List.replicate n (.exec p.pool.calls.length)) p' ∧
    (∃ orphans, p'.pool.At p.pool.calls.length (.reclaimed ⟨8, 120⟩ orphans)) ∧
    ¬p'.store.Agrees ∧ ∃ t ∈ p'.store.tasks, t.state = .running ∧
      ∀ r ∈ p'.store.runs, r.status ≠ .running := by
  have h : ((lts Sample.calendar .mongo).check (fun _ _ => true) Sample.start
      (Sample.claimed .mongo ++ [.finish 2 Sample.ok, .exec 3, .crash 3])).any (fun p =>
        boots ⟨8, 120⟩ p && ((lts Sample.calendar .mongo).check (fun _ _ => true) p
          (.recover ⟨8, 120⟩ :: List.replicate 2 (.exec p.pool.calls.length))).any fun p' =>
            p'.pool.calls[p.pool.calls.length]? == some (some (.reclaimed ⟨8, 120⟩ [])) &&
            (p'.store.tasks.rows.any fun t => t.state == .running) &&
            p'.store.runs.rows.all fun r => r.status != .running) = true := by decide
  obtain ⟨p, hp, hq⟩ := (Option.any_eq_true _ _).1 h
  obtain ⟨hb, hq⟩ := Bool.and_eq_true_iff.1 hq
  obtain ⟨p', hp', hq⟩ := (Option.any_eq_true _ _).1 hq
  simp only [Bool.and_eq_true, beq_iff_eq, List.any_eq_true, List.all_eq_true, bne_iff_ne] at hq
  obtain ⟨⟨hend, t, ht, hs⟩, hnone⟩ := hq
  refine ⟨p, 2, p', Lts.reach_of_check (fun _ _ _ => trivial) rfl hp, boots_iff hb,
    Lts.run_of_check (fun _ _ _ => trivial) hp', ⟨[], hend⟩, fun hag => ?_, t, ht, hs, hnone⟩
  obtain ⟨r, ⟨hr, -, hrun⟩, -⟩ := (hag t ht).1 hs
  exact hnone r hr hrun

end Tasks
