import ImpiAgent.Tasks.Proof.Runs

/-!
# Run verdicts are final

`complete_run` writes a verdict only on a run that is still running. `reclaim_orphans` writes
`interrupted` on the runs it read as running, without looking again, so a completion in between is
overwritten (`verdict_overwritten`). `Guarded` is the condition that it is not: the rows a reclaim
interrupts are running when it does.

Under it a run that has left `running` is spent (`Spent`): no row of its id will run again, and no
call will insert one. `Settled` gathers what follows for the tally: every run in it is spent, no
call still owes it an entry, and it has no run twice.
-/

namespace Tasks

open Triggers Scheduler

variable {cal : Calendar} {b : Backend} {p p' : Config} {e : Label} {s s' : Store}

/-- The runs the next transaction of a call interrupts. -/
def Call.interrupts : Call → List TaskRunRecord
  | .reclaimCommit _ orphans => orphans
  | .reclaimRun _ orphan _ _ => [orphan]
  | _ => []

/-- The runs a step interrupts are running. -/
def Guarded (p : Config) (e : Label) : Prop :=
  ∀ i k, e = .exec i → p.pool.At i k → ∀ r ∈ k.interrupts,
    ∃ u ∈ p.store.runs, u.runId = r.runId ∧ u.status = .running

/-- What a verdict is. -/
def TaskRunRecord.verdict (r : TaskRunRecord) : RunStatus × Option Time × String :=
  (r.status, r.finishedAt, r.detail)

/-- The run a call has ended without having released its task. -/
def Call.pending : Call → Option RunId
  | .completeRelease a => some a.runId
  | .reclaimTask _ orphan _ _ => some orphan.runId
  | _ => none

/-! ## What a statement does to a verdict -/

/-- No statement makes a run running again, and only an interruption changes what is written. -/
theorem on_run_verdict {q : Statement} {r u : TaskRunRecord} (h : q.onRun r = some u)
    (hr : r.status ≠ .running) : u.status ≠ .running ∧
      ((∀ o now, q = .interruptRun o now → o.runId ≠ r.runId) → u.verdict = r.verdict) := by
  cases q <;> simp only [Statement.onRun] at h <;> (try split at h) <;> cases h <;>
    (try exact ⟨hr, fun _ => rfl⟩)
  · rename_i hc
    exact absurd hc.2 hr
  · rename_i hid
    exact ⟨by simp [TaskRunRecord.interrupt], fun hn => absurd hid.symm (hn _ _ rfl)⟩

theorem plan_interrupts {k : Call} {pl : Plan Statement Call} {o : TaskRunRecord} {now : Time}
    (h : k.plan b s = some pl) (hq : Statement.interruptRun o now ∈ pl.tx) : o ∈ k.interrupts := by
  replace h := plan_issues h
  cases h <;>
    simp_all [Plan.read, Plan.write, reclaimWrites, Call.interrupts]

/-! ## Spent runs -/

/-- The run has left `running` for good. -/
structure Spent (id : RunId) (p : Config) : Prop extends Entered id p where
  rows : ∀ u ∈ p.store.runs, u.runId = id → u.status ≠ .running

/-- A row that is not running makes its run spent. -/
theorem spent_of_row {C : Config → Label → Prop} (h : (lts cal b).Reach C p) {u : TaskRunRecord}
    (hu : u ∈ p.store.runs) (hs : u.status ≠ .running) : Spent u.runId p :=
  ⟨entered_of_row h hu, fun _ hv he => run_unique hv hu he ▸ hs⟩

theorem spent_step {id : RunId} (h : Spent id p) (hn : next cal b p e = some p') : Spent id p' :=
  ⟨entered_step h.toEntered hn, h.toEntered.rows_step (Q := fun u => u.status ≠ .running) hn
    (fun _ _ _ _ _ _ _ _ _ _ hru _ hr => (on_run_verdict hru hr).1) h.rows⟩

/-- A spent run keeps its verdict in a guarded step. -/
theorem verdict_step {id : RunId} {v : RunStatus × Option Time × String} (hs : Spent id p)
    (hG : Guarded p e) (h : ∀ u ∈ p.store.runs, u.runId = id → u.verdict = v)
    (hn : next cal b p e = some p') : ∀ u ∈ p'.store.runs, u.runId = id → u.verdict = v := by
  have key := hs.toEntered.rows_step (Q := fun u => u.status ≠ .running ∧ u.verdict = v) hn
    (fun i k pl q r u he hk hp hq hru hid hr => ?_) fun u hu hid => ⟨hs.rows u hu hid, h u hu hid⟩
  · exact fun u hu hid => (key u hu hid).2
  · obtain ⟨h1, h2⟩ := on_run_verdict hru hr.1
    refine ⟨h1, (h2 fun o now hqo hoid => ?_).trans hr.2⟩
    -- the interrupted run would have to be running
    subst hqo
    obtain ⟨w, hw, hwid, hrun⟩ := hG i k he hk o (plan_interrupts hp hq)
    exact hs.rows w hw (hwid.trans (hoid.trans hid)) hrun

/-! ## The tally -/

/-- The run a statement ends. -/
def Statement.ends : Statement → Option RunId
  | .closeRun a => some a.runId
  | .interruptRun orphan _ => some orphan.runId
  | _ => none

theorem on_run_ends {q : Statement} {r u : TaskRunRecord} (h : q.onRun r = some u)
    (he : q.ends = some r.runId) : u.status ≠ .running := by
  cases q <;> simp only [Statement.ends, Option.some.injEq, reduceCtorEq] at he <;>
    simp only [Statement.onRun, Option.some.injEq] at h
  · rename_i a
    split at h
    · subst h
      exact a.ended
    · rename_i hn
      subst h
      exact fun hr => hn ⟨he.symm, hr⟩
  · rw [if_pos he.symm] at h
    subst h
    simp [TaskRunRecord.interrupt]

/-- A transaction that ends a run leaves no row of it running. -/
theorem run_tx_ends {tx : List Statement} {q : Statement} {id : RunId} (hq : q ∈ tx)
    (he : q.ends = some id) (hi : ∀ r, Statement.insertRun r ∉ tx)
    (h : runTx Statement.apply tx s = some s') :
    ∀ u ∈ s'.runs, u.runId = id → u.status ≠ .running := by
  induction tx generalizing s with
  | nil => cases hq
  | cons q₀ tx ih =>
    obtain ⟨s₁, h1, h2⟩ := run_tx_cons.1 h
    have hi' : ∀ r, Statement.insertRun r ∉ tx := fun r hr => hi r (List.mem_cons_of_mem _ hr)
    rcases List.mem_cons.1 hq with rfl | hq
    · refine run_tx_inv (I := fun s => ∀ u ∈ s.runs, u.runId = id → u.status ≠ .running)
        (fun q' hq' s₂ s₃ hI ha u hu hid => ?_) (fun u hu hid => ?_) h2
      · rcases (apply_runs ha u).1 hu with ⟨r, hr, hru⟩ | rfl
        · exact (on_run_verdict hru (hI r hr ((on_run_keys hru).1 ▸ hid))).1
        · exact absurd hq' (hi' u)
      · rcases (apply_runs h1 u).1 hu with ⟨r, hr, hru⟩ | rfl
        · exact on_run_ends hru (he.trans (by rw [← (on_run_keys hru).1, hid]))
        · exact absurd List.mem_cons_self (hi u)
    · exact ih hq hi' h2

/-- A transaction that ends a run whose row is there leaves the row, ended. -/
theorem row_ended {tx : List Statement} {q : Statement} {id : RunId} (hq : q ∈ tx)
    (he : q.ends = some id) (hi : ∀ r, Statement.insertRun r ∉ tx)
    (hsp : ∀ q ∈ tx, q.spares id) (h : runTx Statement.apply tx s = some s')
    (hu : ∃ u ∈ s.runs, u.runId = id ∧ u.status = .running) :
    ∃ u ∈ s'.runs, u.runId = id ∧ u.status ≠ .running := by
  obtain ⟨u, hu, hid, -⟩ := hu
  obtain ⟨v, hv, hvid, -⟩ := has_row_of_tx hsp h ⟨u, hu, hid, rfl⟩
  exact ⟨v, hv, hvid, run_tx_ends hq he hi h v hv hvid⟩

theorem streaks_eq {k : Call} {pl : Plan Statement Call} (h : k.plan b s = some pl) :
    k.streaks b s = if (runTx Statement.apply pl.tx s).isSome then
      pl.tx.filterMap Statement.streak else [] := by
  unfold Call.streaks
  rw [h]

@[simp] theorem reclaim_writes_streaks {now : Time} : ∀ {orphans : List TaskRunRecord},
    (orphans.flatMap (reclaimWrites now)).filterMap Statement.streak = orphans.map (·.runId)
  | [] => rfl
  | r :: orphans => by
    rw [List.flatMap_cons, List.filterMap_append, reclaim_writes_streaks]
    rfl

@[simp] theorem next_orphan_pending {a : ReclaimArgs} {todo orphans : List TaskRunRecord} :
    (nextOrphan a orphans todo).pending = none := by
  cases todo <;> rfl

/-- The calls that end a run or enter one in the tally. -/
def Call.settles : Call → Bool
  | .completeRun _ | .completeRelease _ | .reclaimCommit .. | .reclaimRun .. | .reclaimTask .. =>
    true
  | _ => false

theorem plan_unsettled {k : Call} {pl : Plan Statement Call} (h : k.plan b s = some pl)
    (hk : k.settles = false) :
    pl.ok.pending = none ∧ pl.no.pending = none ∧ pl.tx.filterMap Statement.streak = [] := by
  cases k <;> simp only [Call.settles, Bool.true_eq_false] at hk <;> simp only [Call.plan] at h <;>
    (repeat' split at h) <;> cases h <;>
    first
    | exact ⟨rfl, rfl, rfl⟩
    | exact ⟨next_orphan_pending, next_orphan_pending, rfl⟩

theorem reclaim_writes_spares {now : Time} {id : RunId} {orphans : List TaskRunRecord} :
    ∀ q ∈ orphans.flatMap (reclaimWrites now), q.spares id := by
  intro q hq
  obtain ⟨r, -, hr⟩ := List.mem_flatMap.1 hq
  simp only [reclaimWrites, List.mem_cons, List.not_mem_nil, or_false] at hr
  rcases hr with rfl | rfl <;> trivial

theorem reclaim_writes_inserts {now : Time} {orphans : List TaskRunRecord} :
    ∀ r, Statement.insertRun r ∉ orphans.flatMap (reclaimWrites now) := by
  intro r hq
  obtain ⟨o, -, hr⟩ := List.mem_flatMap.1 hq
  simp [reclaimWrites] at hr

/-- A run that a call comes to owe the tally, or enters in it without having owed it, was running
and is not any more. -/
theorem step_ends {k k' : Call} {id : RunId} (h : k.step b s = some (s', k'))
    (hG : ∀ r ∈ k.interrupts, ∃ u ∈ s.runs, u.runId = r.runId ∧ u.status = .running)
    (hid : k'.pending = some id ∨ id ∈ k.streaks b s) : k.pending = some id ∨
      (∃ u ∈ s.runs, u.runId = id ∧ u.status = .running) ∧
        ∃ u ∈ s'.runs, u.runId = id ∧ u.status ≠ .running := by
  obtain ⟨pl, hp, hres⟩ := machine_cases h
  rw [streaks_eq hp] at hid
  cases hk : k.settles with
  | false =>
    obtain ⟨h1, h2, h3⟩ := plan_unsettled hp hk
    rw [h3, ite_self] at hid
    rcases hid with hid | hid
    · rcases hres with ⟨-, rfl⟩ | ⟨-, -, rfl⟩
      · simp [h1] at hid
      · simp [h2] at hid
    · cases hid
  | true =>
    cases k <;> simp only [Call.settles, Bool.false_eq_true] at hk
    case completeRun a =>
      -- the verdict comes first, on a run that is running
      have key : ∀ {tx : List Statement}, .closeRun a ∈ tx →
          (∀ r, Statement.insertRun r ∉ tx) → (∀ q ∈ tx, q.spares a.runId) →
          (∃ s₁, s.closeRun a = some s₁) → runTx Statement.apply tx s = some s' →
          (∃ u ∈ s.runs, u.runId = a.runId ∧ u.status = .running) ∧
            ∃ u ∈ s'.runs, u.runId = a.runId ∧ u.status ≠ .running := by
        intro tx hq hi hsp hc ht
        obtain ⟨s₁, hc⟩ := hc
        have hu := Store.close_run_found hc
        exact ⟨hu, row_ended hq rfl hi hsp ht hu⟩
      simp only [Call.plan] at hp
      split at hp <;> cases hp
      · rcases hres with ⟨ht, rfl⟩ | ⟨ht, rfl, rfl⟩
        · have he : a.runId = id := by simpa [Call.pending, ht, Statement.streak] using hid
          subst he
          obtain ⟨s₁, h1, -⟩ := run_tx_cons.1 ht
          exact .inr (key (by simp) (by simp) (by simp [Statement.spares]) ⟨s₁, h1⟩ ht)
        · simp [Call.pending, ht] at hid
      · rcases hres with ⟨ht, rfl⟩ | ⟨ht, rfl, rfl⟩
        · have he : a.runId = id := by simpa [Call.pending, Statement.streak] using hid
          subst he
          exact .inr (key (by simp) (by simp) (by simp [Statement.spares])
            ⟨s', run_tx_singleton.symm.trans ht⟩ ht)
        · simp only [Call.pending, reduceCtorEq, Statement.streak, false_or, ht] at hid
          simp at hid
    case completeRelease a =>
      cases hp
      rcases hres with ⟨ht, rfl⟩ | ⟨ht, rfl, rfl⟩ <;>
        simp_all [Call.pending, Plan.write, Statement.streak]
    case reclaimCommit a orphans =>
      cases hp
      simp only [Plan.write] at hres hid
      rcases hres with ⟨ht, rfl⟩ | ⟨ht, -, rfl⟩ <;>
        simp only [Call.pending, reduceCtorEq, false_or, ht, Option.isSome_some, if_true,
          reclaim_writes_streaks, List.mem_map, Option.isSome_none, Bool.false_eq_true, if_false,
          List.not_mem_nil] at hid
      obtain ⟨o, ho, rfl⟩ := hid
      have hu := hG o ho
      refine .inr ⟨hu, row_ended (q := .interruptRun o a.now) ?_ rfl reclaim_writes_inserts
        reclaim_writes_spares ht hu⟩
      exact List.mem_flatMap.2 ⟨o, ho, by simp [reclaimWrites]⟩
    case reclaimRun a o todo orphans =>
      cases hp
      rcases hres with ⟨ht, rfl⟩ | ⟨ht, -, -⟩
      · have he : o.runId = id := by
          simpa [Plan.write, Call.pending, Statement.streak] using hid
        subst he
        have hu := hG o (by simp [Call.interrupts])
        exact .inr ⟨hu, row_ended (q := .interruptRun o a.now) (by simp [Plan.write]) rfl
          (by simp [Plan.write]) (by simp [Plan.write, Statement.spares]) ht hu⟩
      · simp [Plan.write, Statement.apply] at ht
    case reclaimTask a o todo orphans =>
      cases hp
      rcases hres with ⟨ht, rfl⟩ | ⟨ht, -, -⟩
      · simp only [Plan.write, next_orphan_pending, reduceCtorEq, false_or] at hid
        simp_all [Call.pending, Plan.write, Statement.streak]
      · simp [Plan.write, Statement.apply] at ht

/-- The runs a reclaim has read and not yet written. -/
def Call.listed : Call → List TaskRunRecord
  | .reclaimLeases _ todo orphans => orphans ++ todo
  | .reclaimCommit _ orphans => orphans
  | _ => []

theorem running_runs_nodup : (s.runningRuns.map (·.runId)).Nodup := by
  unfold Store.runningRuns Table.select
  refine List.pairwise_map.2 ((s.runs.apart.filter _).imp fun {r u} h he => ?_)
  rw [run_clash.2 (.inl he)] at h
  cases h

theorem plan_listed {k : Call} {pl : Plan Statement Call} (h : k.plan b s = some pl)
    (hk : (k.listed.map (·.runId)).Nodup) :
    (pl.ok.listed.map (·.runId)).Nodup ∧ (pl.no.listed.map (·.runId)).Nodup := by
  have orphan : ∀ {a todo orphans}, (nextOrphan a orphans todo).listed = [] := by
    intro a todo orphans
    cases todo <;> rfl
  have both : ∀ {c : Call} {P : Call → Prop}, P c → P (Plan.read c : Plan Statement Call).ok ∧
      P (Plan.read c : Plan Statement Call).no := fun hc => ⟨hc, hc⟩
  cases k
  case reclaimOrphans a =>
    cases h
    have hl : ((Call.reclaimLeases a s.runningRuns []).listed.map (·.runId)).Nodup :=
      running_runs_nodup
    exact ⟨hl, hl⟩
  case reclaimLeases a todo orphans =>
    simp only [Call.plan] at h
    split at h
    · split at h <;> cases h
      · refine both (P := fun c => (c.listed.map (·.runId)).Nodup) ?_
        split
        · exact List.nodup_nil
        · simpa [Call.listed] using hk
      · rename_i r todo
        refine both (P := fun c => (c.listed.map (·.runId)).Nodup) ?_
        split
        · simpa [Call.listed] using hk
        · refine List.Nodup.sublist (List.Sublist.map _ ?_) hk
          exact List.Sublist.append_left (List.sublist_cons_self r todo) orphans
    · cases h
      refine both (P := fun c => (c.listed.map (·.runId)).Nodup) ?_
      rw [orphan]
      exact List.nodup_nil
  case reclaimTask a o todo orphans =>
    cases h
    simp only [Plan.write, orphan]
    exact ⟨List.nodup_nil, List.nodup_nil⟩
  all_goals
    simp only [Call.plan] at h
    (repeat' split at h) <;> cases h <;> exact ⟨List.nodup_nil, List.nodup_nil⟩

theorem listed {C : Config → Label → Prop} (h : (lts cal b).Reach C p) :
    ∀ i k, p.pool.At i k → (k.listed.map (·.runId)).Nodup := by
  refine calls_inv (P := fun _ k => (k.listed.map TaskRunRecord.runId).Nodup) h ?_ ?_
    fun _ _ _ _ _ _ _ _ _ _ hP => hP
  · intro p e p' k ids _ _ _ hb _
    cases hb with
    | dispatch _ _ _ _ _ hd => cases dispatch_spec hd <;> exact List.nodup_nil
    | _ => exact List.nodup_nil
  · intro p i p' k k' s' _ _ _ _ hm hP
    obtain ⟨pl, hp, ⟨-, rfl⟩ | ⟨-, -, rfl⟩⟩ := machine_cases hm
    · exact (plan_listed hp hP).1
    · exact (plan_listed hp hP).2

theorem streaks_nodup {k : Call} (h : (k.listed.map (·.runId)).Nodup) :
    (k.streaks b s).Nodup := by
  unfold Call.streaks
  split
  · rename_i pl hp
    split
    · cases hk : k.settles with
      | false =>
        rw [(plan_unsettled hp hk).2.2]
        exact List.nodup_nil
      | true =>
        cases k <;> simp only [Call.settles, Bool.false_eq_true] at hk <;>
          simp only [Call.plan] at hp <;> (try split at hp) <;> cases hp <;>
          first
          | (simp only [Plan.write, reclaim_writes_streaks]
             exact h)
          | simp [Plan.write, Statement.streak, List.filterMap_cons]
    · exact List.nodup_nil
  · exact List.nodup_nil

/-- A step that leaves a run owed enters nothing. -/
theorem step_owes {k k' : Call} {id : RunId} (h : k.step b s = some (s', k'))
    (hid : k'.pending = some id) : k.streaks b s = [] := by
  obtain ⟨pl, hp, hres⟩ := machine_cases h
  have hpd : pl.ok.pending = some id ∨ pl.no.pending = some id := by
    rcases hres with ⟨-, rfl⟩ | ⟨-, -, rfl⟩
    · exact .inl hid
    · exact .inr hid
  rw [streaks_eq hp]
  cases hk : k.settles with
  | false => rw [(plan_unsettled hp hk).2.2, ite_self]
  | true =>
    cases k <;> simp only [Call.settles, Bool.false_eq_true] at hk <;>
      simp only [Call.plan] at hp <;> (try split at hp) <;> cases hp <;>
      first
      | (simp only [Plan.write, next_orphan_pending, reduceCtorEq, or_self] at hpd
         done)
      | (simp only [Plan.write, Call.pending, reduceCtorEq, or_self] at hpd
         done)
      | simp [Plan.write, Statement.streak]

/-- The tally and the calls that still owe it an entry. -/
structure Settled (p : Config) : Prop where
  nodup : p.tally.Nodup
  spent : ∀ id ∈ p.tally, Spent id p
  owed : ∀ i k id, p.pool.At i k → k.pending = some id → Spent id p ∧ id ∉ p.tally
  apart : ∀ i j k c id, p.pool.At i k → p.pool.At j c → k.pending = some id →
    c.pending = some id → i = j

theorem settled (h : (lts cal b).Reach Guarded p) : Settled p := by
  refine h.inv_using (I := Settled) (fun p h0 => ?_) fun p e p' hr ih hG hn => ?_
  · cases h0
    exact ⟨List.nodup_nil, by simp, fun i k id hi => by simp [Pool.At] at hi,
      fun i j k c id hi => by simp [Pool.At] at hi⟩
  have keep := fun {id : RunId} (hs : Spent id p) => spent_step hs hn
  have hn' := hn
  cases next_step hn with
  | @start _ k ids hb =>
    have hp : k.pending = none := by
      cases begins_spec hb with
      | dispatch _ _ _ _ _ hd => cases dispatch_spec hd <;> rfl
      | _ => rfl
    have old : ∀ {i c id}, (p.pool.start k).At i c → c.pending = some id → p.pool.At i c := by
      intro i c id hi hc
      rcases Pool.at_start.1 hi with hi | ⟨-, rfl⟩
      · exact hi
      · rw [hp] at hc
        cases hc
    refine ⟨ih.nodup, fun id hid => keep (ih.spent id hid), fun i c id hi hc => ?_,
      fun i j c d id hi hj hc hd => ih.apart i j c d id (old hi hc) (old hj hd) hc hd⟩
    have ho := ih.owed i c id (old hi hc) hc
    exact ⟨keep ho.1, ho.2⟩
  | @exec i k k' s' hk hm =>
    have hr' := hr.step hG hn'
    have hg := hG i k rfl hk
    -- what the call enters or comes to owe was owed by it alone, or was running
    have fresh : ∀ id, k'.pending = some id ∨ id ∈ k.streaks b p.store →
        id ∉ p.tally ∧ Spent id ⟨p.pool.put i s' k', p.minted, p.tally ++ k.streaks b p.store⟩ ∧
          ∀ j c, j ≠ i → p.pool.At j c → c.pending ≠ some id := by
      intro id hid
      rcases step_ends hm hg hid with hpd | ⟨⟨u, hu, huid, hrun⟩, v, hv, rfl, hend⟩
      · have ho := ih.owed i k id hk hpd
        exact ⟨ho.2, keep ho.1, fun j c hj hc hcd => hj (ih.apart j i c k id hc hk hcd hpd)⟩
      · refine ⟨fun ht => ?_, spent_of_row hr' hv hend, fun j c _ hc hcd => ?_⟩
        · exact (ih.spent _ ht).rows u hu huid hrun
        · exact (ih.owed j c _ hc hcd).1.rows u hu huid hrun
    refine ⟨?_, fun id hid => ?_, fun j c id hj hc => ?_, fun j l c d id hj hl hc hd => ?_⟩
    · refine List.nodup_append.2 ⟨ih.nodup, streaks_nodup (listed hr _ _ hk), ?_⟩
      rintro x hx y hy rfl
      exact (fresh x (.inr hy)).1 hx
    · rcases List.mem_append.1 hid with hid | hid
      · exact keep (ih.spent id hid)
      · exact (fresh id (.inr hid)).2.1
    · rcases (Pool.at_put hk).1 hj with ⟨-, rfl⟩ | ⟨hne, hj⟩
      · refine ⟨(fresh id (.inl hc)).2.1, fun ht => (fresh id (.inl hc)).1 ?_⟩
        rwa [step_owes hm hc, List.append_nil] at ht
      · refine ⟨keep (ih.owed j c id hj hc).1, fun ht => ?_⟩
        rcases List.mem_append.1 ht with ht | ht
        · exact (ih.owed j c id hj hc).2 ht
        · exact (fresh id (.inr ht)).2.2 j c hne hj hc
    · rcases (Pool.at_put hk).1 hj with ⟨ej, rfl⟩ | ⟨hnj, hj₀⟩ <;>
        rcases (Pool.at_put hk).1 hl with ⟨el, rfl⟩ | ⟨hnl, hl₀⟩
      · exact ej.trans el.symm
      · exact absurd hd ((fresh id (.inl hc)).2.2 l d hnl hl₀)
      · exact absurd hc ((fresh id (.inl hd)).2.2 j c hnj hj₀)
      · exact ih.apart j l c d id hj₀ hl₀ hc hd
  | crash =>
    refine ⟨ih.nodup, fun id hid => keep (ih.spent id hid), fun i k id hi hk => ?_,
      fun i j k c id hi hj => ih.apart i j k c id (Pool.at_kill.1 hi).2 (Pool.at_kill.1 hj).2⟩
    have ho := ih.owed i k id (Pool.at_kill.1 hi).2 hk
    exact ⟨keep ho.1, ho.2⟩

/-! ## Failures in a row -/

theorem on_task_streak {q : Statement} {t u : TaskRecord} (h : q.onTask t = some u)
    (hq : q.streak = none) : u.consecutiveFailures = t.consecutiveFailures := by
  cases q <;> simp only [Statement.streak, reduceCtorEq] at hq <;>
    simp only [Statement.onTask] at h <;> (try split at h) <;> cases h <;> (try split) <;> rfl

/-- A step that changes a task's `consecutive_failures` enters a run in the tally. -/
theorem step_failures {k k' : Call} {t u : TaskRecord} (h : k.step b s = some (s', k'))
    (ht : t ∈ s.tasks) (hu : u ∈ s'.tasks) (hid : u.id = t.id)
    (hne : u.consecutiveFailures ≠ t.consecutiveFailures) : k.streaks b s ≠ [] := by
  intro hnil
  obtain ⟨pl, hp, ⟨hx, rfl⟩ | ⟨-, rfl, -⟩⟩ := machine_cases h
  · rw [streaks_eq hp, hx] at hnil
    simp only [Option.isSome_some, if_true, List.filterMap_eq_nil_iff] at hnil
    refine hne ?_
    by_cases hcr : ∃ t₀, Statement.createTask t₀ ∈ pl.tx
    · obtain ⟨t₀, ht₀⟩ := hcr
      rw [(plan_creates hp ht₀).2, run_tx_singleton] at hx
      rcases (apply_tasks hx u).1 hu with ⟨v, hv, hvu⟩ | he
      · cases hvu
        exact congrArg _ (task_unique hv ht hid)
      · cases he
        simp only [Statement.apply, Store.createTask, Option.map_eq_some_iff] at hx
        obtain ⟨tasks, hi, -⟩ := hx
        have := Table.free_of_insert hi t ht
        rw [task_clash.2 hid.symm] at this
        cases this
    · refine run_tx_inv (I := fun s => ∀ u ∈ s.tasks, u.id = t.id →
        u.consecutiveFailures = t.consecutiveFailures) (fun q hq s₁ s₂ hI ha u hu hid => ?_)
        (fun u hu hid => congrArg _ (task_unique hu ht hid)) hx u hu hid
      rcases (apply_tasks ha u).1 hu with ⟨v, hv, hvu⟩ | rfl
      · exact (on_task_streak hvu (hnil q hq)).trans (hI v hv ((on_task_id hvu).symm.trans hid))
      · exact absurd ⟨_, hq⟩ hcr
  · exact hne (congrArg _ (task_unique hu ht hid))

/-! ## Verdicts are final -/

/-- A run that had left `running` in `p` has the same verdict in `p'`. -/
def Final (p p' : Config) : Prop :=
  ∀ u ∈ p.store.runs, u.status ≠ .running → ∀ v ∈ p'.store.runs, v.runId = u.runId →
    v.status = u.status ∧ v.finishedAt = u.finishedAt ∧ v.detail = u.detail

/-- Where every reclaim finds the runs it interrupts still running, a verdict is final, and each
run changes its task's `consecutive_failures` at most once: a step that changes one enters a run in
the tally, and no run is entered twice. -/
theorem verdicts_final {es : List Label} (hr : (lts cal b).Reach Guarded p)
    (h : (lts cal b).Run Guarded p es p') : Final p p' ∧ p'.tally.Nodup ∧
      ∀ e p'', next cal b p' e = some p'' → ∀ t ∈ p'.store.tasks, ∀ u ∈ p''.store.tasks,
        u.id = t.id → u.consecutiveFailures ≠ t.consecutiveFailures →
          ∃ ids, ids ≠ [] ∧ p''.tally = p'.tally ++ ids := by
  refine ⟨fun u hu hs v hv hid => ?_, (settled (hr.run h)).nodup,
    fun e p'' hn t ht u hu hid hne => ?_⟩
  · have key := h.inv (I := fun p => Spent u.runId p ∧ ∀ v ∈ p.store.runs, v.runId = u.runId →
      v.verdict = u.verdict) hr ⟨spent_of_row hr hu hs, fun v hv he => by rw [run_unique hv hu he]⟩
      fun p e p' _ ih hG hn => ⟨spent_step ih.1 hn, verdict_step ih.1 hG ih.2 hn⟩
    have := key.2 v hv hid
    simpa [TaskRunRecord.verdict] using this
  · cases next_step hn with
    | start => exact absurd (congrArg _ (task_unique hu ht hid)) hne
    | exec _ hm => exact ⟨_, step_failures hm ht hu hid hne, rfl⟩
    | crash => exact absurd (congrArg _ (task_unique hu ht hid)) hne

/-- The check that a step is guarded. -/
def guards (p : Config) : Label → Bool
  | .exec i => match p.pool.calls[i]? with
    | some (some k) => k.interrupts.all fun r => p.store.runs.rows.any fun u =>
        u.runId == r.runId && u.status == .running
    | _ => true
  | _ => true

theorem guarded_of_guards (h : guards p e = true) : Guarded p e := by
  rintro i k rfl hk r hr
  unfold Pool.At at hk
  simp only [guards, hk, List.all_eq_true, List.any_eq_true, Bool.and_eq_true, beq_iff_eq] at h
  exact h r hr

/-- A second engine interrupts the run at its start-up; the owner's own verdict comes too late and
is refused. -/
theorem verdicts_final_run : ∃ p p' es, (lts Sample.calendar .mongo).Run Guarded p es p' ∧
    (∃ u ∈ p.store.runs, u.status = .interrupted) ∧ Final p p' ∧ p'.tally = [2] ∧
    p'.tally.Nodup := by
  have h : ((lts Sample.calendar .mongo).check guards Sample.start (Sample.claimed .mongo ++
      [.recover ⟨8, 120⟩, .exec 3, .exec 3, .exec 3, .exec 3])).any (fun p =>
        (p.store.runs.rows.any fun u => u.status == .interrupted) &&
        ((lts Sample.calendar .mongo).check guards p [.finish 2 Sample.ok, .exec 4]).any fun p' =>
          p'.tally == [2]) = true := by decide
  obtain ⟨p, hp, hq⟩ := (Option.any_eq_true _ _).1 h
  obtain ⟨hu, hq⟩ := Bool.and_eq_true_iff.1 hq
  obtain ⟨p', hp', ht⟩ := (Option.any_eq_true _ _).1 hq
  obtain ⟨u, hu, hs⟩ := List.any_eq_true.1 hu
  have hr := Lts.reach_of_check (L := lts Sample.calendar .mongo) (fun _ _ => guarded_of_guards)
    (s := Sample.start) rfl hp
  have hrun := Lts.run_of_check (L := lts Sample.calendar .mongo) (fun _ _ => guarded_of_guards) hp'
  have key := verdicts_final hr hrun
  exact ⟨p, p', _, hrun, ⟨u, hu, beq_iff_eq.1 hs⟩, key.1, beq_iff_eq.1 ht, key.2.1⟩

/-- What an engine's own verdict and a second engine's start-up can come to: the second reads the
run as running, the first closes it, the second interrupts it. -/
def overtaken (b : Backend) : List Label :=
  Sample.claimed b ++ [.recover ⟨8, 120⟩, .exec 3, .exec 3] ++
    match b with
    | .sqlite => [.exec 3, .finish 2 Sample.ok, .exec 4]
    | .mongo => [.finish 2 Sample.ok, .exec 4, .exec 4]

theorem overtaken_run (b : Backend) : ∃ p p' es, (lts Sample.calendar b).Reach Lts.Any p ∧
    (lts Sample.calendar b).Run Lts.Any p es p' ∧ ¬Final p p' := by
  have h : ((lts Sample.calendar b).check (fun _ _ => true) Sample.start (overtaken b)).any
      (fun p => ((lts Sample.calendar b).check (fun _ _ => true) p [.exec 3]).any fun p' =>
        p.store.runs.rows.any fun u => u.status != .running &&
          p'.store.runs.rows.any fun v => v.runId == u.runId && v.status != u.status) = true := by
    cases b <;> decide
  obtain ⟨p, hp, hq⟩ := (Option.any_eq_true _ _).1 h
  obtain ⟨p', hp', hq⟩ := (Option.any_eq_true _ _).1 hq
  refine ⟨p, p', [.exec 3], Lts.reach_of_check (fun _ _ _ => trivial) rfl hp,
    Lts.run_of_check (fun _ _ _ => trivial) hp', fun hf => ?_⟩
  obtain ⟨u, hu, hq⟩ := List.any_eq_true.1 hq
  obtain ⟨hs, hq⟩ := Bool.and_eq_true_iff.1 hq
  obtain ⟨v, hv, hq⟩ := List.any_eq_true.1 hq
  obtain ⟨hid, hne⟩ := Bool.and_eq_true_iff.1 hq
  exact bne_iff_ne.1 hne (hf u hu (bne_iff_ne.1 hs) v hv (beq_iff_eq.1 hid)).1

/-- On either backend a verdict can be overwritten. -/
theorem verdict_overwritten :
    (∃ p p' es, (lts Sample.calendar .sqlite).Reach Lts.Any p ∧
      (lts Sample.calendar .sqlite).Run Lts.Any p es p' ∧ ¬Final p p') ∧
    ∃ p p' es, (lts Sample.calendar .mongo).Reach Lts.Any p ∧
      (lts Sample.calendar .mongo).Run Lts.Any p es p' ∧ ¬Final p p' :=
  ⟨overtaken_run .sqlite, overtaken_run .mongo⟩

end Tasks
