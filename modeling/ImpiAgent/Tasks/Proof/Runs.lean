import ImpiAgent.Tasks.Proof.Statements
import ImpiAgent.Tasks.System

/-!
# The run rows calls open

A claim or a skip is about one occurrence (`Call.opens`) and brings a run row for it under an id
drawn for it (`Call.brings`); from the insert to the undo the row is in the ledger on its account
(`Call.holds`). `drawn`: no two calls bring one id.

A run whose row has been inserted is `Entered`: nobody inserts it again, so what the statements keep
of its row, every step keeps (`Entered.rows_step`). `Keeps occ` is the condition that pruning and
deleting leave the rows of an occurrence alone.
-/

namespace Tasks

open Triggers Scheduler

/-! ## What a call issues -/

/-- The transaction a call issues at its point, and where it is then. -/
inductive Issues (b : Backend) (s : Store) : Call → Plan Statement Call → Prop
  | dueTasks {k : Tick} :
      Issues b s (.dueTasks k) (.read (.gotDue k (s.dueTasks k.horizon dueLimit)))
  | claim {a : ClaimArgs} : b = .sqlite →
      Issues b s (.claimDue a) ⟨[.claimTask a, .insertRun a.run], .claimed a, .claimRefused a⟩
  | claimInsert {a : ClaimArgs} : b = .mongo →
      Issues b s (.claimDue a) ⟨[.insertRun a.run], .claimSwap a, .claimRefused a⟩
  | claimSwap {a : ClaimArgs} : Issues b s (.claimSwap a) ⟨[.claimTask a], .claimed a, .claimUndo a⟩
  | claimUndo {a : ClaimArgs} :
      Issues b s (.claimUndo a) (.write [.deleteRun a.run.runId] (.claimRefused a))
  | skip {a : SkipArgs} : b = .sqlite →
      Issues b s (.recordSkip a) ⟨[.advanceTask a, .insertRun a.run], .skipped a, .skipRefused a⟩
  | skipInsert {a : SkipArgs} : b = .mongo →
      Issues b s (.recordSkip a) ⟨[.insertRun a.run], .skipSwap a, .skipRefused a⟩
  | skipSwap {a : SkipArgs} : Issues b s (.skipSwap a) ⟨[.advanceTask a], .skipped a, .skipUndo a⟩
  | skipUndo {a : SkipArgs} :
      Issues b s (.skipUndo a) (.write [.deleteRun a.run.runId] (.skipRefused a))
  | complete {a : CompleteArgs} : b = .sqlite →
      Issues b s (.completeRun a) ⟨[.closeRun a, .releaseTask a], .completed a, .completeRefused a⟩
  | completeClose {a : CompleteArgs} : b = .mongo →
      Issues b s (.completeRun a) ⟨[.closeRun a], .completeRelease a, .completeRefused a⟩
  | completeRelease {a : CompleteArgs} :
      Issues b s (.completeRelease a) (.write [.releaseTask a] (.completed a))
  | orphans {a : ReclaimArgs} :
      Issues b s (.reclaimOrphans a) (.read (.reclaimLeases a s.runningRuns []))
  | noOrphan {a : ReclaimArgs} {orphans : List TaskRunRecord} : b = .sqlite → orphans = [] →
      Issues b s (.reclaimLeases a [] orphans) (.read (.reclaimed a []))
  | someOrphan {a : ReclaimArgs} {orphans : List TaskRunRecord} : b = .sqlite → orphans ≠ [] →
      Issues b s (.reclaimLeases a [] orphans) (.read (.reclaimCommit a orphans))
  | lease {a : ReclaimArgs} {r : TaskRunRecord} {todo orphans : List TaskRunRecord} :
      b = .sqlite → Issues b s (.reclaimLeases a (r :: todo) orphans)
        (.read (.reclaimLeases a todo (if s.isOrphan a r then orphans ++ [r] else orphans)))
  | leases {a : ReclaimArgs} {todo orphans : List TaskRunRecord} : b = .mongo →
      Issues b s (.reclaimLeases a todo orphans)
        (.read (nextOrphan a (todo.filter (s.isOrphan a)) (todo.filter (s.isOrphan a))))
  | reclaimCommit {a : ReclaimArgs} {orphans : List TaskRunRecord} :
      Issues b s (.reclaimCommit a orphans)
        (.write (orphans.flatMap (reclaimWrites a.now)) (.reclaimed a orphans))
  | reclaimRun {a : ReclaimArgs} {r : TaskRunRecord} {todo orphans : List TaskRunRecord} :
      Issues b s (.reclaimRun a r todo orphans)
        (.write [.interruptRun r a.now] (.reclaimTask a r todo orphans))
  | reclaimTask {a : ReclaimArgs} {r : TaskRunRecord} {todo orphans : List TaskRunRecord} :
      Issues b s (.reclaimTask a r todo orphans)
        (.write [.idleTask r a.now] (nextOrphan a orphans todo))
  | setPaused {id : TaskId} {paused : Bool} {next due : Option Time} {now : Time} :
      Issues b s (.setPaused id paused next due now)
        ⟨[.setPaused id paused next due now], .done true, .done false⟩
  | requestRunNow {id : TaskId} {now : Time} :
      Issues b s (.requestRunNow id now) ⟨[.requestRunNow id now], .done true, .done false⟩
  | reschedule {id : TaskId} {next due : Option Time} {now : Time} :
      Issues b s (.reschedule id next due now) (.write [.reschedule id next due now] (.done true))
  | createTask {t : TaskRecord} :
      Issues b s (.createTask t) ⟨[.createTask t], .done true, .done false⟩
  | delete {id : TaskId} : b = .sqlite →
      Issues b s (.deleteTask id) ⟨[.deleteRuns id, .deleteTask id], .done true, .done false⟩
  | deleteTask {id : TaskId} : b = .mongo →
      Issues b s (.deleteTask id) ⟨[.deleteTask id], .deleteRuns id, .done false⟩
  | deleteRuns {id : TaskId} : Issues b s (.deleteRuns id) (.write [.deleteRuns id] (.done true))
  | prune {a : PruneArgs} : b = .sqlite →
      Issues b s (.pruneRuns a) (.write [.pruneRuns a.before (s.keepRuns a)] (.done true))
  | pruneTasks {a : PruneArgs} : b = .mongo →
      Issues b s (.pruneRuns a) (.read (.pruneKeep a s.runTasks []))
  | pruneRuns {a : PruneArgs} {keep : List RunId} :
      Issues b s (.pruneKeep a [] keep) (.write [.pruneRuns a.before keep] (.done true))
  | pruneKeep {a : PruneArgs} {id : TaskId} {todo : List TaskId} {keep : List RunId} :
      Issues b s (.pruneKeep a (id :: todo) keep)
        (.read (.pruneKeep a todo (keep ++ s.newestRuns id a.keepPerTask)))
  | markNotified {id : RunId} :
      Issues b s (.markNotified id) (.write [.markNotified id] (.done true))

theorem plan_issues {b : Backend} {s : Store} {k : Call} {pl : Plan Statement Call}
    (h : k.plan b s = some pl) : Issues b s k pl := by
  cases k with
  | claimDue a => cases b <;> cases h <;> constructor <;> rfl
  | recordSkip a => cases b <;> cases h <;> constructor <;> rfl
  | completeRun a => cases b <;> cases h <;> constructor <;> rfl
  | deleteTask id => cases b <;> cases h <;> constructor <;> rfl
  | pruneRuns a => cases b <;> cases h <;> constructor <;> rfl
  | reclaimLeases a todo orphans =>
    cases b with
    | mongo =>
      cases h
      exact .leases rfl
    | sqlite =>
      cases todo with
      | nil =>
        cases orphans with
        | nil =>
          cases h
          exact .noOrphan rfl rfl
        | cons r orphans =>
          cases h
          exact .someOrphan rfl (List.cons_ne_nil _ _)
      | cons r todo =>
        cases h
        exact .lease rfl
  | pruneKeep a todo keep =>
    cases todo with
    | nil =>
      cases h
      exact .pruneRuns
    | cons id todo =>
      cases h
      exact .pruneKeep
  | _ => cases h <;> constructor

/-- What a claim and a skip have in common. -/
structure Opening where
  taskId : TaskId
  seenDueAt : Option Time
  nextRunAt : Option Time
  dueAt : Option Time
  run : TaskRunRecord

def ClaimArgs.opening (a : ClaimArgs) : Opening :=
  ⟨a.taskId, a.seenDueAt, a.nextRunAt, a.dueAt, a.run⟩

def SkipArgs.opening (a : SkipArgs) : Opening :=
  ⟨a.taskId, a.seenDueAt, a.nextRunAt, a.dueAt, a.run⟩

/-- What a call is to do to an occurrence. -/
def Call.opens : Call → Option Opening
  | .claimDue a | .claimSwap a | .claimUndo a | .claimed a | .claimRefused a => some a.opening
  | .recordSkip a | .skipSwap a | .skipUndo a | .skipped a | .skipRefused a => some a.opening
  | _ => none

/-- What a call did: `claim_due` returned the run, `record_skip` returned true. -/
def Call.won : Call → Option Opening
  | .claimed a => some a.opening
  | .skipped a => some a.opening
  | _ => none

/-- The run row a call opens. -/
def Call.brings (k : Call) : Option TaskRunRecord := k.opens.map (·.run)

/-- The run row that is in the ledger on a call's account. -/
def Call.holds : Call → Option TaskRunRecord
  | .claimSwap a | .claimUndo a | .claimed a => some a.run
  | .skipSwap a | .skipUndo a | .skipped a => some a.run
  | _ => none

/-- A call that has not inserted its run row yet. -/
def Call.fresh : Call → Bool
  | .claimDue _ | .recordSkip _ => true
  | _ => false

/-- Pruning and deleting. -/
def Call.removes : Call → Bool
  | .deleteTask _ | .deleteRuns _ | .pruneRuns _ | .pruneKeep .. => true
  | _ => false

theorem brings_of_holds {k : Call} {r : TaskRunRecord} (h : k.holds = some r) :
    k.brings = some r := by
  cases k <;> simp_all [Call.holds, Call.brings, Call.opens, ClaimArgs.opening, SkipArgs.opening]

theorem opens_of_won {k : Call} {o : Opening} (h : k.won = some o) : k.opens = some o := by
  cases k <;> simp_all [Call.won, Call.opens]

theorem holds_of_won {k : Call} {o : Opening} (h : k.won = some o) : k.holds = some o.run := by
  cases k <;> simp only [Call.won, Option.some.injEq, reduceCtorEq] at h <;> subst h <;> rfl

section
variable {cal : Calendar} {b : Backend} {p p' : Config} {e : Label} {s s' : Store}

@[simp] theorem next_orphan_opens {a : ReclaimArgs} {todo orphans : List TaskRunRecord} :
    (nextOrphan a orphans todo).opens = none := by
  cases todo <;> rfl

@[simp] theorem next_orphan_holds {a : ReclaimArgs} {todo orphans : List TaskRunRecord} :
    (nextOrphan a orphans todo).holds = none := by
  cases todo <;> rfl

@[simp] theorem next_orphan_won {a : ReclaimArgs} {todo orphans : List TaskRunRecord} :
    (nextOrphan a orphans todo).won = none := by
  cases todo <;> rfl

/-- A call is about the same occurrence at all its points. -/
theorem plan_opens {k : Call} {pl : Plan Statement Call} (h : k.plan b s = some pl) :
    pl.ok.opens = k.opens ∧ pl.no.opens = k.opens := by
  replace h := plan_issues h
  cases h <;>
    first
    | exact ⟨rfl, rfl⟩
    | exact ⟨next_orphan_opens, next_orphan_opens⟩

theorem step_opens {k k' : Call} (h : k.step b s = some (s', k')) : k'.opens = k.opens := by
  obtain ⟨pl, hp, ⟨-, rfl⟩ | ⟨-, -, rfl⟩⟩ := machine_cases h
  · exact (plan_opens hp).1
  · exact (plan_opens hp).2

theorem step_brings {k k' : Call} (h : k.step b s = some (s', k')) : k'.brings = k.brings :=
  congrArg (·.map (·.run)) (step_opens h)

theorem begins_brings {k : Call} {ids : List Nat} {r : TaskRunRecord} (h : Begins cal p e k ids)
    (hr : k.brings = some r) : r.runId ∈ ids ∧ r.runId ∉ p.minted := by
  cases h with
  | dispatch hi ht hd hle hm hc =>
    cases dispatch_spec hc with
    | claim _ _ _ hid =>
      cases hr
      exact ⟨List.mem_singleton.2 hid, hid ▸ hm⟩
    | skip _ _ _ hid =>
      cases hr
      exact ⟨List.mem_singleton.2 hid, hid ▸ hm⟩
    | move => cases hr
  | _ => cases hr

/-- Run ids are drawn once. -/
structure Drawn (p : Config) : Prop where
  minted : ∀ {i k r}, p.pool.At i k → k.brings = some r → r.runId ∈ p.minted
  apart : ∀ {i j k c r u}, p.pool.At i k → p.pool.At j c → k.brings = some r →
    c.brings = some u → r.runId = u.runId → i = j
  rows : ∀ {r}, r ∈ p.store.runs → r.runId ∈ p.minted

/-- Only the row a call brings is ever inserted. -/
theorem plan_inserts {k : Call} {pl : Plan Statement Call} {r : TaskRunRecord}
    (h : k.plan b s = some pl) (hq : Statement.insertRun r ∈ pl.tx) : k.brings = some r := by
  replace h := plan_issues h
  cases h <;>
    simp_all [Call.brings, Call.opens, ClaimArgs.opening, SkipArgs.opening, Plan.read, Plan.write,
      reclaimWrites]

/-- Only the call that creates a task inserts one, and does nothing else. -/
theorem plan_creates {k : Call} {pl : Plan Statement Call} {t : TaskRecord}
    (h : k.plan b s = some pl) (hq : Statement.createTask t ∈ pl.tx) :
    k = .createTask t ∧ pl.tx = [.createTask t] := by
  replace h := plan_issues h
  cases h <;>
    simp_all [Plan.read, Plan.write, reclaimWrites]

/-- A row after a step was there before, up to rewriting, or is the one the call brings. -/
theorem step_row {k k' : Call} {u : TaskRunRecord} (h : k.step b s = some (s', k'))
    (hu : u ∈ s'.runs) : (∃ r ∈ s.runs, r.runId = u.runId ∧ r.occurrence = u.occurrence ∧
      r.owner = u.owner ∧ r.coalesced = u.coalesced) ∨
      ∃ r, k.brings = some r ∧ r.runId = u.runId ∧ r.occurrence = u.occurrence ∧
        r.owner = u.owner ∧ r.coalesced = u.coalesced := by
  refine machine_inv (I := fun s₁ => ∀ u ∈ s₁.runs, (∃ r ∈ s.runs, r.runId = u.runId ∧
      r.occurrence = u.occurrence ∧ r.owner = u.owner ∧ r.coalesced = u.coalesced) ∨
      ∃ r, k.brings = some r ∧ r.runId = u.runId ∧ r.occurrence = u.occurrence ∧
        r.owner = u.owner ∧ r.coalesced = u.coalesced) h ?_
    (fun u hu => .inl ⟨u, hu, rfl, rfl, rfl, rfl⟩) u hu
  intro pl hp q hq s₁ s₂ ih hap u hu
  rcases (apply_runs hap u).1 hu with ⟨r, hr, hru⟩ | rfl
  · obtain ⟨hid, -, -, how, hco⟩ := on_run_keys hru
    rw [hid, on_run_occurrence hru, how, hco]
    exact ih r hr
  · exact .inr ⟨u, plan_inserts hp hq, rfl, rfl, rfl, rfl⟩

theorem drawn {C : Config → Label → Prop} (h : (lts cal b).Reach C p) : Drawn p := by
  refine h.inv (fun p h0 => ?_) fun p e p' ih _ hn => ?_
  · cases h0
    exact ⟨fun hi => by simp [Pool.At] at hi, fun hi => by simp [Pool.At] at hi,
      fun hr => by simp [Table.empty, Table.mem_def] at hr⟩
  · cases next_step hn with
    | @start _ k ids hb =>
      have hbr := fun r (hr : k.brings = some r) => begins_brings (begins_spec hb) hr
      refine ⟨fun hi hr => ?_, fun hi hj hr hu he => ?_, fun hr => ?_⟩
      · rw [List.mem_append]
        rcases Pool.at_start.1 hi with hi | ⟨-, rfl⟩
        · exact .inr (ih.minted hi hr)
        · exact .inl (hbr _ hr).1
      · rcases Pool.at_start.1 hi with hi₀ | ⟨ei, rfl⟩ <;>
          rcases Pool.at_start.1 hj with hj₀ | ⟨ej, rfl⟩
        · exact ih.apart hi₀ hj₀ hr hu he
        · exact absurd (he ▸ ih.minted hi₀ hr) (hbr _ hu).2
        · exact absurd (he ▸ ih.minted hj₀ hu) (hbr _ hr).2
        · omega
      · exact List.mem_append_right _ (ih.rows hr)
    | @exec i k k' s' hk hm =>
      have old : ∀ {j c}, (p.pool.put i s' k').At j c → ∃ c₀, p.pool.At j c₀ ∧
          c₀.brings = c.brings := by
        intro j c hj
        rcases (Pool.at_put hk).1 hj with ⟨rfl, rfl⟩ | ⟨-, hj⟩
        · exact ⟨k, hk, (step_brings hm).symm⟩
        · exact ⟨c, hj, rfl⟩
      refine ⟨fun hi hr => ?_, fun hi hj hr hu he => ?_, fun hr => ?_⟩
      · obtain ⟨c, hi, he⟩ := old hi
        exact ih.minted hi (he.trans hr)
      · obtain ⟨c, hi, hc⟩ := old hi
        obtain ⟨d, hj, hd⟩ := old hj
        exact ih.apart hi hj (hc.trans hr) (hd.trans hu) he
      · rcases step_row hm hr with ⟨u, hu, he, -⟩ | ⟨u, hu, he, -⟩
        · exact he ▸ ih.rows hu
        · exact he ▸ ih.minted hk hu
    | crash =>
      exact ⟨fun hi => ih.minted (Pool.at_kill.1 hi).2,
        fun hi hj => ih.apart (Pool.at_kill.1 hi).2 (Pool.at_kill.1 hj).2, ih.rows⟩

theorem plan_inserts_fresh {k : Call} {pl : Plan Statement Call} {r : TaskRunRecord}
    (h : k.plan b s = some pl) (hq : Statement.insertRun r ∈ pl.tx) : k.fresh = true := by
  replace h := plan_issues h
  cases h <;>
    simp_all [Call.fresh, Plan.read, Plan.write, reclaimWrites]

theorem plan_not_fresh {k : Call} {pl : Plan Statement Call} (h : k.plan b s = some pl) :
    pl.ok.fresh = false ∧ pl.no.fresh = false := by
  have orphan : ∀ {a todo orphans}, (nextOrphan a orphans todo).fresh = false := by
    intro a todo orphans
    cases todo <;> rfl
  replace h := plan_issues h
  cases h <;>
    first
    | exact ⟨rfl, rfl⟩
    | exact ⟨orphan, orphan⟩

theorem step_not_fresh {k k' : Call} (h : k.step b s = some (s', k')) : k'.fresh = false := by
  obtain ⟨pl, hp, ⟨-, rfl⟩ | ⟨-, -, rfl⟩⟩ := machine_cases h
  · exact (plan_not_fresh hp).1
  · exact (plan_not_fresh hp).2

/-! ## Runs that have been entered -/

/-- What a call will insert is not there yet. -/
theorem absent {C : Config → Label → Prop} (h : (lts cal b).Reach C p) :
    ∀ i k, p.pool.At i k → k.fresh = true → ∀ r, k.brings = some r →
      ∀ u ∈ p.store.runs, u.runId ≠ r.runId := by
  refine calls_inv (P := fun p k => k.fresh = true → ∀ r, k.brings = some r →
    ∀ u ∈ p.store.runs, u.runId ≠ r.runId) h ?_ ?_ ?_
  · intro p e p' k ids hr _ hn hb _ _ r hc u hu he
    cases next_step hn with
    | start => exact (begins_brings hb hc).2 (he ▸ (drawn hr).rows hu)
    | exec => cases hb
    | crash => cases hb
  · intro p i p' k k' s' _ _ _ _ hm _ hf
    rw [step_not_fresh hm] at hf
    cases hf
  · intro p e p' j c hr _ hn hj hj' hP hf r hc u hu he
    cases next_step hn with
    | start => exact hP hf r hc u hu he
    | @exec i k k' s' hk hm =>
      rcases step_row hm hu with ⟨v, hv, hid, -⟩ | ⟨v, hv, hid, -⟩
      · exact hP hf r hc v hv (hid.trans he)
      · cases (drawn hr).apart hj hk hc hv (hid.trans he).symm
        rcases (Pool.at_put hk).1 hj' with ⟨-, rfl⟩ | ⟨hne, -⟩
        · rw [step_not_fresh hm] at hf
          cases hf
        · exact hne rfl
    | crash => exact hP hf r hc u hu he

/-- The run's row has been inserted: no call will insert it again. -/
structure Entered (id : RunId) (p : Config) : Prop where
  minted : id ∈ p.minted
  calls : ∀ i k r, p.pool.At i k → k.fresh = true → k.brings = some r → r.runId ≠ id

theorem entered_of_row {C : Config → Label → Prop} (h : (lts cal b).Reach C p)
    {u : TaskRunRecord} (hu : u ∈ p.store.runs) : Entered u.runId p :=
  ⟨(drawn h).rows hu, fun i k r hi hf hr he => absent h i k hi hf r hr u hu he.symm⟩

theorem entered_step {id : RunId} (h : Entered id p) (hn : next cal b p e = some p') :
    Entered id p' := by
  cases next_step hn with
  | start hb =>
    refine ⟨List.mem_append_right _ h.minted, fun i c r hi hf hr => ?_⟩
    rcases Pool.at_start.1 hi with hi | ⟨-, rfl⟩
    · exact h.calls i c r hi hf hr
    · intro he
      exact (begins_brings (begins_spec hb) hr).2 (he ▸ h.minted)
  | exec hk hm =>
    refine ⟨h.minted, fun j c r hj hf hr => ?_⟩
    rcases (Pool.at_put hk).1 hj with ⟨-, rfl⟩ | ⟨-, hj⟩
    · rw [step_not_fresh hm] at hf
      cases hf
    · exact h.calls j c r hj hf hr
  | crash => exact ⟨h.minted, fun i k r hi => h.calls i k r (Pool.at_kill.1 hi).2⟩

/-- What the statements of a step keep of the row of a run that has been entered, the step keeps. -/
theorem Entered.rows_step {id : RunId} {Q : TaskRunRecord → Prop} (h : Entered id p)
    (hn : next cal b p e = some p')
    (hQ : ∀ i k pl q r u, e = .exec i → p.pool.At i k → k.plan b p.store = some pl → q ∈ pl.tx →
      q.onRun r = some u → r.runId = id → Q r → Q u)
    (h0 : ∀ u ∈ p.store.runs, u.runId = id → Q u) : ∀ u ∈ p'.store.runs, u.runId = id → Q u := by
  cases next_step hn with
  | start => exact h0
  | @exec i k k' s' hk hm =>
    refine machine_inv (I := fun s => ∀ u ∈ s.runs, u.runId = id → Q u) hm
      (fun pl hp q hq s₁ s₂ hi ha u hu he => ?_) h0
    rcases (apply_runs ha u).1 hu with ⟨r, hr, hru⟩ | rfl
    · have hid := (on_run_keys hru).1.symm.trans he
      exact hQ i k pl q r u rfl hk hp hq hru hid (hi r hr hid)
    · exact absurd he (h.calls i k u hk (plan_inserts_fresh hp hq) (plan_inserts hp hq))
  | crash => exact h0

/-! ## The row a call holds -/

/-- The ledger has the run `id` for the occurrence `occ`. -/
def Store.HasRow (s : Store) (id : RunId) (occ : TaskId × Time) : Prop :=
  ∃ u ∈ s.runs, u.runId = id ∧ u.occurrence = occ

/-- A step that prunes or deletes leaves the rows of `occ`. -/
def Keeps (b : Backend) (occ : TaskId × Time) (p : Config) (e : Label) : Prop :=
  ∀ i k s' k', e = .exec i → p.pool.At i k → k.removes = true →
    k.step b p.store = some (s', k') → ∀ r ∈ p.store.runs, r.occurrence = occ → r ∈ s'.runs

/-- A statement that takes away no row of the id. -/
def Statement.spares (id : RunId) : Statement → Prop
  | .deleteRun id' => id' ≠ id
  | .deleteRuns _ | .pruneRuns .. => False
  | _ => True

theorem has_row_of_apply {q : Statement} {id : RunId} {occ : TaskId × Time} (hq : q.spares id)
    (h : q.apply s = some s') (hr : s.HasRow id occ) : s'.HasRow id occ := by
  obtain ⟨u, hu, hid, hocc⟩ := hr
  have ⟨v, hv⟩ : ∃ v, q.onRun u = some v := by
    cases q <;> simp_all [Statement.spares, Statement.onRun, eq_comm]
  exact ⟨v, (apply_runs h v).2 (.inl ⟨u, hu, hv⟩), (on_run_keys hv).1.trans hid,
    (on_run_occurrence hv).trans hocc⟩

theorem has_row_of_tx {tx : List Statement} {id : RunId} {occ : TaskId × Time}
    (hq : ∀ q ∈ tx, q.spares id) (h : runTx Statement.apply tx s = some s')
    (hr : s.HasRow id occ) : s'.HasRow id occ :=
  run_tx_inv (I := fun s => s.HasRow id occ) (fun q hm _ _ hi ha => has_row_of_apply (hq q hm) ha hi)
    hr h

/-- A call takes away no row but the one it brings, unless it prunes or deletes. -/
theorem plan_spares {k : Call} {pl : Plan Statement Call} {id : RunId}
    (h : k.plan b s = some pl) (hr : k.removes = false)
    (hne : ∀ r, k.brings = some r → r.runId ≠ id) : ∀ q ∈ pl.tx, q.spares id := by
  cases k <;> simp only [Call.removes, Bool.true_eq_false] at hr <;>
    simp only [Call.plan] at h <;> (repeat' split at h) <;> cases h <;>
    simp_all [Call.brings, Call.opens, ClaimArgs.opening, SkipArgs.opening, Plan.read, Plan.write,
      reclaimWrites, Statement.spares]
  rintro q r hr (rfl | rfl) <;> trivial

/-- A call's own row stays while it holds it. -/
theorem plan_spares_own {k : Call} {pl : Plan Statement Call} {r : TaskRunRecord}
    (h : k.plan b s = some pl) (hr : k.holds = some r)
    (hk : pl.ok.holds = some r ∨ pl.no.holds = some r) : ∀ q ∈ pl.tx, q.spares r.runId := by
  cases k <;> simp only [Call.holds, reduceCtorEq] at hr <;> simp only [Call.plan] at h <;>
    cases h <;> simp_all [Call.holds, Plan.write, Statement.spares]

theorem plan_insert_spares {k : Call} {pl : Plan Statement Call} {r : TaskRunRecord} {id : RunId}
    (h : k.plan b s = some pl) (hr : Statement.insertRun r ∈ pl.tx) :
    ∀ q ∈ pl.tx, q.spares id := by
  replace h := plan_issues h
  cases h <;>
    simp_all [Plan.read, Plan.write, Statement.spares, reclaimWrites]

/-- A transaction that inserts a row leaves it in the ledger. -/
theorem run_tx_inserts {tx : List Statement} {r : TaskRunRecord}
    (hsp : ∀ q ∈ tx, q.spares r.runId) (hr : Statement.insertRun r ∈ tx)
    (h : runTx Statement.apply tx s = some s') : s'.HasRow r.runId r.occurrence := by
  induction tx generalizing s with
  | nil => cases hr
  | cons q tx ih =>
    obtain ⟨s₁, h1, h2⟩ := run_tx_cons.1 h
    have hsp' : ∀ q ∈ tx, q.spares r.runId := fun q hq => hsp q (List.mem_cons_of_mem _ hq)
    rcases List.mem_cons.1 hr with rfl | hr
    · have here : s₁.HasRow r.runId r.occurrence :=
        ⟨r, ((Store.insert_run_spec h1).2 r).2 (.inr rfl), rfl, rfl⟩
      exact has_row_of_tx hsp' h2 here
    · exact ih hsp' hr h2

end

/-! ## A small system

One engine and one task every minute, for concrete runs. -/

namespace Sample

def calendar : Calendar := ⟨fun _ _ m k => Clock.toIso m + 60 * (k + 1)⟩

def engine : Engine :=
  { id := 7, startedAt := 0, tick := 20 * Clock.second, startupGrace := 0,
    lease := 3600 * Clock.second, watches := false }

theorem minutely : TriggerKind.triggerEvery = .triggerEvery → 0 < 60 := fun _ => by decide

def task : TaskRecord :=
  { id := 1, agent := "agent", mode := .turn, triggerKind := .triggerEvery, intervalS := 60,
    cronExpr := "", timezone := "", anchorAt := 0, nextRunAt := some 60, dueAt := some 60,
    jitterS := 0, state := .idle, claimOwner := none, claimAt := none, leaseUntil := none,
    onMissed := .run, updatedAt := 0, lastRunAt := none, lastStatus := none, runCount := 0,
    missCount := 0, consecutiveFailures := 0, watchKey := "", expiresAt := none,
    interval := minutely }

def start : Config := ⟨⟨⟨.empty, .empty⟩, []⟩, [], []⟩

/-- The task is created and a tick at its first minute reads it: call 1 has it. -/
def read : List Label :=
  [.create task, .exec 0, .tick engine (60 * Clock.second), .exec 1]

/-- Call 2 begins to claim it as run 2. -/
def claiming : List Label := read ++ [.dispatch 1 task 2 .raised]

/-- Call 2 claims it. -/
def claimed : Backend → List Label
  | .sqlite => claiming ++ [.exec 2]
  | .mongo => claiming ++ [.exec 2, .exec 2]

/-- The turn of run 2 ended well. -/
def ok : CompleteArgs :=
  { runId := 2, taskId := 1, status := .ok, finishedAt := 90, durationMs := 30000, detail := "",
    replyChars := 5, toolCalls := 0, failed := false, releaseState := .idle,
    ended := by decide, released := by decide }

end Sample

end Tasks
