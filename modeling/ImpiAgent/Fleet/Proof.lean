import ImpiAgent.Fleet.System
import ImpiAgent.Tasks.Proof.Schedule
import ImpiAgent.Tasks.Proof.Verdict

/-!
# At most one live run per task

`reclaim_orphans` takes every running row of another scheduler id for an orphan, whether or not that
engine is alive. So an engine that starts beside another ends its runs and frees their tasks
(`two_turns`). `Alone` is the condition that it does not: a start-up finds running rows of dead
engines only. Under it no run of a live engine is interrupted, and no two turns of one task are in
flight (`one_turn`).

`Held` carries the second part: a task is `running`, and claimed by a live engine, while a worker of
that engine has not ended its run, and there is one such worker (or verdict being written) at most.
-/

namespace Fleet

open Tasks Triggers Scheduler

variable {cal : Calendar} {b : Backend} {f f' : State} {e : Event} {s s' : Store}

/-- The turn of claim `i` is in flight, in an engine that is alive. -/
def Going (f : State) (i : Nat) (a : ClaimArgs) : Prop :=
  f.At i (.claimed a) ∧ f.running i = true ∧ i ∉ f.ended

/-- The tasks the next transaction of a reclaim frees. -/
def frees : Call → List TaskRunRecord
  | .reclaimTask _ orphan _ _ => [orphan]
  | .reclaimCommit _ orphans => orphans
  | _ => []

/-- The claim a call takes with its next transaction. -/
def takes : Backend → Call → Option ClaimArgs
  | .sqlite, .claimDue a => some a
  | _, .claimSwap a => some a
  | _, _ => none

/-- A start-up reads running rows of dead engines only, frees no task a live engine has claimed in
the meantime, and no task is claimed while a turn of it goes on past its deadline. -/
structure Alone (b : Backend) (f : State) (e : Event) : Prop where
  reads : ∀ i a, e = .exec i → f.At i (.reclaimOrphans a) → ∀ r ∈ f.store.runs,
    r.status = .running → r.owner ∉ f.alive
  frees : ∀ i k, e = .exec i → f.At i k → ∀ o ∈ frees k, ∀ t ∈ f.store.tasks, t.id = o.taskId →
    t.state = .running → ∀ id, t.claimOwner = some id → id ∉ f.alive
  late : ∀ i k a, e = .exec i → f.At i k → takes b k = some a → ∀ j c, Going f j c →
    c.taskId = a.taskId → j ∉ f.late

/-! ## Calls and their processes -/

/-- The engine a call is made by, as its arguments have it. -/
def engineOf : Call → Option SchedulerId
  | .dueTasks q | .gotDue q _ => some q.engine.id
  | k => k.brings.map (·.owner)

theorem plan_engine {k : Call} {pl : Plan Statement Call} (h : k.plan b s = some pl) :
    engineOf pl.ok = engineOf k ∧ engineOf pl.no = engineOf k := by
  have orphan : ∀ {a todo orphans}, engineOf (nextOrphan a orphans todo) = none := by
    intro a todo orphans
    cases todo <;> rfl
  replace h := plan_issues h
  cases h <;>
    first
    | exact ⟨rfl, rfl⟩
    | exact ⟨orphan, orphan⟩

theorem step_engine {k k' : Call} (h : k.step b s = some (s', k')) : engineOf k' = engineOf k := by
  obtain ⟨pl, hp, ⟨-, rfl⟩ | ⟨-, -, rfl⟩⟩ := machine_cases h
  · exact (plan_engine hp).1
  · exact (plan_engine hp).2

/-- Every call has a process, the one its arguments name; every engine there is has started. -/
structure Homed (f : State) : Prop where
  length : f.homes.length = f.config.pool.calls.length
  home : ∀ i k id, f.At i k → engineOf k = some id → f.homes[i]? = some (some id)
  booted : ∀ id, some id ∈ f.homes → id ∈ f.booted
  alive : ∀ id ∈ f.alive, id ∈ f.booted
  rows : ∀ r ∈ f.store.runs, r.owner ∈ f.booted

theorem running_iff {i : Nat} {id : SchedulerId} (h : f.homes[i]? = some (some id)) :
    f.running i = true ↔ id ∈ f.alive := by
  simp [State.running, h]

/-- A call whose process is there now, and that there was before, had its process then. -/
theorem running_back (hf : Homed f) (hn : next cal b f e = some f') {i : Nat}
    (hi : i < f.homes.length) (h : f'.running i = true) : f.running i = true := by
  cases next_step hn with
  | @boot id now hid =>
    have hold : (f.homes ++ [some id])[i]? = f.homes[i]? := List.getElem?_append_left hi
    simp only [State.running, State.begin, hold] at h ⊢
    split at h <;> simp_all only [List.contains_iff_mem, List.mem_cons]
    rcases h with rfl | h
    · rename_i hx
      exact absurd (hf.booted _ (List.mem_of_getElem? hx)) hid
    · exact h
  | die =>
    simp only [State.running] at h ⊢
    split at h <;> simp_all
  | @start _ home _ _ =>
    have hold : (f.homes ++ [home])[i]? = f.homes[i]? := List.getElem?_append_left hi
    simp only [State.running, State.begin, hold] at h ⊢
    exact h
  | _ => exact h

theorem begins_engine {l : Label} {home : Option SchedulerId} {k : Call} {ids : List Nat}
    (hf : Homed f) (hc : f.caller l = some home) (h : Begins cal f.config l k ids)
    {id : SchedulerId} (hk : engineOf k = some id) : home = some id := by
  cases h with
  | tick =>
    simp only [State.caller] at hc
    split at hc <;> cases hc
    cases hk
    rfl
  | @dispatch i q _ _ _ _ _ _ hi _ _ _ _ hd =>
    simp only [State.caller] at hc
    split at hc
    · have hq := hf.home i _ q.engine.id hi rfl
      cases hq.symm.trans hc
      cases dispatch_spec hd with
      | @claim a _ _ _ _ how =>
        have hid : a.run.owner = id := Option.some.inj hk
        rw [← hid, a.runOwner, how]
      | @skip a _ _ _ _ how =>
        have hid : a.run.owner = id := Option.some.inj hk
        rw [← hid, how]
      | move => cases hk
    · cases hc
  | _ => cases hk

theorem caller_booted (hf : Homed f) {l : Label} {id : SchedulerId}
    (hc : f.caller l = some (some id)) : id ∈ f.booted := by
  cases l <;> simp only [State.caller, Option.some.injEq, reduceCtorEq] at hc <;>
    (try split at hc) <;> try cases hc
  · exact hf.alive _ ‹_›
  · exact hf.booted _ (List.mem_of_getElem? hc)
  · exact hf.booted _ (List.mem_of_getElem? hc)

theorem homed_begin (home : Option SchedulerId) (k : Call) (ids : List Nat) (hf : Homed f)
    (hk : ∀ id, engineOf k = some id → home = some id) :
    (∀ i c id, (f.begin home k ids).At i c → engineOf c = some id →
      (f.begin home k ids).homes[i]? = some (some id)) ∧
    (f.begin home k ids).homes.length = (f.begin home k ids).config.pool.calls.length := by
  refine ⟨fun i c id hi hid => ?_, ?_⟩
  · rcases Pool.at_start.1 hi with hi | ⟨rfl, rfl⟩
    · have hlt := (List.getElem?_eq_some_iff.1 (hf.home i c id hi hid)).1
      exact (List.getElem?_append_left hlt).trans (hf.home i c id hi hid)
    · rw [← hf.length, ← hk id hid]
      exact List.getElem?_concat_length
  · simp [State.begin, Pool.start, hf.length]

theorem homed {C : State → Event → Prop} (h : (lts cal b).Reach C f) : Homed f := by
  refine h.inv (fun f h0 => ?_) fun f e f' ih _ hn => ?_
  · cases h0
    exact ⟨rfl, fun i k id hi => by simp [Pool.At] at hi, by simp, by simp,
      fun r hr => by simp [Table.empty, Table.mem_def] at hr⟩
  cases next_step hn with
  | @boot id now hid =>
    obtain ⟨hhome, hlen⟩ := homed_begin (some id) (.reclaimOrphans ⟨id, now⟩) [] ih fun _ hk => by cases hk
    refine ⟨hlen, hhome, fun x hx => ?_, fun x hx => ?_, fun r hr => ?_⟩
    · rcases List.mem_append.1 hx with hx | hx
      · exact List.mem_cons_of_mem _ (ih.booted x hx)
      · cases List.mem_singleton.1 hx
        exact List.mem_cons_self
    · rcases List.mem_cons.1 hx with rfl | hx
      · exact List.mem_cons_self
      · exact List.mem_cons_of_mem _ (ih.alive x hx)
    · exact List.mem_cons_of_mem _ (ih.rows r hr)
  | die =>
    exact ⟨ih.length, ih.home, ih.booted, fun x hx => ih.alive x (List.mem_filter.1 hx).1, ih.rows⟩
  | @start l home k ids hc hb =>
    obtain ⟨hhome, hlen⟩ := homed_begin home k ids ih fun _ hk => begins_engine ih hc (begins_spec hb) hk
    refine ⟨hlen, hhome, fun x hx => ?_, ih.alive, ih.rows⟩
    rcases List.mem_append.1 hx with hx | hx
    · exact ih.booted x hx
    · rw [← List.mem_singleton.1 hx] at hc
      exact caller_booted ih hc
  | @exec i k k' s' _ hk hm =>
    refine ⟨?_, fun j c id hj hid => ?_, ih.booted, ih.alive, fun r hr => ?_⟩
    · simp [Pool.put, ih.length]
    · rcases (Pool.at_put hk).1 hj with ⟨rfl, rfl⟩ | ⟨-, hj⟩
      · exact ih.home j k id hk ((step_engine hm).symm.trans hid)
      · exact ih.home j c id hj hid
    · rcases step_row hm hr with ⟨u, hu, -, -, how⟩ | ⟨u, hu, -, -, how⟩
      · exact how.1 ▸ ih.rows u hu
      · refine ih.booted _ (List.mem_of_getElem? (ih.home i k r.owner hk ?_))
        cases k <;> simp_all [engineOf, Call.brings, Call.opens]
  | crash =>
    exact ⟨by simp [Pool.kill, ih.length], fun j c id hj => ih.home j c id (Pool.at_kill.1 hj).2,
      ih.booted, ih.alive, ih.rows⟩
  | ended => exact ⟨ih.length, ih.home, ih.booted, ih.alive, ih.rows⟩
  | deadline => exact ⟨ih.length, ih.home, ih.booted, ih.alive, ih.rows⟩

/-! ## What a start-up takes for orphans -/

/-- The run has been entered, and its engine is dead. -/
structure Dead (id : RunId) (f : State) : Prop where
  entered : Entered id f.config
  rows : ∀ u ∈ f.store.runs, u.runId = id → u.owner ∉ f.alive ∧ u.owner ∈ f.booted

theorem dead_step {id : RunId} (h : Dead id f) (hn : next cal b f e = some f') : Dead id f' := by
  have hE : Entered id f'.config := by
    rcases config_step hn with he | ⟨l, hl⟩
    · exact he ▸ h.entered
    · exact entered_step h.entered hl
  have hrows : ∀ u ∈ f'.store.runs, u.runId = id → u.owner ∉ f.alive ∧ u.owner ∈ f.booted := by
    rcases config_step hn with he | ⟨l, hl⟩
    · exact (show f'.store = f.store from congrArg (·.store) he) ▸ h.rows
    · refine h.entered.rows_step (Q := fun u => u.owner ∉ f.alive ∧ u.owner ∈ f.booted) hl
        (fun _ _ _ _ r u _ _ _ _ hru _ hr => ?_) h.rows
      rw [(on_run_keys hru).2.2.2.1]
      exact hr
  refine ⟨hE, fun u hu hid => ?_⟩
  obtain ⟨h1, h2⟩ := hrows u hu hid
  cases next_step hn with
  | boot hnew =>
    refine ⟨fun hx => ?_, List.mem_cons_of_mem _ h2⟩
    rcases List.mem_cons.1 hx with hx | hx
    · exact hnew (hx ▸ h2)
    · exact h1 hx
  | die => exact ⟨fun hx => h1 (List.mem_filter.1 hx).1, h2⟩
  | _ => exact ⟨h1, h2⟩

/-- The rows a reclaim has read and not settled. -/
def orphaned : Call → List TaskRunRecord
  | .reclaimLeases _ todo orphans => todo ++ orphans
  | .reclaimCommit _ orphans => orphans
  | .reclaimRun _ orphan todo _ | .reclaimTask _ orphan todo _ => orphan :: todo
  | _ => []

theorem next_orphan_orphaned {a : ReclaimArgs} {todo orphans : List TaskRunRecord} :
    orphaned (nextOrphan a orphans todo) = todo := by
  cases todo <;> rfl

theorem plan_orphaned {k c : Call} {pl : Plan Statement Call} {r : TaskRunRecord}
    (h : k.plan b s = some pl) (hc : c = pl.ok ∨ c = pl.no) (hr : r ∈ orphaned c) :
    r ∈ orphaned k ∨ (∃ a, k = .reclaimOrphans a) ∧ r ∈ s.runs ∧ r.status = .running := by
  cases k
  case reclaimOrphans a =>
    cases h
    obtain rfl : c = .reclaimLeases a s.runningRuns [] := by rcases hc with rfl | rfl <;> rfl
    refine .inr ⟨⟨a, rfl⟩, ?_⟩
    have hr : r ∈ s.runningRuns := by
      rw [← List.append_nil s.runningRuns]
      exact hr
    exact ⟨(Table.mem_select.1 hr).1, beq_iff_eq.1 (Table.mem_select.1 hr).2⟩
  case reclaimLeases a todo orphans =>
    refine .inl ?_
    simp only [Call.plan] at h
    split at h
    · split at h <;> cases h
      · obtain rfl : c = if orphans.isEmpty = true then .reclaimed a [] else
            .reclaimCommit a orphans := by rcases hc with rfl | rfl <;> rfl
        split at hr
        · cases hr
        · exact hr
      · rename_i o todo
        obtain rfl : c = .reclaimLeases a todo
            (if s.isOrphan a o = true then orphans ++ [o] else orphans) := by
          rcases hc with rfl | rfl <;> rfl
        simp only [orphaned, List.mem_append, List.mem_cons] at hr ⊢
        split at hr <;> (try simp only [List.mem_append, List.mem_singleton] at hr) <;> tauto
    · cases h
      obtain rfl : c = nextOrphan a (todo.filter (s.isOrphan a)) (todo.filter (s.isOrphan a)) := by
        rcases hc with rfl | rfl <;> rfl
      rw [next_orphan_orphaned] at hr
      exact List.mem_append_left _ (List.mem_filter.1 hr).1
  case reclaimTask a o todo orphans =>
    cases h
    obtain rfl : c = nextOrphan a orphans todo := by rcases hc with rfl | rfl <;> rfl
    rw [next_orphan_orphaned] at hr
    exact .inl (List.mem_cons_of_mem _ hr)
  all_goals
    simp only [Call.plan] at h
    (repeat' split at h) <;> cases h <;> rcases hc with rfl | rfl <;>
      first
      | exact .inl hr
      | cases hr

theorem begins_orphaned {p : Config} {l : Label} {k : Call} {ids : List Nat}
    (h : Begins cal p l k ids) : orphaned k = [] := by
  cases h with
  | dispatch _ _ _ _ _ hd => cases dispatch_spec hd <;> rfl
  | _ => rfl

/-- A reclaim is about to interrupt runs of dead engines only. -/
theorem orphans_dead (h : (lts cal b).Reach (Alone b) f) :
    ∀ i k, f.At i k → ∀ r ∈ orphaned k, Dead r.runId f := by
  refine h.inv_using (I := fun f => ∀ i k, f.At i k → ∀ r ∈ orphaned k, Dead r.runId f)
    (fun f h0 => ?_) fun f e f' hr ih hC hn => ?_
  · cases h0
    intro i k hi
    simp [Pool.At] at hi
  intro i k hi r hro
  have keep : ∀ {c}, f.At i c → r ∈ orphaned c → Dead r.runId f' :=
    fun hc hro => dead_step (ih i _ hc r hro) hn
  have hn' : next cal b f e = some f' := hn
  cases next_step hn with
  | boot =>
    rcases Pool.at_start.1 hi with hi | ⟨-, rfl⟩
    · exact keep hi hro
    · cases hro
  | start _ hb =>
    rcases Pool.at_start.1 hi with hi | ⟨-, rfl⟩
    · exact keep hi hro
    · rw [begins_orphaned (begins_spec hb)] at hro
      cases hro
  | exec _ hk hm =>
    rcases (Pool.at_put hk).1 hi with ⟨rfl, rfl⟩ | ⟨-, hi⟩
    · obtain ⟨pl, hp, hres⟩ := machine_cases hm
      have hc : _ = pl.ok ∨ _ = pl.no := hres.imp (·.2) (·.2.2)
      rcases plan_orphaned hp hc hro with hold | ⟨⟨a, rfl⟩, hrow, hrun⟩
      · exact keep hk hold
      · refine dead_step ⟨entered_of_row (config_reach hr) hrow, fun u hu he => ?_⟩ hn'
        rw [run_unique hu hrow he]
        exact ⟨hC.reads _ a rfl hk r hrow hrun, (homed hr).rows r hrow⟩
    · exact keep hi hro
  | crash => exact keep (Pool.at_kill.1 hi).2 hro
  | _ => exact keep hi hro

/-- What a worker writes is never that its run was interrupted. -/
theorem completes {C : State → Event → Prop} (h : (lts cal b).Reach C f) :
    ∀ i a, f.At i (.completeRun a) → a.status ≠ .interrupted := by
  refine h.inv (I := fun f => ∀ i a, f.At i (.completeRun a) → a.status ≠ .interrupted)
    (fun f h0 => ?_) fun f e f' ih _ hn i a hi => ?_
  · cases h0
    intro i k hi
    simp [Pool.At] at hi
  cases next_step hn with
  | boot =>
    rcases Pool.at_start.1 hi with hi | ⟨-, he⟩
    · exact ih i a hi
    · cases he
  | @start l _ k ids hc hb =>
    rcases Pool.at_start.1 hi with hi | ⟨-, rfl⟩
    · exact ih i a hi
    · cases begins_spec hb with
      | dispatch _ _ _ _ _ hd => cases dispatch_spec hd
      | finish =>
        simp only [State.caller] at hc
        split at hc
        · rename_i hg
          exact hg.2.2.2
        · cases hc
  | exec _ hk hm =>
    rcases (Pool.at_put hk).1 hi with ⟨-, he⟩ | ⟨-, hi⟩
    · have orphan : ∀ {x todo orphans}, nextOrphan x orphans todo ≠ .completeRun a := by
        intro x todo orphans
        cases todo <;> simp [nextOrphan]
      obtain ⟨pl, hp, hres⟩ := machine_cases hm
      have hpl : pl.ok ≠ .completeRun a ∧ pl.no ≠ .completeRun a := by
        rename_i k _ _
        replace hp := plan_issues hp
        cases hp <;>
          first
          | exact ⟨orphan, orphan⟩
          | simp [Plan.read, Plan.write]
      rcases hres with ⟨-, rfl⟩ | ⟨-, -, rfl⟩
      · exact absurd he.symm hpl.1
      · exact absurd he.symm hpl.2
    · exact ih i a hi
  | crash => exact ih i a (Pool.at_kill.1 hi).2
  | _ => exact ih i a hi

theorem interrupts_orphaned {k : Call} {r : TaskRunRecord} (h : r ∈ k.interrupts) :
    r ∈ orphaned k := by
  cases k <;> simp only [Call.interrupts, List.not_mem_nil, List.mem_singleton] at h
  · exact h
  · rw [h]
    exact List.mem_cons_self

/-- A step does not interrupt a running run of an engine that is alive. -/
theorem spares_live (h : (lts cal b).Reach (Alone b) f) (hn : next cal b f e = some f')
    {r : TaskRunRecord} (hr : r ∈ f.store.runs) (hrun : r.status = .running)
    (hlive : r.owner ∈ f.alive) : ∀ u ∈ f'.store.runs, u.runId = r.runId →
      u.status ≠ .interrupted := by
  have hrow : ∀ u ∈ f.store.runs, u.runId = r.runId → u.status ≠ .interrupted := by
    intro u hu he
    rw [run_unique hu hr he, hrun]
    simp
  rcases config_step hn with he | ⟨l, hl⟩
  · exact (show f'.store = f.store from congrArg (·.store) he) ▸ hrow
  · refine (entered_of_row (config_reach h) hr).rows_step (Q := fun u => u.status ≠ .interrupted)
      hl (fun i k pl q v u he hk hp hq hru hid hv => ?_) hrow
    cases q <;> simp only [Statement.onRun] at hru <;> (try split at hru) <;> cases hru <;>
      (try exact hv)
    · -- a verdict: its call is at `complete_run`
      rename_i a _
      have hka : k = .completeRun a := by
        replace hp := plan_issues hp
        cases hp <;>
          simp_all [Plan.read, Plan.write, reclaimWrites]
      exact completes h i a (hka ▸ hk)
    · -- an interruption: the engine of the run would have to be dead
      rename_i o now ho
      have hdead := orphans_dead h i k hk o (interrupts_orphaned (plan_interrupts hp hq))
      exact absurd hlive (hdead.rows r hr (hid.symm.trans ho)).1

/-! ## Who holds a task -/

/-- The task a call holds: a claim until its worker comes to its verdict, then that verdict until it
is written. -/
def holding (finished : List Nat) (i : Nat) : Call → Option TaskId
  | .claimed a => if i ∈ finished then none else some a.taskId
  | .completeRun a | .completeRelease a => some a.taskId
  | _ => none

/-- Call `i`, in an engine that is alive, holds the task. -/
def Holds (f : State) (i : Nat) (task : TaskId) : Prop :=
  f.running i = true ∧ ∃ k, f.At i k ∧ holding f.finished i k = some task

theorem holding_mono {l l' : List Nat} {i : Nat} {k : Call} {task : TaskId}
    (h : holding l' i k = some task) (hl : ∀ j ∈ l, j ∈ l') : holding l i k = some task := by
  cases k <;> simp only [holding, reduceCtorEq] at h ⊢
  · split at h
    · cases h
    · rename_i hn
      rw [if_neg fun hi => hn (hl i hi)]
      exact h
  · exact h
  · exact h

structure Held (f : State) : Prop where
  one : ∀ i j task, Holds f i task → Holds f j task → i = j
  task : ∀ i task, Holds f i task → ∃ id, f.homes[i]? = some (some id) ∧
    ∀ t ∈ f.store.tasks, t.id = task → t.state = .running ∧ t.claimOwner = some id
  finished : ∀ i ∈ f.finished, i ∈ f.ended ∨ i ∈ f.late
  going : ∀ i j a c, Going f i a → Going f j c → a.taskId = c.taskId → i = j

/-- What becomes of a running task: it stays so and its owner's, or it is released. -/
theorem on_task_held {q : Statement} {t u : TaskRecord} (h : q.onTask t = some u)
    (ht : t.state = .running) : (u.state = .running ∧ u.claimOwner = t.claimOwner) ∨
      (∃ a, q = .releaseTask a ∧ t.id = a.taskId) ∨
      ∃ o now, q = .idleTask o now ∧ t.id = o.taskId := by
  cases q <;> simp only [Statement.onTask] at h <;> (try split at h) <;> cases h <;>
    (try exact .inl ⟨ht, rfl⟩)
  · rename_i hc
    have := (Store.claimable_iff.1 hc.2).1
    rw [ht] at this
    cases this
  · exact .inr (.inl ⟨_, rfl, ‹_›⟩)
  · rename_i hc
    exact .inr (.inr ⟨_, _, rfl, hc.1⟩)
  · rename_i hc
    exact absurd ht hc.2

/-- The call that takes a claim: it found the task idle, and claims it for its engine. -/
theorem step_takes {k : Call} {a : ClaimArgs} (h : k.step b s = some (s', .claimed a)) :
    takes b k = some a ∧ (∃ t ∈ s.tasks, t.id = a.taskId ∧ t.state = .idle) ∧
      ∀ u ∈ s'.tasks, u.id = a.taskId → u.state = .running ∧ u.claimOwner = some a.owner := by
  obtain ⟨pl, hp, hres⟩ := machine_cases h
  have hpl : (pl.ok = .claimed a → takes b k = some a ∧
      (pl.tx = [.claimTask a] ∨ pl.tx = [.claimTask a, .insertRun a.run])) ∧
      pl.no ≠ .claimed a := by
    have orphan : ∀ {x todo orphans}, nextOrphan x orphans todo ≠ .claimed a := by
      intro x todo orphans
      cases todo <;> simp [nextOrphan]
    replace hp := plan_issues hp
    cases hp <;> (try cases ‹b = _›) <;>
      first
      | exact ⟨fun he => absurd he orphan, orphan⟩
      | simp +contextual [Plan.read, Plan.write, takes]
  obtain ⟨ht, hok⟩ : runTx Statement.apply pl.tx s = some s' ∧ .claimed a = pl.ok := by
    rcases hres with hres | ⟨-, -, hno⟩
    · exact hres
    · exact absurd hno.symm hpl.2
  obtain ⟨htakes, htx⟩ := hpl.1 hok.symm
  refine ⟨htakes, ?_⟩
  obtain ⟨s₁, h1, htasks⟩ : ∃ s₁, (Statement.claimTask a).apply s = some s₁ ∧
      s'.tasks = s₁.tasks := by
    rcases htx with htx | htx <;> rw [htx] at ht <;> obtain ⟨s₁, h1, h2⟩ := run_tx_cons.1 ht
    · cases h2
      exact ⟨_, h1, rfl⟩
    · exact ⟨s₁, h1, (Store.insert_run_spec (run_tx_singleton.symm.trans h2)).1⟩
  obtain ⟨t, htm, hid, hidle, hdue, hseen⟩ := Store.claim_task_found h1
  refine ⟨⟨t, htm, hid, hidle⟩, fun u hu huid => ?_⟩
  rw [htasks] at hu
  rcases (apply_tasks h1 u).1 hu with ⟨v, hv, hvu⟩ | hc
  · have hvt := task_unique hv htm ((on_task_id hvu).symm.trans (huid.trans hid.symm))
    simp only [Statement.onTask, hvt] at hvu
    rw [if_pos ⟨hid, Store.claimable_iff.2 ⟨hidle, hdue, hseen⟩⟩] at hvu
    cases hvu
    exact ⟨rfl, rfl⟩
  · cases hc

/-- A call that writes a verdict begins to by ending the run, and then releases the task. -/
theorem step_holder {k k' : Call} (h : k.step b s = some (s', k')) :
    (∀ a, k' ≠ .completeRun a) ∧
      ∀ a, k' = .completeRelease a → k = .completeRun a ∧ s'.tasks = s.tasks := by
  have orphan : ∀ {x todo orphans} {a : CompleteArgs}, nextOrphan x orphans todo ≠ .completeRun a ∧
      nextOrphan x orphans todo ≠ .completeRelease a := by
    intro x todo orphans a
    cases todo <;> simp [nextOrphan]
  obtain ⟨pl, hp, hres⟩ := machine_cases h
  have key : (∀ a, pl.ok ≠ .completeRun a ∧ pl.no ≠ .completeRun a) ∧
      (∀ a, pl.ok = .completeRelease a → k = .completeRun a ∧ pl.tx = [.closeRun a]) ∧
      ∀ a, pl.no ≠ .completeRelease a := by
    replace hp := plan_issues hp
    cases hp <;>
      first
      | exact ⟨fun a => ⟨orphan.1, orphan.1⟩, fun a ha => absurd ha orphan.2, fun a => orphan.2⟩
      | simp [Plan.read, Plan.write]
  rcases hres with ⟨ht, rfl⟩ | ⟨-, -, rfl⟩
  · refine ⟨fun a => (key.1 a).1, fun a ha => ?_⟩
    obtain ⟨hk, htx⟩ := key.2.1 a ha
    rw [htx, run_tx_singleton] at ht
    refine ⟨hk, ?_⟩
    simp only [Statement.apply, Store.closeRun] at ht
    split at ht <;> cases ht
    rfl
  · exact ⟨fun a => (key.1 a).2, fun a ha => absurd ha (key.2.2 a)⟩

/-- The release of a verdict is written by the call that holds its task. -/
theorem plan_release {k : Call} {pl : Plan Statement Call} {a : CompleteArgs}
    (h : k.plan b s = some pl) (hq : Statement.releaseTask a ∈ pl.tx) :
    k = .completeRun a ∨ k = .completeRelease a := by
  replace h := plan_issues h
  cases h <;>
    simp_all [Plan.read, Plan.write, reclaimWrites]

theorem plan_frees {k : Call} {pl : Plan Statement Call} {o : TaskRunRecord} {now : Time}
    (h : k.plan b s = some pl) (hq : Statement.idleTask o now ∈ pl.tx) : o ∈ frees k := by
  replace h := plan_issues h
  cases h <;>
    simp_all [Plan.read, Plan.write, reclaimWrites, frees]

theorem Holds.mentions {i : Nat} {task : TaskId} (h : Holds f i task) :
    ∃ k, f.At i k ∧ task ∈ k.mentions ∧ ∀ t, k ≠ .createTask t := by
  obtain ⟨-, k, hi, hk⟩ := h
  refine ⟨k, hi, ?_⟩
  cases k <;> simp only [holding, reduceCtorEq, Option.some.injEq] at hk
  · split at hk <;> cases hk
    exact ⟨List.mem_singleton.2 rfl, by simp⟩
  · exact ⟨List.mem_singleton.2 hk.symm, by simp⟩
  · exact ⟨List.mem_singleton.2 hk.symm, by simp⟩

/-- A step of another call leaves a held task to its engine. -/
theorem held_task {i j : Nat} {k k' : Call} {task : TaskId} {id : SchedulerId}
    {C : State → Event → Prop} (hr : (lts cal b).Reach C f) (ih : Held f) (hC : Alone b f (.exec i))
    (hk : f.At i k) (hm : k.step b f.store = some (s', k')) (hrun : f.running i = true)
    (hj : Holds f j task) (hne : j ≠ i) (hid : f.homes[j]? = some (some id)) :
    ∀ t ∈ s'.tasks, t.id = task → t.state = .running ∧ t.claimOwner = some id := by
  obtain ⟨id', hid', htask⟩ := ih.task j task hj
  cases hid.symm.trans hid'
  have hlive : id ∈ f.alive := (running_iff hid).1 hj.1
  suffices h : ∀ t ∈ s'.tasks, t.id = task → (t.state = .running ∧ t.claimOwner = some id) ∧
      ∃ t₀ ∈ f.store.tasks, t₀.id = task from fun t ht he => (h t ht he).1
  refine machine_inv (I := fun s => ∀ t ∈ s.tasks, t.id = task → (t.state = .running ∧
    t.claimOwner = some id) ∧ ∃ t₀ ∈ f.store.tasks, t₀.id = task) hm
    (fun pl hp q hq s₁ s₂ hi ha u hu he => ?_) fun t ht he => ⟨htask t ht he, t, ht, he⟩
  rcases (apply_tasks ha u).1 hu with ⟨t, ht, htu⟩ | rfl
  · have htid := (on_task_id htu).symm.trans he
    obtain ⟨⟨hs, ho⟩, t₀, ht₀, he₀⟩ := hi t ht htid
    rcases on_task_held htu hs with ⟨h1, h2⟩ | ⟨a, rfl, ha'⟩ | ⟨o, now, rfl, ho'⟩
    · exact ⟨⟨h1, h2.trans ho⟩, t₀, ht₀, he₀⟩
    · -- only the holder of the task releases it
      have hold : Holds f i task := by
        refine ⟨hrun, k, hk, ?_⟩
        rcases plan_release hp hq with rfl | rfl <;>
          exact congrArg some (ha'.symm.trans htid)
      exact absurd (ih.one j i task hj hold) hne
    · obtain ⟨h1, h2⟩ := htask t₀ ht₀ he₀
      exact absurd hlive (hC.frees i k rfl hk o (plan_frees hp hq) t₀ ht₀
        (he₀.trans (htid.symm.trans ho')) h1 id h2)
  · obtain ⟨c, hc, hmen, hnew⟩ := hj.mentions
    obtain rfl := (plan_creates hp hq).1
    have := ((born (config_reach hr)).new i u hk).2.2 j c hc (he ▸ hmen)
    exact absurd this hne

/-- Who holds a task after a step held it before, but for a claim that was just taken and a verdict
that was just begun. -/
theorem holds_back (hf : Homed f) (hn : next cal b f e = some f') {i : Nat} {task : TaskId}
    (h : Holds f' i task) :
    (Holds f i task ∧ (e = .exec i → f'.store.tasks = f.store.tasks)) ∨
      (∃ k s' a, e = .exec i ∧ f.running i = true ∧ f.At i k ∧
        k.step b f.store = some (s', .claimed a) ∧ a.taskId = task ∧ f'.store = s') ∨
      ∃ l a, e = .start (.finish l a) ∧ i = f.homes.length ∧ Holds f l task ∧ l ∈ f'.finished ∧
        (∀ c, f'.At l c → ∃ x, c = .claimed x) ∧ f'.homes[i]? = f.homes[l]? := by
  obtain ⟨hrun, c, hi, hc⟩ := h
  -- a call that was there before and at the same point
  have old : f.At i c → (∀ j ∈ f.finished, j ∈ f'.finished) → Holds f i task :=
    fun hi hl => ⟨running_back hf hn (hf.length ▸ hi.lt) hrun, c, hi, holding_mono hc hl⟩
  have hn' := hn
  cases next_step hn with
  | boot =>
    rcases Pool.at_start.1 hi with hi | ⟨-, rfl⟩
    · exact .inl ⟨old hi fun _ h => h, by simp⟩
    · cases hc
  | @start l home k ids hcall hb =>
    rcases Pool.at_start.1 hi with hi | ⟨hlen, rfl⟩
    · exact .inl ⟨old hi fun _ h => List.mem_append_right _ h, by simp⟩
    · cases begins_spec hb with
      | dispatch _ _ _ _ _ hd => cases dispatch_spec hd <;> cases hc
      | @finish l x a hl h1 h2 =>
        refine .inr (.inr ⟨l, a, rfl, hlen.trans hf.length.symm, ?_, List.mem_cons_self,
          fun c hc => ?_, ?_⟩)
        · simp only [State.caller] at hcall
          split at hcall
          · rename_i hg
            refine ⟨hg.1, _, hl, ?_⟩
            rw [holding, if_neg hg.2.1, ← h2]
            exact hc
          · cases hcall
        · rcases Pool.at_start.1 hc with hc | ⟨he, -⟩
          · exact ⟨x, hc.eq hl⟩
          · exact absurd he (Nat.ne_of_lt hl.lt)
        · simp only [State.caller] at hcall
          split at hcall
          · rw [hcall, hlen, ← hf.length]
            exact List.getElem?_concat_length
          · cases hcall
      | _ => cases hc
  | @exec m k k' s' hrun' hk hm =>
    rcases (Pool.at_put hk).1 hi with ⟨rfl, rfl⟩ | ⟨hne, hi⟩
    · cases c <;> simp only [holding, reduceCtorEq, Option.some.injEq] at hc
      · rename_i a
        split at hc <;> cases hc
        exact .inr (.inl ⟨k, s', a, rfl, hrun', hk, hm, rfl, rfl⟩)
      · exact absurd rfl ((step_holder hm).1 _)
      · rename_i a
        obtain ⟨rfl, htasks⟩ := (step_holder hm).2 a rfl
        exact .inl ⟨⟨hrun', _, hk, congrArg some hc⟩, fun _ => htasks⟩
    · refine .inl ⟨old hi fun _ h => h, fun he => ?_⟩
      cases he
      exact absurd rfl hne
  | crash => exact .inl ⟨old (Pool.at_kill.1 hi).2 fun _ h => h, by simp⟩
  | _ => exact .inl ⟨old hi fun _ h => h, by simp⟩

/-- The process of a call stays the same. -/
theorem homes_step (hn : next cal b f e = some f') {i : Nat} {x : Option SchedulerId}
    (h : f.homes[i]? = some x) : f'.homes[i]? = some x := by
  have hlt := (List.getElem?_eq_some_iff.1 h).1
  cases next_step hn with
  | boot => exact (List.getElem?_append_left hlt).trans h
  | start => exact (List.getElem?_append_left hlt).trans h
  | _ => exact h

/-- A turn in flight was in flight before, or its claim has just been taken. -/
theorem going_back (hf : Homed f) (hn : next cal b f e = some f') {i : Nat} {a : ClaimArgs}
    (h : Going f' i a) : Going f i a ∨
      ∃ k s', e = .exec i ∧ f.At i k ∧ k.step b f.store = some (s', .claimed a) := by
  obtain ⟨hi, hrun, hover⟩ := h
  have old : f.At i (.claimed a) → (∀ j ∈ f.ended, j ∈ f'.ended) → Going f i a :=
    fun hi hl => ⟨hi, running_back hf hn (hf.length ▸ hi.lt) hrun, fun hx => hover (hl i hx)⟩
  have hn' := hn
  cases next_step hn with
  | boot =>
    rcases Pool.at_start.1 hi with hi | ⟨-, he⟩
    · exact .inl (old hi fun _ h => h)
    · cases he
  | start _ hb =>
    rcases Pool.at_start.1 hi with hi | ⟨-, rfl⟩
    · exact .inl (old hi fun _ h => h)
    · cases begins_spec hb with
      | dispatch _ _ _ _ _ hd => cases dispatch_spec hd
  | @exec m k k' s' _ hk hm =>
    rcases (Pool.at_put hk).1 hi with ⟨rfl, rfl⟩ | ⟨-, hi⟩
    · exact .inr ⟨k, s', rfl, hk, hm⟩
    · exact .inl (old hi fun _ h => h)
  | crash => exact .inl (old (Pool.at_kill.1 hi).2 fun _ h => h)
  | ended => exact .inl (old hi fun _ h => List.mem_cons_of_mem _ h)
  | _ => exact .inl (old hi fun _ h => h)

/-- Nobody holds a task that a claim takes, and no turn of it is in flight. -/
theorem takes_free (ih : Held f) (hC : Alone b f e) {i : Nat} {k : Call} {a : ClaimArgs}
    (he : e = .exec i) (hk : f.At i k) (hm : k.step b f.store = some (s', .claimed a)) :
    (∀ j, ¬Holds f j a.taskId) ∧ ∀ j c, Going f j c → c.taskId ≠ a.taskId := by
  obtain ⟨htakes, ⟨t, ht, hid, hidle⟩, -⟩ := step_takes hm
  have hfree : ∀ j, ¬Holds f j a.taskId := by
    intro j hj
    obtain ⟨_, -, htask⟩ := ih.task j _ hj
    rw [(htask t ht hid).1] at hidle
    cases hidle
  refine ⟨hfree, fun j c hj hc => ?_⟩
  by_cases hfin : j ∈ f.finished
  · rcases ih.finished j hfin with hover | hlate
    · exact hj.2.2 hover
    · exact hC.late i k a he hk htakes j c hj hc hlate
  · exact hfree j ⟨hj.2.1, _, hj.1, by rw [holding, if_neg hfin, hc]⟩

theorem held (h : (lts cal b).Reach (Alone b) f) : Held f := by
  refine h.inv_using (fun f h0 => ?_) fun f e f' hr ih hC hn => ?_
  · cases h0
    exact ⟨fun i j task hi => by simp [Holds, State.running] at hi,
      fun i task hi => by simp [Holds, State.running] at hi, by simp,
      fun i j a c hi => by simp [Going, Pool.At] at hi⟩
  have hf := homed hr
  replace hn : next cal b f e = some f' := hn
  refine ⟨fun i j task hi hj => ?_, fun i task hi => ?_, fun i hi => ?_,
    fun i j a c hi hj hac => ?_⟩
  · -- a call that has begun the verdict of a claim has taken the place of that claim
    have instead : ∀ {i j l : Nat} {x : CompleteArgs}, e = .start (.finish l x) →
        Holds f l task → l ∈ f'.finished → (∀ c, f'.At l c → ∃ x, c = .claimed x) →
        Holds f j task → ¬Holds f' j task := by
      rintro i j l x - hl hfin hcl hj ⟨-, c, hc, hh⟩
      cases ih.one j l task hj hl
      obtain ⟨y, rfl⟩ := hcl c hc
      rw [holding, if_pos hfin] at hh
      cases hh
    rcases holds_back hf hn hi with ⟨hi₀, -⟩ | ⟨k, s', a, he, hrun, hk, hm, rfl, -⟩ |
        ⟨l, x, he, hil, hl, hfin, hcl, -⟩ <;>
      rcases holds_back hf hn hj with ⟨hj₀, -⟩ | ⟨k', s'', c, he', hrun', hk', hm', htask, -⟩ |
        ⟨l', x', he', hjl, hl', hfin', hcl', -⟩
    · exact ih.one i j task hi₀ hj₀
    · exact absurd (htask ▸ hi₀) ((takes_free ih hC he' hk' hm').1 i)
    · exact absurd hi (instead (i := i) he' hl' hfin' hcl' hi₀)
    · exact absurd hj₀ ((takes_free ih hC he hk hm).1 j)
    · cases he.symm.trans he'
      rfl
    · cases he.symm.trans he'
    · exact absurd hj (instead (i := i) he hl hfin hcl hj₀)
    · cases he.symm.trans he'
    · exact hil.trans hjl.symm
  · rcases holds_back hf hn hi with ⟨hi₀, hself⟩ | ⟨k, s', a, rfl, hrun, hk, hm, rfl, hs⟩ |
      ⟨l, x, he, hil, hl, hfin, hcl, hhome⟩
    · obtain ⟨id, hid, htask⟩ := ih.task i task hi₀
      refine ⟨id, homes_step hn hid, ?_⟩
      have hn' := hn
      cases next_step hn with
      | @exec m k k' s' hrun hk hm =>
        by_cases hmi : m = i
        · subst hmi
          rw [hself rfl]
          exact htask
        · exact held_task hr ih hC hk hm hrun hi₀ (Ne.symm hmi) hid
      | _ => exact htask
    · have hhome := (hf.home i k a.run.owner hk (by rw [← step_engine hm]; rfl))
      rw [a.runOwner] at hhome
      refine ⟨a.owner, homes_step hn hhome, ?_⟩
      rw [hs]
      exact (step_takes hm).2.2
    · subst he
      obtain ⟨id, hid, htask⟩ := ih.task l task hl
      refine ⟨id, hhome.trans hid, ?_⟩
      cases next_step hn with
      | start => exact htask
  · cases next_step hn with
    | @start l home k ids hcall hb =>
      rcases List.mem_append.1 hi with hi | hi
      · cases l <;> simp only [finishes, List.not_mem_nil, List.mem_singleton] at hi
        subst hi
        simp only [State.caller] at hcall
        split at hcall
        · rename_i hg
          exact hg.2.2.1
        · cases hcall
      · exact ih.finished i hi
    | ended => exact (ih.finished i hi).imp_left (List.mem_cons_of_mem _)
    | deadline => exact (ih.finished i hi).imp_right (List.mem_cons_of_mem _)
    | _ => exact ih.finished i hi
  · rcases going_back hf hn hi with hi₀ | ⟨k, s', he, hk, hm⟩ <;>
      rcases going_back hf hn hj with hj₀ | ⟨k', s'', he', hk', hm'⟩
    · exact ih.going i j a c hi₀ hj₀ hac
    · exact absurd hac ((takes_free ih hC he' hk' hm').2 i a hi₀)
    · exact absurd hac.symm ((takes_free ih hC he hk hm).2 j c hj₀)
    · cases he.symm.trans he'
      rfl

/-- While start-ups find running rows of dead engines only, no step interrupts a run of an engine
that is alive, and at most one turn of a task is in flight. -/
theorem one_turn (h : (lts cal b).Reach (Alone b) f) :
    (∀ e f', next cal b f e = some f' → ∀ r ∈ f.store.runs, r.status = .running →
      r.owner ∈ f.alive → ∀ u ∈ f'.store.runs, u.runId = r.runId → u.status ≠ .interrupted) ∧
    ∀ i j a c, Going f i a → Going f j c → a.taskId = c.taskId → i = j :=
  ⟨fun _ _ hn _ hr hrun hlive => spares_live h hn hr hrun hlive, (held h).going⟩

/-! ## Two engines -/

/-- The check of `Alone`, for steps before any deadline has passed. -/
def alone (b : Backend) (f : State) : Event → Bool
  | .exec i => (f.config.pool.calls[i]?.join).all fun k =>
    (match k with
      | .reclaimOrphans _ => f.store.runs.rows.all fun r =>
          r.status != .running || !f.alive.contains r.owner
      | _ => true) &&
    (frees k).all (fun o => f.store.tasks.rows.all fun t => t.id != o.taskId ||
      t.claimOwner.all (!f.alive.contains ·)) && ((takes b k).isNone || f.late.isEmpty)
  | _ => true

theorem alone_iff (h : alone b f e = true) : Alone b f e := by
  refine ⟨fun i a he hk r hr hrun hlive => ?_, fun i k he hk o ho t ht hid _ id howner hlive => ?_,
    fun i k a he hk htakes j c _ _ hlate => ?_⟩ <;> subst he <;>
    simp only [State.At, Pool.At] at hk <;>
    simp only [alone, hk, Option.join_some, Option.all_some, Bool.and_eq_true] at h
  · have := List.all_eq_true.1 h.1.1 r hr
    simp [hrun, hlive] at this
  · have := List.all_eq_true.1 (List.all_eq_true.1 h.1.2 o ho) t ht
    simp [hid, howner, hlive] at this
  · have := h.2
    rw [htakes] at this
    simp only [Option.isNone_some, Bool.false_or, List.isEmpty_iff] at this
    rw [this] at hlate
    cases hlate

/-- Engine 7 starts and claims the task: call 3 is the claim. -/
def claimed (b : Backend) : List Event :=
  [.boot 7 0, .exec 0, .exec 0, .start (.create Sample.task), .exec 1,
    .start (.tick Sample.engine (60 * Clock.second)), .exec 2,
    .start (.dispatch 2 Sample.task 2 .raised), .exec 3] ++
  match b with
  | .sqlite => []
  | .mongo => [.exec 3]

/-- Engine 8 starts, and its call 4 has read the runs. -/
def joined (b : Backend) : List Event :=
  [.boot 8 70, .exec 4, .exec 4] ++
  match b with
  | .sqlite => [.exec 4]
  | .mongo => []

/-- It ends them, and reads the task when it is due again. -/
def ticked (b : Backend) : List Event :=
  (match b with
    | .sqlite => [.exec 4]
    | .mongo => [.exec 4, .exec 4]) ++
  [.start (.tick { Sample.engine with id := 8 } (120 * Clock.second)), .exec 5]

def start : State := ⟨Sample.start, [], [], [], [], [], []⟩

/-- The turn of claim `i` is in flight, for a task and an engine. -/
def going (f : State) (i : Nat) (task : TaskId) (id : SchedulerId) : Bool :=
  f.running i && !f.ended.contains i && match f.config.pool.calls[i]? with
    | some (some (.claimed a)) => a.taskId == task && a.owner == id
    | _ => false

theorem going_iff {i : Nat} {task : TaskId} {id : SchedulerId} (h : going f i task id = true) :
    ∃ a, Going f i a ∧ a.taskId = task ∧ a.owner = id := by
  simp only [going, Bool.and_eq_true, Bool.not_eq_true'] at h
  obtain ⟨⟨hrun, hover⟩, hk⟩ := h
  split at hk
  · rename_i a ha
    obtain ⟨htask, hid⟩ := Bool.and_eq_true_iff.1 hk
    refine ⟨a, ⟨ha, hrun, fun hi => ?_⟩, beq_iff_eq.1 htask, beq_iff_eq.1 hid⟩
    rw [List.contains_iff_mem.2 hi] at hover
    cases hover
  · cases hk

/-- The first engine dies, the second interrupts its run and takes the next occurrence. -/
theorem one_turn_run : ∃ f a, (lts Sample.calendar .mongo).Reach (Alone .mongo) f ∧
    (∃ r ∈ f.store.runs, r.status = .interrupted) ∧ Going f 6 a ∧ a.owner = 8 ∧
    ∀ j c, Going f j c → a.taskId = c.taskId → 6 = j := by
  have h : ((lts Sample.calendar .mongo).check (alone .mongo) start
      (claimed .mongo ++ [.die 7] ++ joined .mongo ++ ticked .mongo)).any (fun f =>
        f.store.tasks.rows.any fun t => ((lts Sample.calendar .mongo).check (alone .mongo) f
          [.start (.dispatch 5 t 3 .raised), .exec 6, .exec 6]).any fun f' =>
            (f'.store.runs.rows.any fun r => r.status == .interrupted) && going f' 6 1 8) =
      true := by decide
  obtain ⟨f, hf, hq⟩ := (Option.any_eq_true _ _).1 h
  obtain ⟨t, -, hq⟩ := List.any_eq_true.1 hq
  obtain ⟨f', hf', hq⟩ := (Option.any_eq_true _ _).1 hq
  obtain ⟨hint, hgo⟩ := Bool.and_eq_true_iff.1 hq
  obtain ⟨r, hr, hs⟩ := List.any_eq_true.1 hint
  obtain ⟨a, hgoing, -, hid⟩ := going_iff hgo
  have hreach := (Lts.reach_of_check (L := lts Sample.calendar .mongo) (fun _ _ => alone_iff)
    (s := start) rfl hf).run (Lts.run_of_check (fun _ _ => alone_iff) hf')
  exact ⟨f', a, hreach, ⟨r, hr, beq_iff_eq.1 hs⟩, hgoing, hid, fun j c hj =>
    (one_turn hreach).2 6 j a c hgoing hj⟩

/-- A run of an engine that is alive, under a lease that has not expired, is interrupted by a
start-up of another engine; and two engines have a turn of one task in flight. -/
def Overlaps (b : Backend) : Prop :=
  (∃ f f' i r u, (lts Sample.calendar b).Reach Lts.Any f ∧
    next Sample.calendar b f (.exec i) = some f' ∧ r ∈ f.store.runs ∧ r.status = .running ∧
    r.owner ∈ f.alive ∧ f.homes[i]? ≠ some (some r.owner) ∧ f.store.leaseExpired r 70 = false ∧
    u ∈ f'.store.runs ∧ u.runId = r.runId ∧ u.status = .interrupted) ∧
  ∃ f i j a c, (lts Sample.calendar b).Reach Lts.Any f ∧ Going f i a ∧ Going f j c ∧
    a.taskId = c.taskId ∧ a.owner ≠ c.owner

theorem overlaps (b : Backend) : Overlaps b := by
  constructor
  · have h : ((lts Sample.calendar b).check (fun _ _ => true) start (claimed b ++ joined b)).any
        (fun f => (next Sample.calendar b f (.exec 4)).any fun f' =>
          f.homes[4]? == some (some 8) && f.store.runs.rows.any fun r => r.status == .running &&
            f.alive.contains r.owner && r.owner != 8 && !f.store.leaseExpired r 70 &&
            f'.store.runs.rows.any fun u => u.runId == r.runId && u.status == .interrupted) =
        true := by
      cases b <;> decide
    obtain ⟨f, hf, hq⟩ := (Option.any_eq_true _ _).1 h
    obtain ⟨f', hn, hq⟩ := (Option.any_eq_true _ _).1 hq
    simp only [Bool.and_eq_true, beq_iff_eq, List.any_eq_true, List.contains_iff_mem, bne_iff_ne,
      Bool.not_eq_true'] at hq
    obtain ⟨hhome, r, hr, ⟨⟨⟨hrun, hlive⟩, hne⟩, hlease⟩, u, hu, hid, hint⟩ := hq
    refine ⟨f, f', 4, r, u, Lts.reach_of_check (fun _ _ _ => trivial) rfl hf, hn, hr, hrun, hlive,
      fun he => ?_, hlease, hu, hid, hint⟩
    exact hne (Option.some.inj (Option.some.inj (hhome.symm.trans he))).symm
  · have h : ((lts Sample.calendar b).check (fun _ _ => true) start
        (claimed b ++ joined b ++ ticked b)).any (fun f => f.store.tasks.rows.any fun t =>
          ((lts Sample.calendar b).check (fun _ _ => true) f
            ([.start (.dispatch 5 t 3 .raised), .exec 6] ++
              match b with
              | .sqlite => []
              | .mongo => [.exec 6])).any fun f' => going f' 3 1 7 && going f' 6 1 8) = true := by
      cases b <;> decide
    obtain ⟨f, hf, hq⟩ := (Option.any_eq_true _ _).1 h
    obtain ⟨t, -, hq⟩ := List.any_eq_true.1 hq
    obtain ⟨f', hf', hq⟩ := (Option.any_eq_true _ _).1 hq
    obtain ⟨h3, h6⟩ := Bool.and_eq_true_iff.1 hq
    obtain ⟨a, ha, hat, hae⟩ := going_iff h3
    obtain ⟨c, hc, hct, hce⟩ := going_iff h6
    have hreach := (Lts.reach_of_check (L := lts Sample.calendar b) (C := Lts.Any)
      (fun _ _ _ => trivial) (s := start) rfl hf).run (Lts.run_of_check (fun _ _ _ => trivial) hf')
    exact ⟨f', 3, 6, a, c, hreach, ha, hc, hat.trans hct.symm, by rw [hae, hce]; decide⟩

/-- On either backend an engine that starts beside another overlaps with it. -/
theorem two_turns : Overlaps .sqlite ∧ Overlaps .mongo := ⟨overlaps .sqlite, overlaps .mongo⟩

end Fleet
