import ImpiAgent.Scheduler.Dispatch

/-!
# Engines and admins over one task store

`Tasks.lts cal b`: any number of scheduler engines and admins calling one store of backend `b`. A
label begins a call (`begins`: a tick's read, what a tick does with a row it read, the verdict on a
run it was given, a start-up reclaim, the admin's operations), lets a call issue its next
transaction, or loses a call with its process. Whoever calls, and in which order, is in the labels.

Of a run the system also keeps the ids drawn so far (`secrets` draws none twice) and a tally, the
runs on whose account a `consecutive_failures` was written.
-/

namespace Tasks

open Triggers Scheduler

structure Config where
  pool : Pool Store Call
  minted : List Nat
  tally : List RunId

abbrev Config.store (p : Config) : Store := p.pool.store

/-- What `schedule_in` and `watch_in` create. -/
def TaskRecord.Fresh (t : TaskRecord) : Prop :=
  t.state = .idle ∧ t.claimOwner = none ∧ t.leaseUntil = none ∧ t.runCount = 0 ∧
    t.missCount = 0 ∧ t.consecutiveFailures = 0 ∧ Paired t.nextRunAt t.dueAt

instance (t : TaskRecord) : Decidable t.Fresh := by
  unfold TaskRecord.Fresh
  infer_instance

/-- `TaskAdmin.set_paused` on the row it found: pausing clears the schedule, resuming computes it
afresh. -/
def adminSetPaused (cal : Calendar) (found : TaskRecord) (paused : Bool) (now : Moment) : Call :=
  let upcoming := if paused then none else firstRun cal (triggerOf found) now
  .setPaused found.id paused (upcoming.map Clock.toIso)
    ((withJitter upcoming found.jitterS).map Clock.toIso) (Clock.toIso now)

inductive Label
  | tick (e : Engine) (now : Moment)
  | dispatch (i : Nat) (t : TaskRecord) (runId : RunId) (hook : HookAnswer)
  | finish (i : Nat) (a : CompleteArgs)
  | recover (a : ReclaimArgs)
  | prune (a : PruneArgs)
  | notified (id : RunId)
  | create (t : TaskRecord)
  | delete (id : TaskId)
  | setPaused (found : TaskRecord) (paused : Bool) (now : Moment)
  | runNow (id : TaskId) (now : Moment)
  | exec (i : Nat)
  | crash (i : Nat)
  deriving DecidableEq

/-- The call a label begins, with the ids drawn for it. -/
def begins (cal : Calendar) (p : Config) : Label → Option (Call × List Nat)
  | .tick e now => some (.dueTasks ⟨e, now⟩, [])
  | .dispatch i t runId hook =>
    match p.pool.calls[i]? with
    | some (some (.gotDue k rows)) =>
      if t ∈ rows ∧ t.dueAt.any (Clock.fromIso · ≤ k.now) = true ∧ runId ∉ p.minted then
        (dispatch cal k.engine t k.now runId hook).map (·, [runId])
      else none
    | _ => none
  | .finish i a =>
    match p.pool.calls[i]? with
    | some (some (.claimed c)) =>
      if a.runId = c.run.runId ∧ a.taskId = c.taskId then some (.completeRun a, []) else none
    | _ => none
  | .recover a => some (.reclaimOrphans a, [])
  | .prune a => some (.pruneRuns a, [])
  | .notified id => some (.markNotified id, [])
  | .create t => if t.id ∉ p.minted ∧ t.Fresh then some (.createTask t, [t.id]) else none
  | .delete id => some (.deleteTask id, [])
  | .setPaused found paused now => some (adminSetPaused cal found paused now, [])
  | .runNow id now => some (.requestRunNow id (Clock.toIso now), [])
  | .exec _ | .crash _ => none

/-- The run on whose account a statement writes `consecutive_failures`. -/
def Statement.streak : Statement → Option RunId
  | .releaseTask a => some a.runId
  | .idleTask orphan _ => some orphan.runId
  | _ => none

/-- What the next transaction of a call adds to the tally. -/
def Call.streaks (b : Backend) (k : Call) (s : Store) : List RunId :=
  match k.plan b s with
  | some p => if (runTx Statement.apply p.tx s).isSome then p.tx.filterMap Statement.streak else []
  | none => []

def next (cal : Calendar) (b : Backend) (p : Config) : Label → Option Config
  | .exec i =>
    match p.pool.calls[i]? with
    | some (some k) => (p.pool.exec (Call.step b) i).map fun pool =>
        { p with pool, tally := p.tally ++ k.streaks b p.store }
    | _ => none
  | .crash i => some { p with pool := p.pool.kill i }
  | e => (begins cal p e).map fun c =>
      { p with pool := p.pool.start c.1, minted := c.2 ++ p.minted }

/-- The system, from an empty store. -/
def lts (cal : Calendar) (b : Backend) : Lts Config Label where
  init p := p = ⟨⟨⟨.empty, .empty⟩, []⟩, [], []⟩
  next := next cal b

variable {cal : Calendar} {b : Backend} {p p' : Config} {e : Label}

/-- What a step does. -/
inductive Step (cal : Calendar) (b : Backend) (p : Config) : Label → Config → Prop
  | start {e : Label} {k : Call} {ids : List Nat} : begins cal p e = some (k, ids) →
      Step cal b p e ⟨p.pool.start k, ids ++ p.minted, p.tally⟩
  | exec {i : Nat} {k k' : Call} {s' : Store} : p.pool.At i k →
      k.step b p.store = some (s', k') →
      Step cal b p (.exec i) ⟨p.pool.put i s' k', p.minted, p.tally ++ k.streaks b p.store⟩
  | crash {i : Nat} : Step cal b p (.crash i) ⟨p.pool.kill i, p.minted, p.tally⟩

theorem next_step (h : next cal b p e = some p') : Step cal b p e p' := by
  unfold next at h
  split at h
  · split at h
    · rename_i i k hk
      rw [Option.map_eq_some_iff] at h
      obtain ⟨pool, he, rfl⟩ := h
      obtain ⟨k₀, s', k', hk₀, hm, rfl⟩ := Pool.exec_eq_some.1 he
      cases Pool.At.eq hk hk₀
      exact .exec hk hm
    · cases h
  · cases h
    exact .crash
  · rw [Option.map_eq_some_iff] at h
    obtain ⟨⟨k, ids⟩, hb, rfl⟩ := h
    exact .start hb

theorem exec_next {i : Nat} {k k' : Call} {s' : Store} (hk : p.pool.At i k)
    (hm : k.step b p.store = some (s', k')) :
    next cal b p (.exec i) =
      some ⟨p.pool.put i s' k', p.minted, p.tally ++ k.streaks b p.store⟩ := by
  have hx : p.pool.exec (Call.step b) i = some (p.pool.put i s' k') :=
    Pool.exec_eq_some.2 ⟨k, s', k', hk, hm, rfl⟩
  unfold Pool.At at hk
  simp only [next, hk, hx, Option.map_some]

/-- A call's next transaction, alone. -/
theorem exec_plan (cal : Calendar) {i : Nat} {k : Call} {pl : Plan Statement Call} {s' : Store}
    (hk : p.pool.At i k) (hp : k.plan b p.store = some pl)
    (ht : runTx Statement.apply pl.tx p.store = some s') :
    ∃ p', (lts cal b).next p (.exec i) = some p' ∧ p'.store = s' ∧ p'.pool.At i pl.ok := by
  have hm : k.step b p.store = some (s', pl.ok) := by
    unfold Call.step Plan.machine Plan.exec
    rw [hp, Option.map_some, ht]
  have hn : next cal b p (.exec i) = _ := exec_next hk hm
  exact ⟨_, hn, rfl, Pool.at_put_self hk⟩

/-- What begins a call. -/
inductive Begins (cal : Calendar) (p : Config) : Label → Call → List Nat → Prop
  | tick {e : Engine} {now : Moment} : Begins cal p (.tick e now) (.dueTasks ⟨e, now⟩) []
  | dispatch {i : Nat} {k : Tick} {rows : List TaskRecord} {t : TaskRecord} {due : Time}
      {runId : RunId} {hook : HookAnswer} {c : Call} : p.pool.At i (.gotDue k rows) → t ∈ rows →
      t.dueAt = some due → Clock.fromIso due ≤ k.now → runId ∉ p.minted →
      Scheduler.dispatch cal k.engine t k.now runId hook = some c →
      Begins cal p (.dispatch i t runId hook) c [runId]
  | finish {i : Nat} {c : ClaimArgs} {a : CompleteArgs} : p.pool.At i (.claimed c) →
      a.runId = c.run.runId → a.taskId = c.taskId → Begins cal p (.finish i a) (.completeRun a) []
  | recover {a : ReclaimArgs} : Begins cal p (.recover a) (.reclaimOrphans a) []
  | prune {a : PruneArgs} : Begins cal p (.prune a) (.pruneRuns a) []
  | notified {id : RunId} : Begins cal p (.notified id) (.markNotified id) []
  | create {t : TaskRecord} : t.id ∉ p.minted → t.Fresh →
      Begins cal p (.create t) (.createTask t) [t.id]
  | delete {id : TaskId} : Begins cal p (.delete id) (.deleteTask id) []
  | setPaused {found : TaskRecord} {paused : Bool} {now : Moment} :
      Begins cal p (.setPaused found paused now) (adminSetPaused cal found paused now) []
  | runNow {id : TaskId} {now : Moment} :
      Begins cal p (.runNow id now) (.requestRunNow id (Clock.toIso now)) []

theorem begins_spec {k : Call} {ids : List Nat} (h : begins cal p e = some (k, ids)) :
    Begins cal p e k ids := by
  unfold begins at h
  split at h
  · cases h
    exact .tick
  · split at h
    · rename_i hi
      split at h
      · rename_i hc
        obtain ⟨ht, hd, hr⟩ := hc
        rw [Option.any_eq_true] at hd
        obtain ⟨due, hdue, hle⟩ := hd
        rw [Option.map_eq_some_iff] at h
        obtain ⟨c, hcall, h⟩ := h
        cases h
        exact .dispatch hi ht hdue (of_decide_eq_true hle) hr hcall
      · cases h
    · cases h
  · split at h
    · rename_i hi
      split at h
      · rename_i hc
        cases h
        exact .finish hi hc.1 hc.2
      · cases h
    · cases h
  · cases h
    exact .recover
  · cases h
    exact .prune
  · cases h
    exact .notified
  · split at h
    · rename_i hc
      cases h
      exact .create hc.1 hc.2
    · cases h
  · cases h
    exact .delete
  · cases h
    exact .setPaused
  · cases h
    exact .runNow
  · cases h
  · cases h

/-- The rule for an assertion of every call: it holds of a new call, a call's own step establishes
it anew, and no step of another breaks it. -/
theorem calls_inv {C : Config → Label → Prop} {P : Config → Call → Prop}
    (h : (lts cal b).Reach C p)
    (start : ∀ p e p' k ids, (lts cal b).Reach C p → C p e → next cal b p e = some p' →
      Begins cal p e k ids → (∀ i c, p.pool.At i c → P p c) → P p' k)
    (own : ∀ p i p' k k' s', (lts cal b).Reach C p → C p (.exec i) →
      next cal b p (.exec i) = some p' → p.pool.At i k → k.step b p.store = some (s', k') →
      P p k → P p' k')
    (stable : ∀ p e p' j k, (lts cal b).Reach C p → C p e → next cal b p e = some p' →
      p.pool.At j k → p'.pool.At j k → P p k → P p' k) :
    ∀ i k, p.pool.At i k → P p k := by
  refine h.inv_using (I := fun p => ∀ i k, p.pool.At i k → P p k) (fun p h0 => ?_)
    fun p e p' hr ih hC hn => ?_
  · cases h0
    intro i k hi
    simp [Pool.At] at hi
  intro i k hi
  have hn' := hn
  cases next_step hn with
  | start hb =>
    rcases Pool.at_start.1 hi with hj | ⟨-, rfl⟩
    · exact stable p e _ i k hr hC hn' hj hi (ih i k hj)
    · exact start p e _ _ _ hr hC hn' (begins_spec hb) ih
  | exec hk hm =>
    rcases (Pool.at_put hk).1 hi with ⟨-, rfl⟩ | ⟨-, hj⟩
    · exact own p _ _ _ _ _ hr hC hn' hk hm (ih _ _ hk)
    · exact stable p _ _ i k hr hC hn' hj hi (ih i k hj)
  | crash =>
    have hj := (Pool.at_kill.1 hi).2
    exact stable p _ _ i k hr hC hn' hj hi (ih i k hj)

end Tasks
