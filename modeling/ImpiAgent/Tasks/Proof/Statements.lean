import ImpiAgent.Tasks.Statements

/-!
# What each statement does to the rows

A compare-and-swap says which row it found (`claim_task_found`, `advance_task_found`,
`close_run_found`). What becomes of the rows is said row by row, for all statements at once:
`Statement.onRun` and `Statement.onTask` are the statement on one row, and the tables after it are
the old rows so rewritten with what it inserts (`apply_runs`, `apply_tasks`).
-/

namespace Tasks

namespace Store

variable {s s' : Store}

theorem has_task_iff {id : TaskId} {p : TaskRecord → Bool} :
    s.hasTask id p = true ↔ ∃ t ∈ s.tasks, t.id = id ∧ p t = true := by
  simp [hasTask, Table.mem_def]

theorem has_run_iff {id : RunId} {p : TaskRunRecord → Bool} :
    s.hasRun id p = true ↔ ∃ r ∈ s.runs, r.runId = id ∧ p r = true := by
  simp [hasRun, Table.mem_def]

theorem insert_run_spec {r : TaskRunRecord} (h : s.insertRun r = some s') :
    s'.tasks = s.tasks ∧ ∀ u, u ∈ s'.runs ↔ u ∈ s.runs ∨ u = r := by
  unfold insertRun at h
  rw [Option.map_eq_some_iff] at h
  obtain ⟨runs, hr, rfl⟩ := h
  exact ⟨rfl, fun u => Table.mem_insert hr⟩

/-- An insert that succeeds found neither the id nor the occurrence. -/
theorem insert_run_free {r : TaskRunRecord} (h : s.insertRun r = some s') :
    ∀ u ∈ s.runs, u.runId ≠ r.runId ∧ u.occurrence ≠ r.occurrence := by
  unfold insertRun at h
  rw [Option.map_eq_some_iff] at h
  obtain ⟨runs, hr, rfl⟩ := h
  intro u hu
  have hc := Table.free_of_insert hr u hu
  constructor <;> intro he
  · simp [run_clash.2 (.inl he)] at hc
  · simp [run_clash.2 (.inr he)] at hc

theorem insert_run_of_free {r : TaskRunRecord}
    (h : ∀ u ∈ s.runs, u.runId ≠ r.runId ∧ u.occurrence ≠ r.occurrence) :
    ∃ s', s.insertRun r = some s' := by
  have hf : s.runs.Free r := by
    intro u hu
    cases hc : clash u r
    · rfl
    · rcases run_clash.1 hc with he | he
      · exact absurd he (h u hu).1
      · exact absurd he (h u hu).2
  obtain ⟨runs, hr⟩ := Table.insert_of_free hf
  exact ⟨_, by unfold insertRun; rw [hr]; rfl⟩

theorem claimable_iff {seen : Option Time} {t : TaskRecord} :
    claimable seen t = true ↔ t.state = .idle ∧ t.dueAt = seen ∧ seen ≠ none := by
  unfold claimable
  simp only [Bool.and_eq_true, beq_iff_eq, Option.isSome_iff_ne_none, and_assoc]
  constructor
  · rintro ⟨h1, h2, rfl⟩
    exact ⟨h1, rfl, h2⟩
  · rintro ⟨h1, rfl, h2⟩
    exact ⟨h1, h2, rfl⟩

theorem due_still_iff {seen : Option Time} {t : TaskRecord} :
    dueStill seen t = true ↔ t.dueAt = seen ∧ seen ≠ none := by
  unfold dueStill
  simp only [Bool.and_eq_true, beq_iff_eq, Option.isSome_iff_ne_none]
  constructor
  · rintro ⟨h1, rfl⟩
    exact ⟨rfl, h1⟩
  · rintro ⟨rfl, h1⟩
    exact ⟨h1, rfl⟩

/-- The claim found the task idle and due as its caller saw it. -/
theorem claim_task_found {a : ClaimArgs} (h : s.claimTask a = some s') :
    ∃ t ∈ s.tasks, t.id = a.taskId ∧ t.state = .idle ∧ t.dueAt = a.seenDueAt ∧
      a.seenDueAt ≠ none := by
  unfold claimTask at h
  split at h
  · rename_i hf
    obtain ⟨t, ht, hid, hp⟩ := has_task_iff.1 hf
    exact ⟨t, ht, hid, claimable_iff.1 hp⟩
  · cases h

theorem claim_task_of_found {a : ClaimArgs} {t : TaskRecord} (ht : t ∈ s.tasks)
    (hid : t.id = a.taskId) (hs : t.state = .idle) (hd : t.dueAt = a.seenDueAt)
    (hn : a.seenDueAt ≠ none) : ∃ s', s.claimTask a = some s' :=
  ⟨_, if_pos (has_task_iff.2 ⟨t, ht, hid, claimable_iff.2 ⟨hs, hd, hn⟩⟩)⟩

/-- The skip found the task due as its caller saw it, in whatever state. -/
theorem advance_task_found {a : SkipArgs} (h : s.advanceTask a = some s') :
    ∃ t ∈ s.tasks, t.id = a.taskId ∧ t.dueAt = a.seenDueAt ∧ a.seenDueAt ≠ none := by
  unfold advanceTask at h
  split at h
  · rename_i hf
    obtain ⟨t, ht, hid, hp⟩ := has_task_iff.1 hf
    exact ⟨t, ht, hid, due_still_iff.1 hp⟩
  · cases h

theorem advance_task_of_found {a : SkipArgs} {t : TaskRecord} (ht : t ∈ s.tasks)
    (hid : t.id = a.taskId) (hd : t.dueAt = a.seenDueAt) (hn : a.seenDueAt ≠ none) :
    ∃ s', s.advanceTask a = some s' :=
  ⟨_, if_pos (has_task_iff.2 ⟨t, ht, hid, due_still_iff.2 ⟨hd, hn⟩⟩)⟩

/-- A verdict is written on a run that is still running. -/
theorem close_run_found {a : CompleteArgs} (h : s.closeRun a = some s') :
    ∃ r ∈ s.runs, r.runId = a.runId ∧ r.status = .running := by
  unfold closeRun at h
  split at h
  · rename_i hf
    obtain ⟨r, hr, hid, hp⟩ := has_run_iff.1 hf
    exact ⟨r, hr, hid, by simpa using hp⟩
  · cases h

end Store

/-! ## Row by row -/

/-- What a statement makes of a run row; `none` where it removes it. -/
def Statement.onRun : Statement → TaskRunRecord → Option TaskRunRecord
  | .deleteRun id, r => if r.runId = id then none else some r
  | .closeRun a, r => some (if r.runId = a.runId ∧ r.status = .running then r.close a else r)
  | .interruptRun orphan now, r => some (if r.runId = orphan.runId then r.interrupt now else r)
  | .deleteRuns id, r => if r.taskId = id then none else some r
  | .pruneRuns before keep, r =>
    if r.finishedAt.any (· < before) = true ∧ r.runId ∉ keep then none else some r
  | .markNotified id, r => some (if r.runId = id then { r with notified := true } else r)
  | _, r => some r

/-- What a statement makes of a task row. -/
def Statement.onTask : Statement → TaskRecord → Option TaskRecord
  | .claimTask a, t =>
    some (if t.id = a.taskId ∧ Store.claimable a.seenDueAt t = true then t.claim a else t)
  | .advanceTask a, t =>
    some (if t.id = a.taskId ∧ Store.dueStill a.seenDueAt t = true then t.skip a else t)
  | .releaseTask a, t => some (if t.id = a.taskId then t.release a else t)
  | .idleTask orphan now, t =>
    some (if t.id = orphan.taskId ∧ t.state = .running then t.idle now else t)
  | .setPaused id paused next due now, t =>
    some (if t.id = id ∧ t.state ≠ .running then
      t.schedule (some (if paused then .paused else .idle)) next due now else t)
  | .requestRunNow id now, t =>
    some (if t.id = id ∧ t.state = .idle then t.schedule none (some now) (some now) now else t)
  | .reschedule id next due now, t => some (if t.id = id then t.schedule none next due now else t)
  | .deleteTask id, t => if t.id = id then none else some t
  | _, t => some t

/-- No statement changes the keys of a run row, its owner or its count. -/
theorem on_run_keys {q : Statement} {r u : TaskRunRecord} (h : q.onRun r = some u) :
    u.runId = r.runId ∧ u.taskId = r.taskId ∧ u.scheduledAt = r.scheduledAt ∧
      u.owner = r.owner ∧ u.coalesced = r.coalesced := by
  cases q <;> simp only [Statement.onRun] at h <;> (try split at h) <;> cases h <;>
    exact ⟨rfl, rfl, rfl, rfl, rfl⟩

theorem on_run_occurrence {q : Statement} {r u : TaskRunRecord} (h : q.onRun r = some u) :
    u.occurrence = r.occurrence := by
  obtain ⟨-, ht, hs, -⟩ := on_run_keys h
  unfold TaskRunRecord.occurrence
  rw [ht, hs]

theorem on_task_id {q : Statement} {t u : TaskRecord} (h : q.onTask t = some u) : u.id = t.id := by
  cases q <;> simp only [Statement.onTask] at h <;> (try split at h) <;> cases h <;> rfl

section
variable {s s' : Store} {q : Statement}

theorem update_run_rows {id : RunId} {p : TaskRunRecord → Bool}
    {f : TaskRunRecord → TaskRunRecord}
    {hf : ∀ r, (f r).runId = r.runId ∧ (f r).occurrence = r.occurrence} {u : TaskRunRecord} :
    u ∈ (s.updateRun id p f hf).runs ↔
      ∃ r ∈ s.runs, (if r.runId = id ∧ p r = true then f r else r) = u := by
  unfold Store.updateRun
  rw [Table.mem_update]
  simp only [Bool.and_eq_true, beq_iff_eq, @eq_comm _ u]

theorem update_task_rows {id : TaskId} {p : TaskRecord → Bool} {f : TaskRecord → TaskRecord}
    {hf : ∀ t, (f t).id = t.id} {u : TaskRecord} :
    u ∈ (s.updateTask id p f hf).tasks ↔
      ∃ t ∈ s.tasks, (if t.id = id ∧ p t = true then f t else t) = u := by
  unfold Store.updateTask
  rw [Table.mem_update]
  simp only [Bool.and_eq_true, beq_iff_eq, @eq_comm _ u]

/-- The run rows after a statement: the old ones row by row, and what it inserts. -/
theorem apply_runs (h : q.apply s = some s') (u : TaskRunRecord) :
    u ∈ s'.runs ↔ (∃ r ∈ s.runs, q.onRun r = some u) ∨ q = .insertRun u := by
  have same : ∀ {s' : Store}, s'.runs = s.runs →
      (u ∈ s'.runs ↔ (∃ r ∈ s.runs, some r = some u) ∨ False) := by
    intro s' he
    simp [he]
  cases q with
  | insertRun r =>
    rw [(Store.insert_run_spec h).2 u]
    simp [Statement.onRun, eq_comm]
  | claimTask a =>
    simp only [Statement.apply, Store.claimTask] at h
    split at h <;> cases h
    simp only [Statement.onRun, reduceCtorEq]
    exact same rfl
  | advanceTask a =>
    simp only [Statement.apply, Store.advanceTask] at h
    split at h <;> cases h
    simp only [Statement.onRun, reduceCtorEq]
    exact same rfl
  | deleteRun id =>
    cases h
    simp only [Store.deleteRun, Table.mem_delete, Statement.onRun, beq_eq_false_iff_ne, ne_eq,
      reduceCtorEq, or_false]
    constructor
    · rintro ⟨hu, hne⟩
      exact ⟨u, hu, by simp [hne]⟩
    · rintro ⟨r, hr, he⟩
      split at he <;> cases he
      exact ⟨hr, ‹_›⟩
  | closeRun a =>
    simp only [Statement.apply, Store.closeRun] at h
    split at h <;> cases h
    simp [update_run_rows, Statement.onRun]
  | releaseTask a =>
    cases h
    simp only [Statement.onRun, reduceCtorEq]
    exact same rfl
  | interruptRun orphan now =>
    cases h
    simp [Store.interruptRun, update_run_rows, Statement.onRun]
  | idleTask orphan now =>
    cases h
    simp only [Statement.onRun, reduceCtorEq]
    exact same rfl
  | setPaused id paused next due now =>
    simp only [Statement.apply, Store.setPaused] at h
    split at h <;> cases h
    simp only [Statement.onRun, reduceCtorEq]
    exact same rfl
  | requestRunNow id now =>
    simp only [Statement.apply, Store.requestRunNow] at h
    split at h <;> cases h
    simp only [Statement.onRun, reduceCtorEq]
    exact same rfl
  | reschedule id next due now =>
    cases h
    simp only [Statement.onRun, reduceCtorEq]
    exact same rfl
  | createTask t =>
    simp only [Statement.apply, Store.createTask, Option.map_eq_some_iff] at h
    obtain ⟨tasks, -, rfl⟩ := h
    simp only [Statement.onRun, reduceCtorEq]
    exact same rfl
  | deleteTask id =>
    simp only [Statement.apply, Store.deleteTask] at h
    split at h <;> cases h
    simp only [Statement.onRun, reduceCtorEq]
    exact same rfl
  | deleteRuns id =>
    cases h
    simp only [Store.deleteRuns, Table.mem_delete, Statement.onRun, beq_eq_false_iff_ne, ne_eq,
      reduceCtorEq, or_false]
    constructor
    · rintro ⟨hu, hne⟩
      exact ⟨u, hu, by simp [hne]⟩
    · rintro ⟨r, hr, he⟩
      split at he <;> cases he
      exact ⟨hr, ‹_›⟩
  | pruneRuns before keep =>
    cases h
    simp only [Store.pruneRuns, Table.mem_delete, Statement.onRun, Bool.and_eq_false_iff,
      Bool.not_eq_false', List.contains_iff_mem, reduceCtorEq, or_false]
    constructor
    · rintro ⟨hu, hne⟩
      refine ⟨u, hu, if_neg fun hx => ?_⟩
      rcases hne with hne | hne
      · simp [hne] at hx
      · exact hx.2 hne
    · rintro ⟨r, hr, he⟩
      split at he <;> cases he
      rename_i hn
      refine ⟨hr, ?_⟩
      by_cases hk : u.runId ∈ keep
      · exact .inr hk
      · exact .inl (by simpa using fun hx => hn ⟨hx, hk⟩)
  | markNotified id =>
    cases h
    simp [Store.markNotified, update_run_rows, Statement.onRun]

/-- The task rows after a statement. -/
theorem apply_tasks (h : q.apply s = some s') (u : TaskRecord) :
    u ∈ s'.tasks ↔ (∃ t ∈ s.tasks, q.onTask t = some u) ∨ q = .createTask u := by
  have same : ∀ {s' : Store}, s'.tasks = s.tasks →
      (u ∈ s'.tasks ↔ (∃ r ∈ s.tasks, some r = some u) ∨ False) := by
    intro s' he
    simp [he]
  cases q with
  | insertRun r =>
    simp only [Statement.onTask, reduceCtorEq]
    exact same (Store.insert_run_spec h).1
  | claimTask a =>
    simp only [Statement.apply, Store.claimTask] at h
    split at h <;> cases h
    exact update_task_rows.trans (by simp [Statement.onTask])
  | advanceTask a =>
    simp only [Statement.apply, Store.advanceTask] at h
    split at h <;> cases h
    exact update_task_rows.trans (by simp [Statement.onTask])
  | deleteRun id =>
    cases h
    simp only [Statement.onTask, reduceCtorEq]
    exact same rfl
  | closeRun a =>
    simp only [Statement.apply, Store.closeRun] at h
    split at h <;> cases h
    simp only [Statement.onTask, reduceCtorEq]
    exact same rfl
  | releaseTask a =>
    cases h
    exact update_task_rows.trans (by simp [Statement.onTask])
  | interruptRun orphan now =>
    cases h
    simp only [Statement.onTask, reduceCtorEq]
    exact same rfl
  | idleTask orphan now =>
    cases h
    exact update_task_rows.trans (by simp [Statement.onTask])
  | setPaused id paused next due now =>
    simp only [Statement.apply, Store.setPaused] at h
    split at h <;> cases h
    exact update_task_rows.trans (by simp [Statement.onTask])
  | requestRunNow id now =>
    simp only [Statement.apply, Store.requestRunNow] at h
    split at h <;> cases h
    exact update_task_rows.trans (by simp [Statement.onTask])
  | reschedule id next due now =>
    cases h
    exact update_task_rows.trans (by simp [Statement.onTask])
  | createTask t =>
    simp only [Statement.apply, Store.createTask, Option.map_eq_some_iff] at h
    obtain ⟨tasks, ht, rfl⟩ := h
    simp [Table.mem_insert ht, Statement.onTask, eq_comm]
  | deleteTask id =>
    simp only [Statement.apply, Store.deleteTask] at h
    split at h <;> cases h
    simp only [Table.mem_delete, Statement.onTask, beq_eq_false_iff_ne, ne_eq, reduceCtorEq,
      or_false]
    constructor
    · rintro ⟨hu, hne⟩
      exact ⟨u, hu, by simp [hne]⟩
    · rintro ⟨r, hr, he⟩
      split at he <;> cases he
      exact ⟨hr, ‹_›⟩
  | deleteRuns id =>
    cases h
    simp only [Statement.onTask, reduceCtorEq]
    exact same rfl
  | pruneRuns before keep =>
    cases h
    simp only [Statement.onTask, reduceCtorEq]
    exact same rfl
  | markNotified id =>
    cases h
    simp only [Statement.onTask, reduceCtorEq]
    exact same rfl

end

end Tasks
