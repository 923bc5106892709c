import ImpiAgent.Tasks.Proof.Occurrence

/-!
# No wedged schedule

A schedule moves only by a call that also inserts the run row of its occurrence, so a row that is
there already stops it for good (`wedged`). `Ahead`: the rows of a task lie before its stored
`next_run_at`, but those of calls between their two writes. It is kept as long as no such call is
lost, and nothing but a claim or a skip sets `next_run_at` back to a row there is (`Sound`); claims
and skips themselves move it past the clock (`dispatch_ahead`). So the next call a tick makes of an
idle task goes through (`never_wedged`).
-/

namespace Tasks

open Triggers Scheduler

variable {cal : Calendar} {b : Backend} {p p' : Config} {e : Label} {s s' : Store}

/-- The run a call has inserted for an occurrence it has not taken yet. -/
def Call.untaken : Call → Option RunId
  | .claimSwap a | .claimUndo a => some a.run.runId
  | .skipSwap a | .skipUndo a => some a.run.runId
  | _ => none

/-- The `next_run_at` a call writes whatever it finds. -/
def Call.places : Call → Option (TaskId × Time)
  | .setPaused id _ (some next) _ _ | .reschedule id (some next) _ _ => some (id, next)
  | .requestRunNow id now => some (id, now)
  | _ => none

/-- The run's call is between its two writes. -/
def Untaken (p : Config) (id : RunId) : Prop := ∃ i k, p.pool.At i k ∧ k.untaken = some id

/-- No call is lost between its two writes, and the admin and the watches place no task at or before
a run it has. -/
structure Sound (p : Config) (e : Label) : Prop where
  crash : ∀ i k, e = .crash i → p.pool.At i k → k.untaken = none
  places : ∀ i k id next, e = .exec i → p.pool.At i k → k.places = some (id, next) →
    ∀ r ∈ p.store.runs, r.taskId = id → next ≤ r.scheduledAt → Untaken p r.runId

/-- The rows of the run a call brings are for its occurrence, and count as it does. -/
theorem own_row {C : Config → Label → Prop} (h : (lts cal b).Reach C p) :
    ∀ i k, p.pool.At i k → ∀ r, k.brings = some r → ∀ u ∈ p.store.runs, u.runId = r.runId →
      u.occurrence = r.occurrence ∧ u.coalesced = r.coalesced := by
  refine calls_inv (P := fun p k => ∀ r, k.brings = some r → ∀ u ∈ p.store.runs,
    u.runId = r.runId → u.occurrence = r.occurrence ∧ u.coalesced = r.coalesced) h ?_ ?_ ?_
  · intro p e p' k ids hr _ hn hb _ r hk u hu he
    cases next_step hn with
    | start => exact absurd (he ▸ (drawn hr).rows hu) (begins_brings hb hk).2
    | exec => cases hb
    | crash => cases hb
  · intro p i p' k k' s' hr _ hn hk hm hP r hbr u hu he
    rw [step_brings hm] at hbr
    rw [exec_next hk hm] at hn
    cases hn
    rcases step_row hm hu with ⟨v, hv, hid, hocc, -, hco⟩ | ⟨v, hv, -, hocc, -, hco⟩
    · exact hocc ▸ hco ▸ hP r hbr v hv (hid.trans he)
    · cases hv.symm.trans hbr
      exact ⟨hocc.symm, hco.symm⟩
  · intro p e p' j c hr _ hn hj _ hP r hbr u hu he
    cases next_step hn with
    | start => exact hP r hbr u hu he
    | exec hk hm =>
      rcases step_row hm hu with ⟨v, hv, hid, hocc, -, hco⟩ | ⟨v, hv, hid, hocc, -, hco⟩
      · exact hocc ▸ hco ▸ hP r hbr v hv (hid.trans he)
      · cases (drawn hr).apart hk hj hv hbr (hid.trans he)
        cases hk.eq hj
        cases hv.symm.trans hbr
        exact ⟨hocc.symm, hco.symm⟩
    | crash => exact hP r hbr u hu he

/-! ## The schedules statements write -/

/-- The schedule a statement writes. -/
def Statement.writes : Statement → Option (TaskId × Option Time × Option Time)
  | .claimTask a => some (a.taskId, a.nextRunAt, a.dueAt)
  | .advanceTask a => some (a.taskId, a.nextRunAt, a.dueAt)
  | .setPaused id _ next due _ | .reschedule id next due _ => some (id, next, due)
  | .requestRunNow id now => some (id, some now, some now)
  | _ => none

theorem on_task_schedule {q : Statement} {t u : TaskRecord} (h : q.onTask t = some u) :
    (u.nextRunAt = t.nextRunAt ∧ u.dueAt = t.dueAt) ∨
      q.writes = some (t.id, u.nextRunAt, u.dueAt) := by
  cases q <;> simp only [Statement.onTask] at h <;> (try split at h) <;> cases h <;>
    first
    | exact .inl ⟨rfl, rfl⟩
    | rename_i hc
      obtain ⟨hid, -⟩ := hc
      rw [hid]
      exact .inr rfl
    | rename_i hid
      rw [hid]
      exact .inr rfl

/-- The compare-and-swap of an opening. -/
def Statement.swaps : Statement → Option Opening
  | .claimTask a => some a.opening
  | .advanceTask a => some a.opening
  | _ => none

theorem swap_moves {q : Statement} {o : Opening} (hq : q.swaps = some o)
    (h : q.apply s = some s') : Moves o s s' := by
  cases q <;> simp only [Statement.swaps, Option.some.injEq, reduceCtorEq] at hq <;> subst hq
  · exact claim_task_moves h
  · exact advance_task_moves h

theorem swap_writes {q : Statement} {o : Opening} (hq : q.swaps = some o) :
    q.writes = some (o.taskId, o.nextRunAt, o.dueAt) := by
  cases q <;> simp only [Statement.swaps, Option.some.injEq, reduceCtorEq] at hq <;>
    subst hq <;> rfl

/-! ## Schedules come in pairs -/

/-- What an opening was given: a schedule as it was read, and one that lies after it. -/
structure Opening.Ordered (o : Opening) : Prop where
  seen : ∃ d, o.seenDueAt = some d ∧ o.run.scheduledAt ≤ d ∧ ∀ n, o.nextRunAt = some n → d < n
  paired : Paired o.nextRunAt o.dueAt

/-- The schedules a call goes by are pairs. -/
def Call.Scheduled : Call → Prop
  | .gotDue _ rows => ∀ t ∈ rows, Paired t.nextRunAt t.dueAt
  | .reschedule _ next due _ | .setPaused _ _ next due _ => Paired next due
  | .createTask t => Paired t.nextRunAt t.dueAt
  | k => ∀ o, k.opens = some o → o.Ordered

theorem next_orphan_scheduled {a : ReclaimArgs} {todo orphans : List TaskRunRecord} :
    (nextOrphan a orphans todo).Scheduled := by
  cases todo <;> exact fun o ho => by cases ho

theorem opens_scheduled {k : Call} {o : Opening} (h : k.Scheduled) (ho : k.opens = some o) :
    o.Ordered ∧ o.run.taskId = o.taskId := by
  cases k <;> simp only [Call.opens, reduceCtorEq, Option.some.injEq] at ho <;> subst ho
  all_goals
    rename_i a
    exact ⟨h _ rfl, a.runTask⟩

theorem begins_scheduled {k : Call} {ids : List Nat} (hcal : cal.Forward)
    (ih : ∀ i k, p.pool.At i k → k.Scheduled) (h : Begins cal p e k ids) : k.Scheduled := by
  cases h with
  | @dispatch _ _ _ _ d _ _ _ hi ht hd hle _ hc =>
    have hpair := ih _ _ hi _ ht
    obtain ⟨hp, hahead⟩ := dispatch_ahead hcal hc
    have hd' := Clock.fromIso_le_iff.1 hle
    rw [hd] at hpair
    cases dispatch_spec hc with
    | claim _ hseen hsched =>
      rintro o ⟨⟩
      rw [hsched] at hpair
      refine ⟨⟨d, hseen.trans hd, hpair, fun n hn => ?_⟩, hp⟩
      exact lt_of_le_of_lt hd' (hahead n hn)
    | skip _ hseen hsched =>
      rintro o ⟨⟩
      rw [hsched] at hpair
      refine ⟨⟨d, hseen.trans hd, hpair, fun n hn => ?_⟩, hp⟩
      exact lt_of_le_of_lt hd' (hahead n hn)
    | move => exact hp
  | create _ hf => exact hf.2.2.2.2.2.2
  | setPaused => exact paired_with_jitter _ _
  | _ => exact fun o ho => by cases ho

theorem plan_scheduled {k : Call} {pl : Plan Statement Call} (h : k.plan b s = some pl)
    (hs : ∀ t ∈ s.tasks, Paired t.nextRunAt t.dueAt) (hk : k.Scheduled) :
    pl.ok.Scheduled ∧ pl.no.Scheduled := by
  cases k
  case dueTasks q =>
    cases h
    have hrows : ∀ t ∈ s.dueTasks q.horizon dueLimit, Paired t.nextRunAt t.dueAt := by
      intro t ht
      have hmem := List.mem_of_mem_take ht
      rw [List.mem_insertionSort] at hmem
      exact hs t (Table.mem_select.1 hmem).1
    exact ⟨hrows, hrows⟩
  all_goals
    simp only [Call.plan] at h
    (repeat' split at h) <;> cases h <;>
      first
      | exact ⟨hk, hk⟩
      | exact ⟨next_orphan_scheduled, next_orphan_scheduled⟩
      | exact ⟨fun _ ho => (by cases ho), fun _ ho => (by cases ho)⟩

theorem plan_pairs {k : Call} {pl : Plan Statement Call} {q : Statement}
    (h : k.plan b s = some pl) (hk : k.Scheduled) (hq : q ∈ pl.tx) :
    (∀ id next due, q.writes = some (id, next, due) → Paired next due) ∧
      ∀ t, q = .createTask t → Paired t.nextRunAt t.dueAt := by
  cases k
  case reclaimCommit a orphans =>
    cases h
    obtain ⟨r, -, rfl | rfl⟩ := mem_reclaim_writes.1 hq <;>
      exact ⟨fun _ _ _ hw => (by cases hw), fun _ ht => (by cases ht)⟩
  case createTask t =>
    cases h
    cases List.mem_singleton.1 hq
    refine ⟨fun _ _ _ hw => (by cases hw), fun u hu => ?_⟩
    cases hu
    exact hk
  all_goals
    simp only [Call.plan] at h
    (repeat' split at h) <;> cases h <;>
      simp only [Plan.read, Plan.write, List.mem_cons, List.not_mem_nil, or_false] at hq
  all_goals
    first
    | subst hq
    | rcases hq with rfl | rfl
  all_goals
    refine ⟨fun id next due hw => ?_, fun _ ht => (by cases ht)⟩
    cases hw <;>
      first
      | exact (hk _ rfl).paired
      | exact hk
      | exact le_refl _

/-- Stored schedules are pairs, and so are those in the hands of calls. -/
theorem scheduled {C : Config → Label → Prop} (hcal : cal.Forward) (h : (lts cal b).Reach C p) :
    (∀ t ∈ p.store.tasks, Paired t.nextRunAt t.dueAt) ∧ ∀ i k, p.pool.At i k → k.Scheduled := by
  refine h.inv (I := fun p => (∀ t ∈ p.store.tasks, Paired t.nextRunAt t.dueAt) ∧
    ∀ i k, p.pool.At i k → k.Scheduled) (fun p h0 => ?_) fun p e p' ih _ hn => ?_
  · cases h0
    exact ⟨fun t ht => by simp [Table.empty, Table.mem_def] at ht,
      fun i k hi => by simp [Pool.At] at hi⟩
  obtain ⟨htasks, hcalls⟩ := ih
  cases next_step hn with
  | start hb =>
    refine ⟨htasks, fun i k hi => ?_⟩
    rcases Pool.at_start.1 hi with hi | ⟨-, rfl⟩
    · exact hcalls i k hi
    · exact begins_scheduled hcal hcalls (begins_spec hb)
  | @exec i k k' s' hk hm =>
    refine ⟨?_, fun j c hj => ?_⟩
    · refine machine_inv (I := fun s => ∀ t ∈ s.tasks, Paired t.nextRunAt t.dueAt) hm
        (fun pl hp q hq s₁ s₂ hi ha u hu => ?_) htasks
      obtain ⟨hw, hc⟩ := plan_pairs hp (hcalls i k hk) hq
      rcases (apply_tasks ha u).1 hu with ⟨t, ht, htu⟩ | he
      · rcases on_task_schedule htu with ⟨h1, h2⟩ | h1
        · rw [h1, h2]
          exact hi t ht
        · exact hw _ _ _ h1
      · exact hc u he
    · rcases (Pool.at_put hk).1 hj with ⟨-, rfl⟩ | ⟨-, hj⟩
      · obtain ⟨pl, hp, hres⟩ := machine_cases hm
        obtain ⟨hok, hno⟩ := plan_scheduled hp htasks (hcalls i k hk)
        rcases hres with ⟨-, rfl⟩ | ⟨-, -, rfl⟩
        · exact hok
        · exact hno
      · exact hcalls j c hj
  | crash => exact ⟨htasks, fun i k hi => hcalls i k (Pool.at_kill.1 hi).2⟩

/-! ## A task that is being created is new -/

/-- The tasks a call goes by. -/
def Call.mentions : Call → List TaskId
  | .gotDue _ rows => rows.map (·.id)
  | .createTask t => [t.id]
  | .completeRun a | .completeRelease a => [a.taskId]
  | k => (k.opens.map (·.taskId)).toList

/-- Task ids are drawn once, and only the call that creates a task goes by its id before it is
there. -/
structure Born (p : Config) : Prop where
  tasks : ∀ t ∈ p.store.tasks, t.id ∈ p.minted
  rows : ∀ r ∈ p.store.runs, r.taskId ∈ p.minted
  calls : ∀ i k, p.pool.At i k → ∀ id ∈ k.mentions, id ∈ p.minted
  new : ∀ i t, p.pool.At i (.createTask t) → (∀ u ∈ p.store.tasks, u.id ≠ t.id) ∧
    (∀ r ∈ p.store.runs, r.taskId ≠ t.id) ∧ ∀ j k, p.pool.At j k → t.id ∈ k.mentions → j = i

theorem begins_mentions {k : Call} {ids : List Nat} {id : TaskId} (h : Begins cal p e k ids)
    (hid : id ∈ k.mentions) : (∃ t, k = .createTask t ∧ id = t.id ∧ id ∈ ids ∧ id ∉ p.minted) ∨
      ∃ j c, p.pool.At j c ∧ id ∈ c.mentions ∧ ∀ t, c ≠ .createTask t := by
  cases h with
  | dispatch hi ht _ _ _ hc =>
    refine .inr ⟨_, _, hi, ?_, by simp⟩
    cases dispatch_spec hc with
    | claim htask =>
      obtain rfl : id = _ := by simpa [Call.mentions, Call.opens] using hid
      exact List.mem_map.2 ⟨_, ht, htask.symm⟩
    | skip htask =>
      obtain rfl : id = _ := by simpa [Call.mentions, Call.opens] using hid
      exact List.mem_map.2 ⟨_, ht, htask.symm⟩
    | move => cases hid
  | finish hi _ htask =>
    obtain rfl := List.mem_singleton.1 hid
    exact .inr ⟨_, _, hi, List.mem_singleton.2 htask, by simp⟩
  | create hm =>
    obtain rfl := List.mem_singleton.1 hid
    exact .inl ⟨_, rfl, rfl, List.mem_singleton.2 rfl, hm⟩
  | _ => cases hid

theorem next_orphan_mentions {a : ReclaimArgs} {todo orphans : List TaskRunRecord} :
    (nextOrphan a orphans todo).mentions = [] := by
  cases todo <;> rfl

/-- A call comes to go by a task it went by before, or has read, and it creates nothing. -/
theorem step_mentions {k k' : Call} (h : k.step b s = some (s', k')) :
    (∀ id ∈ k'.mentions, id ∈ k.mentions ∨ ∃ t ∈ s.tasks, t.id = id) ∧
      ∀ t, k' ≠ .createTask t := by
  have key : ∀ {pl : Plan Statement Call}, k.plan b s = some pl → ∀ c, c = pl.ok ∨ c = pl.no →
      (∀ id ∈ c.mentions, id ∈ k.mentions ∨ ∃ t ∈ s.tasks, t.id = id) ∧
        ∀ t, c ≠ .createTask t := by
    intro pl hp c hc
    have orphan : ∀ {a todo orphans t}, nextOrphan a orphans todo ≠ .createTask t := by
      intro a todo orphans t
      cases todo <;> simp [nextOrphan]
    cases k
    case dueTasks q =>
      cases hp
      obtain rfl : c = .gotDue q (s.dueTasks q.horizon dueLimit) := by
        rcases hc with rfl | rfl <;> rfl
      refine ⟨fun id hid => .inr ?_, by simp⟩
      obtain ⟨t, ht, rfl⟩ := List.mem_map.1 hid
      have hmem := List.mem_of_mem_take ht
      rw [List.mem_insertionSort] at hmem
      exact ⟨t, (Table.mem_select.1 hmem).1, rfl⟩
    all_goals
      simp only [Call.plan] at hp
      (repeat' split at hp) <;> cases hp <;> rcases hc with rfl | rfl <;>
        first
        | exact ⟨fun _ => .inl, by simp [Plan.read, Plan.write]⟩
        | exact ⟨fun _ hid => (by cases next_orphan_mentions ▸ hid), fun _ => orphan⟩
        | exact ⟨fun _ hid => (by cases hid), by simp [Plan.write]⟩
  obtain ⟨pl, hp, ⟨-, rfl⟩ | ⟨-, -, rfl⟩⟩ := machine_cases h
  · exact key hp _ (.inl rfl)
  · exact key hp _ (.inr rfl)

theorem brings_mentions {k : Call} {r : TaskRunRecord} (h : k.brings = some r) :
    r.taskId ∈ k.mentions := by
  cases k <;> simp only [Call.brings, Call.opens, Option.map_some, Option.map_none, reduceCtorEq,
    Option.some.injEq] at h <;> subst h
  all_goals
    rename_i a
    exact List.mem_singleton.2 a.runTask

/-- A task after a step was there before, up to rewriting, or is the one the call creates. -/
theorem step_task {k k' : Call} {u : TaskRecord} (h : k.step b s = some (s', k'))
    (hu : u ∈ s'.tasks) : (∃ t ∈ s.tasks, t.id = u.id) ∨
      ∃ t, k = .createTask t ∧ t.id = u.id := by
  refine machine_inv (I := fun s₁ => ∀ u ∈ s₁.tasks, (∃ t ∈ s.tasks, t.id = u.id) ∨
    ∃ t, k = .createTask t ∧ t.id = u.id) h ?_ (fun u hu => .inl ⟨u, hu, rfl⟩) u hu
  intro pl hp q hq s₁ s₂ ih hap u hu
  rcases (apply_tasks hap u).1 hu with ⟨t, ht, htu⟩ | rfl
  · rw [on_task_id htu]
    exact ih t ht
  · exact .inr ⟨u, (plan_creates hp hq).1, rfl⟩

theorem born {C : Config → Label → Prop} (h : (lts cal b).Reach C p) : Born p := by
  refine h.inv (fun p h0 => ?_) fun p e p' ih _ hn => ?_
  · cases h0
    exact ⟨fun t ht => by simp [Table.empty, Table.mem_def] at ht,
      fun r hr => by simp [Table.empty, Table.mem_def] at hr, fun i k hi => by simp [Pool.At] at hi,
      fun i t hi => by simp [Pool.At] at hi⟩
  cases next_step hn with
  | @start _ k ids hb =>
    have hmen := fun id (hid : id ∈ k.mentions) => begins_mentions (begins_spec hb) hid
    have old : ∀ id ∈ k.mentions, id ∈ p.minted ∨ ∃ t, k = .createTask t ∧ id = t.id ∧
        id ∈ ids ∧ id ∉ p.minted := by
      intro id hid
      rcases hmen id hid with hc | ⟨j, c, hj, hm, -⟩
      · exact .inr hc
      · exact .inl (ih.calls j _ hj id hm)
    refine ⟨fun t ht => List.mem_append_right _ (ih.tasks t ht),
      fun r hr => List.mem_append_right _ (ih.rows r hr), fun i c hi id hid => ?_,
      fun i t hi => ?_⟩
    · rcases Pool.at_start.1 hi with hi | ⟨-, rfl⟩
      · exact List.mem_append_right _ (ih.calls i c hi id hid)
      · rcases old id hid with hold | ⟨-, -, -, hids, -⟩
        · exact List.mem_append_right _ hold
        · exact List.mem_append_left _ hids
    · rcases Pool.at_start.1 hi with hold | ⟨rfl, rfl⟩
      · obtain ⟨htasks, hrows, hcalls⟩ := ih.new i t hold
        refine ⟨htasks, hrows, fun j c hj hid => ?_⟩
        rcases Pool.at_start.1 hj with hj | ⟨-, rfl⟩
        · exact hcalls j c hj hid
        · rcases hmen _ hid with ⟨-, -, -, -, hfresh⟩ | ⟨j', c', hj', hm, hne⟩
          · exact absurd (ih.calls i _ hold _ (List.mem_singleton.2 rfl)) hfresh
          · cases hcalls j' _ hj' hm
            exact absurd (hj'.eq hold) (hne t)
      · have hfresh : t.id ∉ p.minted := by
          rcases hmen t.id (List.mem_singleton.2 rfl) with ⟨-, -, -, -, hf⟩ | -
          · exact hf
          · cases begins_spec hb with
            | create hf => exact hf
            | dispatch _ _ _ _ _ hd => cases dispatch_spec hd
        refine ⟨fun u hu he => hfresh (he ▸ ih.tasks u hu),
          fun r hr he => hfresh (he ▸ ih.rows r hr), fun j c hj hid => ?_⟩
        rcases Pool.at_start.1 hj with hj | ⟨rfl, -⟩
        · exact absurd (ih.calls j c hj _ hid) hfresh
        · rfl
  | @exec i k k' s' hk hm =>
    have hcalls : ∀ j c, (p.pool.put i s' k').At j c → ∀ id ∈ c.mentions,
        (∃ c₀, p.pool.At j c₀ ∧ id ∈ c₀.mentions) ∨ ∃ t ∈ p.store.tasks, t.id = id := by
      intro j c hj id hid
      rcases (Pool.at_put hk).1 hj with ⟨rfl, rfl⟩ | ⟨-, hj⟩
      · rcases (step_mentions hm).1 id hid with hid | ht
        · exact .inl ⟨k, hk, hid⟩
        · exact .inr ht
      · exact .inl ⟨c, hj, hid⟩
    refine ⟨fun u hu => ?_, fun r hr => ?_, fun j c hj id hid => ?_, fun j t hj => ?_⟩
    · rcases step_task hm hu with ⟨t, ht, he⟩ | ⟨t, rfl, he⟩
      · exact he ▸ ih.tasks t ht
      · exact he ▸ ih.calls i _ hk _ (List.mem_singleton.2 rfl)
    · rcases step_row hm hr with ⟨u, hu, -, ho, -⟩ | ⟨u, hu, -, ho, -⟩
      · have he : u.taskId = r.taskId := congrArg Prod.fst ho
        exact he ▸ ih.rows u hu
      · have he : u.taskId = r.taskId := congrArg Prod.fst ho
        exact he ▸ ih.calls i k hk _ (brings_mentions hu)
    · rcases hcalls j c hj id hid with ⟨c₀, hj₀, hid₀⟩ | ⟨t, ht, rfl⟩
      · exact ih.calls j c₀ hj₀ id hid₀
      · exact ih.tasks t ht
    · rcases (Pool.at_put hk).1 hj with ⟨-, he⟩ | ⟨hne, hj₀⟩
      · exact absurd he.symm ((step_mentions hm).2 t)
      · obtain ⟨htasks, hrows, honly⟩ := ih.new j t hj₀
        refine ⟨fun u hu he => ?_, fun r hr he => ?_, fun l c hl hid => ?_⟩
        · rcases step_task hm hu with ⟨v, hv, hvu⟩ | ⟨v, rfl, hvu⟩
          · exact htasks v hv (hvu.trans he)
          · exact hne (honly i _ hk (List.mem_singleton.2 (hvu.trans he).symm)).symm
        · rcases step_row hm hr with ⟨u, hu, -, ho, -⟩ | ⟨u, hu, -, ho, -⟩
          · exact hrows u hu ((congrArg Prod.fst ho).trans he)
          · have hut : u.taskId = t.id := (congrArg Prod.fst ho).trans he
            exact hne (honly i k hk (hut ▸ brings_mentions hu)).symm
        · rcases hcalls l c hl _ hid with ⟨c₀, hl₀, hid₀⟩ | ⟨u, hu, he⟩
          · exact honly l c₀ hl₀ hid₀
          · exact absurd he (htasks u hu)
  | crash =>
    refine ⟨ih.tasks, ih.rows, fun j k hj => ih.calls j k (Pool.at_kill.1 hj).2, fun j t hj => ?_⟩
    obtain ⟨htasks, hrows, honly⟩ := ih.new j t (Pool.at_kill.1 hj).2
    exact ⟨htasks, hrows, fun l c hl => honly l c (Pool.at_kill.1 hl).2⟩

/-! ## Rows lie before the schedule -/

/-- The rows of a task lie before its `next_run_at`, but those of `X`. -/
def Ahead (X : RunId → Prop) (s : Store) : Prop :=
  ∀ t ∈ s.tasks, ∀ n, t.nextRunAt = some n → ∀ r ∈ s.runs, r.taskId = t.id → n ≤ r.scheduledAt →
    X r.runId

/-- A statement keeps it that inserts no row and writes no schedule at or before one. -/
theorem ahead_apply {q : Statement} {X : RunId → Prop} (h : Ahead X s) (ha : q.apply s = some s')
    (hins : ∀ r, q ≠ .insertRun r)
    (hw : ∀ id n due, q.writes = some (id, some n, due) → ∀ r ∈ s.runs, r.taskId = id →
      n ≤ r.scheduledAt → X r.runId)
    (hc : ∀ t, q = .createTask t → ∀ r ∈ s.runs, r.taskId ≠ t.id) : Ahead X s' := by
  intro u hu n hn r hr hid hle
  rcases (apply_runs ha r).1 hr with ⟨r₀, hr₀, hrr⟩ | hi
  · obtain ⟨hrid, hrt, hrs, -⟩ := on_run_keys hrr
    rw [hrt] at hid
    rw [hrs] at hle
    rw [hrid]
    rcases (apply_tasks ha u).1 hu with ⟨t, ht, htu⟩ | hcr
    · rw [on_task_id htu] at hid
      rcases on_task_schedule htu with ⟨h1, -⟩ | h1
      · exact h t ht n (h1 ▸ hn) r₀ hr₀ hid hle
      · rw [hn] at h1
        exact hw _ _ _ h1 r₀ hr₀ hid hle
    · exact absurd hid (hc u hcr r₀ hr₀)
  · exact absurd hi (hins r)

/-- A compare-and-swap keeps it, since the schedule it finds lies before the one it writes. -/
theorem ahead_swap {q : Statement} {o : Opening} {X : RunId → Prop} (h : Ahead X s)
    (hpair : ∀ t ∈ s.tasks, Paired t.nextRunAt t.dueAt) (ho : o.Ordered) (hq : q.swaps = some o)
    (ha : q.apply s = some s') : Ahead X s' := by
  refine ahead_apply h ha ?_ (fun id n due hw r hr hid hle => ?_) ?_
  · rintro r rfl
    cases hq
  · obtain ⟨t, ht, -, -, htid, -, htd, -⟩ := swap_moves hq ha
    obtain ⟨d, hd, -, hahead⟩ := ho.seen
    obtain ⟨m, hm, hmd⟩ := (htd.trans hd ▸ hpair t ht : Paired t.nextRunAt (some d)).next
    rw [swap_writes hq] at hw
    obtain ⟨rfl, hn, -⟩ : o.taskId = id ∧ o.nextRunAt = some n ∧ o.dueAt = due := by simpa using hw
    have := hahead n hn
    exact h t ht m hm r hr (hid.trans htid.symm) (by lia)
  · rintro t rfl
    cases hq

/-- The row of an occurrence lies before the schedule its own compare-and-swap has written. -/
theorem swap_past {q : Statement} {o : Opening} {u : TaskRecord} {n : Time} (ho : o.Ordered)
    (hq : q.swaps = some o) (ha : q.apply s = some s') (hu : u ∈ s'.tasks) (hid : u.id = o.taskId)
    (hn : u.nextRunAt = some n) : o.run.scheduledAt < n := by
  obtain ⟨-, -, v, hv, -, hvid, -, -, hvn, -⟩ := swap_moves hq ha
  rw [task_unique hu hv (hid.trans hvid.symm), hvn] at hn
  obtain ⟨d, -, hle, hahead⟩ := ho.seen
  have := hahead n hn
  lia

/-- What a call does about schedules and rows. -/
inductive Shape (k : Call) (pl : Plan Statement Call) : Prop
  | quiet : k.untaken = none → (∀ q ∈ pl.tx, q.writes = none ∧ (∀ r, q ≠ .insertRun r) ∧
      ∀ t, q ≠ .createTask t) → Shape k pl
  | undo {id : RunId} : k.untaken = some id → pl.tx = [.deleteRun id] → Shape k pl
  | place {q : Statement} : k.untaken = none → pl.tx = [q] → (∀ r, q ≠ .insertRun r) →
      (∀ id n due, q.writes = some (id, some n, due) → k.places = some (id, n)) →
      (∀ t, q = .createTask t → k = .createTask t) → Shape k pl
  | insert {o : Opening} : k.untaken = none → k.opens = some o → pl.tx = [.insertRun o.run] →
      pl.ok.untaken = some o.run.runId → Shape k pl
  | swap {o : Opening} {q : Statement} : k.untaken = some o.run.runId → k.opens = some o →
      q.swaps = some o → pl.tx = [q] → Shape k pl
  | both {o : Opening} {q : Statement} : k.untaken = none → k.opens = some o →
      q.swaps = some o → pl.tx = [q, .insertRun o.run] → Shape k pl

theorem plan_shape {k : Call} {pl : Plan Statement Call} (h : k.plan b s = some pl) :
    Shape k pl := by
  have place : ∀ {q : Statement} {k₁ k₂ : Call}, k.untaken = none → (∀ r, q ≠ .insertRun r) →
      (∀ id n due, q.writes = some (id, some n, due) → k.places = some (id, n)) →
      (∀ t, q = .createTask t → k = .createTask t) → Shape k ⟨[q], k₁, k₂⟩ :=
    fun h1 h2 h3 h4 => .place h1 rfl h2 h3 h4
  have read : ∀ {c : Call}, k.untaken = none → Shape k (Plan.read c) :=
    fun h1 => .quiet h1 fun q hq => (nomatch hq)
  cases k
  case claimDue a =>
    cases b <;> cases h
    · exact .both (o := a.opening) (q := .claimTask a) rfl rfl rfl rfl
    · exact .insert (o := a.opening) rfl rfl rfl rfl
  case recordSkip a =>
    cases b <;> cases h
    · exact .both (o := a.opening) (q := .advanceTask a) rfl rfl rfl rfl
    · exact .insert (o := a.opening) rfl rfl rfl rfl
  case claimSwap a =>
    cases h
    exact .swap (o := a.opening) (q := .claimTask a) rfl rfl rfl rfl
  case skipSwap a =>
    cases h
    exact .swap (o := a.opening) (q := .advanceTask a) rfl rfl rfl rfl
  case claimUndo a =>
    cases h
    exact .undo rfl rfl
  case skipUndo a =>
    cases h
    exact .undo rfl rfl
  case reclaimCommit a orphans =>
    cases h
    refine .quiet rfl fun q hq => ?_
    obtain ⟨r, -, rfl | rfl⟩ := mem_reclaim_writes.1 hq <;>
      exact ⟨rfl, by simp, by simp⟩
  case setPaused id paused next due now =>
    cases h
    refine place rfl (by simp) (fun _ n _ hw => ?_) (by simp)
    cases hw
    rfl
  case reschedule id next due now =>
    cases h
    refine place rfl (by simp) (fun _ n _ hw => ?_) (by simp)
    cases hw
    rfl
  case requestRunNow id now =>
    cases h
    refine place rfl (by simp) (fun _ n _ hw => ?_) (by simp)
    cases hw
    rfl
  case createTask t =>
    cases h
    refine place rfl (by simp) (fun _ _ _ hw => (nomatch hw)) fun u hu => ?_
    cases hu
    rfl
  all_goals
    simp only [Call.plan] at h
    (repeat' split at h) <;> cases h <;>
      first
      | exact read rfl
      | exact .quiet rfl (by simp [Plan.write, Statement.writes])

/-- A call that fails holds what it held. -/
theorem plan_no_untaken {k : Call} {pl : Plan Statement Call} (h : k.plan b s = some pl)
    (hf : runTx Statement.apply pl.tx s' = none) : pl.no.untaken = k.untaken := by
  have orphan : ∀ {a todo orphans}, (nextOrphan a orphans todo).untaken = none := by
    intro a todo orphans
    cases todo <;> rfl
  replace h := plan_issues h
  cases h <;>
    first
    | rfl
    | exact orphan
    | cases hf

theorem ahead (hcal : cal.Forward) (h : (lts cal b).Reach Sound p) :
    Ahead (Untaken p) p.store := by
  refine h.inv_using (I := fun p => Ahead (Untaken p) p.store) (fun p h0 => ?_)
    fun p e p' hr ih hC hn => ?_
  · cases h0
    intro t ht
    simp [Table.empty, Table.mem_def] at ht
  cases next_step hn with
  | start =>
    intro t ht n hnext r hrow hid hle
    obtain ⟨i, k, hi, hk⟩ := ih t ht n hnext r hrow hid hle
    exact ⟨i, k, Pool.at_start.2 (.inl hi), hk⟩
  | crash =>
    intro t ht n hnext r hrow hid hle
    obtain ⟨i, k, hi, hk⟩ := ih t ht n hnext r hrow hid hle
    refine ⟨i, k, Pool.at_kill.2 ⟨?_, hi⟩, hk⟩
    rintro rfl
    rw [hC.crash _ k rfl hi] at hk
    cases hk
  | @exec i k k' s' hk hm =>
    obtain ⟨hpair, hcalls⟩ := scheduled hcal hr
    -- the calls that were in the middle still are, but for the call itself
    have other : ∀ {id : RunId} {t' : List RunId}, Untaken p id → k.untaken ≠ some id →
        Untaken ⟨p.pool.put i s' k', p.minted, t'⟩ id := by
      rintro id t' ⟨j, c, hj, hc⟩ hne
      refine ⟨j, c, Pool.at_put_ne hk hj ?_, hc⟩
      rintro rfl
      cases hk.eq hj
      exact hne hc
    have self : ∀ {id : RunId} {t' : List RunId}, k'.untaken = some id →
        Untaken ⟨p.pool.put i s' k', p.minted, t'⟩ id :=
      fun hc => ⟨i, k', Pool.at_put_self hk, hc⟩
    obtain ⟨pl, hp, ⟨ht, rfl⟩ | ⟨ht, rfl, rfl⟩⟩ := machine_cases hm
    rotate_left
    · intro t htask n hnext r hrow hid hle
      have hun := ih t htask n hnext r hrow hid hle
      by_cases hne : k.untaken = some r.runId
      · exact self ((plan_no_untaken hp ht).trans hne)
      · exact other hun hne
    cases plan_shape hp with
    | quiet hno hq =>
      have hkeep : Ahead (Untaken p) s' :=
        run_tx_inv (fun q hqm s₁ s₂ hi ha => ahead_apply hi ha (hq q hqm).2.1
          (fun _ _ _ hw => by rw [(hq q hqm).1] at hw; cases hw)
          fun t hc => absurd hc ((hq q hqm).2.2 t)) ih ht
      intro t htask n hnext r hrow hid hle
      exact other (hkeep t htask n hnext r hrow hid hle) (by rw [hno]; simp)
    | @undo id hun htx =>
      rw [htx, run_tx_singleton] at ht
      have hkeep : Ahead (Untaken p) s' := ahead_apply ih ht (by simp)
        (fun _ _ _ hw => (by cases hw)) (by simp)
      intro t htask n hnext r hrow hid hle
      refine other (hkeep t htask n hnext r hrow hid hle) fun he => ?_
      -- the row is the one that has just been deleted
      cases hun.symm.trans he
      rcases (apply_runs ht r).1 hrow with ⟨r₀, -, hrr⟩ | hi
      · simp only [Statement.onRun] at hrr
        split at hrr
        · cases hrr
        · cases hrr
          contradiction
      · cases hi
    | @place q hno htx hins hpl hcr =>
      rw [htx, run_tx_singleton] at ht
      have hkeep : Ahead (Untaken p) s' := ahead_apply ih ht hins
        (fun id n due hw => hC.places i k id n rfl hk (hpl id n due hw))
        fun t hc => by
          cases hcr t hc
          exact ((born hr).new i t hk).2.1
      intro t htask n hnext r hrow hid hle
      exact other (hkeep t htask n hnext r hrow hid hle) (by rw [hno]; simp)
    | @insert o hno hop htx hok =>
      rw [htx, run_tx_singleton] at ht
      obtain ⟨htasks, hruns⟩ := Store.insert_run_spec ht
      intro t htask n hnext r hrow hid hle
      rcases (hruns r).1 hrow with hrow | rfl
      · exact other (ih t (htasks ▸ htask) n hnext r hrow hid hle) (by rw [hno]; simp)
      · exact self hok
    | @swap o q hun hop hq htx =>
      rw [htx, run_tx_singleton] at ht
      obtain ⟨hord, hrt⟩ := opens_scheduled (hcalls i k hk) hop
      have hkeep := ahead_swap ih hpair hord hq ht
      intro t htask n hnext r hrow hid hle
      refine other (hkeep t htask n hnext r hrow hid hle) fun he => ?_
      -- the row is the one of the occurrence that has just been taken
      have hrun : r.runId = o.run.runId := Option.some.inj (he.symm.trans hun)
      have hbr : k.brings = some o.run := congrArg (·.map (·.run)) hop
      have hocc : r.occurrence = o.run.occurrence := by
        rcases (apply_runs ht r).1 hrow with ⟨r₀, hr₀, hrr⟩ | rfl
        · have hrid := (on_run_keys hrr).1
          have hocc₀ := (own_row hr i k hk _ hbr r₀ hr₀ (hrid.symm.trans hrun)).1
          exact (on_run_occurrence hrr).trans hocc₀
        · cases hq
      have htask' : r.taskId = o.taskId := (congrArg Prod.fst hocc).trans hrt
      have := swap_past hord hq ht htask (hid.symm.trans htask') hnext
      have hsched : r.scheduledAt = o.run.scheduledAt := congrArg Prod.snd hocc
      lia
    | @both o q hno hop hq htx =>
      rw [htx] at ht
      obtain ⟨s₁, h1, h2⟩ := run_tx_cons.1 ht
      obtain ⟨htasks, hruns⟩ := Store.insert_run_spec (run_tx_singleton.symm.trans h2)
      obtain ⟨hord, hrt⟩ := opens_scheduled (hcalls i k hk) hop
      have hkeep := ahead_swap ih hpair hord hq h1
      intro t htask n hnext r hrow hid hle
      have htask' : t ∈ s₁.tasks := htasks ▸ htask
      rcases (hruns r).1 hrow with hrow | rfl
      · exact other (hkeep t htask' n hnext r hrow hid hle) (by rw [hno]; simp)
      · have := swap_past hord hq h1 htask' (hid.symm.trans hrt) hnext
        lia

/-! ## The next call goes through -/

/-- The call has done what it was made for. -/
def Call.succeeded : Call → Bool
  | .claimed _ | .skipped _ | .done true => true
  | _ => false

/-- The schedule of a task is the pair. -/
def Store.HasSchedule (s : Store) (id : TaskId) (pair : Option Time × Option Time) : Prop :=
  ∃ u ∈ s.tasks, u.id = id ∧ u.nextRunAt = pair.1 ∧ u.dueAt = pair.2

/-- A claim or a skip whose occurrence is free and whose task is as it was read, alone. -/
theorem goes_through (cal : Calendar) {c c₁ c' x y : Call} {q : Statement} {o : Opening} {j : Nat}
    (hsqlite : ∀ s, c.plan .sqlite s = some ⟨[q, .insertRun o.run], c', x⟩)
    (hmongo : ∀ s, c.plan .mongo s = some ⟨[.insertRun o.run], c₁, x⟩)
    (hswap : ∀ s, c₁.plan .mongo s = some ⟨[q], c', y⟩) (hq : q.swaps = some o)
    (hj : p.pool.At j c)
    (hfree : ∀ u ∈ p.store.runs, u.runId ≠ o.run.runId ∧ u.occurrence ≠ o.run.occurrence)
    (hfind : ∀ s, s.tasks = p.store.tasks → ∃ s', q.apply s = some s') :
    ∃ n p', (lts cal b).Run Lts.Any p (List.replicate n (.exec j)) p' ∧ p'.pool.At j c' ∧
      p'.store.HasSchedule o.taskId (o.nextRunAt, o.dueAt) := by
  cases b with
  | sqlite =>
    obtain ⟨s₁, h1⟩ := hfind p.store rfl
    have hfree₁ : ∀ u ∈ s₁.runs, u.runId ≠ o.run.runId ∧ u.occurrence ≠ o.run.occurrence := by
      intro u hu
      rcases (apply_runs h1 u).1 hu with ⟨r, hr, hru⟩ | rfl
      · rw [(on_run_keys hru).1, on_run_occurrence hru]
        exact hfree r hr
      · cases hq
    obtain ⟨s₂, h2⟩ := Store.insert_run_of_free hfree₁
    have ht : runTx Statement.apply [q, .insertRun o.run] p.store = some s₂ :=
      run_tx_cons.2 ⟨s₁, h1, run_tx_singleton.trans h2⟩
    obtain ⟨p', hn, hs, hj'⟩ := exec_plan cal hj (hsqlite _) ht
    obtain ⟨-, -, u, hu, -, huid, -, -, hun, hud⟩ := swap_moves hq h1
    refine ⟨1, p', .cons trivial hn .nil, hj', u, ?_, huid, hun, hud⟩
    rw [hs, (Store.insert_run_spec h2).1]
    exact hu
  | mongo =>
    obtain ⟨s₁, h1⟩ := Store.insert_run_of_free hfree
    obtain ⟨p₁, hn₁, hs₁, hj₁⟩ := exec_plan cal hj (hmongo _) (run_tx_singleton.trans h1)
    obtain ⟨s₂, h2⟩ := hfind s₁ (Store.insert_run_spec h1).1
    obtain ⟨p₂, hn₂, hs₂, hj₂⟩ := exec_plan cal hj₁ (hswap _)
      (run_tx_singleton.trans (hs₁.symm ▸ h2))
    obtain ⟨-, -, u, hu, -, huid, -, -, hun, hud⟩ := swap_moves hq h2
    exact ⟨2, p₂, .cons trivial hn₁ (.cons trivial hn₂ .nil), hj₂, u, hs₂ ▸ hu, huid, hun, hud⟩

/-- Where no call is between its two writes, the next call a tick makes of an idle task goes
through when it is alone, and moves the schedule on. -/
theorem never_wedged (hcal : cal.Forward) (h : (lts cal b).Reach Sound p)
    (hquiet : ∀ i k, p.pool.At i k → k.untaken = none) {t : TaskRecord} (ht : t ∈ p.store.tasks)
    (hidle : t.state = .idle) {i : Nat} {r : RunId} {hook : HookAnswer} {p₁ : Config}
    (hn : next cal b p (.dispatch i t r hook) = some p₁) :
    ∃ c n p' k, p₁.pool.At p.pool.calls.length c ∧
      (lts cal b).Run Lts.Any p₁ (List.replicate n (.exec p.pool.calls.length)) p' ∧
      p'.pool.At p.pool.calls.length k ∧ k.succeeded = true ∧
      p'.store.HasSchedule t.id (pairOf c) ∧
      ∀ m m', t.nextRunAt = some m → (pairOf c).1 = some m' → m < m' := by
  obtain ⟨hpair, -⟩ := scheduled hcal h
  cases next_step hn with
  | @start _ c ids hb =>
  cases begins_spec hb with
  | @dispatch _ q rows _ d _ _ _ hi hrow hd hle hfresh hc =>
    obtain ⟨-, hahead⟩ := dispatch_ahead hcal hc
    have hj : (p.pool.start c).At p.pool.calls.length c := Pool.at_start.2 (.inr ⟨rfl, rfl⟩)
    have hlater : ∀ m m', t.nextRunAt = some m → (pairOf c).1 = some m' → m < m' := by
      intro m m' hm hm'
      obtain ⟨d', hd', hmd⟩ := (hm ▸ hpair t ht : Paired (some m) t.dueAt).due
      cases hd.symm.trans hd'
      have := hahead m' hm'
      have := Clock.fromIso_le_iff.1 hle
      lia
    -- the occurrence has no row: one would belong to a call between its two writes
    have hfree : ∀ u : TaskRunRecord, u.runId = r → u.taskId = t.id →
        t.nextRunAt = some u.scheduledAt → ∀ v ∈ p.store.runs, v.runId ≠ u.runId ∧
          v.occurrence ≠ u.occurrence := by
      intro u hur hut hus v hv
      refine ⟨fun he => hfresh ?_, fun he => ?_⟩
      · rw [← hur, ← he]
        exact (drawn h).rows hv
      · have hvt : v.taskId = u.taskId := congrArg Prod.fst he
        have hvs : v.scheduledAt = u.scheduledAt := congrArg Prod.snd he
        obtain ⟨j, k, hjk, hk⟩ := ahead hcal h t ht _ hus v hv (hvt.trans hut) hvs.ge
        rw [hquiet j k hjk] at hk
        cases hk
    cases dispatch_spec hc with
    | @claim a htask hseen hsched hrun _ =>
      obtain ⟨n, p', hrun, hj', hsch⟩ := goes_through cal (b := b)
        (p := ⟨p.pool.start (.claimDue a), [r] ++ p.minted, p.tally⟩) (o := a.opening)
        (q := .claimTask a) (fun _ => rfl) (fun _ => rfl) (fun _ => rfl) rfl hj
        (hfree _ hrun (a.runTask.trans htask) hsched) fun s hs =>
          Store.claim_task_of_found (hs ▸ ht) htask.symm hidle hseen.symm (by rw [hseen, hd]; simp)
      exact ⟨_, n, p', _, hj, hrun, hj', rfl, htask ▸ hsch, hlater⟩
    | @skip a htask hseen hsched hrun =>
      obtain ⟨n, p', hrun, hj', hsch⟩ := goes_through cal (b := b)
        (p := ⟨p.pool.start (.recordSkip a), [r] ++ p.minted, p.tally⟩) (o := a.opening)
        (q := .advanceTask a) (fun _ => rfl) (fun _ => rfl) (fun _ => rfl) rfl hj
        (hfree _ hrun (a.runTask.trans htask) hsched) fun s hs =>
          Store.advance_task_of_found (hs ▸ ht) htask.symm hseen.symm (by rw [hseen, hd]; simp)
      exact ⟨_, n, p', _, hj, hrun, hj', rfl, htask ▸ hsch, hlater⟩
    | @move next due now _ =>
      obtain ⟨p', hn', hs', hj'⟩ := exec_plan (b := b) cal
        (p := ⟨p.pool.start (.reschedule t.id next due now), [r] ++ p.minted, p.tally⟩) hj rfl
        run_tx_singleton
      refine ⟨_, 1, p', _, hj, .cons trivial hn' .nil, hj', rfl, ?_, hlater⟩
      refine ⟨t.schedule none next due now, ?_, rfl, rfl, rfl⟩
      rw [hs']
      exact (apply_tasks (q := .reschedule t.id next due now) rfl _).2
        (.inl ⟨t, ht, congrArg some (if_pos rfl)⟩)

/-- The check of `Sound`, for steps that lose no call. -/
def sound (p : Config) : Label → Bool
  | .crash _ => false
  | .exec i => (p.pool.calls[i]?.join.bind Call.places).all fun x =>
      p.store.runs.rows.all fun r => r.taskId != x.1 || decide (r.scheduledAt < x.2)
  | _ => true

theorem sound_iff (h : sound p e = true) : Sound p e := by
  refine ⟨fun i k he _ => ?_, fun i k id n he hk hpl r hr hid hle => ?_⟩ <;> subst he
  · cases h
  · unfold Pool.At at hk
    simp only [sound, hk, Option.join_some, Option.bind_some, hpl, Option.all_some] at h
    have := List.all_eq_true.1 h r hr
    simp only [hid, bne_self_eq_false, Bool.false_or, decide_eq_true_eq] at this
    lia

theorem Sample.calendar_forward : Sample.calendar.Forward := by
  intro _ _ _ upto _
  simp only [Sample.calendar, Clock.fromIso, Clock.toIso, Clock.second]
  lia

/-- The task is asked for at second 30, and a tick reads it: call 2 has it. -/
def Sample.asked : List Label :=
  [.create Sample.task, .exec 0, .runNow 1 (30 * Clock.second), .exec 1,
    .tick Sample.engine (30 * Clock.second), .exec 2]

/-- A task that was asked for runs, and goes back to its own schedule. -/
theorem never_wedged_run : ∃ p t p₁ c n p' k, (lts Sample.calendar .sqlite).Reach Sound p ∧
    t ∈ p.store.tasks ∧ t.nextRunAt = some 30 ∧
    next Sample.calendar .sqlite p (.dispatch 2 t 2 .raised) = some p₁ ∧
    p₁.pool.At p.pool.calls.length c ∧
    (lts Sample.calendar .sqlite).Run Lts.Any p₁
      (List.replicate n (.exec p.pool.calls.length)) p' ∧
    p'.pool.At p.pool.calls.length k ∧ k.succeeded = true ∧
    p'.store.HasSchedule t.id (pairOf c) := by
  have h : ((lts Sample.calendar .sqlite).check sound Sample.start Sample.asked).any (fun p =>
      p.pool.calls.all (·.all fun k => k.untaken == none) && p.store.tasks.rows.any fun t =>
        t.state == .idle && t.nextRunAt == some 30 &&
          (next Sample.calendar .sqlite p (.dispatch 2 t 2 .raised)).isSome) = true := by decide
  obtain ⟨p, hp, hq⟩ := (Option.any_eq_true _ _).1 h
  obtain ⟨hquiet, hq⟩ := Bool.and_eq_true_iff.1 hq
  obtain ⟨t, ht, hq⟩ := List.any_eq_true.1 hq
  simp only [Bool.and_eq_true, beq_iff_eq, Option.isSome_iff_exists] at hq
  obtain ⟨⟨hidle, hn30⟩, p₁, hn⟩ := hq
  have hr := Lts.reach_of_check (L := lts Sample.calendar .sqlite) (fun _ _ => sound_iff)
    (s := Sample.start) rfl hp
  obtain ⟨c, n, p', k, hc, hrun, hk, hsucc, hsch, -⟩ := never_wedged Sample.calendar_forward hr
    (fun i k hi => by simpa using List.all_eq_true.1 hquiet _ hi.mem) ht hidle hn
  exact ⟨p, t, p₁, c, n, p', k, hr, ht, hn30, hn, hc, hrun, hk, hsucc, hsch⟩

/-- An engine has reclaimed at its start-up, no call is in progress, and the claim a tick makes of
an idle task, alone, is refused and leaves the task as it was. -/
def Wedged (b : Backend) : Prop :=
  ∃ p t i r p₁ n p', (lts Sample.calendar b).Reach Lts.Any p ∧
    (∃ j a orphans, p.pool.At j (.reclaimed a orphans)) ∧ (∀ i k, p.pool.At i k → k.ended = true) ∧
    t ∈ p.store.tasks ∧ t.state = .idle ∧
    next Sample.calendar b p (.dispatch i t r .raised) = some p₁ ∧
    (lts Sample.calendar b).Run Lts.Any p₁ (List.replicate n (.exec p.pool.calls.length)) p' ∧
    (∃ a, p'.pool.At p.pool.calls.length (.claimRefused a)) ∧ t ∈ p'.store.tasks

/-- What can come before. On SQLite, a run that was asked for has ended within the second in which
it is asked for again; on MongoDB, a claim was lost between its two writes. Then a second engine
reclaims and reads the task. -/
def wedging : Backend → List Label
  | .sqlite => Sample.asked ++
    [.dispatch 2 { Sample.task with nextRunAt := some 30, dueAt := some 30, updatedAt := 30 } 2
        .raised, .exec 3, .finish 3 { Sample.ok with finishedAt := 30 }, .exec 4,
      .runNow 1 (30 * Clock.second), .exec 5, .recover ⟨8, 30⟩, .exec 6, .exec 6,
      .tick { Sample.engine with id := 8 } (30 * Clock.second), .exec 7]
  | .mongo => Sample.claiming ++
    [.exec 2, .crash 2, .recover ⟨8, 120⟩, .exec 3, .exec 3, .exec 3, .exec 3,
      .tick { Sample.engine with id := 8 } (125 * Clock.second), .exec 4]

/-- The checks of what `Wedged` asks of two calls. -/
def reclaimedAt (p : Config) (j : Nat) : Bool :=
  match p.pool.calls[j]? with
  | some (some (.reclaimed ..)) => true
  | _ => false

def refusedAt (p : Config) (j : Nat) : Bool :=
  match p.pool.calls[j]? with
  | some (some (.claimRefused _)) => true
  | _ => false

theorem reclaimed_at {j : Nat} (h : reclaimedAt p j = true) :
    ∃ a orphans, p.pool.At j (.reclaimed a orphans) := by
  unfold reclaimedAt at h
  split at h
  · exact ⟨_, _, ‹_›⟩
  · cases h

theorem refused_at {j : Nat} (h : refusedAt p j = true) : ∃ a, p.pool.At j (.claimRefused a) := by
  unfold refusedAt at h
  split at h
  · exact ⟨_, ‹_›⟩
  · cases h

theorem wedged_of_check {i r j : Nat}
    (h : ((lts Sample.calendar b).check (fun _ _ => true) Sample.start (wedging b)).any (fun p =>
      reclaimedAt p j && p.pool.calls.all (·.all Call.ended) &&
      p.store.tasks.rows.any fun t => t.state == .idle &&
        (next Sample.calendar b p (.dispatch i t r .raised)).any fun p₁ =>
          ((lts Sample.calendar b).check (fun _ _ => true) p₁
            [.exec p.pool.calls.length]).any fun p' =>
              refusedAt p' p.pool.calls.length && p'.store.tasks.rows.contains t) = true) :
    Wedged b := by
  obtain ⟨p, hp, hq⟩ := (Option.any_eq_true _ _).1 h
  simp only [Bool.and_eq_true, beq_iff_eq, List.any_eq_true, Option.any_eq_true] at hq
  obtain ⟨⟨hj, hend⟩, t, ht, hidle, p₁, hn, p', hrun, href, ht'⟩ := hq
  refine ⟨p, t, i, r, p₁, 1, p', Lts.reach_of_check (fun _ _ _ => trivial) rfl hp,
    ⟨j, reclaimed_at hj⟩, fun i k hi => ?_, ht, hidle, hn,
    Lts.run_of_check (fun _ _ _ => trivial) hrun, refused_at href, ?_⟩
  · simpa using List.all_eq_true.1 hend _ hi.mem
  · exact List.contains_iff_mem.1 ht'

/-- On either backend a task can be wedged. -/
theorem wedged : Wedged .sqlite ∧ Wedged .mongo :=
  ⟨wedged_of_check (i := 7) (r := 3) (j := 6) (by decide),
    wedged_of_check (i := 4) (r := 3) (j := 3) (by decide)⟩

end Tasks
