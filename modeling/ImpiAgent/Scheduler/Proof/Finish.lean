import ImpiAgent.Scheduler.Finish
import ImpiAgent.Tasks.Proof.Ledger
import ImpiAgent.Tasks.Proof.Schedule

/-!
# A task that keeps failing stops

The count of a task is the streak of its runs' ends (`Row`), but while a call is between ending a
run and releasing the task (`Pending`). Where the cap is tested right (`Counted`), a task nobody has
paused or resumed since is paused exactly where its last `maxFailures` runs failed or were
interrupted (`paused_iff`). An interruption counts and tests nothing: `crash_loop`.
-/

namespace Finish

open Tasks Triggers Scheduler

variable {D : Settings} {cal : Calendar} {b : Backend} {s s' : State} {e : Label}
  {st st' : Store} {k k' : Call} {t u : TaskRecord} {id : TaskId}

/-! ## What a call does to a task's count -/

/-- The calls whose next transaction writes no count. -/
def ordinary : Call → Bool
  | .completeRun _ | .completeRelease _ | .reclaimCommit .. | .reclaimTask .. => false
  | _ => true

/-- A task that a step leaves its count: it keeps its state, is claimed, or a person sets it. -/
structure Calm (l : List TaskId) (t u : TaskRecord) : Prop where
  id : u.id = t.id
  count : u.consecutiveFailures = t.consecutiveFailures
  state : u.state = t.state ∨ (t.state = .idle ∧ u.state = .running) ∨
    (t.id ∈ l ∧ t.state ≠ .running)

theorem Calm.refl (l : List TaskId) (t : TaskRecord) : Calm l t t := ⟨rfl, rfl, .inl rfl⟩

theorem Calm.running {l : List TaskId} (h : Calm l t u) (ht : t.state = .running) :
    u.state = .running := by
  rcases h.state with h | ⟨h, -⟩ | ⟨-, h⟩
  · exact h.trans ht
  · rw [ht] at h
    cases h
  · exact absurd ht h

/-- What a statement makes of a task that writes no count. -/
theorem on_task_calm {q : Statement} (h : q.onTask t = some u) :
    (u.consecutiveFailures = t.consecutiveFailures ∧ (u.state = t.state ∨
      (t.state = .idle ∧ u.state = .running) ∨ (t.state ≠ .running ∧
        ∃ paused next due now, q = .setPaused t.id paused next due now))) ∨
      (∃ a, q = .releaseTask a) ∨ ∃ o now, q = .idleTask o now := by
  cases q <;> simp only [Statement.onTask] at h <;> (try split at h) <;> cases h <;>
    first
    | exact .inl ⟨rfl, .inl rfl⟩
    | exact .inr (.inl ⟨_, rfl⟩)
    | exact .inr (.inr ⟨_, _, rfl⟩)
    | skip
  · next a hc => exact .inl ⟨rfl, .inr (.inl ⟨(Store.claimable_iff.1 hc.2).1, rfl⟩)⟩
  · next hc => exact .inl ⟨rfl, .inr (.inr ⟨hc.2, _, _, _, _, by rw [hc.1]⟩)⟩

theorem plan_ordinary {pl : Plan Statement Call} {q : Statement} (h : k.plan b st = some pl)
    (hk : ordinary k = true) (hq : q ∈ pl.tx) :
    (∀ a, q ≠ .releaseTask a) ∧ (∀ o now, q ≠ .idleTask o now) ∧
      ∀ id paused next due now, q = .setPaused id paused next due now →
        k = .setPaused id paused next due now := by
  cases k <;> simp only [ordinary, Bool.false_eq_true] at hk <;> simp only [Call.plan] at h <;>
    (repeat' split at h) <;> cases h <;>
    simp only [Plan.read, Plan.write, List.mem_cons, List.not_mem_nil, or_false] at hq <;>
    first
    | (subst hq; simp)
    | (rcases hq with rfl | rfl <;> simp)

/-- A task after the step of an ordinary call. -/
theorem step_calm (h : k.step b st = some (st', k')) (hk : ordinary k = true)
    (hu : u ∈ st'.tasks) :
    k = .createTask u ∨ ∃ t ∈ st.tasks, Calm (setting k st) t u := by
  refine machine_inv (I := fun s₁ => ∀ u ∈ s₁.tasks, k = .createTask u ∨
    ∃ t ∈ st.tasks, Calm (setting k st) t u) h (fun pl hp q hq s₁ s₂ ih ha u hu => ?_)
    (fun u hu => .inr ⟨u, hu, .refl _ u⟩) u hu
  rcases (apply_tasks ha u).1 hu with ⟨v, hv, hvu⟩ | rfl
  rotate_left
  · exact .inl (plan_creates hp hq).1
  have hid := on_task_id hvu
  rcases ih v hv with rfl | ⟨t, ht, hc⟩
  · -- the call creates the task and does nothing else
    cases hp
    cases List.mem_singleton.1 hq
    cases hvu
    exact .inl rfl
  obtain ⟨hrel, hidle, hset⟩ := plan_ordinary hp hk hq
  refine .inr ⟨t, ht, ?_⟩
  rcases on_task_calm hvu with ⟨hcount, hstate⟩ | ⟨a, rfl⟩ | ⟨o, now, rfl⟩
  · refine ⟨hid.trans hc.id, hcount.trans hc.count, ?_⟩
    rcases hc.state with htv | ⟨hti, hvr⟩ | hperson
    · rcases hstate with hvu | ⟨hvi, hur⟩ | ⟨hvn, paused, next, due, now, rfl⟩
      · exact .inl (hvu.trans htv)
      · exact .inr (.inl ⟨htv.symm.trans hvi, hur⟩)
      · have htn : t.state ≠ .running := htv ▸ hvn
        refine .inr (.inr ⟨?_, htn⟩)
        rw [hset _ _ _ _ _ rfl]
        have : st.hasTask v.id (·.state != .running) = true :=
          Store.has_task_iff.2 ⟨t, ht, hc.id.symm, by simpa using htn⟩
        rw [setting, if_pos this, hc.id]
        exact List.mem_singleton.2 rfl
    · rcases hstate with hvu | ⟨hvi, -⟩ | ⟨hvn, -⟩
      · exact .inr (.inl ⟨hti, hvu.trans hvr⟩)
      · rw [hvr] at hvi
        cases hvi
      · exact absurd hvr hvn
    · exact .inr (.inr hperson)
  · exact absurd rfl (hrel a)
  · exact absurd rfl (hidle o now)

theorem release_rows {a : CompleteArgs} (h : (Statement.releaseTask a).apply st = some st')
    (hu : u ∈ st'.tasks) :
    ∃ t ∈ st.tasks, u.id = t.id ∧ u = if t.id = a.taskId then t.release a else t := by
  rcases (apply_tasks h u).1 hu with ⟨t, ht, htu⟩ | hc
  · exact ⟨t, ht, on_task_id htu, (Option.some.inj htu).symm⟩
  · cases hc

theorem idle_rows {o : TaskRunRecord} {now : Time} (h : (Statement.idleTask o now).apply st = some st')
    (hu : u ∈ st'.tasks) :
    ∃ t ∈ st.tasks, u.id = t.id ∧
      u = if t.id = o.taskId ∧ t.state = .running then t.idle now else t := by
  rcases (apply_tasks h u).1 hu with ⟨t, ht, htu⟩ | hc
  · exact ⟨t, ht, on_task_id htu, (Option.some.inj htu).symm⟩
  · cases hc

theorem close_tasks {a : CompleteArgs} (h : (Statement.closeRun a).apply st = some st') :
    st'.tasks = st.tasks ∧ st.hasRun a.runId (·.status == .running) = true := by
  simp only [Statement.apply, Store.closeRun] at h
  split at h <;> cases h
  exact ⟨rfl, ‹_›⟩

/-- The tasks after the writes of a reclaim: those that were running are idle. -/
theorem reclaim_rows {orphans : List TaskRunRecord} {now : Time}
    (h : runTx Statement.apply (orphans.flatMap (reclaimWrites now)) st = some st')
    (hu : u ∈ st'.tasks) :
    ∃ t ∈ st.tasks, u.id = t.id ∧ (u = t ∧ (t.state = .running → ∀ o ∈ orphans, o.taskId ≠ t.id) ∨
      (∃ o ∈ orphans, o.taskId = t.id) ∧ t.state = .running ∧ u = t.idle now) := by
  induction orphans generalizing st with
  | nil =>
    cases h
    exact ⟨u, hu, rfl, .inl ⟨rfl, fun _ _ ho => absurd ho List.not_mem_nil⟩⟩
  | cons o orphans ih =>
    obtain ⟨s₁, h₁, h⟩ := run_tx_cons.1 h
    obtain ⟨s₂, h₂, h⟩ := run_tx_cons.1 h
    have htasks : s₁.tasks = st.tasks := by
      cases h₁
      rfl
    obtain ⟨v, hv, hid, hvu⟩ := ih h
    obtain ⟨t, ht, hid', htv⟩ := idle_rows h₂ hv
    refine ⟨t, htasks ▸ ht, hid.trans hid', ?_⟩
    split at htv
    · next hc =>
      have hvi : v.state = .idle := by rw [htv]; rfl
      rcases hvu with ⟨rfl, -⟩ | ⟨-, hvr, -⟩
      · exact .inr ⟨⟨o, List.mem_cons_self, hc.1.symm⟩, hc.2, htv⟩
      · rw [hvi] at hvr
        cases hvr
    · next hc =>
      subst htv
      rcases hvu with ⟨rfl, hno⟩ | ⟨⟨o', ho', he⟩, hr⟩
      · refine .inl ⟨rfl, fun hr o' ho' => ?_⟩
        rcases List.mem_cons.1 ho' with rfl | ho'
        · exact fun he => hc ⟨he.symm, hr⟩
        · exact hno hr o' ho'
      · exact .inr ⟨⟨o', List.mem_cons_of_mem _ ho', he⟩, hr⟩

/-! ## The rows -/

/-- The count of a task is its streak, and the cap says whether it is paused, unless a person did. -/
structure Row (D : Settings) (ends : TaskId → List Bool) (person : List TaskId) (t : TaskRecord) :
    Prop where
  count : t.consecutiveFailures = streak (ends t.id)
  state : t.id ∉ person → (t.state = .paused ↔ D.maxFailures ≤ t.consecutiveFailures)

/-- The last end of a run of the task has not been counted yet. -/
def Pending (x : Bool) (ends : TaskId → List Bool) (t : TaskRecord) : Prop :=
  t.state = .running ∧ ∃ rest, ends t.id = x :: rest ∧ t.consecutiveFailures = streak rest

/-- A verdict tests the cap right. -/
def Tests (D : Settings) (a : CompleteArgs) (t : TaskRecord) : Prop :=
  a.releaseState = .paused ↔ a.failed = true ∧ D.maxFailures ≤ t.consecutiveFailures + 1

/-- A task that is released with the count of its run. -/
theorem row_release {a : CompleteArgs} {ends : TaskId → List Bool} {rest : List Bool}
    {person : List TaskId} (he : ends t.id = a.failed :: rest) (hc : t.consecutiveFailures = streak rest)
    (ht : Tests D a t) : Row D ends person (t.release a) := by
  have hpos := D.positive
  constructor
  · show (if a.failed then _ else _) = streak (ends t.id)
    rw [he]
    cases a.failed
    · rfl
    · exact congrArg (· + 1) hc
  · intro _
    show a.releaseState = .paused ↔ D.maxFailures ≤ if a.failed then _ else _
    refine Iff.trans ht ?_
    cases a.failed
    · simp
      omega
    · simp

/-- A task that is made idle below the cap. -/
theorem row_idle {ends : TaskId → List Bool} {rest : List Bool} {person : List TaskId} {now : Time}
    (he : ends t.id = true :: rest) (hc : t.consecutiveFailures = streak rest)
    (hb : t.consecutiveFailures + 1 < D.maxFailures) : Row D ends person (t.idle now) := by
  constructor
  · show t.consecutiveFailures + 1 = streak (ends t.id)
    rw [he, hc]
    rfl
  · intro _
    show State.idle = .paused ↔ D.maxFailures ≤ t.consecutiveFailures + 1
    simp
    omega

/-- A task that keeps its count and its ends. -/
theorem Row.calm {ends ends' : TaskId → List Bool} {person person' l : List TaskId}
    (h : Row D ends person t) (hc : Calm l t u) (he : ends' t.id = ends t.id)
    (hp : ∀ id, id = t.id → id ∈ person ∨ id ∈ l → id ∈ person') : Row D ends' person' u := by
  constructor
  · rw [hc.count, hc.id, he, h.count]
  · intro hn
    rw [hc.id] at hn
    have hs := h.state fun hm => hn (hp _ rfl (.inl hm))
    rw [hc.count]
    rcases hc.state with hst | ⟨hi, hr⟩ | ⟨hl, -⟩
    · rw [hst, hs]
    · have : ¬D.maxFailures ≤ t.consecutiveFailures := fun hle => by
        rw [hs.2 hle] at hi
        cases hi
      rw [hr]
      simpa using this
    · exact absurd (hp _ rfl (.inr hl)) hn

theorem Pending.calm {x : Bool} {ends ends' : TaskId → List Bool} {l : List TaskId}
    (h : Pending x ends t) (hc : Calm l t u) (he : ends' t.id = ends t.id) : Pending x ends' u := by
  obtain ⟨hr, rest, hends, hcount⟩ := h
  exact ⟨hc.running hr, rest, by rw [hc.id, he, hends], hc.count.trans hcount⟩

/-! ## What a call ends and releases -/

/-- No call is between ending a run of the task and releasing it. -/
def Free (s : State) (id : TaskId) : Prop := ∀ i k, s.At i k → k.releases ≠ some id

theorem begins_releases {p : Config} {l : Tasks.Label} {ids : List Nat} (h : Begins cal p l k ids) :
    k.releases = none := by
  cases h with
  | dispatch _ _ _ _ _ hd => cases dispatch_spec hd <;> rfl
  | _ => rfl

/-- A call comes to release a task where it has just ended a run of it. -/
theorem step_releases (h : k.step b st = some (st', k')) (hk : k'.releases = some id) :
    (∃ a, k = .completeRun a ∧ k' = .completeRelease a ∧ a.taskId = id ∧ st'.tasks = st.tasks ∧
      st.hasRun a.runId (·.status == .running) = true) ∨
    ∃ a o todo orphans, k = .reclaimRun a o todo orphans ∧ k' = .reclaimTask a o todo orphans ∧
      o.taskId = id ∧ st'.tasks = st.tasks := by
  have orphan : ∀ {a todo orphans}, (nextOrphan a orphans todo).releases ≠ some id := by
    intro a todo orphans
    cases todo <;> simp [nextOrphan, Call.releases]
  obtain ⟨pl, hp, hres⟩ := machine_cases h
  cases k
  case completeRun a =>
    cases b
    · cases hp
      rcases hres with ⟨-, rfl⟩ | ⟨-, -, rfl⟩ <;> cases hk
    · cases hp
      rcases hres with ⟨ht, rfl⟩ | ⟨-, -, rfl⟩
      · cases hk
        rw [run_tx_singleton] at ht
        obtain ⟨htasks, hrun⟩ := close_tasks ht
        exact .inl ⟨a, rfl, rfl, rfl, htasks, hrun⟩
      · cases hk
  case reclaimRun a o todo orphans =>
    cases hp
    rcases hres with ⟨ht, rfl⟩ | ⟨hf, -⟩
    · cases hk
      cases ht
      exact .inr ⟨a, o, todo, orphans, rfl, rfl, rfl, rfl⟩
    · cases hf
  all_goals
    simp only [Call.plan] at hp
    (repeat' split at hp) <;> cases hp <;> rcases hres with ⟨-, rfl⟩ | ⟨-, -, rfl⟩ <;>
      first
      | cases hk
      | exact absurd hk orphan

theorem step_no_verdict {a : CompleteArgs} (h : k.step b st = some (st', k')) :
    k' ≠ .completeRun a := by
  have orphan : ∀ {c todo orphans}, nextOrphan c orphans todo ≠ .completeRun a := by
    intro c todo orphans
    cases todo <;> simp [nextOrphan]
  obtain ⟨pl, hp, hres⟩ := machine_cases h
  replace hp := plan_issues hp
  cases hp <;>
    rcases hres with ⟨-, rfl⟩ | ⟨-, -, rfl⟩ <;>
    first
    | (intro hk; cases hk)
    | exact orphan

/-- Of a task no run of which the call ends or has ended, it writes no count. -/
theorem step_untouched (h : k.step b st = some (st', k')) (hu : u ∈ st'.tasks)
    (he : ∀ x ∈ ending k st, x.1 ≠ u.id) (hr : k.releases ≠ some u.id)
    (hi : ∀ o ∈ k.interrupts, st.hasRun o.runId (·.status == .running) = true) :
    k = .createTask u ∨ ∃ t ∈ st.tasks, Calm (setting k st) t u := by
  by_cases ho : ordinary k = true
  · exact step_calm h ho hu
  have same : ∀ {t : TaskRecord}, t ∈ st.tasks → u = t → ∃ t ∈ st.tasks, Calm (setting k st) t u := by
    rintro t ht rfl
    exact ⟨u, ht, .refl _ u⟩
  refine .inr ?_
  obtain ⟨pl, hp, hres⟩ := machine_cases h
  rcases hres with ⟨ht, rfl⟩ | ⟨-, rfl, -⟩
  rotate_left
  · exact same hu rfl
  cases k <;> simp only [ordinary, not_true_eq_false] at ho
  case completeRun a =>
    cases b
    · cases hp
      obtain ⟨s₁, h₁, ht⟩ := run_tx_cons.1 ht
      rw [run_tx_singleton] at ht
      obtain ⟨htasks, hrun⟩ := close_tasks h₁
      obtain ⟨t, htm, hid, hut⟩ := release_rows ht hu
      have hne : t.id ≠ a.taskId := fun hx => he (a.taskId, a.failed)
        (by simp [ending, hrun]) (hx.symm.trans hid.symm)
      rw [if_neg hne] at hut
      exact same (htasks ▸ htm) hut
    · cases hp
      rw [run_tx_singleton] at ht
      exact same ((close_tasks ht).1 ▸ hu) rfl
  case completeRelease a =>
    cases hp
    obtain ⟨t, htm, hid, hut⟩ := release_rows (run_tx_singleton ▸ ht) hu
    have hne : t.id ≠ a.taskId := fun hx => hr (congrArg some (hx.symm.trans hid.symm))
    rw [if_neg hne] at hut
    exact same htm hut
  case reclaimCommit a orphans =>
    cases hp
    obtain ⟨t, htm, hid, ⟨hut, -⟩ | ⟨⟨o, ho, hot⟩, -⟩⟩ := reclaim_rows ht hu
    · exact same htm hut
    · refine absurd (hot.trans hid.symm) (he (o.taskId, true) ?_)
      exact List.mem_map.2 ⟨o, List.mem_filter.2 ⟨ho, hi o ho⟩, rfl⟩
  case reclaimTask a o todo orphans =>
    cases hp
    obtain ⟨t, htm, hid, hut⟩ := idle_rows (run_tx_singleton ▸ ht) hu
    have hne : t.id ≠ o.taskId := fun hx => hr (congrArg some (hx.symm.trans hid.symm))
    rw [if_neg fun hc => hne hc.1] at hut
    exact same htm hut

/-! ## Every run -/

/-- A step that tests the cap where a run ends. A verdict is written on a task that is running, and
the row the run was claimed from says of the cap what the task's own does; a reclaim interrupts runs
that are running, each of another task that is running and stays below the cap; and on MongoDB no
run ends, and no call is lost, between the two writes of another end. -/
structure Counted (D : Settings) (s : State) (e : Label) : Prop where
  crash : ∀ i k, e = .task (.crash i) → s.At i k → k.releases = none
  verdict : ∀ i a copy, e = .task (.exec i) → s.At i (.completeRun a) → s.copies i = some copy →
    s.store.hasRun a.runId (·.status == .running) = true → Free s a.taskId ∧
      ∀ t ∈ s.store.tasks, t.id = a.taskId → t.state = .running ∧
        (a.failed = true → (D.maxFailures ≤ copy.consecutiveFailures + 1 ↔
          D.maxFailures ≤ t.consecutiveFailures + 1))
  reclaim : ∀ i k o, e = .task (.exec i) → s.At i k → o ∈ k.interrupts →
    s.store.hasRun o.runId (·.status == .running) = true ∧ Free s o.taskId ∧
      ∀ t ∈ s.store.tasks, t.id = o.taskId →
        t.state = .running ∧ t.consecutiveFailures + 1 < D.maxFailures
  apart : ∀ i k, e = .task (.exec i) → s.At i k → (k.interrupts.map (·.taskId)).Nodup

/-- The rows of a task, at every point of the calls that end its runs. -/
structure Good (D : Settings) (s : State) (id : TaskId) : Prop where
  settled : Free s id → ∀ t ∈ s.store.tasks, t.id = id → Row D s.ends s.person t
  completing : ∀ i a, s.At i (.completeRelease a) → a.taskId = id → ∀ t ∈ s.store.tasks, t.id = id →
    Pending a.failed s.ends t ∧ Tests D a t
  reclaiming : ∀ i a o todo orphans, s.At i (.reclaimTask a o todo orphans) → o.taskId = id →
    ∀ t ∈ s.store.tasks, t.id = id →
      Pending true s.ends t ∧ t.consecutiveFailures + 1 < D.maxFailures

structure Accurate (D : Settings) (s : State) : Prop where
  good : ∀ id, Good D s id
  sole : ∀ i j k c id, s.At i k → s.At j c → k.releases = some id → c.releases = some id → i = j
  owing : ∀ i k id, s.At i k → k.releases = some id → s.ends id ≠ []
  drawn : ∀ id, s.ends id ≠ [] → id ∈ s.config.minted
  fresh : ∀ i t, s.At i (.createTask t) → s.ends t.id = []
  args : ∀ i a, s.At i (.completeRun a) → ∃ copy, s.copies i = some copy ∧
    (a.releaseState = .paused ↔ a.failed = true ∧ D.maxFailures ≤ copy.consecutiveFailures + 1)

/-- A task that a step leaves its count, its ends and the calls that end its runs. -/
theorem Good.frame (h : Good D s id) {l : List TaskId}
    (rows : ∀ u ∈ s'.store.tasks, u.id = id → ∃ t ∈ s.store.tasks, Calm l t u)
    (ends : s'.ends id = s.ends id) (person : id ∈ s.person ∨ id ∈ l → id ∈ s'.person)
    (calls : ∀ i k, k.releases = some id → (s'.At i k ↔ s.At i k)) : Good D s' id := by
  constructor
  · intro hfree u hu hid
    obtain ⟨t, ht, hc⟩ := rows u hu hid
    have htid : t.id = id := hc.id.symm.trans hid
    refine (h.settled (fun i k hi hk => hfree i k ((calls i k hk).2 hi) hk) t ht htid).calm hc
      (by rw [htid, ends]) fun x hx hm => ?_
    rw [hx, htid] at hm ⊢
    exact person hm
  · intro i a hi ha u hu hid
    obtain ⟨t, ht, hc⟩ := rows u hu hid
    have htid : t.id = id := hc.id.symm.trans hid
    obtain ⟨hp, htests⟩ := h.completing i a ((calls i (.completeRelease a) (congrArg some ha)).1 hi)
      ha t ht htid
    refine ⟨hp.calm hc (by rw [htid, ends]), ?_⟩
    rw [Tests, hc.count]
    exact htests
  · intro i a o todo orphans hi ho u hu hid
    obtain ⟨t, ht, hc⟩ := rows u hu hid
    have htid : t.id = id := hc.id.symm.trans hid
    obtain ⟨hp, hb⟩ := h.reclaiming i a o todo orphans
      ((calls i (.reclaimTask a o todo orphans) (congrArg some ho)).1 hi) ho t ht htid
    exact ⟨hp.calm hc (by rw [htid, ends]), by rw [hc.count]; exact hb⟩

theorem release_paused {t : TaskRecord} {status : RunStatus} :
    release D t status = .paused ↔
      failed status = true ∧ D.maxFailures ≤ t.consecutiveFailures + 1 := by
  unfold release capped releasedState
  (repeat' split) <;> simp_all

/-- A call that begins. -/
theorem Accurate.start (h : Accurate D s) {l : Tasks.Label} {ids : List Nat}
    (hb : Begins cal s.config l k ids) (hl : ∀ i a, l = .finish i a →
      ∃ copy c o, s.copies i = some copy ∧ a = completeArgs D copy c o) :
    Accurate D { s with
      config := ⟨s.config.pool.start k, ids ++ s.config.minted, s.config.tally⟩
      copies := Function.update s.copies s.config.pool.calls.length (copyOf s l) } := by
  have hnone : k.releases = none := begins_releases hb
  have old : ∀ {j c id}, (s.config.pool.start k).At j c → c.releases = some id → s.At j c := by
    intro j c id hj hc
    rcases Pool.at_start.1 hj with hj | ⟨-, rfl⟩
    · exact hj
    · rw [hnone] at hc
      cases hc
  refine ⟨fun id => (h.good id).frame (l := []) (fun u hu _ => ⟨u, hu, .refl _ u⟩) rfl
    (fun hm => hm.resolve_right List.not_mem_nil)
    (fun i c hc => ⟨fun hi => old hi hc, fun hi => Pool.at_start.2 (.inl hi)⟩),
    fun i j x y id hi hj hx hy => h.sole i j x y id (old hi hx) (old hj hy) hx hy,
    fun i x id hi hx => h.owing i x id (old hi hx) hx,
    fun id he => List.mem_append_right _ (h.drawn id he), fun i t hi => ?_, fun i a hi => ?_⟩
  · rcases Pool.at_start.1 hi with hi | ⟨-, rfl⟩
    · exact h.fresh i t hi
    · cases hb with
      | dispatch _ _ _ _ _ hd => cases dispatch_spec hd
      | create hf =>
        by_contra he
        exact hf (h.drawn _ he)
  · rcases Pool.at_start.1 hi with hi | ⟨rfl, rfl⟩
    · obtain ⟨copy, hc, hr⟩ := h.args i a hi
      exact ⟨copy, (Function.update_of_ne (Nat.ne_of_lt hi.lt) _ _).trans hc, hr⟩
    · cases hb with
      | dispatch _ _ _ _ _ hd => cases dispatch_spec hd
      | @finish j c a hj =>
        obtain ⟨copy, c, o, hcopy, rfl⟩ := hl j _ rfl
        exact ⟨copy, (Function.update_self ..).trans hcopy, release_paused⟩

/-- A call that is lost. -/
theorem Accurate.crash (h : Accurate D s) {i : Nat} (hC : ∀ k, s.At i k → k.releases = none) :
    Accurate D { s with config := ⟨s.config.pool.kill i, s.config.minted, s.config.tally⟩ } := by
  have old : ∀ {j c}, (s.config.pool.kill i).At j c → s.At j c := fun hj => (Pool.at_kill.1 hj).2
  refine ⟨fun id => (h.good id).frame (l := []) (fun u hu _ => ⟨u, hu, .refl _ u⟩) rfl
    (fun hm => hm.resolve_right List.not_mem_nil)
    (fun j c hc => ⟨old, fun hj => Pool.at_kill.2 ⟨?_, hj⟩⟩),
    fun i j x y id hi hj => h.sole i j x y id (old hi) (old hj), fun i x id hi => h.owing i x id (old hi),
    h.drawn, fun i t hi => h.fresh i t (old hi), fun i a hi => h.args i a (old hi)⟩
  rintro rfl
  rw [hC c hj] at hc
  cases hc

/-! ### The ends -/

theorem record_of_ne {ends : TaskId → List Bool} {l : List (TaskId × Bool)}
    (h : ∀ x ∈ l, x.1 ≠ id) : record ends l id = ends id := by
  have : l.filter (·.1 == id) = [] := List.filter_eq_nil_iff.2 fun x hx => by simpa using h x hx
  rw [record, this]
  rfl

theorem record_of_mem {ends : TaskId → List Bool} {l : List (TaskId × Bool)} {x : Bool}
    (hn : (l.map (·.1)).Nodup) (h : (id, x) ∈ l) : record ends l id = x :: ends id := by
  have : l.filter (·.1 == id) = [(id, x)] := by
    induction l with
    | nil => cases h
    | cons y l ih =>
      rw [List.map_cons, List.nodup_cons] at hn
      rcases List.mem_cons.1 h with rfl | h
      · have : l.filter (·.1 == id) = [] := List.filter_eq_nil_iff.2 fun z hz hzi =>
          hn.1 (List.mem_map.2 ⟨z, hz, by simpa using hzi⟩)
        rw [List.filter_cons_of_pos (by simp), this]
      · have hne : y.1 ≠ id := fun he => hn.1 (he ▸ List.mem_map.2 ⟨_, h, rfl⟩)
        rw [List.filter_cons_of_neg (by simpa using hne), ih hn.2 h]
  rw [record, this]
  rfl

theorem record_ne_nil {ends : TaskId → List Bool} {l : List (TaskId × Bool)} :
    record ends l id ≠ [] ↔ ends id ≠ [] ∨ ∃ x ∈ l, x.1 = id := by
  simp only [record, ne_eq, List.append_eq_nil_iff, List.reverse_eq_nil_iff, List.map_eq_nil_iff,
    List.filter_eq_nil_iff, beq_iff_eq, not_and_or, not_forall, not_not, exists_prop]
  exact or_comm

theorem ending_reclaim (h : ∀ a, k ≠ .completeRun a) :
    ending k st = (k.interrupts.filter fun o => st.hasRun o.runId (·.status == .running)).map
      (·.taskId, true) := by
  cases k <;> first | rfl | exact absurd rfl (h _)

theorem interrupts_known {o : TaskRunRecord} (ho : o ∈ k.interrupts) :
    (o.runId, o.taskId) ∈ k.knows := by
  cases k
  case reclaimCommit a orphans => exact List.mem_map.2 ⟨o, ho, rfl⟩
  case reclaimRun a o' todo orphans =>
    cases List.mem_singleton.1 ho
    exact List.mem_cons_self
  all_goals cases ho

/-- A call that ends a run by a verdict, or interrupts some. -/
theorem verdict_or (k : Call) : (∃ a, k = .completeRun a) ∨ ∀ a, k ≠ .completeRun a := by
  by_cases h : ∃ a, k = .completeRun a
  · exact .inl h
  · exact .inr fun a ha => h ⟨a, ha⟩

/-- Where a call has come to. -/
def moved (s : State) (i : Nat) (k : Call) (st : Store) (k' : Call) (tally : List RunId) : State :=
  { s with
    config := ⟨s.config.pool.put i st k', s.config.minted, tally⟩
    ends := record s.ends (ending k s.store)
    person := setting k s.store ++ s.person.filter fun id => (ending k s.store).all (·.1 != id) }

section
variable {i : Nat} {tally : List RunId}

theorem moved_at (hk : s.At i k) {j : Nat} {c : Call} :
    (moved s i k st' k' tally).At j c ↔ j = i ∧ c = k' ∨ j ≠ i ∧ s.At j c := Pool.at_put hk

theorem ending_nodup (hC : Counted D s (.task (.exec i))) (hk : s.At i k) :
    ((ending k s.store).map (·.1)).Nodup := by
  rcases verdict_or k with ⟨a, rfl⟩ | hne
  · simp only [ending]
    split <;> simp
  · rw [ending_reclaim hne, List.map_map]
    exact (hC.apart i k rfl hk).sublist (List.filter_sublist.map _)

/-- The tasks whose runs end have been drawn, and are not being created. -/
theorem ending_task (hr : (Tasks.lts cal b).Reach Lts.Any s.config) (hk : s.At i k)
    {x : TaskId × Bool} (hx : x ∈ ending k s.store) : x.1 ∈ s.config.minted ∧
      ∀ j t, s.At j (.createTask t) → t.id ≠ x.1 := by
  rcases verdict_or k with ⟨a, rfl⟩ | hne
  · simp only [ending] at hx
    split at hx
    · obtain rfl := List.mem_singleton.1 hx
      refine ⟨(born hr).calls i _ hk _ (List.mem_singleton.2 rfl), fun j t hj he => ?_⟩
      cases ((born hr).new j t hj).2.2 i _ hk (List.mem_singleton.2 he)
      cases hj.eq hk
    · cases hx
  · rw [ending_reclaim hne] at hx
    obtain ⟨o, ho, rfl⟩ := List.mem_map.1 hx
    obtain ⟨ho, hrun⟩ := List.mem_filter.1 ho
    obtain ⟨r, hrow, hid, -⟩ := Store.has_run_iff.1 hrun
    have htask : r.taskId = o.taskId := (known hr i k hk _ (interrupts_known ho)).rows r hrow hid
    show o.taskId ∈ s.config.minted ∧ ∀ j t, s.At j (.createTask t) → t.id ≠ o.taskId
    rw [← htask]
    exact ⟨(born hr).rows r hrow, fun j t hj he => ((born hr).new j t hj).2.1 r hrow he.symm⟩

/-- The calls that release a task the step's call has no part in. -/
theorem moved_calls (hk : s.At i k) (hr : k.releases ≠ some id) (hr' : k'.releases ≠ some id)
    (j : Nat) (c : Call) (hc : c.releases = some id) :
    (moved s i k st' k' tally).At j c ↔ s.At j c := by
  rw [moved_at hk]
  constructor
  · rintro (⟨-, rfl⟩ | ⟨-, hj⟩)
    · exact absurd hc hr'
    · exact hj
  · intro hj
    refine .inr ⟨?_, hj⟩
    rintro rfl
    exact hr (hj.eq hk ▸ hc)

/-- What the call's own task is after the step, where its call is the only one that may release it. -/
theorem good_of_rows (hk : s.At i k) (hfree : ∀ j c, j ≠ i → s.At j c → c.releases ≠ some id)
    (settled : k'.releases ≠ some id → ∀ u ∈ st'.tasks, u.id = id →
      Row D (record s.ends (ending k s.store)) (moved s i k st' k' tally).person u)
    (completing : ∀ a, k' = .completeRelease a → a.taskId = id → ∀ u ∈ st'.tasks, u.id = id →
      Pending a.failed (record s.ends (ending k s.store)) u ∧ Tests D a u)
    (reclaiming : ∀ a o todo orphans, k' = .reclaimTask a o todo orphans → o.taskId = id →
      ∀ u ∈ st'.tasks, u.id = id → Pending true (record s.ends (ending k s.store)) u ∧
        u.consecutiveFailures + 1 < D.maxFailures) : Good D (moved s i k st' k' tally) id := by
  refine ⟨fun hf => settled (hf i k' ((moved_at hk).2 (.inl ⟨rfl, rfl⟩))), fun j a hj ha => ?_,
    fun j a o todo orphans hj ho => ?_⟩
  · rcases (moved_at hk).1 hj with ⟨-, rfl⟩ | ⟨hne, hj⟩
    · exact completing a rfl ha
    · exact absurd (congrArg some ha) (hfree j _ hne hj)
  · rcases (moved_at hk).1 hj with ⟨-, rfl⟩ | ⟨hne, hj⟩
    · exact reclaiming a o todo orphans rfl ho
    · exact absurd (congrArg some ho) (hfree j _ hne hj)

/-- A verdict. -/
theorem good_verdict (h : Accurate D s) (hC : Counted D s (.task (.exec i))) {a : CompleteArgs}
    (hk : s.At i (.completeRun a)) (hm : (Call.completeRun a).step b s.store = some (st', k'))
    (hrun : s.store.hasRun a.runId (·.status == .running) = true) :
    Good D (moved s i (.completeRun a) st' k' tally) a.taskId := by
  obtain ⟨copy, hcopy, hargs⟩ := h.args i a hk
  obtain ⟨hfree, hrows⟩ := hC.verdict i a copy rfl hk hcopy hrun
  have hends : record s.ends (ending (.completeRun a) s.store) a.taskId = a.failed :: s.ends a.taskId :=
    record_of_mem (ending_nodup hC hk) (by simp [ending, hrun])
  have htests : ∀ t ∈ s.store.tasks, t.id = a.taskId → Tests D a t := by
    intro t ht hid
    refine hargs.trans (and_congr_right fun hf => ((hrows t ht hid).2 hf))
  have hcount : ∀ t ∈ s.store.tasks, t.id = a.taskId →
      t.consecutiveFailures = streak (s.ends a.taskId) := fun t ht hid =>
    hid ▸ ((h.good a.taskId).settled hfree t ht hid).count
  obtain ⟨pl, hp, hres⟩ := machine_cases hm
  refine good_of_rows hk (fun j c _ hj => hfree j c hj) (fun hr u hu hid => ?_)
    (fun a' hk' ha u hu hid => ?_) fun c o todo orphans hk' => ?_
  · cases b
    · cases hp
      rcases hres with ⟨ht, -⟩ | ⟨hf, -⟩
      · obtain ⟨s₁, h₁, ht⟩ := run_tx_cons.1 ht
        rw [run_tx_singleton] at ht
        obtain ⟨t, htm, hid', rfl⟩ := release_rows ht hu
        rw [(close_tasks h₁).1] at htm
        have hta := hid'.symm.trans hid
        rw [if_pos hta]
        exact row_release (hta ▸ hends) (hcount t htm hta) (htests t htm hta)
      · simp [runTx, Statement.apply, Store.closeRun, hrun, Store.releaseTask] at hf
    · cases hp
      rcases hres with ⟨-, rfl⟩ | ⟨hf, -⟩
      · exact absurd rfl hr
      · simp [Statement.apply, Store.closeRun, hrun] at hf
  · subst hk'
    rcases step_releases hm rfl with ⟨a₀, hka, hka', -, htasks, -⟩ | ⟨_, _, _, _, hka, -⟩
    · cases hka
      cases hka'
      rw [htasks] at hu
      exact ⟨⟨(hrows u hu hid).1, _, hid ▸ hends, hcount u hu hid⟩, htests u hu hid⟩
    · cases hka
  · subst hk'
    rcases step_releases hm rfl with ⟨a₀, hka, hka', -⟩ | ⟨_, _, _, _, hka, -⟩
    · cases hka'
    · cases hka

/-- An interruption. -/
theorem good_reclaim (h : Accurate D s) (hC : Counted D s (.task (.exec i))) (hk : s.At i k)
    (hm : k.step b s.store = some (st', k')) {o : TaskRunRecord} (ho : o ∈ k.interrupts) :
    Good D (moved s i k st' k' tally) o.taskId := by
  obtain ⟨hrun, hfree, hrows⟩ := hC.reclaim i k o rfl hk ho
  have hne : ∀ a, k ≠ .completeRun a := by
    rintro a rfl
    cases ho
  have hends : record s.ends (ending k s.store) o.taskId = true :: s.ends o.taskId := by
    refine record_of_mem (ending_nodup hC hk) ?_
    rw [ending_reclaim hne]
    exact List.mem_map.2 ⟨o, List.mem_filter.2 ⟨ho, hrun⟩, rfl⟩
  have hcount : ∀ t ∈ s.store.tasks, t.id = o.taskId →
      t.consecutiveFailures = streak (s.ends o.taskId) := fun t ht hid =>
    hid ▸ ((h.good o.taskId).settled hfree t ht hid).count
  obtain ⟨pl, hp, hres⟩ := machine_cases hm
  refine good_of_rows hk (fun j c _ hj => hfree j c hj) (fun hr u hu hid => ?_)
    (fun a hk' => ?_) fun c o' todo orphans hk' ho' u hu hid => ?_
  · cases k
    case reclaimCommit c orphans =>
      cases hp
      rcases hres with ⟨ht, -⟩ | ⟨hf, -⟩
      · obtain ⟨t, htm, hid', hut⟩ := reclaim_rows ht hu
        have hto := hid'.symm.trans hid
        rcases hut with ⟨rfl, hno⟩ | ⟨-, -, rfl⟩
        · exact absurd hto.symm (hno (hrows _ htm hto).1 o ho)
        · exact row_idle (hto ▸ hends) (hcount t htm hto) (hrows t htm hto).2
      · obtain ⟨s₁, hs₁⟩ : ∃ s₁, runTx Statement.apply (orphans.flatMap (reclaimWrites c.now)) s.store =
            some s₁ := run_tx_total (fun q hq _ => by
          obtain ⟨r, -, rfl | rfl⟩ := mem_reclaim_writes.1 hq <;> exact ⟨_, rfl⟩) _
        exact (nomatch hs₁.symm.trans hf)
    case reclaimRun c o' todo orphans =>
      cases List.mem_singleton.1 ho
      cases hp
      rcases hres with ⟨-, rfl⟩ | ⟨hf, -⟩
      · exact absurd rfl hr
      · cases hf
    all_goals cases ho
  · subst hk'
    rcases step_releases hm rfl with ⟨a₀, hka, -⟩ | ⟨_, _, _, _, -, hka', -⟩
    · exact absurd hka (hne a₀)
    · cases hka'
  · subst hk'
    rcases step_releases hm rfl with ⟨a₀, hka, -⟩ | ⟨_, _, _, _, rfl, hka', -, htasks⟩
    · exact absurd hka (hne a₀)
    · cases hka'
      cases List.mem_singleton.1 ho
      rw [htasks] at hu
      obtain ⟨hst, hb⟩ := hrows u hu hid
      exact ⟨⟨hst, _, hid ▸ hends, hcount u hu hid⟩, hb⟩

/-- A release. -/
theorem good_release (h : Accurate D s) (hk : s.At i k) (hm : k.step b s.store = some (st', k'))
    (hr : k.releases = some id) : Good D (moved s i k st' k' tally) id := by
  have hfree : ∀ j c, j ≠ i → s.At j c → c.releases ≠ some id := fun j c hne hj hc =>
    hne (h.sole j i c k id hj hk hc hr)
  have hend : ending k s.store = [] := by
    cases k <;> first | rfl | cases hr
  have hno : k'.releases ≠ some id := by
    intro hk'
    rcases step_releases hm hk' with ⟨a, rfl, -⟩ | ⟨_, _, _, _, rfl, -⟩ <;> cases hr
  refine good_of_rows hk hfree (fun _ u hu hid => ?_) (fun a hk' ha => ?_)
    fun a o todo orphans hk' ho => ?_
  · rw [hend]
    obtain ⟨pl, hp, hres⟩ := machine_cases hm
    cases k
    case completeRelease a =>
      cases hr
      cases hp
      rcases hres with ⟨ht, -⟩ | ⟨hf, -⟩
      · obtain ⟨t, htm, hid', rfl⟩ := release_rows (run_tx_singleton ▸ ht) hu
        have hta := hid'.symm.trans hid
        obtain ⟨⟨-, rest, hends, hcount⟩, htests⟩ := (h.good _).completing i a hk rfl t htm hta
        rw [if_pos hta]
        exact row_release hends hcount htests
      · cases hf
    case reclaimTask a o todo orphans =>
      cases hr
      cases hp
      rcases hres with ⟨ht, -⟩ | ⟨hf, -⟩
      · obtain ⟨t, htm, hid', rfl⟩ := idle_rows (run_tx_singleton ▸ ht) hu
        have hto := hid'.symm.trans hid
        obtain ⟨⟨hst, rest, hends, hcount⟩, hb⟩ :=
          (h.good _).reclaiming i a o todo orphans hk rfl t htm hto
        rw [if_pos ⟨hto, hst⟩]
        exact row_idle hends hcount hb
      · cases hf
    all_goals cases hr
  · exact absurd (hk' ▸ congrArg some ha) hno
  · exact absurd (hk' ▸ congrArg some ho) hno

/-- The creation of a task. -/
theorem good_create (h : Accurate D s) (hr : (Tasks.lts cal b).Reach Lts.Any s.config)
    (hk : s.At i (.createTask t)) (hm : (Call.createTask t).step b s.store = some (st', k')) :
    Good D (moved s i (.createTask t) st' k' tally) t.id := by
  have hnil := h.fresh i t hk
  have hno : k'.releases ≠ some t.id := by
    intro hk'
    rcases step_releases hm hk' with ⟨a, ha, -⟩ | ⟨_, _, _, _, ha, -⟩ <;> cases ha
  refine good_of_rows hk (fun j c _ hj hc => h.owing j c t.id hj hc hnil) (fun _ u hu hid => ?_)
    (fun a hk' ha => absurd (hk' ▸ congrArg some ha) hno)
    fun a o todo orphans hk' ho => absurd (hk' ▸ congrArg some ho) hno
  obtain ⟨hst, -, -, -, -, hcount, -⟩ := created_fresh hr i _ hk t rfl
  rcases step_calm hm rfl hu with hc | ⟨v, hv, hc⟩
  · cases hc
    refine ⟨hcount.trans ?_, fun _ => ?_⟩
    · show 0 = streak (s.ends t.id)
      rw [hnil]
      rfl
    · have := D.positive
      rw [hst, hcount]
      simp
      omega
  · exact absurd (hc.id.symm.trans hid) (((born hr).new i t hk).1 v hv)

/-- A transaction of a call. -/
theorem Accurate.exec (h : Accurate D s) (hr : (Tasks.lts cal b).Reach Lts.Any s.config)
    (hC : Counted D s (.task (.exec i))) (hk : s.At i k)
    (hm : k.step b s.store = some (st', k')) : Accurate D (moved s i k st' k' tally) := by
  have hint : ∀ o ∈ k.interrupts, s.store.hasRun o.runId (·.status == .running) = true :=
    fun o ho => (hC.reclaim i k o rfl hk ho).1
  -- a call that comes to release a task has just ended a run of it, with nobody about to release it
  have comes : ∀ id, k'.releases = some id → (∃ x ∈ ending k s.store, x.1 = id) ∧ Free s id := by
    intro id hk'
    rcases step_releases hm hk' with ⟨a, rfl, -, rfl, -, hrun⟩ | ⟨a, o, todo, orphans, rfl, -, rfl, -⟩
    · obtain ⟨copy, hcopy, -⟩ := h.args i a hk
      exact ⟨⟨_, by rw [ending, if_pos hrun]; exact List.mem_singleton.2 rfl, rfl⟩,
        (hC.verdict i a copy rfl hk hcopy hrun).1⟩
    · obtain ⟨hrun, hfree, -⟩ := hC.reclaim i _ o rfl hk List.mem_cons_self
      exact ⟨⟨(o.taskId, true), List.mem_map.2 ⟨o, List.mem_filter.2 ⟨List.mem_cons_self, hrun⟩, rfl⟩,
        rfl⟩, hfree⟩
  refine ⟨fun id => ?_, fun j₁ j₂ c₁ c₂ id h₁ h₂ hc₁ hc₂ => ?_, fun j c id hj hc => ?_,
    fun id he => ?_, fun j t hj => ?_, fun j a hj => ?_⟩
  · by_cases he : ∃ x ∈ ending k s.store, x.1 = id
    · obtain ⟨x, hx, rfl⟩ := he
      rcases verdict_or k with ⟨a, rfl⟩ | hne
      · simp only [ending] at hx
        split at hx
        · cases List.mem_singleton.1 hx
          exact good_verdict h hC hk hm ‹_›
        · cases hx
      · rw [ending_reclaim hne] at hx
        obtain ⟨o, ho, rfl⟩ := List.mem_map.1 hx
        exact good_reclaim h hC hk hm (List.mem_filter.1 ho).1
    by_cases hrel : k.releases = some id
    · exact good_release h hk hm hrel
    by_cases hcr : ∃ t, k = .createTask t ∧ t.id = id
    · obtain ⟨t, rfl, rfl⟩ := hcr
      exact good_create h hr hk hm
    have hnot : ∀ x ∈ ending k s.store, x.1 ≠ id := fun x hx hxi => he ⟨x, hx, hxi⟩
    refine (h.good id).frame (l := setting k s.store) (fun u hu hid => ?_) (record_of_ne hnot)
      (fun hp => ?_) (moved_calls hk hrel fun hk' => he (comes id hk').1)
    · rcases step_untouched hm hu (hid ▸ hnot) (hid ▸ hrel) hint with rfl | ht
      · exact absurd ⟨u, rfl, hid⟩ hcr
      · exact ht
    · rcases hp with hp | hp
      · refine List.mem_append_right _ (List.mem_filter.2 ⟨hp, ?_⟩)
        exact List.all_eq_true.2 fun x hx => bne_iff_ne.2 (hnot x hx)
      · exact List.mem_append_left _ hp
  · rcases (moved_at hk).1 h₁ with ⟨e₁, rfl⟩ | ⟨-, old₁⟩ <;>
      rcases (moved_at hk).1 h₂ with ⟨e₂, rfl⟩ | ⟨-, old₂⟩
    · exact e₁.trans e₂.symm
    · exact absurd hc₂ ((comes id hc₁).2 j₂ c₂ old₂)
    · exact absurd hc₁ ((comes id hc₂).2 j₁ c₁ old₁)
    · exact h.sole j₁ j₂ c₁ c₂ id old₁ old₂ hc₁ hc₂
  · rcases (moved_at hk).1 hj with ⟨-, rfl⟩ | ⟨-, hj⟩
    · exact record_ne_nil.2 (.inr (comes id hc).1)
    · exact record_ne_nil.2 (.inl (h.owing j c id hj hc))
  · rcases record_ne_nil.1 he with he | ⟨x, hx, rfl⟩
    · exact h.drawn id he
    · exact (ending_task hr hk hx).1
  · rcases (moved_at hk).1 hj with ⟨-, rfl⟩ | ⟨-, hj⟩
    · exact absurd rfl ((step_mentions hm).2 t)
    · exact (record_of_ne fun x hx => ((ending_task hr hk hx).2 j t hj).symm).trans (h.fresh j t hj)
  · rcases (moved_at hk).1 hj with ⟨-, rfl⟩ | ⟨-, hj⟩
    · exact absurd rfl (step_no_verdict hm)
    · exact h.args j a hj

end

theorem next_inv (h : next D cal b s e = some s') : ∃ l config, issue D s e = some l ∧
    Tasks.next cal b s.config l = some config ∧ s' = follow s config l := by
  obtain ⟨l, hl, h⟩ := Option.bind_eq_some_iff.1 h
  obtain ⟨config, hn, rfl⟩ := Option.map_eq_some_iff.1 h
  exact ⟨l, config, hl, hn, rfl⟩

/-- A label is one of the task store's, or the end of a run that was claimed from a row. -/
theorem issue_cases {l : Tasks.Label} (h : issue D s e = some l) :
    (e = .task l ∧ ∀ i a, l ≠ .finish i a) ∨ ∃ i o c copy, e = .finish i o ∧ s.At i (.claimed c) ∧
      s.copies i = some copy ∧ l = .finish i (completeArgs D copy c o) := by
  unfold issue at h
  split at h
  · split at h
    · cases h
      exact .inr ⟨_, _, _, _, rfl, ‹_›, ‹_›, rfl⟩
    · cases h
  · cases h
  · next e hne =>
    cases h
    exact .inl ⟨rfl, fun i a he => hne i a he⟩

theorem follow_start {l : Tasks.Label} {config : Config} {ids : List Nat}
    (hb : begins cal s.config l = some (k, ids)) : follow s config l =
      { s with
        config
        copies := Function.update s.copies s.config.pool.calls.length (copyOf s l) } := by
  cases l <;> first | rfl | cases hb

theorem follow_exec {i : Nat} (hk : s.At i k) {tally : List RunId} :
    follow s ⟨s.config.pool.put i st' k', s.config.minted, tally⟩ (.exec i) =
      moved s i k st' k' tally := by
  unfold State.At Pool.At at hk
  simp only [follow, hk]
  rfl

theorem reach_config {C : State → Label → Prop} (h : (lts D cal b).Reach C s) :
    (Tasks.lts cal b).Reach Lts.Any s.config := by
  refine h.inv (I := fun s => (Tasks.lts cal b).Reach Lts.Any s.config) (fun s h0 => ?_)
    fun s e s' ih _ hn => ?_
  · cases h0
    exact .init rfl
  · obtain ⟨l, config, -, hl, rfl⟩ := next_inv hn
    have : (follow s config l).config = config := by
      unfold follow
      (repeat' split) <;> rfl
    rw [this]
    exact ih.step trivial hl

theorem accurate (h : (lts D cal b).Reach (Counted D) s) : Accurate D s := by
  refine h.inv_using (fun s h0 => ?_) fun s e s' hr ih hC hn => ?_
  · cases h0
    have nobody : ∀ {i : Nat} {k : Call}, ¬Pool.At (⟨⟨.empty, .empty⟩, []⟩ : Pool Store Call) i k :=
      fun hi => Nat.not_lt_zero _ hi.lt
    exact ⟨fun id => ⟨fun _ t ht => absurd ht List.not_mem_nil, fun i a hi => absurd hi nobody,
      fun i a o todo orphans hi => absurd hi nobody⟩, fun i j k c id hi => absurd hi nobody,
      fun i k id hi => absurd hi nobody, fun id he => absurd rfl he, fun i t hi => absurd hi nobody,
      fun i a hi => absurd hi nobody⟩
  obtain ⟨l, config, hl, hconfig, rfl⟩ := next_inv hn
  have hissue := issue_cases hl
  cases next_step hconfig with
  | @start l k ids hb =>
    rw [follow_start hb]
    refine ih.start (begins_spec hb) fun i a he => ?_
    rcases hissue with ⟨-, hne⟩ | ⟨j, o, c, copy, -, -, hcopy, hl'⟩
    · exact absurd he (hne i a)
    · cases he.symm.trans hl'
      exact ⟨copy, c, o, hcopy, rfl⟩
  | exec hk hm =>
    rw [follow_exec hk]
    rcases hissue with ⟨rfl, -⟩ | ⟨_, _, _, _, -, -, -, he⟩
    · exact ih.exec (reach_config hr) hC hk hm
    · cases he
  | crash =>
    rcases hissue with ⟨rfl, -⟩ | ⟨_, _, _, _, -, -, -, he⟩
    · exact ih.crash fun k hk => hC.crash _ k rfl hk
    · cases he

/-- Unless a person has paused or resumed it since, a task is paused exactly where its last
`maxFailures` runs failed or were interrupted. -/
theorem paused_iff (h : (lts D cal b).Reach (Counted D) s) (ht : t ∈ s.store.tasks)
    (hf : Free s t.id) (hp : t.id ∉ s.person) :
    t.state = .paused ↔ lastFailed D.maxFailures (s.ends t.id) = true := by
  obtain ⟨hcount, hstate⟩ := ((accurate h).good t.id).settled hf t ht rfl
  rw [hstate hp, hcount, last_failed_iff]

namespace Sample

open Tasks.Sample (task engine calendar)

def settings : Settings := ⟨2, by decide⟩

def start : State := ⟨Tasks.Sample.start, fun _ => none, fun _ => [], []⟩

/-- The check of `Counted`, for steps that interrupt no run and lose no call. -/
def counts (s : State) : Label → Bool
  | .task (.exec i) =>
    match s.config.pool.calls[i]? with
    | some (some k) => k.interrupts.isEmpty && match k, s.copies i with
      | .completeRun a, some copy =>
        (s.config.pool.calls.all fun c => c.all fun k => k.releases != some a.taskId) &&
          s.store.tasks.rows.all fun t => t.id != a.taskId || (t.state == .running &&
            t.consecutiveFailures == copy.consecutiveFailures)
      | _, _ => true
    | _ => true
  | .task (.crash _) => false
  | _ => true

theorem counted_of_counts (h : counts s e = true) : Counted settings s e := by
  have none_interrupted : ∀ {i k}, e = .task (.exec i) → s.At i k → k.interrupts = [] := by
    rintro i k rfl hk
    unfold State.At Pool.At at hk
    simp only [counts, hk, Bool.and_eq_true, List.isEmpty_iff] at h
    exact h.1
  refine ⟨fun i k he => ?_, fun i a copy he hk hcopy _ => ?_, fun i k o he hk ho => ?_,
    fun i k he hk => ?_⟩
  · subst he
    cases h
  · subst he
    have hk' := hk
    unfold State.At Pool.At at hk'
    simp only [counts, hk', hcopy, Bool.and_eq_true, List.all_eq_true] at h
    obtain ⟨-, hfree, hrows⟩ := h
    refine ⟨fun j c hj => ?_, fun t ht hid => ?_⟩
    · simpa using hfree _ hj.mem
    · have := hrows t ht
      simp only [hid, bne_self_eq_false, Bool.false_or, Bool.and_eq_true, beq_iff_eq] at this
      exact ⟨this.1, fun _ => by rw [this.2]⟩
  · rw [none_interrupted he hk] at ho
    cases ho
  · rw [none_interrupted he hk]
    exact .nil

def error : Outcome := ⟨.error, 90, 30000, "", 0, 0, by decide⟩

/-- Both runs fail. -/
def failing : List Label :=
  (Tasks.Sample.claimed .sqlite).map .task ++ [.finish 2 error, .task (.exec 3),
    .task (.tick engine (120 * Clock.second)), .task (.exec 4),
    .task (.dispatch 4 { task with
      nextRunAt := some 120, dueAt := some 120, claimAt := some 60, lastRunAt := some 60,
      lastStatus := some .error, runCount := 1, consecutiveFailures := 1, updatedAt := 90 } 3 .raised),
    .task (.exec 5), .finish 5 error, .task (.exec 6)]

/-- The engine dies of both, and the next one reclaims. -/
def crashing : List Label :=
  (Tasks.Sample.claimed .sqlite).map .task ++ ([.recover ⟨8, 90⟩, .exec 3, .exec 3, .exec 3, .exec 3,
    .tick { engine with id := 8 } (120 * Clock.second), .exec 4,
    .dispatch 4 { task with
      nextRunAt := some 120, dueAt := some 120, claimAt := some 60, lastRunAt := some 60,
      lastStatus := some .interrupted, runCount := 1, consecutiveFailures := 1,
      updatedAt := 90 } 3 .raised, .exec 5,
    .recover ⟨9, 150⟩, .exec 6, .exec 6, .exec 6, .exec 6] : List Tasks.Label).map .task

/-- The states of the tasks, and how the runs of the task ended. -/
def outcome (s : State) : List Tasks.State × List Bool :=
  (s.store.tasks.rows.map (·.state), s.ends 1)

/-- The check of a task that no call is about to release and no person has set. -/
def quiet (s : State) (t : TaskRecord) : Bool :=
  (s.config.pool.calls.all fun c => c.all fun k => k.releases != some t.id) && !s.person.contains t.id

theorem quiet_iff (h : quiet s t = true) : Free s t.id ∧ t.id ∉ s.person := by
  simp only [quiet, Bool.and_eq_true, List.all_eq_true, Bool.not_eq_true', List.contains_eq_mem,
    decide_eq_false_iff_not] at h
  exact ⟨fun i k hk => by simpa using h.1 _ hk.mem, h.2⟩

end Sample

/-- `paused_iff` over two runs that fail, where the cap is two. -/
theorem paused_iff_run : ∃ s t, t ∈ s.store.tasks ∧ Sample.outcome s = ([.paused], [true, true]) ∧
    (t.state = .paused ↔ lastFailed Sample.settings.maxFailures (s.ends t.id) = true) := by
  have h : ((lts Sample.settings Tasks.Sample.calendar .sqlite).check Sample.counts Sample.start
      Sample.failing).any (fun s => decide (Sample.outcome s = ([.paused], [true, true])) &&
        s.store.tasks.rows.any fun t => Sample.quiet s t) = true := by decide
  obtain ⟨s, hs, h⟩ := (Option.any_eq_true _ _).1 h
  obtain ⟨ho, h⟩ := Bool.and_eq_true_iff.1 h
  obtain ⟨t, ht, hq⟩ := List.any_eq_true.1 h
  obtain ⟨hf, hp⟩ := Sample.quiet_iff hq
  have hr := Lts.reach_of_check (L := lts Sample.settings Tasks.Sample.calendar .sqlite)
    (fun _ _ => Sample.counted_of_counts) (s := Sample.start) rfl hs
  exact ⟨s, t, ht, of_decide_eq_true ho, paused_iff hr ht hf hp⟩

/-- The engine dies of both runs of a task: it is idle, and due again. -/
theorem crash_loop : ∃ s t, (lts Sample.settings Tasks.Sample.calendar .sqlite).Reach Lts.Any s ∧
    t ∈ s.store.tasks ∧ Free s t.id ∧ t.id ∉ s.person ∧ t.state = .idle ∧ t.dueAt ≠ none ∧
    lastFailed Sample.settings.maxFailures (s.ends t.id) = true := by
  have h : ((lts Sample.settings Tasks.Sample.calendar .sqlite).check (fun _ _ => true) Sample.start
      Sample.crashing).any (fun s => s.store.tasks.rows.any fun t => Sample.quiet s t &&
        decide (t.state = .idle ∧ t.dueAt ≠ none ∧
          lastFailed Sample.settings.maxFailures (s.ends t.id) = true)) = true := by decide
  obtain ⟨s, hs, h⟩ := (Option.any_eq_true _ _).1 h
  obtain ⟨t, ht, h⟩ := List.any_eq_true.1 h
  obtain ⟨hq, h⟩ := Bool.and_eq_true_iff.1 h
  obtain ⟨hf, hp⟩ := Sample.quiet_iff hq
  exact ⟨s, t, Lts.reach_of_check (L := lts Sample.settings Tasks.Sample.calendar .sqlite)
    (fun _ _ _ => trivial) (s := Sample.start) rfl hs, ht, hf, hp, of_decide_eq_true h⟩

end Finish
