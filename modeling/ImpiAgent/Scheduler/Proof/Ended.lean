import ImpiAgent.Scheduler.Proof.Finish
import ImpiAgent.Tasks.Proof.Watches

/-!
# What a run leaves its task

`_finish` releases a task to the state `_released_state` gives of the row read before the claim,
which had a next run: so a run below the cap leaves its task idle (`release_idle`), a one-shot as
any other, though the claim has taken the one-shot's only schedule (`oneshot_left_idle`).

`Standing`: an idle task has a next run, and so has a recurring one unless it is paused. Every row
stays so, and every recurring task is left idle with its next run, where no run of a one-shot ends
below the cap and nothing else leaves a task idle that has no schedule (`Kept`,
`ends_told`).
-/

namespace Finish

open Tasks Triggers Scheduler

variable {D : Settings} {cal : Calendar} {b : Backend} {s s' : State} {e : Label}
  {k k' : Call} {st st' : Store} {t u : TaskRecord}

/-! ## The rows -/

/-- What is scheduled has a next run. -/
structure Standing (t : TaskRecord) : Prop where
  idle : t.state = .idle → t.nextRunAt ≠ none
  recurring : t.triggerKind ≠ .triggerAt → t.mode ≠ .watch → t.state ≠ .paused → t.nextRunAt ≠ none
  watch : t.mode = .watch → t.triggerKind ≠ .triggerAt

/-- A verdict leaves the row standing. -/
structure Releases (a : CompleteArgs) (t : TaskRecord) : Prop where
  idle : a.releaseState = .idle → t.triggerKind ≠ .triggerAt ∧ t.mode ≠ .watch ∧
    (t.state = .paused → t.nextRunAt ≠ none)
  done : a.releaseState = .done → t.mode = .watch

/-- A row that a statement leaves standing. -/
def Leaves (t : TaskRecord) : Statement → Prop
  | .claimTask a => t.id = a.taskId → t.triggerKind ≠ .triggerAt → t.mode ≠ .watch →
      a.nextRunAt ≠ none
  | .advanceTask a => a.nextRunAt ≠ none
  | .releaseTask a => t.id = a.taskId → Releases a t
  | .idleTask o _ => t.id = o.taskId → t.state = .running → t.nextRunAt ≠ none
  | .setPaused _ paused next _ _ => paused = false → next ≠ none
  | .reschedule _ next _ _ => next ≠ none
  | _ => True

theorem Standing.release {a : CompleteArgs} (h : Standing t) (ha : Releases a t) :
    Standing (t.release a) := by
  refine ⟨fun hi => ?_, fun hk hw hp => ?_, h.watch⟩
  · obtain ⟨hk, hw, hp⟩ := ha.idle hi
    by_cases hs : t.state = .paused
    · exact hp hs
    · exact h.recurring hk hw hs
  · by_cases hs : t.state = .paused
    · cases hr : a.releaseState with
      | idle => exact (ha.idle hr).2.2 hs
      | running => exact absurd hr a.released
      | paused => exact absurd hr hp
      | done => exact absurd (ha.done hr) hw
    · exact h.recurring hk hw hs

theorem on_task_standing {q : Statement} (h : Standing t) (hq : Leaves t q)
    (hu : q.onTask t = some u) : Standing u := by
  cases q <;> simp only [Statement.onTask] at hu <;> (try split at hu) <;> cases hu <;>
    try exact h
  · next a hc => exact ⟨fun hi => (by cases hi), fun hk hw _ => hq hc.1 hk hw, h.watch⟩
  · exact ⟨fun _ => hq, fun _ _ _ => hq, h.watch⟩
  · next a hc => exact h.release (hq hc)
  · next o now hc => exact ⟨fun _ => hq hc.1 hc.2, fun _ _ _ => hq hc.1 hc.2, h.watch⟩
  · next paused next due now hc =>
    cases paused
    · exact ⟨fun _ => hq rfl, fun _ _ _ => hq rfl, h.watch⟩
    · exact ⟨fun hi => (by cases hi), fun _ _ hp => absurd rfl hp, h.watch⟩
  · exact ⟨fun _ => Option.some_ne_none _, fun _ _ _ => Option.some_ne_none _, h.watch⟩
  · exact ⟨fun _ => hq, fun _ _ _ => hq, h.watch⟩

/-! ## The calls -/

/-- The schedules a call writes without a look at the task are of an occurrence. -/
def Brings : Call → Prop
  | .recordSkip a | .skipSwap a => a.nextRunAt ≠ none
  | .reschedule _ next _ _ => next ≠ none
  | .setPaused _ paused next _ _ => paused = false → next ≠ none
  | .createTask t => Standing t
  | _ => True

/-- The verdict a call is to write on a task. -/
def verdictOf : Call → Option CompleteArgs
  | .completeRun a | .completeRelease a => some a
  | _ => none

/-- The runs whose tasks the next transaction of a call idles. -/
def idles : Call → List TaskRunRecord
  | .reclaimCommit _ orphans => orphans
  | .reclaimTask _ o _ _ => [o]
  | _ => []

theorem next_orphan_brings {a : ReclaimArgs} {todo orphans : List TaskRunRecord} :
    Brings (nextOrphan a orphans todo) := by
  cases todo <;> trivial

theorem step_brings (h : k.step b st = some (st', k')) (hb : Brings k) : Brings k' := by
  obtain ⟨pl, hp, hres⟩ := machine_cases h
  replace hp := plan_issues hp
  cases hp <;>
    rcases hres with ⟨-, rfl⟩ | ⟨-, -, rfl⟩ <;>
    first
    | exact trivial
    | exact hb
    | exact next_orphan_brings

/-- The statements of an ordinary call leave every row standing that its claim does. -/
theorem plan_leaves {pl : Plan Statement Call} {q : Statement} (h : k.plan b st = some pl)
    (hq : q ∈ pl.tx) (hk : ordinary k = true) (hb : Brings k)
    (hc : ∀ a, k.claims = some a → t.id = a.taskId → t.triggerKind ≠ .triggerAt → t.mode ≠ .watch →
      a.nextRunAt ≠ none) : Leaves t q := by
  cases k <;> simp only [ordinary, Bool.false_eq_true] at hk <;> simp only [Call.plan] at h <;>
    (repeat' split at h) <;> cases h <;>
    simp only [Plan.read, Plan.write, List.mem_cons, List.not_mem_nil, or_false] at hq <;>
    first
    | subst hq
    | rcases hq with rfl | rfl
  all_goals
    first
    | exact trivial
    | exact hb
    | exact hc _ rfl

theorem step_standing (hm : k.step b st = some (st', k')) (hrows : ∀ t ∈ st.tasks, Standing t)
    (hbrings : Brings k)
    (hclaims : ∀ a, k.claims = some a → ∀ t ∈ st.tasks, t.id = a.taskId →
      t.triggerKind ≠ .triggerAt → t.mode ≠ .watch → a.nextRunAt ≠ none)
    (hverdict : ∀ a, verdictOf k = some a → ∀ t ∈ st.tasks, t.id = a.taskId → Releases a t)
    (hidles : ∀ o ∈ idles k, ∀ t ∈ st.tasks, t.id = o.taskId → t.state = .running →
      t.nextRunAt ≠ none) : ∀ u ∈ st'.tasks, Standing u := by
  by_cases ho : ordinary k = true
  · -- its statements may see rows that one before has written, of the same tasks
    refine fun u hu => (machine_inv (I := fun s₁ => ∀ u ∈ s₁.tasks, Standing u ∧
      (k = .createTask u ∨ ∃ t ∈ st.tasks, t.id = u.id ∧ Same t u)) hm
      (fun pl hp q hq s₁ s₂ ih ha u hu => ?_)
      (fun u hu => ⟨hrows u hu, .inr ⟨u, hu, rfl, .refl u⟩⟩) u hu).1
    rcases (apply_tasks ha u).1 hu with ⟨v, hv, hvu⟩ | rfl
    · obtain ⟨hstands, hfrom⟩ := ih v hv
      have hsame := on_task_same hvu
      have hid := on_task_id hvu
      rcases hfrom with rfl | ⟨t, ht, hte, hts⟩
      · -- the call creates the task and does nothing else
        cases hp
        cases List.mem_singleton.1 hq
        cases hvu
        exact ⟨hstands, .inl rfl⟩
      · refine ⟨on_task_standing hstands (plan_leaves hp hq ho hbrings fun a ha hva hk hw => ?_) hvu,
          .inr ⟨t, ht, hte.trans hid.symm, hts.trans hsame⟩⟩
        exact hclaims a ha t ht (hte.trans hva) (hts.kind ▸ hk) (hts.mode ▸ hw)
    · obtain ⟨rfl, -⟩ := plan_creates hp hq
      exact ⟨hbrings, .inl rfl⟩
  intro u hu
  obtain ⟨pl, hp, hres⟩ := machine_cases hm
  rcases hres with ⟨ht, rfl⟩ | ⟨-, rfl, -⟩
  rotate_left
  · exact hrows u hu
  have released : ∀ {a s₁}, verdictOf k = some a → s₁.tasks = st.tasks →
      (Statement.releaseTask a).apply s₁ = some st' → Standing u := by
    intro a s₁ hv htasks ha
    obtain ⟨t, ht, -, rfl⟩ := release_rows ha hu
    split
    · next hid => exact (hrows t (htasks ▸ ht)).release (hverdict a hv t (htasks ▸ ht) hid)
    · exact hrows t (htasks ▸ ht)
  have idled : ∀ {o now t}, o ∈ idles k → t ∈ st.tasks → o.taskId = t.id → t.state = .running →
      Standing (t.idle now) := by
    intro o now t ho ht hid hr
    have hn := hidles o ho t ht hid.symm hr
    exact ⟨fun _ => hn, fun _ _ _ => hn, (hrows t ht).watch⟩
  cases k <;> simp only [ordinary, not_true_eq_false] at ho
  case completeRun a =>
    cases b
    · cases hp
      obtain ⟨s₁, h₁, ht⟩ := run_tx_cons.1 ht
      rw [run_tx_singleton] at ht
      exact released rfl (close_tasks h₁).1 ht
    · cases hp
      rw [run_tx_singleton] at ht
      exact hrows u ((close_tasks ht).1 ▸ hu)
  case completeRelease a =>
    cases hp
    change runTx Statement.apply [.releaseTask a] st = some st' at ht
    rw [run_tx_singleton] at ht
    exact released rfl rfl ht
  case reclaimCommit a orphans =>
    cases hp
    obtain ⟨t, htm, -, ⟨rfl, -⟩ | ⟨⟨o, ho, hot⟩, hr, rfl⟩⟩ := reclaim_rows ht hu
    · exact hrows u htm
    · exact idled ho htm hot hr
  case reclaimTask a o todo orphans =>
    cases hp
    obtain ⟨t, htm, -, rfl⟩ := idle_rows (run_tx_singleton ▸ ht) hu
    split
    · next hc => exact idled (List.mem_singleton.2 rfl) htm hc.1.symm hc.2
    · exact hrows t htm

/-- A call that has written its verdict, and the row it released. -/
theorem step_completed {a : CompleteArgs} (h : k.step b st = some (st', .completed a)) :
    verdictOf k = some a ∧ ∀ u ∈ st'.tasks, u.id = a.taskId →
      ∃ t ∈ st.tasks, t.id = a.taskId ∧ u = t.release a := by
  have released : ∀ {s₁}, s₁.tasks = st.tasks → (Statement.releaseTask a).apply s₁ = some st' →
      ∀ u ∈ st'.tasks, u.id = a.taskId → ∃ t ∈ st.tasks, t.id = a.taskId ∧ u = t.release a := by
    intro s₁ htasks ha u hu hid
    obtain ⟨t, ht, hut, hu⟩ := release_rows ha hu
    have hta : t.id = a.taskId := hut.symm.trans hid
    rw [if_pos hta] at hu
    exact ⟨t, htasks ▸ ht, hta, hu⟩
  have orphan : ∀ {c todo orphans}, nextOrphan c orphans todo ≠ .completed a := by
    intro c todo orphans
    cases todo <;> simp [nextOrphan]
  obtain ⟨pl, hp, hres⟩ := machine_cases h
  cases k
  case completeRun c =>
    cases b
    · cases hp
      rcases hres with ⟨ht, hk⟩ | ⟨-, -, hk⟩ <;> cases hk
      obtain ⟨s₁, h₁, ht⟩ := run_tx_cons.1 ht
      rw [run_tx_singleton] at ht
      exact ⟨rfl, released (close_tasks h₁).1 ht⟩
    · cases hp
      rcases hres with ⟨-, hk⟩ | ⟨-, -, hk⟩ <;> cases hk
  case completeRelease c =>
    cases hp
    rcases hres with ⟨ht, hk⟩ | ⟨ht, -, -⟩
    · cases hk
      change runTx Statement.apply [.releaseTask a] st = some st' at ht
      rw [run_tx_singleton] at ht
      exact ⟨rfl, released rfl ht⟩
    · cases ht
  all_goals
    simp only [Call.plan] at hp
    (repeat' split at hp) <;> cases hp <;> rcases hres with ⟨-, hk⟩ | ⟨-, -, hk⟩ <;>
      first
      | cases hk
      | exact absurd hk.symm orphan

/-! ## What a tick makes of a row -/

theorem advance_past_some {g : Trigger} (hk : g.kind ≠ .triggerAt) (after upto : Moment) :
    (advancePast cal g after upto).1 ≠ none := by
  unfold advancePast
  split
  · exact absurd ‹_› hk
  all_goals exact Option.some_ne_none _

/-- The occurrence of the row is too late to run. -/
def TooLate (cal : Calendar) (e : Engine) (t : TaskRecord) (now : Moment) : Prop :=
  ∃ next, t.nextRunAt = some next ∧
    (now - Clock.fromIso next > freshSlack e ∧ t.onMissed = .skip ∨
      now - Clock.fromIso next > graceWindow cal (triggerOf t) now)

/-- What a tick makes of a row, unless it is a one-shot that is running or too late to run. -/
theorem dispatch_brings {g : Engine} {now : Moment} {r : RunId} {hook : HookAnswer}
    (h : dispatch cal g t now r hook = some k) (hw : t.mode = .watch → t.triggerKind ≠ .triggerAt)
    (hone : t.triggerKind = .triggerAt → t.mode ≠ .watch →
      t.state ≠ .running ∧ ¬TooLate cal g t now) :
    t.nextRunAt ≠ none ∧ Brings k ∧ ∀ a, k.claims = some a → t.triggerKind ≠ .triggerAt →
      t.mode ≠ .watch → a.nextRunAt ≠ none := by
  have ahead : ∀ after, t.triggerKind ≠ .triggerAt →
      ((advancePast cal (triggerOf t) after now).1.map Clock.toIso) ≠ none := fun after hk hn =>
    advance_past_some (g := triggerOf t) hk after now (Option.map_eq_none_iff.1 hn)
  unfold dispatch at h
  split at h
  · cases h
  · next next hn =>
    refine ⟨hn ▸ Option.some_ne_none _, ?_⟩
    simp only at h
    split at h
    · next hr =>
      cases h
      refine ⟨ahead _ fun hk => ?_, fun a ha => (nomatch ha)⟩
      exact (hone hk fun hm => hw hm hk).1 hr
    split at h
    · cases h
    split at h
    · next hm =>
      cases h
      unfold tickWatch
      split
      · exact ⟨ahead _ (hw hm), fun a ha => (nomatch ha)⟩
      · exact ⟨trivial, fun a _ _ hm' => absurd hm hm'⟩
      · exact ⟨trivial, fun a _ _ hm' => absurd hm hm'⟩
    split at h
    · next hm hlate =>
      cases h
      refine ⟨ahead _ fun hk => ?_, fun a ha => (nomatch ha)⟩
      refine (hone hk hm).2 ⟨next, hn, hlate.imp_left fun hl => ⟨?_, hl.2⟩⟩
      simpa using hl.1
    · cases h
      refine ⟨trivial, fun a ha hk _ => ?_⟩
      cases ha
      exact ahead _ hk

theorem first_run_some {g : Trigger} {now : Moment} (h : g.kind = .triggerAt → now < g.anchorAt) :
    firstRun cal g now ≠ none := by
  unfold firstRun
  split
  · next hk => simp [h hk]
  · next hk => exact advance_past_some hk _ _

/-! ## Every run -/

/-- A step that ends no run of a one-shot below the cap, and leaves no task idle without a
schedule. A task is created with a next run, and a watch with an interval, as `schedule_in` and
`watch_in` do; no one-shot is resumed when its moment has passed, or found when it is too late;
a verdict is not written on a task that was paused since; and a reclaim idles no task whose claim
was for its last occurrence. -/
structure Kept (D : Settings) (cal : Calendar) (s : State) (e : Label) : Prop where
  oneshot : ∀ i o t, e = .finish i o → s.copies i = some t → t.triggerKind = .triggerAt →
    t.mode ≠ .watch → (failed o.status && capped D t) = true
  created : ∀ t, e = .task (.create t) → t.nextRunAt ≠ none ∧
    (t.mode = .watch → t.triggerKind ≠ .triggerAt)
  resumed : ∀ t now, e = .task (.setPaused t false now) → t.triggerKind = .triggerAt →
    now < Clock.fromIso t.anchorAt
  punctual : ∀ i q rows t r hook, e = .task (.dispatch i t r hook) → s.At i (.gotDue q rows) →
    t.triggerKind = .triggerAt → t.mode ≠ .watch →
    t.state ≠ .running ∧ ¬TooLate cal q.engine t q.now
  verdict : ∀ i k a, e = .task (.exec i) → s.At i k → verdictOf k = some a →
    a.releaseState = .idle → ∀ t ∈ s.store.tasks, t.id = a.taskId → t.state = .paused →
    t.nextRunAt ≠ none
  reclaim : ∀ i k o, e = .task (.exec i) → s.At i k → o ∈ idles k → ∀ t ∈ s.store.tasks,
    t.id = o.taskId → t.state = .running → t.nextRunAt ≠ none

/-- The task a run of which a call claims or ends. -/
def runs : Call → Option TaskId
  | .claimDue a | .claimSwap a | .claimed a => some a.taskId
  | .completeRun a | .completeRelease a => some a.taskId
  | _ => none

theorem runs_mentions {id : TaskId} (h : runs k = some id) : id ∈ k.mentions := by
  cases k <;> simp only [runs, Option.some.injEq, reduceCtorEq] at h <;> subst h <;>
    exact List.mem_singleton.2 rfl

theorem step_runs {id : TaskId} (h : k.step b st = some (st', k')) (hr : runs k' = some id) :
    runs k = some id := by
  have orphan : ∀ {c todo orphans}, runs (nextOrphan c orphans todo) = none := by
    intro c todo orphans
    cases todo <;> rfl
  obtain ⟨pl, hp, hres⟩ := machine_cases h
  replace hp := plan_issues hp
  cases hp <;>
    rcases hres with ⟨-, rfl⟩ | ⟨-, -, rfl⟩ <;>
    first
    | exact hr
    | cases hr
    | exact (nomatch orphan.symm.trans hr)

theorem step_verdict {a : CompleteArgs} (h : k.step b st = some (st', k'))
    (hv : verdictOf k' = some a) : verdictOf k = some a := by
  have orphan : ∀ {c todo orphans}, verdictOf (nextOrphan c orphans todo) = none := by
    intro c todo orphans
    cases todo <;> rfl
  obtain ⟨pl, hp, hres⟩ := machine_cases h
  replace hp := plan_issues hp
  cases hp <;>
    rcases hres with ⟨-, rfl⟩ | ⟨-, -, rfl⟩ <;>
    first
    | exact hv
    | cases hv
    | exact (nomatch orphan.symm.trans hv)

/-- A run of the task was claimed from the row. -/
structure ClaimedFrom (st : Store) (id : TaskId) (copy : TaskRecord) : Prop where
  task : copy.id = id
  next : copy.nextRunAt ≠ none
  same : ∀ u ∈ st.tasks, u.id = id → Same copy u

/-- What the calls go by, beside the rows. -/
structure Told (D : Settings) (s : State) : Prop where
  rows : ∀ t ∈ s.store.tasks, Standing t
  brings : ∀ i k, s.At i k → Brings k
  read : ∀ i q l, s.At i (.gotDue q l) → ∀ t ∈ l, (t.mode = .watch → t.triggerKind ≠ .triggerAt) ∧
    ∀ u ∈ s.store.tasks, u.id = t.id → Same t u
  claims : ∀ i k a, s.At i k → k.claims = some a → ∀ u ∈ s.store.tasks, u.id = a.taskId →
    u.triggerKind ≠ .triggerAt → u.mode ≠ .watch → a.nextRunAt ≠ none
  copies : ∀ i k id, s.At i k → runs k = some id →
    ∃ copy, s.copies i = some copy ∧ ClaimedFrom s.store id copy
  verdict : ∀ i k a, s.At i k → verdictOf k = some a → ∃ copy c o, s.copies i = some copy ∧
    a = completeArgs D copy c o ∧ (copy.triggerKind = .triggerAt → copy.mode ≠ .watch →
      (failed o.status && capped D copy) = true)

/-- What a call that begins goes by. -/
structure Begun (D : Settings) (s : State) (copy : Option TaskRecord) (k : Call) : Prop where
  brings : Brings k
  read : ∀ q l, k ≠ .gotDue q l
  claims : ∀ a, k.claims = some a → ∀ u ∈ s.store.tasks, u.id = a.taskId →
    u.triggerKind ≠ .triggerAt → u.mode ≠ .watch → a.nextRunAt ≠ none
  copies : ∀ id, runs k = some id → ∃ t, copy = some t ∧ ClaimedFrom s.store id t
  verdict : ∀ a, verdictOf k = some a → ∃ t c o, copy = some t ∧ a = completeArgs D t c o ∧
    (t.triggerKind = .triggerAt → t.mode ≠ .watch → (failed o.status && capped D t) = true)

theorem Told.dispatch (h : Told D s) {i : Nat} {q : Tick} {l : List TaskRecord} {r : RunId}
    {hook : HookAnswer} (hC : Kept D cal s (.task (.dispatch i t r hook)))
    (hi : s.At i (.gotDue q l)) (ht : t ∈ l)
    (hd : dispatch cal q.engine t q.now r hook = some k) : Begun D s (some t) k := by
  obtain ⟨hwatch, hsame⟩ := h.read i q l hi t ht
  obtain ⟨hnext, hbrings, hclaims⟩ :=
    dispatch_brings hd hwatch (hC.punctual i q l t r hook rfl hi)
  refine ⟨hbrings, ?_, fun a ha u hu hid hk hw => ?_, fun id hr => ?_, fun a ha => ?_⟩
  · rintro q l rfl
    cases dispatch_spec hd
  · have hut : u.id = t.id := by
      cases dispatch_spec hd with
      | claim htask =>
        cases ha
        exact hid.trans htask
      | _ => cases ha
    have hs := hsame u hu hut
    exact hclaims a ha (hs.kind ▸ hk) (hs.mode ▸ hw)
  · cases dispatch_spec hd with
    | claim htask =>
      cases hr
      exact ⟨t, rfl, htask.symm, hnext, fun u hu hid => hsame u hu (hid.trans htask)⟩
    | _ => cases hr
  · cases dispatch_spec hd <;> cases ha

theorem Told.begun (h : Told D s) {l : Tasks.Label} {ids : List Nat} (hl : issue D s e = some l)
    (hC : Kept D cal s e) (hb : Begins cal s.config l k ids) : Begun D s (copyOf s l) k := by
  have quiet : Brings k → (∀ q l, k ≠ .gotDue q l) → k.claims = none → runs k = none →
      verdictOf k = none → Begun D s (copyOf s l) k := fun hk hq hc hr hv =>
    ⟨hk, hq, fun a ha => (by cases hc.symm.trans ha), fun id hi => (by cases hr.symm.trans hi),
      fun a ha => (by cases hv.symm.trans ha)⟩
  rcases issue_cases hl with ⟨rfl, hne⟩ | ⟨i, o, c, copy, rfl, hi, hcopy, rfl⟩
  · cases hb with
    | dispatch hi ht _ _ _ hd => exact h.dispatch hC hi ht hd
    | finish => exact absurd rfl (hne _ _)
    | @create t _ hfresh =>
      obtain ⟨hnext, hwatch⟩ := hC.created t rfl
      exact quiet ⟨fun _ => hnext, fun _ _ _ => hnext, hwatch⟩ (by simp) rfl rfl rfl
    | @setPaused t paused now =>
      refine quiet (fun hp hn => ?_) (by simp [adminSetPaused]) rfl rfl rfl
      subst hp
      exact first_run_some (g := triggerOf t) (hC.resumed t now rfl) (Option.map_eq_none_iff.1 hn)
    | _ => exact quiet trivial (by simp) rfl rfl rfl
  · cases hb with
    | finish hi' _ htask =>
      cases hi.eq hi'
      obtain ⟨copy', hcopy', hfrom⟩ := h.copies i _ _ hi rfl
      cases hcopy.symm.trans hcopy'
      refine ⟨trivial, by simp, fun a ha => (by cases ha), fun id hr => ?_, fun a ha => ?_⟩
      · cases hr
        exact ⟨copy, hcopy, hfrom⟩
      · cases ha
        exact ⟨copy, c, o, hcopy, rfl, hC.oneshot i o copy rfl hcopy⟩

/-- Where a call has begun. -/
theorem Told.start (h : Told D s) {copy : Option TaskRecord} {ids : List Nat}
    (hk : Begun D s copy k) : Told D { s with
      config := ⟨s.config.pool.start k, ids ++ s.config.minted, s.config.tally⟩
      copies := Function.update s.copies s.config.pool.calls.length copy } := by
  have hold : ∀ {i c}, s.At i c → Function.update s.copies s.config.pool.calls.length copy i =
      s.copies i := fun hi => Function.update_of_ne hi.lt.ne _ _
  have hnew : ∀ {i}, i = s.config.pool.calls.length →
      Function.update s.copies s.config.pool.calls.length copy i = copy := by
    rintro i rfl
    exact Function.update_self _ _ _
  refine ⟨h.rows, fun i c hi => ?_, fun i q rows hi => ?_, fun i c a hi => ?_,
    fun i c id hi hr => ?_, fun i c a hi hv => ?_⟩
  all_goals rcases Pool.at_start.1 hi with hi | ⟨he, hc⟩
  · exact h.brings i c hi
  · exact hc ▸ hk.brings
  · exact h.read i q rows hi
  · exact absurd hc.symm (hk.read q rows)
  · exact h.claims i c a hi
  · exact hc ▸ hk.claims a
  · obtain ⟨t, ht, hfrom⟩ := h.copies i c id hi hr
    exact ⟨t, (hold hi).trans ht, hfrom⟩
  · obtain ⟨t, ht, hfrom⟩ := hk.copies id (hc ▸ hr)
    exact ⟨t, (hnew he).trans ht, hfrom⟩
  · obtain ⟨t, r, o, ht, hto⟩ := h.verdict i c a hi hv
    exact ⟨t, r, o, (hold hi).trans ht, hto⟩
  · obtain ⟨t, r, o, ht, hto⟩ := hk.verdict a (hc ▸ hv)
    exact ⟨t, r, o, (hnew he).trans ht, hto⟩

theorem runs_of_verdict {a : CompleteArgs} (h : verdictOf k = some a) :
    runs k = some a.taskId := by
  cases k <;> simp only [verdictOf, Option.some.injEq, reduceCtorEq] at h <;> rw [h] <;> rfl

/-- The verdict of a call leaves the rows of its task standing. -/
theorem Told.releases (h : Told D s) {i : Nat} (hC : Kept D cal s (.task (.exec i)))
    (hk : s.At i k) {a : CompleteArgs} (hv : verdictOf k = some a) (ht : t ∈ s.store.tasks)
    (hid : t.id = a.taskId) : Releases a t := by
  obtain ⟨copy, c, o, hcopy, rfl, hone⟩ := h.verdict i k a hk hv
  obtain ⟨copy', hcopy', hfrom⟩ := h.copies i k _ hk (runs_of_verdict hv)
  cases hcopy.symm.trans hcopy'
  have hsame := hfrom.same t ht hid
  have hnext : copy.nextRunAt.isSome = true := Option.isSome_iff_ne_none.2 hfrom.next
  refine ⟨fun hidle => ?_, fun hdone => ?_⟩
  · have hp := hC.verdict i k _ rfl hk hv hidle t ht hid
    simp only [completeArgs, release, releasedState, hnext, if_true, final, beq_iff_eq] at hidle
    split at hidle
    · cases hidle
    · next hcap =>
      split at hidle
      · cases hidle
      · next hw =>
        rw [hsame.kind, hsame.mode]
        exact ⟨fun hk => hcap (hone hk hw), hw, hp⟩
  · simp only [completeArgs, release, releasedState, hnext, if_true, final, beq_iff_eq] at hdone
    split at hdone
    · cases hdone
    · split at hdone
      · next hw => exact hsame.mode.trans hw
      · cases hdone

/-- A transaction of a call. -/
theorem Told.exec (h : Told D s) (hr : (Tasks.lts cal b).Reach Lts.Any s.config) {i : Nat}
    (hC : Kept D cal s (.task (.exec i))) (hk : s.At i k)
    (hm : k.step b s.store = some (st', k')) {tally : List RunId} :
    Told D (moved s i k st' k' tally) := by
  have before : ∀ {j c id u}, s.At j c → (∀ t, c ≠ .createTask t) → id ∈ c.mentions →
      u ∈ st'.tasks → u.id = id → ∃ t ∈ s.store.tasks, t.id = id ∧ Same t u :=
    fun hj hne hid hu hue => row_before hr hk hm hj hne hid hu hue
  have hrows := step_standing hm h.rows (h.brings i k hk) (fun a => h.claims i k a hk)
    (fun a hv t ht hid => h.releases hC hk hv ht hid) (fun o ho => hC.reclaim i k o rfl hk ho)
  refine ⟨hrows, fun j c hj => ?_, fun j q l hj t ht => ?_, fun j c a hj hc u hu hid hkind hw => ?_,
    fun j c id hj hruns => ?_, fun j c a hj hv => ?_⟩
  · rcases (moved_at hk).1 hj with ⟨-, rfl⟩ | ⟨-, hj⟩
    · exact step_brings hm (h.brings i k hk)
    · exact h.brings j c hj
  · rcases (moved_at hk).1 hj with ⟨-, rfl⟩ | ⟨-, hj⟩
    · obtain ⟨rfl, hread⟩ := step_reads hm
      exact ⟨(h.rows t (hread t ht)).watch, fun u hu hid =>
        task_unique hu (hread t ht) hid ▸ Same.refl u⟩
    · obtain ⟨hwatch, hsame⟩ := h.read j q l hj t ht
      refine ⟨hwatch, fun u hu hid => ?_⟩
      obtain ⟨v, hv, hve, hvu⟩ := before hj (by simp) (List.mem_map_of_mem ht) hu hid
      exact (hsame v hv hve).trans hvu
  · have key : ∀ {j c}, s.At j c → c.claims = some a → a.nextRunAt ≠ none := by
      intro j c hj hc
      have hne : ∀ t, c ≠ .createTask t := by
        rintro t rfl
        cases hc
      obtain ⟨v, hv, hve, hvu⟩ := before hj hne (claims_mentions hc) hu hid
      exact h.claims j c a hj hc v hv hve (hvu.kind ▸ hkind) (hvu.mode ▸ hw)
    rcases (moved_at hk).1 hj with ⟨-, rfl⟩ | ⟨-, hj⟩
    · exact key hk (step_claims hm hc)
    · exact key hj hc
  · have key : ∀ {c}, s.At j c → runs c = some id →
        ∃ copy, s.copies j = some copy ∧ ClaimedFrom st' id copy := by
      intro c hj hruns
      obtain ⟨copy, hcopy, hfrom⟩ := h.copies j c id hj hruns
      refine ⟨copy, hcopy, hfrom.task, hfrom.next, fun u hu hid => ?_⟩
      have hne : ∀ t, c ≠ .createTask t := by
        rintro t rfl
        cases hruns
      obtain ⟨v, hv, hve, hvu⟩ := before hj hne (runs_mentions hruns) hu hid
      exact (hfrom.same v hv hve).trans hvu
    rcases (moved_at hk).1 hj with ⟨rfl, rfl⟩ | ⟨-, hj⟩
    · exact key hk (step_runs hm hruns)
    · exact key hj hruns
  · rcases (moved_at hk).1 hj with ⟨rfl, rfl⟩ | ⟨-, hj⟩
    · exact h.verdict j k a hk (step_verdict hm hv)
    · exact h.verdict j c a hj hv

theorem Told.crash (h : Told D s) {i : Nat} :
    Told D { s with config := { s.config with pool := s.config.pool.kill i } } :=
  ⟨h.rows, fun j c hj => h.brings j c (Pool.at_kill.1 hj).2,
    fun j q l hj => h.read j q l (Pool.at_kill.1 hj).2,
    fun j c a hj => h.claims j c a (Pool.at_kill.1 hj).2,
    fun j c id hj => h.copies j c id (Pool.at_kill.1 hj).2,
    fun j c a hj => h.verdict j c a (Pool.at_kill.1 hj).2⟩

theorem told (h : (lts D cal b).Reach (Kept D cal) s) : Told D s := by
  refine h.inv_using (fun s h0 => ?_) fun s e s' hr ih hC hn => ?_
  · cases h0
    have nobody : ∀ {i : Nat} {k : Call}, ¬Pool.At (⟨⟨.empty, .empty⟩, []⟩ : Pool Store Call) i k :=
      fun hi => Nat.not_lt_zero _ hi.lt
    exact ⟨fun t ht => absurd ht List.not_mem_nil, fun i k hi => absurd hi nobody,
      fun i q l hi => absurd hi nobody, fun i k a hi => absurd hi nobody,
      fun i k id hi => absurd hi nobody, fun i k a hi => absurd hi nobody⟩
  obtain ⟨l, config, hl, hconfig, rfl⟩ := next_inv hn
  cases next_step hconfig with
  | start hb =>
    rw [follow_start hb]
    exact ih.start (ih.begun hl hC (begins_spec hb))
  | exec hk hm =>
    rw [follow_exec hk]
    rcases issue_cases hl with ⟨rfl, -⟩ | ⟨_, _, _, _, -, -, -, he⟩
    · exact ih.exec (reach_config hr) hC hk hm
    · cases he
  | crash => exact ih.crash

/-- Below the cap a run leaves its task idle, whatever its trigger: the row read before the claim
had a next run. -/
theorem release_idle {status : RunStatus} (hn : t.nextRunAt ≠ none) (hw : t.mode ≠ .watch)
    (hc : (failed status && capped D t) = false) : release D t status = .idle := by
  have hn : t.nextRunAt.isSome = true := Option.isSome_iff_ne_none.2 hn
  simp [release, releasedState, final, hc, hw, hn]

/-- The task is done and has no next run, or it is recurring, idle, and has one. -/
def Ended (t : TaskRecord) : Prop :=
  if t.triggerKind = .triggerAt then t.state = .done ∧ t.nextRunAt = none
  else t.state = .idle ∧ t.nextRunAt ≠ none

instance (t : TaskRecord) : Decidable (Ended t) := by
  unfold Ended
  infer_instance

/-- After a step, every idle task has a next run; and where the step has stored the verdict on a run
below the cap, of no watch, its task has ended. -/
structure EndsTold (D : Settings) (e : Label) (s' : State) : Prop where
  idle : ∀ t ∈ s'.store.tasks, t.state = .idle → t.nextRunAt ≠ none
  ended : ∀ i a copy, e = .task (.exec i) → s'.At i (.completed a) → s'.copies i = some copy →
    (failed a.status && capped D copy) = false →
    ∀ t ∈ s'.store.tasks, t.id = a.taskId → t.mode ≠ .watch → Ended t

/-- A one-shot ends done, a recurring task idle with its next run, and no idle task is without one,
in every run in which no one-shot ends below the cap and nothing else leaves a task idle without a
schedule. -/
theorem ends_told (h : (lts D cal b).Reach (Kept D cal) s) (hC : Kept D cal s e)
    (hn : (lts D cal b).next s e = some s') : EndsTold D e s' := by
  have ht' := told (h.step hC hn)
  refine ⟨fun t ht => (ht'.rows t ht).idle, fun i a copy he hi hcopy hcap u hu hid hw => ?_⟩
  subst he
  have hn' : next D cal b s (.task (.exec i)) = some s' := hn
  obtain ⟨l, config, hl, hconfig, rfl⟩ := next_inv hn'
  rcases issue_cases hl with ⟨he, -⟩ | ⟨_, _, _, _, he, -, -, -⟩
  rotate_left
  · cases he
  cases he
  cases next_step hconfig with
  | start hb => cases hb
  | exec hk hm =>
    rw [follow_exec hk] at hi hcopy hu
    rcases (moved_at hk).1 hi with ⟨-, hdone⟩ | ⟨hne, -⟩
    rotate_left
    · exact absurd rfl hne
    subst hdone
    obtain ⟨hv, hrows⟩ := step_completed hm
    obtain ⟨t, ht, htid, rfl⟩ := hrows u hu hid
    have htold := told h
    obtain ⟨copy', c, o, hcopy', rfl, hone⟩ := htold.verdict i _ a hk hv
    cases hcopy'.symm.trans hcopy
    obtain ⟨copy', hcopy', hfrom⟩ := htold.copies i _ _ hk (runs_of_verdict hv)
    cases hcopy'.symm.trans hcopy
    have hsame := hfrom.same t ht htid
    have hwc : copy.mode ≠ .watch := fun hm => hw (hsame.mode.trans hm)
    have hidle : (t.release (completeArgs D copy c o)).state = .idle :=
      release_idle hfrom.next hwc hcap
    unfold Ended
    split
    · next hat =>
      have := hone (hsame.kind.symm.trans hat) hwc
      rw [show o.status = (completeArgs D copy c o).status from rfl, hcap] at this
      cases this
    · exact ⟨hidle, (ht'.rows _ (follow_exec hk ▸ hu)).idle hidle⟩

namespace Sample

open Tasks.Sample (task engine calendar)

theorem ended : RunStatus.ok ≠ .running := by decide

def ok : Outcome := ⟨.ok, 90, 30000, "", 5, 0, ended⟩

/-- A one-shot at the first minute. -/
def once : TaskRecord :=
  { task with triggerKind := .triggerAt, intervalS := 0, anchorAt := 60, interval := nofun }

/-- The check of `Kept`, for runs of recurring tasks that nothing pauses or reclaims. -/
def keeps (s : State) : Label → Bool
  | .finish i _ => (s.copies i).all (·.triggerKind != .triggerAt)
  | .task (.create t) => t.nextRunAt.isSome && t.triggerKind != .triggerAt
  | .task (.setPaused ..) => false
  | .task (.dispatch _ t _ _) => t.triggerKind != .triggerAt
  | .task (.exec i) =>
    match s.config.pool.calls[i]? with
    | some (some k) => (idles k).isEmpty && s.store.tasks.rows.all (·.state != .paused)
    | _ => false
  | _ => true

theorem kept_of_keeps (h : keeps s e = true) : Kept settings calendar s e := by
  refine ⟨fun i o t he hi hk _ => ?_, fun t he => ?_, fun t now he hk => ?_,
    fun i q rows t r hook he _ hk _ => ?_, fun i k a he hi _ _ t ht _ hp => ?_,
    fun i k o he hi ho => ?_⟩ <;> subst he
  · simp [keeps, hi, hk] at h
  · simp only [keeps, Bool.and_eq_true, Option.isSome_iff_ne_none, bne_iff_ne, ne_eq] at h
    exact ⟨h.1, fun _ => h.2⟩
  · cases h
  · simp [keeps, hk] at h
  · have hi' := hi
    unfold State.At Pool.At at hi'
    simp only [keeps, hi', Bool.and_eq_true, List.all_eq_true, bne_iff_ne] at h
    exact absurd hp (h.2 t ht)
  · have hi' := hi
    unfold State.At Pool.At at hi'
    simp only [keeps, hi', Bool.and_eq_true, List.isEmpty_iff] at h
    rw [h.1] at ho
    cases ho

/-- The task is claimed, and its run ends well but for the last write. -/
def ending (task : TaskRecord) : List Label :=
  ([.create task, .exec 0, .tick engine (60 * Clock.second), .exec 1, .dispatch 1 task 2 .raised,
    .exec 2] : List Tasks.Label).map .task ++ [.finish 2 ok]

end Sample

/-- `ends_told` over the run of a task every minute. -/
theorem ends_told_run : ∃ s s' t, t ∈ s'.store.tasks ∧ t.triggerKind = .triggerEvery ∧
    t.lastStatus = some .ok ∧ (lts Sample.settings Tasks.Sample.calendar .sqlite).next s
      (.task (.exec 3)) = some s' ∧ EndsTold Sample.settings (.task (.exec 3)) s' := by
  have h : ((lts Sample.settings Tasks.Sample.calendar .sqlite).check Sample.keeps Sample.start
      (Sample.ending Tasks.Sample.task)).any (fun s => Sample.keeps s (.task (.exec 3)) &&
        ((lts Sample.settings Tasks.Sample.calendar .sqlite).next s (.task (.exec 3))).any fun s' =>
          s'.store.tasks.rows.any fun t => decide (t.triggerKind = .triggerEvery ∧
            t.lastStatus = some .ok)) = true := by decide
  obtain ⟨s, hs, h⟩ := (Option.any_eq_true _ _).1 h
  obtain ⟨hk, h⟩ := Bool.and_eq_true_iff.1 h
  obtain ⟨s', hn, h⟩ := (Option.any_eq_true _ _).1 h
  obtain ⟨t, ht, h⟩ := List.any_eq_true.1 h
  obtain ⟨hkind, hlast⟩ := of_decide_eq_true h
  have hr := Lts.reach_of_check (L := lts Sample.settings Tasks.Sample.calendar .sqlite)
    (fun _ _ => Sample.kept_of_keeps) (s := Sample.start) rfl hs
  exact ⟨s, s', t, ht, hkind, hlast, hn, ends_told hr (Sample.kept_of_keeps hk) hn⟩

/-- The one run of a one-shot ends well, and leaves it idle with no next run. -/
theorem oneshot_left_idle : ∃ s s' t, (lts Sample.settings Tasks.Sample.calendar .sqlite).Reach
      Lts.Any s ∧ (lts Sample.settings Tasks.Sample.calendar .sqlite).next s (.task (.exec 3)) =
      some s' ∧ t ∈ s'.store.tasks ∧ t.triggerKind = .triggerAt ∧ t.mode = .turn ∧
    t.lastStatus = some .ok ∧ t.state = .idle ∧ t.nextRunAt = none ∧
    ¬EndsTold Sample.settings (.task (.exec 3)) s' := by
  have h : ((lts Sample.settings Tasks.Sample.calendar .sqlite).check (fun _ _ => true) Sample.start
      (Sample.ending Sample.once)).any (fun s =>
        ((lts Sample.settings Tasks.Sample.calendar .sqlite).next s (.task (.exec 3))).any fun s' =>
          s'.store.tasks.rows.any fun t => decide (t.triggerKind = .triggerAt ∧ t.mode = .turn ∧
            t.lastStatus = some .ok ∧ t.state = .idle ∧ t.nextRunAt = none)) = true := by decide
  obtain ⟨s, hs, h⟩ := (Option.any_eq_true _ _).1 h
  obtain ⟨s', hn, h⟩ := (Option.any_eq_true _ _).1 h
  obtain ⟨t, ht, h⟩ := List.any_eq_true.1 h
  obtain ⟨hkind, hmode, hlast, hidle, hnext⟩ := of_decide_eq_true h
  have hr := Lts.reach_of_check (L := lts Sample.settings Tasks.Sample.calendar .sqlite)
    (C := Lts.Any) (fun _ _ _ => trivial) (s := Sample.start) rfl hs
  exact ⟨s, s', t, hr, hn, ht, hkind, hmode, hlast, hidle, hnext,
    fun hends => hends.idle t ht hidle hnext⟩

end Finish
