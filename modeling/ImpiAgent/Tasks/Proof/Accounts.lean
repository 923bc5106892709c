import ImpiAgent.Tasks.Proof.Schedule

/-!
# Every occurrence of an interval task has one row

`accounted`: the run rows of an interval task, in order of `scheduled_at`, partition its occurrences
from the first it was scheduled for to the stored `next_run_at`, each row standing for `coalesced`
of them. That is so while no admin touches the task, no row of it is pruned and, on MongoDB, no
process is lost between the two writes of a claim or a skip. A watch is no such task: a check that
finds nothing moves the schedule and leaves no row (`unaccounted`).

`dispatch_spans` says of one dispatch what it takes from the schedule and what it puts in its place,
`on_grid` that all schedules in the store and in the hands of calls are occurrences. `Book n` is the
ledger of a task that is scheduled for its `n`-th occurrence: it stays with `n` but where a claim or
a skip wins, and the row it brought then closes the gap up to the new one.
-/

namespace Tasks

open Triggers Scheduler

variable {cal : Calendar} {b : Backend} {p p' : Config} {e : Label} {s s' : Store}

/-- The occurrence `anchor + k * period`. -/
def TaskRecord.occurrenceAt (t : TaskRecord) (k : Int) : Time := t.anchorAt + k * t.intervalS

/-- What `schedule_in` makes of `every …`. -/
structure Planned (cal : Calendar) (t : TaskRecord) : Prop where
  kind : t.triggerKind = .triggerEvery
  mode : t.mode ≠ .watch
  first : ∃ now, t.nextRunAt = (firstRun cal (triggerOf t) now).map Clock.toIso ∧
    t.dueAt = (withJitter (firstRun cal (triggerOf t) now) t.jitterS).map Clock.toIso

/-- The entries `(scheduled_at, coalesced)` stand for the occurrences from the `k`-th up to the
`k'`-th, one after the other. -/
def Covers (t : TaskRecord) : Int → List (Time × Nat) → Int → Prop
  | k, [], k' => k = k'
  | k, x :: l, k' => x.1 = t.occurrenceAt k ∧ 0 < x.2 ∧ Covers t (k + x.2) l k'

/-- A row of the task. -/
def Entry (id : TaskId) (s : Store) (x : Time × Nat) : Prop :=
  ∃ r ∈ s.runs, r.taskId = id ∧ (r.scheduledAt, r.coalesced) = x

/-- No admin touches the task created as `t₀`. -/
structure Alone (t₀ : TaskRecord) (e : Label) : Prop where
  create : ∀ t, e = .create t → t.id = t₀.id → t = t₀
  delete : e ≠ .delete t₀.id
  paused : ∀ found paused now, e = .setPaused found paused now → found.id ≠ t₀.id
  runNow : ∀ now, e ≠ .runNow t₀.id now

/-- Moreover its rows are not pruned, and no call for it is lost between its two writes. -/
structure Untouched (b : Backend) (t₀ : TaskRecord) (p : Config) (e : Label) : Prop
    extends Alone t₀ e where
  prune : ∀ m, Keeps b (t₀.id, m) p e
  crash : ∀ i k r, e = .crash i → p.pool.At i k → k.brings = some r → r.taskId = t₀.id →
    k.untaken = none

variable {t₀ : TaskRecord}

/-! ## Occurrences -/

theorem occurrence_lt (hi : 0 < t₀.intervalS) {k k' : Int} :
    t₀.occurrenceAt k < t₀.occurrenceAt k' ↔ k < k' := by
  unfold TaskRecord.occurrenceAt
  have hi : (0 : Int) < t₀.intervalS := by lia
  constructor
  · intro h
    by_contra hle
    have := Int.mul_le_mul_of_nonneg_right (Int.not_lt.1 hle) hi.le
    lia
  · intro h
    have := Int.mul_lt_mul_of_pos_right h hi
    lia

theorem occurrence_inj (hi : 0 < t₀.intervalS) {k k' : Int}
    (h : t₀.occurrenceAt k = t₀.occurrenceAt k') : k = k' := by
  rcases Int.lt_trichotomy k k' with hlt | rfl | hlt
  · exact absurd h (Int.ne_of_lt ((occurrence_lt hi).2 hlt))
  · rfl
  · exact absurd h.symm (Int.ne_of_lt ((occurrence_lt hi).2 hlt))

theorem Covers.snoc {k k' : Int} {l : List (Time × Nat)} (h : Covers t₀ k l k') {c : Nat}
    (hc : 0 < c) : Covers t₀ k (l ++ [(t₀.occurrenceAt k', c)]) (k' + c) := by
  induction l generalizing k with
  | nil =>
    cases h
    exact ⟨rfl, hc, rfl⟩
  | cons x l ih => exact ⟨h.1, h.2.1, ih h.2.2⟩

theorem Covers.le {k k' : Int} {l : List (Time × Nat)} (h : Covers t₀ k l k') : k ≤ k' := by
  induction l generalizing k with
  | nil => exact Int.le_of_eq h
  | cons x l ih =>
    have := ih h.2.2
    lia

theorem Covers.ge {k k' : Int} {l : List (Time × Nat)} (hi : 0 < t₀.intervalS)
    (h : Covers t₀ k l k') : ∀ x ∈ l, t₀.occurrenceAt k ≤ x.1 := by
  induction l generalizing k with
  | nil => nofun
  | cons y l ih =>
    intro x hx
    rcases List.mem_cons.1 hx with rfl | hx
    · exact Int.le_of_eq h.1.symm
    · have := ih h.2.2 x hx
      have := (occurrence_lt hi).2 (Int.lt_add_of_pos_right k (Int.natCast_pos.2 h.2.1))
      lia

/-- The entries come in the order of their occurrences. -/
theorem Covers.sorted {k k' : Int} {l : List (Time × Nat)} (hi : 0 < t₀.intervalS)
    (h : Covers t₀ k l k') : l.Pairwise fun x y => x.1 < y.1 := by
  induction l generalizing k with
  | nil => exact .nil
  | cons x l ih =>
    refine .cons (fun y hy => ?_) (ih h.2.2)
    have := h.2.2.ge hi y hy
    have := (occurrence_lt hi).2 (Int.lt_add_of_pos_right k (Int.natCast_pos.2 h.2.1))
    have := h.1
    lia

/-! ## One dispatch -/

/-- What no statement changes of a task. -/
structure Same (t u : TaskRecord) : Prop where
  kind : u.triggerKind = t.triggerKind
  mode : u.mode = t.mode
  anchor : u.anchorAt = t.anchorAt
  interval : u.intervalS = t.intervalS
  jitter : u.jitterS = t.jitterS

theorem Same.refl (t : TaskRecord) : Same t t := ⟨rfl, rfl, rfl, rfl, rfl⟩

theorem Same.trans {t u v : TaskRecord} (h : Same t u) (h' : Same u v) : Same t v :=
  ⟨h'.kind.trans h.kind, h'.mode.trans h.mode, h'.anchor.trans h.anchor,
    h'.interval.trans h.interval, h'.jitter.trans h.jitter⟩

/-- The schedule is the `k`-th occurrence. -/
structure AtSlot (t₀ : TaskRecord) (k : Int) (next due : Option Time) : Prop where
  nonneg : 0 ≤ k
  next : next = some (t₀.occurrenceAt k)
  due : due = some (t₀.occurrenceAt k + t₀.jitterS)

theorem AtSlot.unique (hi : 0 < t₀.intervalS) {k k' : Int} {next due : Option Time}
    (h : AtSlot t₀ k next due) (h' : AtSlot t₀ k' next due) : k = k' :=
  occurrence_inj hi (Option.some.inj (h.next.symm.trans h'.next))

/-- The row stands for the occurrences between the schedule the call read and the one it writes. -/
structure Spans (t₀ : TaskRecord) (k : Int) (o : Opening) : Prop where
  nonneg : 0 ≤ k
  sched : o.run.scheduledAt = t₀.occurrenceAt k
  seen : o.seenDueAt = some (t₀.occurrenceAt k + t₀.jitterS)
  pos : 0 < o.run.coalesced
  written : AtSlot t₀ (k + o.run.coalesced) o.nextRunAt o.dueAt

theorem Same.occurrence {t : TaskRecord} (h : Same t₀ t) (k : Int) :
    t.occurrenceAt k = t₀.occurrenceAt k := by
  unfold TaskRecord.occurrenceAt
  rw [h.anchor, h.interval]

theorem occurrence_moment {t : TaskRecord} {k : Int} :
    Clock.fromIso (t.occurrenceAt k) =
      Clock.fromIso t.anchorAt + k * (t.intervalS * Clock.second) := by
  simp only [Clock.fromIso, TaskRecord.occurrenceAt]
  ring

theorem index_of_occurrence {anchor m : Moment} {period k : Int} (hp : 0 < period) (hk : 0 ≤ k)
    (hm : anchor + k * period ≤ m) : k ≤ indexOf anchor period m := by
  have := Int.mul_nonneg hk hp.le
  unfold indexOf
  rw [if_neg (by lia)]
  exact (Int.le_ediv_iff_mul_le hp).2 (by lia)

theorem index_of_exact {anchor : Moment} {period k : Int} (hp : 0 < period) (hk : 0 ≤ k) :
    indexOf anchor period (anchor + k * period) = k := by
  have := Int.mul_nonneg hk hp.le
  unfold indexOf
  rw [if_neg (by lia), show anchor + k * period - anchor = k * period by ring,
    Int.mul_ediv_cancel _ hp.ne']

theorem period_pos {t : TaskRecord} (hkind : t.triggerKind = .triggerEvery) :
    0 < (t.intervalS : Int) * Clock.second := by
  have := t.interval hkind
  have := Clock.second_pos
  positivity

/-- `advance_past` of an interval, from its `k`-th occurrence: the next one lies behind as many as
it counts. -/
theorem advance_past_every (cal : Calendar) {t : TaskRecord} (hkind : t.triggerKind = .triggerEvery) {k : Int}
    (hk : 0 ≤ k) {now : Moment} (hnow : Clock.fromIso (t.occurrenceAt k) ≤ now) :
    ∃ c : Nat, advancePast cal (triggerOf t) (Clock.fromIso (t.occurrenceAt k)) now =
      (some (Clock.fromIso (t.occurrenceAt (k + (c + 1)))), (c : Int)) := by
  have hp := period_pos hkind
  rw [occurrence_moment] at hnow
  have hle := index_of_occurrence hp hk hnow
  refine ⟨(indexOf (Clock.fromIso t.anchorAt) (t.intervalS * Clock.second) now - k).toNat, ?_⟩
  simp only [advancePast, triggerOf, hkind, advanceInterval, Prod.map, id_eq, occurrence_moment,
    index_of_exact hp hk, Prod.mk.injEq, Option.some.injEq]
  rw [Int.toNat_of_nonneg (by lia)]
  exact ⟨by ring, by lia⟩

/-- The pair `(next_run_at, due_at)` of the `k`-th occurrence. -/
theorem at_slot_of_moment (t₀ : TaskRecord) {k : Int} (hk : 0 ≤ k) :
    AtSlot t₀ k ((some (Clock.fromIso (t₀.occurrenceAt k))).map Clock.toIso)
      ((withJitter (some (Clock.fromIso (t₀.occurrenceAt k))) t₀.jitterS).map Clock.toIso) := by
  refine ⟨hk, congrArg some (Clock.toIso_fromIso _), ?_⟩
  rw [withJitter, Option.map_some, Option.map_some, Option.some.injEq]
  have hsum : Clock.fromIso (t₀.occurrenceAt k) + t₀.jitterS * Clock.second =
      Clock.fromIso (t₀.occurrenceAt k + t₀.jitterS) := by
    simp only [Clock.fromIso]
    ring
  rw [hsum, Clock.toIso_fromIso]

/-- The first occurrence `schedule_in` computes. -/
theorem Planned.slot (h : Planned cal t₀) : ∃ k, AtSlot t₀ k t₀.nextRunAt t₀.dueAt := by
  obtain ⟨now, hnext, hdue⟩ := h.first
  have hp := period_pos h.kind
  have hindex : -1 ≤ indexOf (Clock.fromIso t₀.anchorAt) (t₀.intervalS * Clock.second) now := by
    unfold indexOf
    split
    · exact Int.le_refl _
    · have := Int.ediv_nonneg (Int.not_lt.1 ‹_›) hp.le
      lia
  have hfirst : firstRun cal (triggerOf t₀) now = some (Clock.fromIso (t₀.occurrenceAt
      (indexOf (Clock.fromIso t₀.anchorAt) (t₀.intervalS * Clock.second) now + 1))) := by
    simp only [firstRun, advancePast, triggerOf, h.kind, advanceInterval, Prod.map,
      occurrence_moment]
  rw [hfirst] at hnext hdue
  rw [hnext, hdue]
  exact ⟨_, at_slot_of_moment t₀ (by lia)⟩

/-- What a dispatch of the task takes from its schedule and what it puts in its place. -/
theorem dispatch_spans (hkind : t₀.triggerKind = .triggerEvery) (hmode : t₀.mode ≠ .watch)
    {e : Engine} {t : TaskRecord} (hs : Same t₀ t) {k : Int}
    (hat : AtSlot t₀ k t.nextRunAt t.dueAt) {now : Moment} {due : Time} (hdue : t.dueAt = some due)
    (hle : Clock.fromIso due ≤ now) {r : RunId} {hook : HookAnswer} {c : Call}
    (h : dispatch cal e t now r hook = some c) :
    ∃ o, c.opens = some o ∧ o.taskId = t.id ∧ Spans t₀ k o := by
  have hnow : Clock.fromIso (t.occurrenceAt k) ≤ now := by
    have hd : due = t₀.occurrenceAt k + t₀.jitterS := Option.some.inj (hdue.symm.trans hat.due)
    have := Clock.second_pos
    refine Int.le_trans ?_ hle
    rw [hs.occurrence, hd]
    simp only [Clock.fromIso]
    exact Int.mul_le_mul_of_nonneg_right (by lia) this.le
  have hkind' : t.triggerKind = .triggerEvery := hs.kind.trans hkind
  obtain ⟨n, hadv⟩ := advance_past_every cal hkind' hat.nonneg hnow
  rw [hs.occurrence, hs.occurrence] at hadv
  have hcount : (max 1 ((n : Int) + 1)).toNat = n + 1 := by lia
  -- the claim and the two skips are given the same occurrence, count and pair
  have spans : ∀ o : Opening, o.run.scheduledAt = t₀.occurrenceAt k → o.seenDueAt = t.dueAt →
      o.run.coalesced = n + 1 →
      o.nextRunAt = (some (Clock.fromIso (t₀.occurrenceAt (k + (n + 1))))).map Clock.toIso →
      o.dueAt = (withJitter (some (Clock.fromIso (t₀.occurrenceAt (k + (n + 1)))))
        t.jitterS).map Clock.toIso → Spans t₀ k o := by
    intro o h1 h2 h3 h4 h5
    refine ⟨hat.nonneg, h1, h2.trans hat.due, by lia, ?_⟩
    have hslot := at_slot_of_moment t₀ (k := k + (n + 1)) (by have := hat.nonneg; lia)
    rw [hs.jitter] at h5
    rw [← h4, ← h5] at hslot
    rw [h3]
    exact_mod_cast hslot
  have hmode' : t.mode ≠ .watch := fun hw => hmode (hs.mode.symm.trans hw)
  unfold dispatch at h
  rw [hat.next] at h
  simp only [hadv, if_neg hmode'] at h
  split at h
  · cases h
    exact ⟨_, rfl, rfl, spans _ newRun_scheduledAt rfl hcount rfl rfl⟩
  split at h
  · cases h
  split at h
  · cases h
    exact ⟨_, rfl, rfl, spans _ newRun_scheduledAt rfl hcount rfl rfl⟩
  · cases h
    exact ⟨_, rfl, rfl, spans _ newRun_scheduledAt rfl hcount rfl rfl⟩

/-! ## All schedules of the task are occurrences -/

theorem on_task_same {q : Statement} {t u : TaskRecord} (h : q.onTask t = some u) : Same t u := by
  cases q <;> simp only [Statement.onTask] at h <;> (try split at h) <;> cases h <;>
    exact ⟨rfl, rfl, rfl, rfl, rfl⟩

/-- The task whose schedule a call sets, whatever it finds. -/
def Call.sets : Call → Option TaskId
  | .setPaused id _ _ _ _ | .reschedule id _ _ _ | .requestRunNow id _ => some id
  | _ => none

theorem plan_writes {k : Call} {pl : Plan Statement Call} {q : Statement} {id : TaskId}
    {next due : Option Time} (h : k.plan b s = some pl) (hq : q ∈ pl.tx)
    (hw : q.writes = some (id, next, due)) :
    k.sets = some id ∨ ∃ o, k.opens = some o ∧ pl.ok.won = some o ∧ q.swaps = some o := by
  cases k
  case reclaimCommit a orphans =>
    cases h
    obtain ⟨r, -, rfl | rfl⟩ := mem_reclaim_writes.1 hq <;> cases hw
  all_goals
    simp only [Call.plan] at h
    (repeat' split at h) <;> cases h <;>
      simp only [Plan.read, Plan.write, List.mem_cons, List.not_mem_nil, or_false] at hq
  all_goals
    first
    | subst hq
    | rcases hq with rfl | rfl
  all_goals
    cases hw <;>
      first
      | exact .inl rfl
      | exact .inr ⟨_, rfl, rfl, rfl⟩

/-- A task after a step is as it was but for what the statements change, and its schedule is as it
was but where the call sets it or has won. -/
theorem step_schedule {k k' : Call} {u : TaskRecord} (h : k.step b s = some (s', k'))
    (hu : u ∈ s'.tasks) : k = .createTask u ∨ ∃ t ∈ s.tasks, t.id = u.id ∧ Same t u ∧
      ((u.nextRunAt = t.nextRunAt ∧ u.dueAt = t.dueAt) ∨ k.sets = some u.id ∨
        ∃ o, k.opens = some o ∧ k'.won = some o ∧ o.taskId = u.id ∧ u.nextRunAt = o.nextRunAt ∧
          u.dueAt = o.dueAt) := by
  obtain ⟨pl, hp, ⟨ht, rfl⟩ | ⟨-, rfl, -⟩⟩ := machine_cases h
  rotate_left
  · exact .inr ⟨u, hu, rfl, Same.refl u, .inl ⟨rfl, rfl⟩⟩
  refine run_tx_inv (I := fun s₁ => ∀ u ∈ s₁.tasks, k = .createTask u ∨ ∃ t ∈ s.tasks,
    t.id = u.id ∧ Same t u ∧ ((u.nextRunAt = t.nextRunAt ∧ u.dueAt = t.dueAt) ∨
      k.sets = some u.id ∨ ∃ o, k.opens = some o ∧ pl.ok.won = some o ∧ o.taskId = u.id ∧
        u.nextRunAt = o.nextRunAt ∧ u.dueAt = o.dueAt)) (fun q hq s₁ s₂ ih ha u hu => ?_)
    (fun u hu => .inr ⟨u, hu, rfl, Same.refl u, .inl ⟨rfl, rfl⟩⟩) ht u hu
  rcases (apply_tasks ha u).1 hu with ⟨v, hv, hvu⟩ | rfl
  rotate_left
  · exact .inl (plan_creates hp hq).1
  have hid := on_task_id hvu
  have hsame := on_task_same hvu
  rcases ih v hv with rfl | ⟨t, ht, htid, hts, hsch⟩
  · -- the call creates the task and does nothing else
    cases hp
    cases List.mem_singleton.1 hq
    cases hvu
    exact .inl rfl
  · refine .inr ⟨t, ht, htid.trans hid.symm, hts.trans hsame, ?_⟩
    rcases on_task_schedule hvu with ⟨hn, hd⟩ | hw
    · rw [hn, hd, hid]
      exact hsch
    · rcases plan_writes hp hq hw with hset | ⟨o, hop, hwon, hswap⟩
      · exact .inr (.inl (hid ▸ hset))
      · have hwo := (swap_writes hswap).symm.trans hw
        simp only [Option.some.injEq, Prod.mk.injEq] at hwo
        exact .inr (.inr ⟨o, hop, hwon, hwo.1.trans hid.symm, hwo.2.1.symm, hwo.2.2.symm⟩)

/-- A row of the task is scheduled for an occurrence. -/
def OnSchedule (t₀ t : TaskRecord) : Prop :=
  t.id = t₀.id → Same t₀ t ∧ ∃ k, AtSlot t₀ k t.nextRunAt t.dueAt

/-- A call goes by occurrences of the task, and leaves it to the scheduler. -/
def OnGrid (t₀ : TaskRecord) : Call → Prop
  | .gotDue _ rows => ∀ t ∈ rows, OnSchedule t₀ t
  | .createTask t => t.id = t₀.id → t = t₀
  | .deleteTask id | .deleteRuns id => id ≠ t₀.id
  | k => k.sets ≠ some t₀.id ∧ ∀ o, k.opens = some o → o.taskId = t₀.id → ∃ n, Spans t₀ n o

theorem on_grid_spans {k : Call} {o : Opening} (h : OnGrid t₀ k) (ho : k.opens = some o)
    (hid : o.taskId = t₀.id) : ∃ n, Spans t₀ n o := by
  cases k <;> first | exact h.2 o ho hid | cases ho

theorem on_grid_sets {k : Call} (h : OnGrid t₀ k) : k.sets ≠ some t₀.id := by
  cases k <;> first | exact h.1 | exact nofun

theorem begins_grid {k : Call} {ids : List Nat} (hplan : Planned cal t₀)
    (hC : Untouched b t₀ p e) (ih : ∀ i k, p.pool.At i k → OnGrid t₀ k)
    (h : Begins cal p e k ids) : OnGrid t₀ k := by
  cases h with
  | @dispatch _ q rows t d _ _ _ hi ht hd hle _ hc =>
    have hrow := ih _ _ hi t ht
    by_cases hid : t.id = t₀.id
    · obtain ⟨hsame, n, hat⟩ := hrow hid
      obtain ⟨o, hop, -, hspans⟩ := dispatch_spans hplan.kind hplan.mode hsame hat hd hle hc
      cases dispatch_spec hc with
      | claim =>
        refine ⟨nofun, fun o' ho' _ => ⟨n, ?_⟩⟩
        cases hop.symm.trans ho'
        exact hspans
      | skip =>
        refine ⟨nofun, fun o' ho' _ => ⟨n, ?_⟩⟩
        cases hop.symm.trans ho'
        exact hspans
      | move => cases hop
    · cases dispatch_spec hc with
      | claim htask =>
        refine ⟨nofun, fun o ho hoid => absurd ?_ hid⟩
        cases ho
        exact htask.symm.trans hoid
      | skip htask =>
        refine ⟨nofun, fun o ho hoid => absurd ?_ hid⟩
        cases ho
        exact htask.symm.trans hoid
      | move => exact ⟨fun hs => hid (Option.some.inj hs), fun _ ho => (nomatch ho)⟩
  | create => exact fun hid => hC.create _ rfl hid
  | delete => exact fun hid => hC.delete (hid ▸ rfl)
  | setPaused =>
    exact ⟨fun hs => hC.paused _ _ _ rfl (Option.some.inj hs), fun _ ho => (nomatch ho)⟩
  | runNow =>
    refine ⟨fun hs => ?_, fun _ ho => (nomatch ho)⟩
    cases Option.some.inj hs
    exact hC.runNow _ rfl
  | _ => exact ⟨fun hs => (nomatch hs), fun _ ho => (nomatch ho)⟩

theorem plan_grid {k : Call} {pl : Plan Statement Call} (h : k.plan b s = some pl)
    (hs : ∀ t ∈ s.tasks, OnSchedule t₀ t) (hk : OnGrid t₀ k) :
    OnGrid t₀ pl.ok ∧ OnGrid t₀ pl.no := by
  have orphan : ∀ {a todo orphans}, OnGrid t₀ (nextOrphan a orphans todo) := by
    intro a todo orphans
    cases todo <;> exact ⟨fun hs => (by cases hs), fun _ ho => (by cases ho)⟩
  cases k
  case dueTasks q =>
    cases h
    have hrows : ∀ t ∈ s.dueTasks q.horizon dueLimit, OnSchedule t₀ t := by
      intro t ht
      have hmem := List.mem_of_mem_take ht
      rw [List.mem_insertionSort] at hmem
      exact hs t (Table.mem_select.1 hmem).1
    exact ⟨hrows, hrows⟩
  all_goals
    simp only [Call.plan] at h
    (repeat' split at h) <;> cases h <;>
      first
      | exact ⟨hk, hk⟩
      | exact ⟨orphan, orphan⟩
      | exact ⟨hk, fun hs => (by cases hs), fun _ ho => (by cases ho)⟩
      | exact ⟨⟨fun hs => (by cases hs), fun _ ho => (by cases ho)⟩,
          fun hs => (by cases hs), fun _ ho => (by cases ho)⟩

/-- All schedules of the task, in the store and in the hands of calls, are occurrences. -/
theorem on_grid (hplan : Planned cal t₀) (h : (lts cal b).Reach (Untouched b t₀) p) :
    (∀ t ∈ p.store.tasks, OnSchedule t₀ t) ∧ ∀ i k, p.pool.At i k → OnGrid t₀ k := by
  refine h.inv (I := fun p => (∀ t ∈ p.store.tasks, OnSchedule t₀ t) ∧
    ∀ i k, p.pool.At i k → OnGrid t₀ k) (fun p h0 => ?_) fun p e p' ih hC hn => ?_
  · cases h0
    exact ⟨fun t ht => by simp [Table.empty, Table.mem_def] at ht,
      fun i k hi => by simp [Pool.At] at hi⟩
  obtain ⟨htasks, hcalls⟩ := ih
  cases next_step hn with
  | start hb =>
    refine ⟨htasks, fun i k hi => ?_⟩
    rcases Pool.at_start.1 hi with hi | ⟨-, rfl⟩
    · exact hcalls i k hi
    · exact begins_grid hplan hC hcalls (begins_spec hb)
  | @exec i k k' s' hk hm =>
    refine ⟨fun u hu hid => ?_, fun j c hj => ?_⟩
    · rcases step_schedule hm hu with rfl | ⟨t, ht, htid, hsame, hsch⟩
      · cases hcalls i _ hk hid
        exact ⟨Same.refl _, hplan.slot⟩
      · obtain ⟨hs, n, hat⟩ := htasks t ht (htid.trans hid)
        refine ⟨hs.trans hsame, ?_⟩
        rcases hsch with ⟨hn, hd⟩ | hset | ⟨o, hop, -, hoid, hn, hd⟩
        · rw [hn, hd]
          exact ⟨n, hat⟩
        · exact absurd (hid ▸ hset) (on_grid_sets (hcalls i k hk))
        · obtain ⟨m, hspans⟩ := on_grid_spans (hcalls i k hk) hop (hoid.trans hid)
          rw [hn, hd]
          exact ⟨_, hspans.written⟩
    · rcases (Pool.at_put hk).1 hj with ⟨-, rfl⟩ | ⟨-, hj⟩
      · obtain ⟨pl, hp, hres⟩ := machine_cases hm
        obtain ⟨hok, hno⟩ := plan_grid hp htasks (hcalls i k hk)
        rcases hres with ⟨-, rfl⟩ | ⟨-, -, rfl⟩
        · exact hok
        · exact hno
      · exact hcalls j c hj
  | crash => exact ⟨htasks, fun i k hi => hcalls i k (Pool.at_kill.1 hi).2⟩

/-! ## What a step does to the entries -/

theorem entry_apply {q : Statement} {id : TaskId} {x : Time × Nat} (h : q.apply s = some s')
    (hx : Entry id s' x) : Entry id s x ∨ ∃ r, q = .insertRun r ∧ r.taskId = id ∧
      (r.scheduledAt, r.coalesced) = x := by
  obtain ⟨u, hu, huid, hux⟩ := hx
  rcases (apply_runs h u).1 hu with ⟨r, hr, hru⟩ | rfl
  · obtain ⟨-, ht, hs, -, hc⟩ := on_run_keys hru
    exact .inl ⟨r, hr, ht.symm.trans huid, by rw [← hs, ← hc]; exact hux⟩
  · exact .inr ⟨u, rfl, huid, hux⟩

/-- A transaction that inserts the run of an opening, after its swap or before it. -/
theorem insert_tx {tx : List Statement} {o : Opening}
    (htx : tx = [.insertRun o.run] ∨ ∃ q, q.swaps = some o ∧ tx = [q, .insertRun o.run])
    (h : runTx Statement.apply tx s = some s') :
    (∀ id x, Entry id s' x →
        Entry id s x ∨ o.run.taskId = id ∧ (o.run.scheduledAt, o.run.coalesced) = x) ∧
      ∀ u ∈ s.runs, u.occurrence ≠ o.run.occurrence := by
  have last : ∀ {s₁ : Store}, s₁.insertRun o.run = some s' → ∀ id x, Entry id s' x →
      Entry id s₁ x ∨ o.run.taskId = id ∧ (o.run.scheduledAt, o.run.coalesced) = x := by
    intro s₁ hi id x hx
    refine (entry_apply (q := .insertRun o.run) hi hx).imp_right ?_
    rintro ⟨r, hr, hid, hrx⟩
    cases hr
    exact ⟨hid, hrx⟩
  rcases htx with rfl | ⟨q, hq, rfl⟩
  · rw [run_tx_singleton] at h
    exact ⟨last h, fun u hu => (Store.insert_run_free h u hu).2⟩
  · obtain ⟨s₁, h1, h2⟩ := run_tx_cons.1 h
    rw [run_tx_singleton] at h2
    have hruns : s₁.runs = s.runs := by
      cases q <;> simp only [Statement.swaps, reduceCtorEq] at hq <;>
        simp only [Statement.apply, Store.claimTask, Store.advanceTask] at h1 <;>
        split at h1 <;> cases h1 <;> rfl
    refine ⟨fun id x hx => ?_, fun u hu => (Store.insert_run_free h2 u (hruns ▸ hu)).2⟩
    rcases last h2 id x hx with ⟨u, hu, hux⟩ | hown
    · exact .inl ⟨u, hruns ▸ hu, hux⟩
    · exact .inr hown

/-- An entry after a step was there before, or is the one the call inserts, which then has won or
is between its two writes. -/
theorem step_entry {k k' : Call} {id : TaskId} {x : Time × Nat}
    (h : k.step b s = some (s', k')) (hx : Entry id s' x) : Entry id s x ∨
      ∃ o, k.opens = some o ∧ k.fresh = true ∧ o.run.taskId = id ∧
        (o.run.scheduledAt, o.run.coalesced) = x ∧
        (k'.won = some o ∨ k'.untaken = some o.run.runId) ∧
        ∀ u ∈ s.runs, u.occurrence ≠ o.run.occurrence := by
  obtain ⟨pl, hp, ⟨ht, rfl⟩ | ⟨-, rfl, -⟩⟩ := machine_cases h
  rotate_left
  · exact .inl hx
  cases hf : k.fresh with
  | false =>
    refine .inl (run_tx_inv (I := fun s₁ => Entry id s₁ x → Entry id s x)
      (fun q hq s₁ s₂ ih ha hx => ?_) (fun hx => hx) ht hx)
    rcases entry_apply ha hx with hx | ⟨r, rfl, -⟩
    · exact ih hx
    · rw [plan_inserts_fresh hp hq] at hf
      cases hf
  | true =>
    cases k <;> simp only [Call.fresh, Bool.false_eq_true] at hf
    case claimDue a =>
      cases b <;> cases hp
      · obtain ⟨hent, hfree⟩ := insert_tx (o := a.opening) (.inr ⟨.claimTask a, rfl, rfl⟩) ht
        exact (hent id x hx).imp_right fun hr => ⟨_, rfl, rfl, hr.1, hr.2, .inl rfl, hfree⟩
      · obtain ⟨hent, hfree⟩ := insert_tx (o := a.opening) (.inl rfl) ht
        exact (hent id x hx).imp_right fun hr => ⟨_, rfl, rfl, hr.1, hr.2, .inr rfl, hfree⟩
    case recordSkip a =>
      cases b <;> cases hp
      · obtain ⟨hent, hfree⟩ := insert_tx (o := a.opening) (.inr ⟨.advanceTask a, rfl, rfl⟩) ht
        exact (hent id x hx).imp_right fun hr => ⟨_, rfl, rfl, hr.1, hr.2, .inl rfl, hfree⟩
      · obtain ⟨hent, hfree⟩ := insert_tx (o := a.opening) (.inl rfl) ht
        exact (hent id x hx).imp_right fun hr => ⟨_, rfl, rfl, hr.1, hr.2, .inr rfl, hfree⟩

/-- A call wins where its row is in, or where no row of the occurrence was. -/
theorem step_won {k k' : Call} {o : Opening} (h : k.step b s = some (s', k'))
    (hw : k'.won = some o) :
    k.untaken = some o.run.runId ∨ ∀ u ∈ s.runs, u.occurrence ≠ o.run.occurrence := by
  obtain ⟨pl, hp, ⟨ht, rfl⟩ | ⟨-, -, rfl⟩⟩ := machine_cases h
  rotate_left
  · rw [(plan_won (o := o) hp).2] at hw
    cases hw
  have both : ∀ {q : Statement}, q.swaps = some o → pl.tx = [q, .insertRun o.run] →
      ∀ u ∈ s.runs, u.occurrence ≠ o.run.occurrence :=
    fun hq htx => (insert_tx (.inr ⟨_, hq, htx⟩) ht).2
  cases k
  case claimDue a =>
    cases b <;> cases hp <;> cases hw
    exact .inr (both (q := .claimTask a) rfl rfl)
  case recordSkip a =>
    cases b <;> cases hp <;> cases hw
    exact .inr (both (q := .advanceTask a) rfl rfl)
  case claimSwap a =>
    cases hp
    cases hw
    exact .inl rfl
  case skipSwap a =>
    cases hp
    cases hw
    exact .inl rfl
  all_goals
    simp only [Call.plan] at hp
    (repeat' split at hp) <;> cases hp <;>
      first
      | cases hw
      | exact absurd (next_orphan_won.symm.trans hw) (by simp)

/-- A call that neither prunes nor deletes removes a row only where it undoes its own insert. -/
theorem plan_removes {k : Call} {pl : Plan Statement Call} {q : Statement} {r : TaskRunRecord}
    (h : k.plan b s = some pl) (hk : k.removes = false) (hq : q ∈ pl.tx) (hr : q.onRun r = none) :
    k.untaken = some r.runId ∧ pl.ok.won = none := by
  cases k <;> simp only [Call.removes, Bool.true_eq_false] at hk <;>
    simp only [Call.plan] at h <;> (repeat' split at h) <;> cases h <;>
    simp only [Plan.read, Plan.write, List.mem_cons, List.not_mem_nil, or_false] at hq
  case reclaimCommit a orphans =>
    obtain ⟨u, -, rfl | rfl⟩ := mem_reclaim_writes.1 hq <;> cases hr
  all_goals
    first
    | subst hq
    | rcases hq with rfl | rfl
  all_goals
    simp only [Statement.onRun, reduceCtorEq] at hr
  all_goals
    split at hr
    · rename_i he
      exact ⟨congrArg some he.symm, rfl⟩
    · cases hr

/-- An entry stays, but where its row is the one the call itself has inserted and takes back. -/
theorem step_keeps {k k' : Call} {i : Nat} {id : TaskId} {x : Time × Nat}
    (hK : ∀ m, Keeps b (id, m) p (.exec i)) (hk : p.pool.At i k)
    (h : k.step b p.store = some (s', k')) (hx : Entry id p.store x) : Entry id s' x ∨
      k'.won = none ∧ ∃ r ∈ p.store.runs, r.taskId = id ∧ r.scheduledAt = x.1 ∧
        k.untaken = some r.runId := by
  obtain ⟨r, hr, hid, hrx⟩ := hx
  cases hrem : k.removes with
  | true => exact .inl ⟨r, hK r.scheduledAt i k s' k' rfl hk hrem h r hr (hid ▸ rfl), hid, hrx⟩
  | false =>
    obtain ⟨pl, hp, ⟨ht, rfl⟩ | ⟨-, rfl, rfl⟩⟩ := machine_cases h
    rotate_left
    · exact .inl ⟨r, hr, hid, hrx⟩
    by_cases hown : k.untaken = some r.runId ∧ pl.ok.won = none
    · exact .inr ⟨hown.2, r, hr, hid, congrArg Prod.fst hrx, hown.1⟩
    · -- no statement of the transaction takes the row of this run away
      have hstay := run_tx_inv (I := fun s₁ => ∃ u ∈ s₁.runs, u.runId = r.runId ∧ u.taskId = id ∧
        (u.scheduledAt, u.coalesced) = x) (fun q hq s₁ s₂ ih ha => ?_) ⟨r, hr, rfl, hid, hrx⟩ ht
      · obtain ⟨u, hu, -, huid, hux⟩ := hstay
        exact .inl ⟨u, hu, huid, hux⟩
      · obtain ⟨u, hu, hrun, huid, hux⟩ := ih
        cases hv : q.onRun u with
        | none => exact absurd (hrun ▸ plan_removes hp hrem hq hv) hown
        | some v =>
          obtain ⟨h1, h2, h3, -, h5⟩ := on_run_keys hv
          exact ⟨v, (apply_runs ha v).2 (.inl ⟨u, hu, hv⟩), h1.trans hrun, h2.trans huid,
            by rw [h3, h5]; exact hux⟩

/-! ## Calls between their two writes -/

theorem untaken_opens {k : Call} {id : RunId} (h : k.untaken = some id) :
    ∃ o, k.opens = some o ∧ o.run.runId = id ∧ k.holds = some o.run ∧ k.fresh = false := by
  cases k <;> simp only [Call.untaken, Option.some.injEq, reduceCtorEq] at h <;>
    exact ⟨_, rfl, h, rfl, rfl⟩

/-- A call is between its two writes since it inserted its row. -/
theorem step_untaken {k k' : Call} {id : RunId} (h : k.step b s = some (s', k'))
    (hu : k'.untaken = some id) :
    k.untaken = some id ∨ k.fresh = true ∧ ∀ o, k.opens = some o →
      ∀ u ∈ s.runs, u.occurrence ≠ o.run.occurrence := by
  obtain ⟨pl, hp, ⟨ht, rfl⟩ | ⟨ht, -, rfl⟩⟩ := machine_cases h
  rotate_left
  · exact .inl ((plan_no_untaken hp ht).symm.trans hu)
  have orphan : ∀ {a todo orphans}, (nextOrphan a orphans todo).untaken = none := by
    intro a todo orphans
    cases todo <;> rfl
  cases k
  case claimDue a =>
    cases b <;> cases hp <;> cases hu
    refine .inr ⟨rfl, fun o ho => ?_⟩
    cases ho
    exact (insert_tx (o := a.opening) (.inl rfl) ht).2
  case recordSkip a =>
    cases b <;> cases hp <;> cases hu
    refine .inr ⟨rfl, fun o ho => ?_⟩
    cases ho
    exact (insert_tx (o := a.opening) (.inl rfl) ht).2
  all_goals
    simp only [Call.plan] at hp
    (repeat' split at hp) <;> cases hp <;>
      first
      | cases hu
      | exact absurd (orphan.symm.trans hu) (by simp)

/-- A call between its two writes is there still, has won, or has deleted the row. -/
theorem untaken_step {k k' : Call} {id : RunId} (h : k.step b s = some (s', k'))
    (hu : k.untaken = some id) : k'.untaken = some id ∨ (∃ o, k.opens = some o ∧ k'.won = some o) ∨
      ∀ u ∈ s'.runs, u.runId ≠ id ∧ u ∈ s.runs := by
  obtain ⟨pl, hp, ⟨ht, rfl⟩ | ⟨ht, -, rfl⟩⟩ := machine_cases h
  rotate_left
  · exact .inl ((plan_no_untaken hp ht).trans hu)
  have undone : ∀ {s' : Store}, runTx Statement.apply [.deleteRun id] s = some s' →
      ∀ u ∈ s'.runs, u.runId ≠ id ∧ u ∈ s.runs := by
    intro s' ht u hu
    rw [run_tx_singleton] at ht
    cases ht
    obtain ⟨hu, hne⟩ := Table.mem_delete.1 hu
    exact ⟨by simpa using hne, hu⟩
  cases k <;> simp only [Call.untaken, Option.some.injEq, reduceCtorEq] at hu
  case claimSwap a | skipSwap a =>
    cases hp
    exact .inr (.inl ⟨_, rfl, rfl⟩)
  case claimUndo a | skipUndo a =>
    cases hp
    exact .inr (.inr (undone (hu ▸ ht)))

/-- SQLite makes one write of it. -/
theorem untaken_sqlite {C : Config → Label → Prop} (h : (lts cal .sqlite).Reach C p) :
    ∀ id, ¬Untaken p id := by
  have key : ∀ i k, p.pool.At i k → k.untaken = none := by
    refine calls_inv (P := fun _ k => k.untaken = none) h ?_ ?_ fun _ _ _ _ _ _ _ _ _ _ hP => hP
    · intro p e p' k ids _ _ _ hb _
      cases hb with
      | dispatch _ _ _ _ _ hd => cases dispatch_spec hd <;> rfl
      | _ => rfl
    · intro p i p' k k' s' _ _ _ _ hm hP
      cases hu : k'.untaken with
      | none => rfl
      | some id =>
        rcases step_untaken hm hu with hk | ⟨hf, -⟩
        · exact absurd (hP.symm.trans hk) nofun
        · obtain ⟨pl, hp, hres⟩ := machine_cases hm
          cases k <;> simp only [Call.fresh, Bool.false_eq_true] at hf <;> cases hp <;>
            rcases hres with ⟨-, rfl⟩ | ⟨-, -, rfl⟩ <;> cases hu
  rintro id ⟨i, k, hi, hk⟩
  rw [key i k hi] at hk
  cases hk

/-! ## The ledger of a task -/

/-- The call goes by the `m`-th occurrence of the task, which it has read. -/
def Call.Sees (t₀ : TaskRecord) (m : Int) : Call → Prop
  | .gotDue _ rows => ∃ t ∈ rows, t.id = t₀.id ∧ t.nextRunAt = some (t₀.occurrenceAt m)
  | k => k.fresh = true ∧ ∃ o, k.opens = some o ∧ o.taskId = t₀.id ∧
      o.run.scheduledAt = t₀.occurrenceAt m

theorem sees_of_fresh {k : Call} {o : Opening} {m : Int} (hf : k.fresh = true)
    (ho : k.opens = some o) (hid : o.taskId = t₀.id)
    (hm : o.run.scheduledAt = t₀.occurrenceAt m) : k.Sees t₀ m := by
  cases k <;> first | exact ⟨hf, o, ho, hid, hm⟩ | cases hf

/-- The call has inserted the row of `o` and not taken the occurrence yet. -/
def Call.Mid (t₀ : TaskRecord) (o : Opening) (k : Call) : Prop :=
  k.untaken = some o.run.runId ∧ k.opens = some o ∧ o.taskId = t₀.id

/-- The ledger of a task that is scheduled for its `n`-th occurrence, and was for the `k₀`-th
first. -/
structure Book (t₀ : TaskRecord) (k₀ n : Int) (p : Config) : Prop where
  covered : ∃ l, (∀ x, x ∈ l ↔ Entry t₀.id p.store x ∧ x.1 < t₀.occurrenceAt n) ∧
    Covers t₀ k₀ l n
  /-- Other rows are those of calls that have not taken the occurrence. -/
  late : ∀ x, Entry t₀.id p.store x → t₀.occurrenceAt n ≤ x.1 →
    ∃ i k o, p.pool.At i k ∧ k.Mid t₀ o ∧ o.run.scheduledAt = x.1
  /-- Of an occurrence the schedule has moved past there is a row. -/
  seen : ∀ i c m, p.pool.At i c → c.Sees t₀ m →
    m = n ∨ m < n ∧ ∃ y, Entry t₀.id p.store (t₀.occurrenceAt m, y)
  mid : ∀ i c o, p.pool.At i c → c.Mid t₀ o → o.run.scheduledAt = t₀.occurrenceAt n

/-- The task is scheduled for its `n`-th occurrence. -/
def OnSlot (t₀ : TaskRecord) (n : Int) (s : Store) : Prop :=
  ∃ t ∈ s.tasks, t.id = t₀.id ∧ AtSlot t₀ n t.nextRunAt t.dueAt

theorem opens_task {k : Call} {o : Opening} (h : k.opens = some o) : o.run.taskId = o.taskId := by
  cases k <;> simp only [Call.opens, reduceCtorEq, Option.some.injEq] at h <;> subst h
  all_goals
    rename_i a
    exact a.runTask

/-- The row a call of the task holds is in the ledger. -/
theorem held_row (hr : (lts cal b).Reach (Untouched b t₀) p) {i : Nat} {k : Call} {o : Opening}
    (hk : p.pool.At i k) (ho : k.opens = some o) (hid : o.taskId = t₀.id)
    (hh : k.holds = some o.run) :
    ∃ u ∈ p.store.runs, u.runId = o.run.runId ∧ u.occurrence = (t₀.id, o.run.scheduledAt) ∧
      u.coalesced = o.run.coalesced := by
  have hocc : o.run.occurrence = (t₀.id, o.run.scheduledAt) := by
    rw [TaskRunRecord.occurrence, opens_task ho, hid]
  obtain ⟨u, hu, huid, huocc⟩ := holds_row
    (hr.mono fun _ _ hC => hC.prune o.run.scheduledAt) i k _ hk hh hocc
  exact ⟨u, hu, huid, huocc, (own_row hr i k hk _ (brings_of_holds hh) u hu huid).2⟩

theorem mid_row (hr : (lts cal b).Reach (Untouched b t₀) p) {i : Nat} {k : Call} {o : Opening}
    (hk : p.pool.At i k) (hm : k.Mid t₀ o) :
    ∃ u ∈ p.store.runs, u.runId = o.run.runId ∧ u.occurrence = (t₀.id, o.run.scheduledAt) ∧
      u.coalesced = o.run.coalesced := by
  obtain ⟨o', ho', -, hh, -⟩ := untaken_opens hm.1
  cases hm.2.1.symm.trans ho'
  exact held_row hr hk ho' hm.2.2 hh

/-- The row of an entry. -/
theorem Entry.row {x : Time × Nat} (h : Entry t₀.id s x) :
    ∃ u ∈ s.runs, u.occurrence = (t₀.id, x.1) ∧ u.coalesced = x.2 := by
  obtain ⟨u, hu, hid, rfl⟩ := h
  exact ⟨u, hu, by rw [TaskRunRecord.occurrence, hid], rfl⟩

theorem entry_of_row {u : TaskRunRecord} {m : Time} (hu : u ∈ s.runs)
    (ho : u.occurrence = (t₀.id, m)) : Entry t₀.id s (m, u.coalesced) :=
  ⟨u, hu, congrArg Prod.fst ho, Prod.ext (congrArg Prod.snd ho) rfl⟩

variable {k₀ n : Int} {i : Nat} {k k' : Call} {ids : List Nat} {tally : List RunId}

theorem sees_mentions {m : Int} (h : k.Sees t₀ m) : t₀.id ∈ k.mentions := by
  cases k
  case gotDue q rows =>
    obtain ⟨t, ht, hid, -⟩ := h
    exact List.mem_map.2 ⟨t, ht, hid⟩
  case claimDue a | recordSkip a =>
    obtain ⟨-, o, ho, hid, -⟩ := h
    cases ho
    exact List.mem_singleton.2 hid.symm
  all_goals exact nomatch h.1

theorem begins_sees (h : Begins cal p e k ids) {m : Int} (hs : k.Sees t₀ m) :
    ∃ j c, p.pool.At j c ∧ c.Sees t₀ m := by
  cases h with
  | @dispatch _ q rows t _ _ _ _ hj ht _ _ _ hc =>
    refine ⟨_, _, hj, t, ht, ?_⟩
    cases dispatch_spec hc with
    | claim htask _ hnext =>
      obtain ⟨-, o, ho, hid, hm⟩ := hs
      cases ho
      exact ⟨htask.symm.trans hid, hnext.trans (congrArg some hm)⟩
    | skip htask _ hnext =>
      obtain ⟨-, o, ho, hid, hm⟩ := hs
      cases ho
      exact ⟨htask.symm.trans hid, hnext.trans (congrArg some hm)⟩
    | move => exact nomatch hs.1
  | _ => exact nomatch hs.1

theorem begins_not_mid (h : Begins cal p e k ids) {o : Opening} : ¬k.Mid t₀ o := by
  rintro ⟨hu, -⟩
  cases h with
  | dispatch _ _ _ _ _ hd => cases dispatch_spec hd <;> cases hu
  | _ => cases hu

/-- A new call goes by what a tick has read. -/
theorem Book.start (h : Book t₀ k₀ n p) (hb : Begins cal p e k ids) :
    Book t₀ k₀ n ⟨p.pool.start k, ids ++ p.minted, tally⟩ where
  covered := h.covered
  late x hx hle := by
    obtain ⟨i, c, o, hi, hm⟩ := h.late x hx hle
    exact ⟨i, c, o, Pool.at_start.2 (.inl hi), hm⟩
  seen i c m hi hs := by
    rcases Pool.at_start.1 hi with hi | ⟨-, rfl⟩
    · exact h.seen i c m hi hs
    · obtain ⟨j, c', hj, hs'⟩ := begins_sees hb hs
      exact h.seen j c' m hj hs'
  mid i c o hi hm := by
    rcases Pool.at_start.1 hi with hi | ⟨-, rfl⟩
    · exact h.mid i c o hi hm
    · exact absurd hm (begins_not_mid hb)

theorem Book.crash (h : Book t₀ k₀ n p) (hC : Untouched b t₀ p (.crash i)) :
    Book t₀ k₀ n ⟨p.pool.kill i, p.minted, tally⟩ where
  covered := h.covered
  late x hx hle := by
    obtain ⟨j, c, o, hj, hm, hs⟩ := h.late x hx hle
    refine ⟨j, c, o, Pool.at_kill.2 ⟨?_, hj⟩, hm, hs⟩
    rintro rfl
    have hnone := hC.crash j c o.run rfl hj (congrArg (·.map (·.run)) hm.2.1)
      ((opens_task hm.2.1).trans hm.2.2)
    cases hnone.symm.trans hm.1
  seen j c m hj := h.seen j c m (Pool.at_kill.1 hj).2
  mid j c o hj := h.mid j c o (Pool.at_kill.1 hj).2

/-- What a call sees after a step it has just read from the tasks. -/
theorem step_sees {m : Int} (h : k.step b s = some (s', k')) (hs : k'.Sees t₀ m) :
    ∃ t ∈ s.tasks, t.id = t₀.id ∧ t.nextRunAt = some (t₀.occurrenceAt m) := by
  have hf := step_not_fresh h
  obtain ⟨pl, hp, hres⟩ := machine_cases h
  have hk' : k' = pl.ok ∨ k' = pl.no := by
    rcases hres with ⟨-, he⟩ | ⟨-, -, he⟩
    · exact .inl he
    · exact .inr he
  have hrows : ∃ q rows, k' = .gotDue q rows := by
    cases k' <;> first | exact ⟨_, _, rfl⟩ | exact absurd (hf.symm.trans hs.1) nofun
  obtain ⟨q, rows, rfl⟩ := hrows
  have orphan : ∀ {a todo orphans}, nextOrphan a orphans todo ≠ .gotDue q rows := by
    intro a todo orphans
    cases todo <;> exact nofun
  cases k
  case dueTasks q' =>
    cases hp
    have hrows : rows = s.dueTasks q'.horizon dueLimit := by
      rcases hk' with he | he <;> cases he <;> rfl
    obtain ⟨t, ht, hid, hm⟩ := hs
    have hmem := List.mem_of_mem_take (hrows ▸ ht)
    rw [List.mem_insertionSort] at hmem
    exact ⟨t, (Table.mem_select.1 hmem).1, hid, hm⟩
  all_goals
    simp only [Call.plan] at hp
    (repeat' split at hp) <;> cases hp <;> rcases hk' with he | he <;>
      first
      | cases he
      | exact absurd he.symm orphan

theorem won_sees {o : Opening} (h : k.won = some o) {m : Int} : ¬k.Sees t₀ m := by
  intro hs
  cases k <;> simp only [Call.won, reduceCtorEq] at h <;> cases hs.1

theorem won_untaken {o : Opening} (h : k.won = some o) : k.untaken = none := by
  cases k <;> simp only [Call.won, reduceCtorEq] at h <;> rfl

/-- The occurrence of a call that inserts its row is the one the task is scheduled for. -/
theorem Book.inserts (hB : Book t₀ k₀ n p) (hk : p.pool.At i k) (hf : k.fresh = true) {o : Opening}
    (ho : k.opens = some o) (hid : o.taskId = t₀.id) {m : Int}
    (hs : o.run.scheduledAt = t₀.occurrenceAt m)
    (hfree : ∀ u ∈ p.store.runs, u.occurrence ≠ o.run.occurrence) : m = n := by
  rcases hB.seen i k m hk (sees_of_fresh hf ho hid hs) with rfl | ⟨-, y, hy⟩
  · rfl
  · obtain ⟨u, hu, hocc, -⟩ := hy.row
    refine absurd (hocc.trans ?_) (hfree u hu)
    rw [TaskRunRecord.occurrence, opens_task ho, hid, hs]

section
variable (hr : (lts cal b).Reach (Untouched b t₀) p) (hC : Untouched b t₀ p (.exec i))
  (hB : Book t₀ k₀ n p) (hk : p.pool.At i k) (hm : k.step b p.store = some (s', k'))
include hr hC hB hk hm

/-- Entries of past occurrences stay. -/
theorem Book.keeps {x : Time × Nat} (hx : Entry t₀.id p.store x) (hlt : x.1 < t₀.occurrenceAt n) :
    Entry t₀.id s' x := by
  rcases step_keeps hC.prune hk hm hx with hx | ⟨-, r, hrow, hid, hsched, hun⟩
  · exact hx
  · -- the row taken back would be of the occurrence the task is scheduled for
    obtain ⟨o, ho, hrun, hh, -⟩ := untaken_opens hun
    obtain ⟨hocc, -⟩ := own_row hr i k hk o.run (brings_of_holds hh) r hrow hrun.symm
    have htask : o.taskId = t₀.id := by
      rw [← opens_task ho, ← hid]
      exact (congrArg Prod.fst hocc).symm
    have hmid := hB.mid i k o hk ⟨hrun ▸ hun, ho, htask⟩
    have : r.scheduledAt = o.run.scheduledAt := congrArg Prod.snd hocc
    lia

/-- A step that leaves the task's schedule leaves the ledger. -/
theorem Book.same (hi : 0 < t₀.intervalS) (hgrid : OnGrid t₀ k)
    (hslot : ∀ t ∈ p.store.tasks, t.id = t₀.id → AtSlot t₀ n t.nextRunAt t.dueAt)
    (hno : ∀ o, k'.won = some o → o.taskId ≠ t₀.id) :
    Book t₀ k₀ n ⟨p.pool.put i s' k', p.minted, tally⟩ := by
  -- a row the step inserts is for the `n`-th occurrence
  have new : ∀ o, k.opens = some o → k.fresh = true → o.taskId = t₀.id →
      (∀ u ∈ p.store.runs, u.occurrence ≠ o.run.occurrence) →
      o.run.scheduledAt = t₀.occurrenceAt n := by
    intro o ho hf hid hfree
    obtain ⟨m, hs⟩ := on_grid_spans hgrid ho hid
    rw [hs.sched, hB.inserts hk hf ho hid hs.sched hfree]
  refine ⟨?_, fun x hx hle => ?_, fun j c m hj hs => ?_, fun j c o hj hmid => ?_⟩
  · obtain ⟨l, hl, hcov⟩ := hB.covered
    refine ⟨l, fun x => (hl x).trans ⟨fun hx => ⟨hB.keeps hr hC hk hm hx.1 hx.2, hx.2⟩,
      fun hx => ⟨?_, hx.2⟩⟩, hcov⟩
    rcases step_entry hm hx.1 with hs | ⟨o, ho, hf, hid, hox, -, hfree⟩
    · exact hs
    · have hsched := new o ho hf ((opens_task ho).symm.trans hid) hfree
      have : o.run.scheduledAt = x.1 := congrArg Prod.fst hox
      have := hx.2
      lia
  · rcases step_entry hm hx with hs | ⟨o, ho, hf, hid, hox, hw | hu, -⟩
    · obtain ⟨j, c, o, hj, hmid, hsched⟩ := hB.late x hs hle
      by_cases hji : j = i
      · subst hji
        cases hj.eq hk
        rcases untaken_step hm hmid.1 with hu | ⟨o', ho', hw⟩ | hdel
        · exact ⟨j, k', o, Pool.at_put_self hk,
            ⟨hu, (step_opens hm).trans hmid.2.1, hmid.2.2⟩, hsched⟩
        · cases hmid.2.1.symm.trans ho'
          exact absurd hmid.2.2 (hno _ hw)
        · obtain ⟨u, hu, hocc, -⟩ := hx.row
          obtain ⟨v, hv, hvid, hvocc, -⟩ := mid_row hr hk hmid
          obtain ⟨hne, hu⟩ := hdel u hu
          rw [hsched] at hvocc
          exact absurd ((occurrence_unique hu hv (hocc.trans hvocc.symm)) ▸ hvid) hne
      · exact ⟨j, c, o, Pool.at_put_ne hk hj hji, hmid, hsched⟩
    · exact absurd ((opens_task ho).symm.trans hid) (hno o hw)
    · exact ⟨i, k', o, Pool.at_put_self hk,
        ⟨hu, (step_opens hm).trans ho, (opens_task ho).symm.trans hid⟩, congrArg Prod.fst hox⟩
  · rcases (Pool.at_put hk).1 hj with ⟨rfl, rfl⟩ | ⟨-, hj⟩
    · obtain ⟨t, ht, hid, hn⟩ := step_sees hm hs
      exact .inl (occurrence_inj hi (Option.some.inj (hn.symm.trans (hslot t ht hid).next)))
    · refine (hB.seen j c m hj hs).imp_right fun ⟨hlt, y, hy⟩ => ⟨hlt, y, ?_⟩
      exact hB.keeps hr hC hk hm hy ((occurrence_lt hi).2 hlt)
  · rcases (Pool.at_put hk).1 hj with ⟨rfl, rfl⟩ | ⟨-, hj⟩
    · have ho : k.opens = some o := (step_opens hm).symm.trans hmid.2.1
      rcases step_untaken hm hmid.1 with hu | ⟨hf, hfree⟩
      · exact hB.mid j k o hk ⟨hu, ho, hmid.2.2⟩
      · exact new o ho hf hmid.2.2 (hfree o ho)
    · exact hB.mid j c o hj hmid

/-- The row of an occurrence that is won closes the ledger up to the new schedule. -/
theorem Book.won (hi : 0 < t₀.intervalS) (hn : next cal b p (.exec i) = some p') {o : Opening}
    (hw : k'.won = some o) (hid : o.taskId = t₀.id) (hspan : Spans t₀ n o) :
    Book t₀ k₀ (n + o.run.coalesced) p' := by
  have hr' := hr.step hC hn
  have hwin := step_won hm hw
  have hopens : k.opens = some o := (step_opens hm).symm.trans (opens_of_won hw)
  rw [exec_next hk hm] at hn
  cases hn
  have hocc : o.run.occurrence = (t₀.id, t₀.occurrenceAt n) := by
    rw [TaskRunRecord.occurrence, opens_task hopens, hid, hspan.sched]
  have hlt : t₀.occurrenceAt n < t₀.occurrenceAt (n + o.run.coalesced) :=
    (occurrence_lt hi).2 (Int.lt_add_of_pos_right n (Int.natCast_pos.2 hspan.pos))
  -- the occurrence has no row but the call's own
  have own : ∀ u ∈ p.store.runs, u.occurrence = (t₀.id, t₀.occurrenceAt n) →
      u.runId = o.run.runId ∧ u.coalesced = o.run.coalesced ∧ k.untaken = some o.run.runId := by
    intro u hu huocc
    rcases hwin with hun | hfree
    · obtain ⟨v, hv, hvid, hvocc, hvco⟩ := mid_row hr hk ⟨hun, hopens, hid⟩
      rw [hspan.sched] at hvocc
      rw [occurrence_unique hu hv (huocc.trans hvocc.symm)]
      exact ⟨hvid, hvco, hun⟩
    · exact absurd (huocc.trans hocc.symm) (hfree u hu)
  have hown : Entry t₀.id s' (t₀.occurrenceAt n, o.run.coalesced) := by
    obtain ⟨u, hu, -, huocc, huco⟩ := held_row hr' (Pool.at_put_self hk) (opens_of_won hw) hid
      (holds_of_won hw)
    rw [hspan.sched] at huocc
    exact huco ▸ entry_of_row hu huocc
  have keeps : ∀ x, Entry t₀.id p.store x → Entry t₀.id s' x := by
    intro x hx
    rcases step_keeps hC.prune hk hm hx with hx | ⟨hnone, -⟩
    · exact hx
    · cases hnone.symm.trans hw
  -- what is there beyond the past is the own entry
  have later : ∀ x, Entry t₀.id p.store x → t₀.occurrenceAt n ≤ x.1 →
      x = (t₀.occurrenceAt n, o.run.coalesced) := by
    intro x hx hle
    obtain ⟨j, c, o', hj, hmid, hsched⟩ := hB.late x hx hle
    have hx1 : x.1 = t₀.occurrenceAt n := hsched.symm.trans (hB.mid j c o' hj hmid)
    obtain ⟨u, hu, huocc, hux⟩ := hx.row
    exact Prod.ext hx1 (hux.symm.trans (own u hu (hx1 ▸ huocc)).2.1)
  have back : ∀ x, Entry t₀.id s' x → Entry t₀.id p.store x ∨
      x = (t₀.occurrenceAt n, o.run.coalesced) := by
    intro x hx
    refine (step_entry hm hx).imp_right ?_
    rintro ⟨o', ho', -, -, hox, -⟩
    cases hopens.symm.trans ho'
    rw [← hox, hspan.sched]
  refine ⟨?_, fun x hx hle => ?_, fun j c m hj hs => ?_, fun j c o' hj hmid => ?_⟩
  · obtain ⟨l, hl, hcov⟩ := hB.covered
    refine ⟨l ++ [(t₀.occurrenceAt n, o.run.coalesced)], fun x => ?_, hcov.snoc hspan.pos⟩
    rw [List.mem_append, List.mem_singleton, hl]
    constructor
    · rintro (⟨hx, hxl⟩ | rfl)
      · exact ⟨keeps x hx, Int.lt_trans hxl hlt⟩
      · exact ⟨hown, hlt⟩
    · rintro ⟨hx, -⟩
      rcases back x hx with hx | hx
      · by_cases hxl : x.1 < t₀.occurrenceAt n
        · exact .inl ⟨hx, hxl⟩
        · exact .inr (later x hx (Int.not_lt.1 hxl))
      · exact .inr hx
  · have hx1 : x.1 = t₀.occurrenceAt n := by
      rcases back x hx with hx | hx
      · rw [later x hx (by lia)]
      · rw [hx]
    lia
  · rcases (Pool.at_put hk).1 hj with ⟨rfl, rfl⟩ | ⟨-, hj⟩
    · exact absurd hs (won_sees hw)
    · have hc := Int.natCast_pos.2 hspan.pos
      rcases hB.seen j c m hj hs with rfl | ⟨hlt, y, hy⟩
      · exact .inr ⟨by lia, _, hown⟩
      · exact .inr ⟨by lia, y, keeps _ hy⟩
  · exfalso
    rcases (Pool.at_put hk).1 hj with ⟨rfl, rfl⟩ | ⟨hne, hj⟩
    · cases (won_untaken hw).symm.trans hmid.1
    · obtain ⟨u, hu, huid, huocc, -⟩ := mid_row hr hj hmid
      rw [hB.mid j c o' hj hmid] at huocc
      obtain ⟨hrun, -, -⟩ := own u hu huocc
      exact hne ((drawn hr).apart hj hk (congrArg (·.map (·.run)) hmid.2.1)
        (congrArg (·.map (·.run)) hopens) (huid.symm.trans hrun))

end

/-- The ledger of a task that has just been created is empty. -/
theorem Book.created (hr : (lts cal b).Reach (Untouched b t₀) p) (hk : p.pool.At i (.createTask t₀))
    (hm : Call.step b (.createTask t₀) p.store = some (s', k')) :
    Book t₀ n n ⟨p.pool.put i s' k', p.minted, tally⟩ := by
  obtain ⟨-, hrows, hcalls⟩ := (born hr).new i t₀ hk
  have none : ∀ x, ¬Entry t₀.id s' x := by
    intro x hx
    rcases step_entry hm hx with hx | ⟨o, ho, -⟩
    · obtain ⟨u, hu, hocc, -⟩ := hx.row
      exact hrows u hu (congrArg Prod.fst hocc)
    · cases ho
  -- the other calls do not go by the task, and this one is done
  have other : ∀ j c, (p.pool.put i s' k').At j c → t₀.id ∉ c.mentions := by
    intro j c hj hc
    rcases (Pool.at_put hk).1 hj with ⟨-, rfl⟩ | ⟨hne, hj⟩
    · obtain ⟨pl, hp, hres⟩ := machine_cases hm
      cases hp
      rcases hres with ⟨-, rfl⟩ | ⟨-, -, rfl⟩ <;> cases hc
    · exact hne (hcalls j c hj hc)
  refine ⟨⟨[], fun x => ⟨nofun, fun hx => absurd hx.1 (none x)⟩, rfl⟩,
    fun x hx => absurd hx (none x), fun j c m hj hs => absurd (sees_mentions hs) (other j c hj),
    fun j c o hj hmid => absurd ?_ (other j c hj)⟩
  have hmem := brings_mentions (congrArg (·.map (·.run)) hmid.2.1)
  rwa [opens_task hmid.2.1, hmid.2.2] at hmem

/-- The ledger of the task, in every state. -/
theorem book (hplan : Planned cal t₀) (hfirst : AtSlot t₀ k₀ t₀.nextRunAt t₀.dueAt)
    (h : (lts cal b).Reach (Untouched b t₀) p) : ∀ t ∈ p.store.tasks, t.id = t₀.id →
      ∃ n, AtSlot t₀ n t.nextRunAt t.dueAt ∧ Book t₀ k₀ n p := by
  have hi := t₀.interval hplan.kind
  refine h.inv_using (I := fun p => ∀ t ∈ p.store.tasks, t.id = t₀.id →
    ∃ n, AtSlot t₀ n t.nextRunAt t.dueAt ∧ Book t₀ k₀ n p) (fun p h0 => ?_)
    fun p e p' hr ih hC hn => ?_
  · cases h0
    intro t ht
    simp [Table.empty, Table.mem_def] at ht
  intro u hu hid
  have hn' := hn
  cases next_step hn with
  | start hb =>
    obtain ⟨n, hat, hB⟩ := ih u hu hid
    exact ⟨n, hat, hB.start (begins_spec hb)⟩
  | crash =>
    obtain ⟨n, hat, hB⟩ := ih u hu hid
    exact ⟨n, hat, hB.crash hC⟩
  | @exec i k k' s' hk hm =>
    obtain ⟨htasks, hcalls⟩ := on_grid hplan hr
    rcases step_schedule hm hu with rfl | ⟨t, ht, htid, -, hsch⟩
    · cases hcalls i _ hk hid
      exact ⟨k₀, hfirst, Book.created hr hk hm⟩
    · obtain ⟨n, hat, hB⟩ := ih t ht (htid.trans hid)
      have hslot : ∀ t' ∈ p.store.tasks, t'.id = t₀.id → AtSlot t₀ n t'.nextRunAt t'.dueAt := by
        intro t' ht' hid'
        rwa [task_unique ht' ht (hid'.trans (htid.trans hid).symm)]
      by_cases hw : ∃ o, k'.won = some o ∧ o.taskId = t₀.id
      · obtain ⟨o, hw, hoid⟩ := hw
        obtain ⟨v, hv, w, hw', hvid, hwid, hvd, -, hwn, hwd⟩ := step_moves hm hw
        have hop : k.opens = some o := (step_opens hm).symm.trans (opens_of_won hw)
        obtain ⟨m, hspan⟩ := on_grid_spans (hcalls i k hk) hop hoid
        -- the swap found the token the call was given, so its occurrence is the stored one
        have hmn : m = n := by
          have hdue := (hslot v hv (hvid.trans hoid)).due
          rw [hvd, hspan.seen, Option.some.injEq] at hdue
          exact occurrence_inj hi (by lia)
        subst hmn
        refine ⟨m + o.run.coalesced, ?_, hB.won hr hC hk hm hi hn' hw hoid hspan⟩
        rw [task_unique hu hw' (hid.trans (hwid.trans hoid).symm), hwn, hwd]
        exact hspan.written
      · have hno : ∀ o, k'.won = some o → o.taskId ≠ t₀.id := fun o ho hoid => hw ⟨o, ho, hoid⟩
        refine ⟨n, ?_, hB.same hr hC hk hm hi (hcalls i k hk) hslot hno⟩
        rcases hsch with ⟨hnx, hd⟩ | hset | ⟨o, -, hwon, hoid, -⟩
        · rwa [hnx, hd]
        · exact absurd (hid ▸ hset) (on_grid_sets (hcalls i k hk))
        · exact absurd (hoid.trans hid) (hno o hwon)

theorem Same.covers {t : TaskRecord} (hs : Same t₀ t) {k k' : Int} {l : List (Time × Nat)}
    (h : Covers t₀ k l k') : Covers t k l k' := by
  induction l generalizing k with
  | nil => exact h
  | cons x l ih => exact ⟨h.1.trans (hs.occurrence k).symm, h.2.1, ih h.2.2⟩

/-- The rows of the task account for its occurrences from the `k`-th on: those of calls between
their two writes apart, they list in order as entries of which each stands for the `coalesced`
occurrences beginning at its `scheduled_at`, and each next one for those right after; the stored
`next_run_at` is the occurrence right after the last. -/
def Accounted (k : Int) (p : Config) (t : TaskRecord) : Prop :=
  ∃ l k', (∀ x, x ∈ l ↔ ∃ r ∈ p.store.runs, r.taskId = t.id ∧
      (r.scheduledAt, r.coalesced) = x ∧ ¬Untaken p r.runId) ∧
    l.Pairwise (fun x y => x.1 < y.1) ∧ Covers t k l k' ∧
    t.nextRunAt = some (t.occurrenceAt k')

/-- An interval task that only the scheduler touches is accounted for in every state, from the
first occurrence it was scheduled for. On SQLite no call is between two writes. -/
theorem accounted (hplan : Planned cal t₀) (h : (lts cal b).Reach (Untouched b t₀) p)
    {t : TaskRecord} (ht : t ∈ p.store.tasks) (hid : t.id = t₀.id) :
    (∃ k, t₀.nextRunAt = some (t.occurrenceAt k) ∧ Accounted k p t) ∧
      (b = .sqlite → ∀ id, ¬Untaken p id) := by
  have hi := t₀.interval hplan.kind
  obtain ⟨k₀, hfirst⟩ := hplan.slot
  obtain ⟨n, hat, hB⟩ := book hplan hfirst h t ht hid
  have hsame := ((on_grid hplan h).1 t ht hid).1
  refine ⟨⟨k₀, hfirst.next.trans (congrArg some (hsame.occurrence k₀).symm), ?_⟩, fun hb => ?_⟩
  rotate_left
  · subst hb
    exact untaken_sqlite h
  obtain ⟨l, hl, hcov⟩ := hB.covered
  refine ⟨l, n, fun x => (hl x).trans ⟨?_, ?_⟩, hcov.sorted hi, hsame.covers hcov,
    hat.next.trans (congrArg some (hsame.occurrence n).symm)⟩
  · rintro ⟨⟨r, hr, hrid, rfl⟩, hlt⟩
    refine ⟨r, hr, hrid.trans hid.symm, rfl, fun ⟨j, c, hj, hc⟩ => ?_⟩
    -- the row of a call between its two writes is for the stored occurrence
    obtain ⟨o, ho, hrun, hh, -⟩ := untaken_opens hc
    have hocc := (own_row h j c hj _ (brings_of_holds hh) r hr hrun.symm).1
    have htask : o.taskId = t₀.id := by
      rw [← opens_task ho, ← hrid]
      exact (congrArg Prod.fst hocc).symm
    have hmid := hB.mid j c o hj ⟨hrun ▸ hc, ho, htask⟩
    have : r.scheduledAt = o.run.scheduledAt := congrArg Prod.snd hocc
    lia
  · rintro ⟨r, hr, hrid, rfl, hno⟩
    have hrid := hrid.trans hid
    refine ⟨⟨r, hr, hrid, rfl⟩, ?_⟩
    by_contra hge
    obtain ⟨j, c, o, hj, hmid, hsched⟩ := hB.late _ ⟨r, hr, hrid, rfl⟩ (Int.not_lt.1 hge)
    obtain ⟨u, hu, huid, huocc, -⟩ := mid_row h hj hmid
    have hocc : u.occurrence = r.occurrence := by
      rw [huocc, TaskRunRecord.occurrence, hrid, hsched]
    exact hno ⟨j, c, hj, by rw [← occurrence_unique hu hr hocc, huid]; exact hmid.1⟩

namespace Sample

/-- The check of `Alone`. -/
def alone (t₀ : TaskRecord) : Label → Bool
  | .create t => t.id != t₀.id || decide (t = t₀)
  | .delete id | .runNow id _ => id != t₀.id
  | .setPaused found _ _ => found.id != t₀.id
  | _ => true

theorem alone_iff (h : alone t₀ e = true) : Alone t₀ e where
  create t he hid := by
    subst he
    simpa [alone, hid] using h
  delete he := by
    subst he
    simp [alone] at h
  paused found paused now he hid := by
    subst he
    simp [alone, hid] at h
  runNow now he := by
    subst he
    simp [alone] at h

/-- The check of `Untouched`, for steps that prune nothing and lose no call. -/
def untouched (t₀ : TaskRecord) (p : Config) (e : Label) : Bool :=
  alone t₀ e && keepsAll p e && match e with
    | .crash _ => false
    | _ => true

theorem untouched_iff (h : untouched t₀ p e = true) : Untouched b t₀ p e := by
  obtain ⟨h, hcrash⟩ := Bool.and_eq_true_iff.1 h
  obtain ⟨halone, hkeeps⟩ := Bool.and_eq_true_iff.1 h
  refine ⟨alone_iff halone, fun m => keeps_of_all hkeeps, ?_⟩
  rintro i k r rfl
  cases hcrash

/-- The run of the first minute lasts into the third: the second is an overlap. A tick in the fifth
finds the third and the fourth, and runs once for both. -/
def minutes : List Label :=
  claimed .sqlite ++ [.tick engine (130 * Clock.second), .exec 3,
    .dispatch 3 { task with
      nextRunAt := some 120, dueAt := some 120, state := .running, claimOwner := some 7,
      claimAt := some 60, leaseUntil := some 3660, lastRunAt := some 60, runCount := 1,
      updatedAt := 60 } 3 .raised, .exec 4, .finish 2 ok, .exec 5,
    .tick engine (250 * Clock.second), .exec 6,
    .dispatch 6 { task with
      nextRunAt := some 180, dueAt := some 180, claimAt := some 60, lastRunAt := some 60,
      lastStatus := some .ok, runCount := 1, missCount := 1, updatedAt := 90 } 4 .raised, .exec 7]

/-- A task that watches something, every minute. -/
def watch : TaskRecord := { task with mode := .watch, watchKey := "deploy" }

/-- A check in the first minute finds nothing, one in the second does. -/
def watched : List Label :=
  [.create watch, .exec 0, .tick { engine with watches := true } (60 * Clock.second), .exec 1,
    .dispatch 1 watch 2 (.answered .pending), .exec 2,
    .tick { engine with watches := true } (120 * Clock.second), .exec 3,
    .dispatch 3 { watch with nextRunAt := some 120, dueAt := some 120, updatedAt := 60 } 3
      (.answered .done), .exec 4]

/-- A run of the first minute lasts into the fourth, and a start-up prunes the overlap of the
second. -/
def pruned : List Label :=
  claimed .sqlite ++ [.tick engine (120 * Clock.second), .exec 3,
    .dispatch 3 { task with
      nextRunAt := some 120, dueAt := some 120, state := .running, claimOwner := some 7,
      claimAt := some 60, leaseUntil := some 3660, lastRunAt := some 60, runCount := 1,
      updatedAt := 60 } 3 .raised, .exec 4, .tick engine (180 * Clock.second), .exec 5,
    .dispatch 5 { task with
      nextRunAt := some 180, dueAt := some 180, state := .running, claimOwner := some 7,
      claimAt := some 60, leaseUntil := some 3660, lastRunAt := some 60, runCount := 1,
      missCount := 1, lastStatus := some .overlap, updatedAt := 120 } 4 .raised, .exec 6,
    .prune ⟨1, 150⟩, .exec 7]

theorem planned : Planned calendar task :=
  ⟨rfl, by decide, 0, by decide, by decide⟩

/-- What is in a ledger. -/
def entries (p : Config) : List (TaskId × Time × Nat) :=
  p.store.runs.rows.map fun r => (r.taskId, r.scheduledAt, r.coalesced)

end Sample

/-- Three rows account for four minutes. -/
theorem accounted_run : ∃ p t, (lts Sample.calendar .sqlite).Reach (Untouched .sqlite Sample.task) p ∧
    t ∈ p.store.tasks ∧ Sample.entries p = [(1, 60, 1), (1, 120, 1), (1, 180, 2)] ∧
    t.nextRunAt = some 300 ∧ ∃ k, Accounted k p t := by
  have h : ((lts Sample.calendar .sqlite).check (Sample.untouched Sample.task) Sample.start
      Sample.minutes).any (fun p => decide (Sample.entries p = [(1, 60, 1), (1, 120, 1), (1, 180, 2)])
        && p.store.tasks.rows.any fun t => decide (t.id = 1 ∧ t.nextRunAt = some 300)) = true := by
    decide
  obtain ⟨p, hp, hq⟩ := (Option.any_eq_true _ _).1 h
  obtain ⟨hrows, hq⟩ := Bool.and_eq_true_iff.1 hq
  obtain ⟨t, ht, hq⟩ := List.any_eq_true.1 hq
  obtain ⟨hid, hnext⟩ := of_decide_eq_true hq
  have hr := Lts.reach_of_check (L := lts Sample.calendar .sqlite)
    (C := Untouched .sqlite Sample.task) (fun _ _ => Sample.untouched_iff) (s := Sample.start) rfl hp
  obtain ⟨⟨k, -, hacc⟩, -⟩ := accounted Sample.planned hr ht hid
  exact ⟨p, t, hr, ht, of_decide_eq_true hrows, hnext, k, hacc⟩

/-- Two rows with a minute between them do not account for it. -/
theorem not_accounted_of_gap {t : TaskRecord} (hid : t.id = 1) (hanchor : t.anchorAt = 0)
    (hint : t.intervalS = 60) (hrows : Sample.entries p = [(1, 60, 1), (1, 180, 1)])
    (hno : ∀ id, ¬Untaken p id) (k : Int) : ¬Accounted k p t := by
  rintro ⟨l, k', hl, hsort, hcov, -⟩
  have hmem : ∀ x, x ∈ l ↔ x = (60, 1) ∨ x = (180, 1) := by
    intro x
    have hx : (∃ r ∈ p.store.runs, r.taskId = t.id ∧ (r.scheduledAt, r.coalesced) = x ∧
        ¬Untaken p r.runId) ↔ (1, x) ∈ Sample.entries p := by
      simp only [hno, not_false_eq_true, and_true, Sample.entries, List.mem_map, Table.mem_def, hid,
        Prod.mk.injEq]
    rw [hl, hx, hrows]
    simp
  -- the first entry is that of the first minute, and the second does not begin where it ends
  cases l with
  | nil => simpa using (hmem (60, 1)).2 (.inl rfl)
  | cons x l =>
    obtain ⟨hx1, -, hcov⟩ := hcov
    have hx := (hmem x).1 List.mem_cons_self
    have hlate := (List.pairwise_cons.1 hsort).1
    have h60 := List.mem_cons.1 ((hmem (60, 1)).2 (.inl rfl))
    have h180 := List.mem_cons.1 ((hmem (180, 1)).2 (.inr rfl))
    rcases hx with rfl | rfl
    · cases l with
      | nil => simp at h180
      | cons y l =>
        obtain ⟨hy1, -, -⟩ := hcov
        have hy := (hmem y).1 (List.mem_cons_of_mem _ List.mem_cons_self)
        have := hlate y List.mem_cons_self
        simp only [TaskRecord.occurrenceAt, hanchor, hint] at hx1 hy1
        rcases hy with rfl | rfl
        · simp at this
        · simp at hx1 hy1
          lia
    · rcases h60 with h60 | h60
      · cases h60
      · exact absurd (hlate _ h60) (by decide)

/-- On SQLite, where no admin touches them: a watch is not accounted for, since a check that finds
nothing leaves no row and the last one no schedule, nor is a task a row of which has been pruned. -/
theorem unaccounted :
    (∃ p t, (lts Sample.calendar .sqlite).Reach (fun _ => Alone Sample.watch) p ∧
      t ∈ p.store.tasks ∧ t.triggerKind = .triggerEvery ∧ Sample.entries p = [(1, 120, 1)] ∧
      ∀ k, ¬Accounted k p t) ∧
    ∃ p t, (lts Sample.calendar .sqlite).Reach (fun _ => Alone Sample.task) p ∧
      t ∈ p.store.tasks ∧ t.triggerKind = .triggerEvery ∧ t.mode = .turn ∧
      Sample.entries p = [(1, 60, 1), (1, 180, 1)] ∧ ∀ k, ¬Accounted k p t := by
  constructor
  · have h : ((lts Sample.calendar .sqlite).check (fun _ => Sample.alone Sample.watch) Sample.start
        Sample.watched).any (fun p => decide (Sample.entries p = [(1, 120, 1)]) &&
          p.store.tasks.rows.any fun t => decide (t.triggerKind = .triggerEvery ∧
            t.nextRunAt = none)) = true := by decide
    obtain ⟨p, hp, hq⟩ := (Option.any_eq_true _ _).1 h
    obtain ⟨hrows, hq⟩ := Bool.and_eq_true_iff.1 hq
    obtain ⟨t, ht, hq⟩ := List.any_eq_true.1 hq
    obtain ⟨hkind, hnext⟩ := of_decide_eq_true hq
    refine ⟨p, t, Lts.reach_of_check (fun _ _ => Sample.alone_iff) (s := Sample.start) rfl hp, ht,
      hkind, of_decide_eq_true hrows, ?_⟩
    rintro k ⟨l, k', -, -, -, hsome⟩
    cases hnext.symm.trans hsome
  · have h : ((lts Sample.calendar .sqlite).check (fun _ => Sample.alone Sample.task) Sample.start
        Sample.pruned).any (fun p => decide (Sample.entries p = [(1, 60, 1), (1, 180, 1)]) &&
          p.store.tasks.rows.any fun t => decide (t.id = 1 ∧ t.triggerKind = .triggerEvery ∧
            t.mode = .turn ∧ t.anchorAt = 0 ∧ t.intervalS = 60)) = true := by decide
    obtain ⟨p, hp, hq⟩ := (Option.any_eq_true _ _).1 h
    obtain ⟨hrows, hq⟩ := Bool.and_eq_true_iff.1 hq
    obtain ⟨t, ht, hq⟩ := List.any_eq_true.1 hq
    obtain ⟨hid, hkind, hmode, hanchor, hint⟩ := of_decide_eq_true hq
    have hr := Lts.reach_of_check (L := lts Sample.calendar .sqlite)
      (C := fun _ => Alone Sample.task) (fun _ _ => Sample.alone_iff) (s := Sample.start) rfl hp
    exact ⟨p, t, hr, ht, hkind, hmode, of_decide_eq_true hrows,
      not_accounted_of_gap hid hanchor hint (of_decide_eq_true hrows) (untaken_sqlite hr)⟩

end Tasks
