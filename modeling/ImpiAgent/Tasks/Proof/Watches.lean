import ImpiAgent.Tasks.Proof.Accounts
import ImpiAgent.Tasks.Proof.Ledger

/-!
# A watch gets one turn

A tick claims a watch only for good: the claim leaves it no schedule (`dispatch_final`). It stays
without one where nothing schedules it again and its hook is asked on no row from before the claim
(`Kept`): then no run claims it again or asks its hook again (`watch_one_turn`). On the code's own paths an
engine with a row from before the claim asks again, a pending answer puts the schedule back, and the
watch is claimed a second time (`watch_two_turns`).
-/

namespace Tasks

open Triggers Scheduler

variable {cal : Calendar} {b : Backend} {p p' : Config} {e : Label} {s s' : Store} {k k' : Call}
  {t u : TaskRecord} {es : List Label}

/-! ## Asking -/

/-- A dispatch of the row comes to `_tick_watch`, and the verdict to the hook. -/
def asksHook (e : Engine) (t : TaskRecord) (now : Moment) : Bool :=
  match t.nextRunAt with
  | none => false
  | some next =>
    t.state != .running &&
      !(decide (now - Clock.fromIso next > freshSlack e) && withinStartupGrace e now) &&
      t.mode == .watch && !(t.expiresAt.any fun expires => now ≥ Clock.fromIso expires) && e.watches

/-- Where the hook is not asked, nothing depends on its answer. -/
theorem dispatch_unasked {e : Engine} {now : Moment} (h : asksHook e t now = false) (r : RunId)
    (hook hook' : HookAnswer) : dispatch cal e t now r hook = dispatch cal e t now r hook' := by
  unfold dispatch asksHook at *
  cases hn : t.nextRunAt with
  | none => rfl
  | some next =>
    simp only [hn] at h
    by_cases hr : t.state = .running
    · simp [hr]
    by_cases hl : now - Clock.fromIso next > freshSlack e ∧ withinStartupGrace e now
    · simp [hr, hl]
    by_cases hw : t.mode = .watch
    · have hv : watchVerdict e t now hook = watchVerdict e t now hook' := by
        unfold watchVerdict
        split
        · rfl
        · next hx =>
          have : e.watches = false := by
            have hl' : (decide (now - Clock.fromIso next > freshSlack e) &&
                withinStartupGrace e now) = false := by
              simpa using hl
            simpa [hr, hl', hw, hx] using h
          simp [this]
      simp only [hr, hl, hw, if_true, if_false, tickWatch, hv]
    · simp [hr, hl, hw]

/-- The watch whose hook the label asks. -/
def Label.asks (p : Config) : Label → Option TaskId
  | .dispatch i t _ _ =>
    match p.pool.calls[i]? with
    | some (some (.gotDue k _)) => if asksHook k.engine t k.now then some t.id else none
    | _ => none
  | _ => none

/-- The watches whose hooks a run asks. -/
def asked (cal : Calendar) (b : Backend) : Config → List Label → List TaskId
  | _, [] => []
  | p, e :: es =>
    (e.asks p).toList ++ match next cal b p e with
      | some p' => asked cal b p' es
      | none => []

/-! ## One call -/

/-- The task a call schedules without a look at what is there. -/
def Call.arms : Call → Option TaskId
  | .setPaused id _ next due _ | .reschedule id next due _ =>
    if next.isSome || due.isSome then some id else none
  | .requestRunNow id _ => some id
  | _ => none

/-- The claim a call is to make. -/
def Call.claims : Call → Option ClaimArgs
  | .claimDue a | .claimSwap a => some a
  | _ => none

/-- A watch that has not been claimed, or has been once and is without a schedule. -/
def OneTurn (t : TaskRecord) : Prop :=
  t.runCount = 0 ∨ t.runCount = 1 ∧ t.nextRunAt = none ∧ t.dueAt = none

theorem OneTurn.due (h : OneTurn t) {d : Time} (hd : t.dueAt = some d) : t.runCount = 0 := by
  rcases h with h | ⟨-, -, h⟩
  · exact h
  · rw [h] at hd
    cases hd

/-- A watch is claimed for good. -/
theorem dispatch_final {e : Engine} {now : Moment} {r : RunId} {hook : HookAnswer} {a : ClaimArgs}
    (h : dispatch cal e t now r hook = some (.claimDue a)) (hw : t.mode = .watch) :
    a.nextRunAt = none ∧ a.dueAt = none := by
  unfold dispatch at h
  split at h
  · cases h
  simp only at h
  split at h
  · cases h
  split at h
  · cases h
  unfold tickWatch at h
  split at h <;> cases h <;> exact ⟨rfl, rfl⟩

/-- What a statement makes of a task's schedule and its count of claims. -/
inductive Turns (q : Statement) (t u : TaskRecord) : Prop
  | stays : u.runCount = t.runCount → u.nextRunAt = t.nextRunAt → u.dueAt = t.dueAt → Turns q t u
  | claims {a : ClaimArgs} {d : Time} : q = .claimTask a → a.taskId = t.id → t.dueAt = some d →
      u.runCount = t.runCount + 1 → u.nextRunAt = a.nextRunAt → u.dueAt = a.dueAt → Turns q t u
  | skips {d : Time} : t.dueAt = some d → u.runCount = t.runCount → Turns q t u
  | arms : q.swaps = none → q.writes = some (t.id, u.nextRunAt, u.dueAt) →
      u.runCount = t.runCount → Turns q t u

theorem on_task_turns {q : Statement} (h : q.onTask t = some u) : Turns q t u := by
  cases q <;> simp only [Statement.onTask] at h <;> (try split at h) <;> cases h <;>
    try exact .stays rfl rfl rfl
  · next a hc =>
    obtain ⟨-, hd, hn⟩ := Store.claimable_iff.1 hc.2
    obtain ⟨d, hd'⟩ := Option.ne_none_iff_exists'.1 hn
    exact .claims rfl hc.1.symm (hd.trans hd') rfl rfl rfl
  · next a hc =>
    obtain ⟨hd, hn⟩ := Store.due_still_iff.1 hc.2
    obtain ⟨d, hd'⟩ := Option.ne_none_iff_exists'.1 hn
    exact .skips (hd.trans hd') rfl
  · next hc => exact .arms rfl (by rw [hc.1]; rfl) rfl
  · next hc => exact .arms rfl (by rw [hc.1]; rfl) rfl
  · next hc => exact .arms rfl (by rw [hc]; rfl) rfl

theorem plan_claims {pl : Plan Statement Call} {a : ClaimArgs} (h : k.plan b s = some pl)
    (hq : Statement.claimTask a ∈ pl.tx) : k.claims = some a := by
  replace h := plan_issues h
  cases h <;>
    simp_all [Call.claims, Plan.read, Plan.write, reclaimWrites]

theorem plan_arms {pl : Plan Statement Call} {q : Statement} {id : TaskId} {next due : Option Time}
    (h : k.plan b s = some pl) (hq : q ∈ pl.tx) (hw : q.writes = some (id, next, due))
    (hs : q.swaps = none) : k.claims = none ∧
      k.arms = if next.isSome || due.isSome then some id else none := by
  cases k
  case reclaimCommit a orphans =>
    cases h
    obtain ⟨r, -, rfl | rfl⟩ := mem_reclaim_writes.1 hq <;> cases hw
  all_goals
    simp only [Call.plan] at h
    (repeat' split at h) <;> cases h <;>
      simp only [Plan.read, Plan.write, List.mem_cons, List.not_mem_nil, or_false] at hq
  all_goals
    first
    | subst hq
    | rcases hq with rfl | rfl
  all_goals
    cases hw <;>
      first
      | exact ⟨rfl, rfl⟩
      | cases hs

/-- A step keeps the watches settled whose claims are for good and which it schedules only before
they are claimed, and counts no claim down. -/
theorem step_one_turn (h : k.step b s = some (s', k'))
    (hrows : ∀ t ∈ s.tasks, t.mode = .watch → OneTurn t)
    (hclaims : ∀ a, k.claims = some a → ∀ t ∈ s.tasks, t.id = a.taskId → t.mode = .watch →
      a.nextRunAt = none ∧ a.dueAt = none)
    (harms : ∀ id, k.arms = some id → ∀ t ∈ s.tasks, t.id = id → t.mode = .watch →
      t.runCount = 0) (hu : u ∈ s'.tasks) :
    k = .createTask u ∨ ∃ t ∈ s.tasks, t.id = u.id ∧ Same t u ∧ t.runCount ≤ u.runCount ∧
      (k.claims = none → u.runCount = t.runCount) ∧ (u.mode = .watch → OneTurn u) := by
  refine machine_inv (I := fun s₁ => ∀ u ∈ s₁.tasks, k = .createTask u ∨ ∃ t ∈ s.tasks,
    t.id = u.id ∧ Same t u ∧ t.runCount ≤ u.runCount ∧
      (k.claims = none → u.runCount = t.runCount) ∧ (u.mode = .watch → OneTurn u)) h
    (fun pl hp q hq s₁ s₂ ih ha u hu => ?_)
    (fun u hu => .inr ⟨u, hu, rfl, Same.refl u, Nat.le_refl _, fun _ => rfl, hrows u hu⟩) u hu
  rcases (apply_tasks ha u).1 hu with ⟨v, hv, hvu⟩ | rfl
  rotate_left
  · exact .inl (plan_creates hp hq).1
  have hid := on_task_id hvu
  have hsame := on_task_same hvu
  rcases ih v hv with rfl | ⟨t, ht, htid, hts, hle, heq, hset⟩
  · -- the call creates the task and does nothing else
    cases hp
    cases List.mem_singleton.1 hq
    cases hvu
    exact .inl rfl
  refine .inr ⟨t, ht, htid.trans hid.symm, hts.trans hsame, ?_⟩
  cases on_task_turns hvu with
  | stays hc hn hd =>
    refine ⟨hc ▸ hle, fun hk => hc.trans (heq hk), fun hw => ?_⟩
    rcases hset (hsame.mode.symm.trans hw) with h0 | ⟨h1, hn', hd'⟩
    · exact .inl (hc.trans h0)
    · exact .inr ⟨hc.trans h1, hn.trans hn', hd.trans hd'⟩
  | @claims a d hqa hat hdue hc hn hd =>
    subst hqa
    have hka := plan_claims hp hq
    refine ⟨by omega, fun hk => (nomatch hka.symm.trans hk), fun hw => ?_⟩
    have hv := hsame.mode.symm.trans hw
    obtain ⟨hn', hd'⟩ := hclaims a hka t ht (htid.trans hat.symm) (hts.mode.symm.trans hv)
    have := (hset hv).due hdue
    exact .inr ⟨by omega, hn.trans hn', hd.trans hd'⟩
  | skips hdue hc =>
    exact ⟨hc ▸ hle, fun hk => hc.trans (heq hk), fun hw =>
      .inl (hc.trans ((hset (hsame.mode.symm.trans hw)).due hdue))⟩
  | arms hns hwr hc =>
    obtain ⟨hka, harm⟩ := plan_arms hp hq hwr hns
    refine ⟨hc ▸ hle, fun _ => hc.trans (heq hka), fun hw => ?_⟩
    have hv := hsame.mode.symm.trans hw
    split at harm
    · exact .inl (hc.trans ((heq hka).trans (harms _ harm t ht htid (hts.mode.symm.trans hv))))
    · next hno =>
      simp only [Bool.or_eq_true, not_or, Bool.not_eq_true, Option.isSome_eq_false_iff,
        Option.isNone_iff_eq_none] at hno
      rcases hset hv with h0 | ⟨h1, -⟩
      · exact .inl (hc.trans h0)
      · exact .inr ⟨hc.trans h1, hno⟩

theorem claims_mentions {a : ClaimArgs} (h : k.claims = some a) : a.taskId ∈ k.mentions := by
  cases k <;> simp only [Call.claims, Option.some.injEq, reduceCtorEq] at h <;> subst h <;>
    exact List.mem_singleton.2 rfl

/-- A call comes to a claim it was to make before. -/
theorem step_claims {a : ClaimArgs} (h : k.step b s = some (s', k')) (hc : k'.claims = some a) :
    k.claims = some a := by
  have orphan : ∀ {c todo orphans}, (nextOrphan c orphans todo).claims = none := by
    intro c todo orphans
    cases todo <;> rfl
  have key : ∀ {pl : Plan Statement Call}, k.plan b s = some pl → ∀ c, c = pl.ok ∨ c = pl.no →
      c.claims = some a → k.claims = some a := by
    intro pl hp c hc hca
    replace hp := plan_issues hp
    cases hp <;>
      rcases hc with rfl | rfl <;>
      first
      | exact hca
      | cases hca
      | exact (nomatch orphan.symm.trans hca)
  obtain ⟨pl, hp, ⟨-, rfl⟩ | ⟨-, -, rfl⟩⟩ := machine_cases h
  · exact key hp _ (.inl rfl) hc
  · exact key hp _ (.inr rfl) hc

/-- The rows of a tick are those of the store. -/
theorem step_reads {q : Tick} {rows : List TaskRecord}
    (h : k.step b s = some (s', .gotDue q rows)) : s' = s ∧ ∀ t ∈ rows, t ∈ s.tasks := by
  have orphan : ∀ {c todo orphans}, nextOrphan c orphans todo ≠ .gotDue q rows := by
    intro c todo orphans
    cases todo <;> simp [nextOrphan]
  have key : ∀ {pl : Plan Statement Call}, k.plan b s = some pl →
      .gotDue q rows = pl.ok ∨ .gotDue q rows = pl.no → pl.tx = [] ∧ ∀ t ∈ rows, t ∈ s.tasks := by
    intro pl hp hc
    cases k
    case dueTasks c =>
      cases hp
      refine ⟨rfl, fun t ht => ?_⟩
      obtain ⟨rfl, rfl⟩ : q = c ∧ rows = s.dueTasks c.horizon dueLimit := by
        rcases hc with h | h <;> cases h <;> exact ⟨rfl, rfl⟩
      have hmem := List.mem_of_mem_take ht
      rw [List.mem_insertionSort] at hmem
      exact (Table.mem_select.1 hmem).1
    all_goals
      simp only [Call.plan] at hp
      (repeat' split at hp) <;> cases hp <;> rcases hc with h | h <;>
        first
        | cases h
        | exact absurd h.symm orphan
  obtain ⟨pl, hp, ⟨ht, hk⟩ | ⟨-, hs, hk⟩⟩ := machine_cases h
  · obtain ⟨htx, hrows⟩ := key hp (.inl hk)
    rw [htx] at ht
    cases ht
    exact ⟨rfl, hrows⟩
  · exact ⟨hs, (key hp (.inr hk)).2⟩

/-! ## Every run -/

/-- Nothing schedules a watch that has been claimed, and a hook is asked about rows only that were
not claimed since they were read. -/
structure Kept (p : Config) (e : Label) : Prop where
  armed : ∀ i k id, e = .exec i → p.pool.At i k → k.arms = some id →
    ∀ t ∈ p.store.tasks, t.id = id → t.mode = .watch → t.runCount = 0
  fresh : ∀ i t r hook, e = .dispatch i t r hook → e.asks p = some t.id →
    ∃ u ∈ p.store.tasks, u.id = t.id ∧ u.runCount = t.runCount

structure Watchful (p : Config) : Prop where
  rows : ∀ t ∈ p.store.tasks, t.mode = .watch → OneTurn t
  read : ∀ i k rows t, p.pool.At i (.gotDue k rows) → t ∈ rows →
    (t.mode = .watch → OneTurn t) ∧ ∀ u ∈ p.store.tasks, u.id = t.id → u.mode = t.mode
  claims : ∀ i k a, p.pool.At i k → k.claims = some a → ∀ u ∈ p.store.tasks, u.id = a.taskId →
    u.mode = .watch → a.nextRunAt = none ∧ a.dueAt = none

/-- A task after a step of a call was there before, in the same mode, or is the one it creates. -/
theorem step_mode (h : k.step b s = some (s', k')) (hu : u ∈ s'.tasks) :
    k = .createTask u ∨ ∃ t ∈ s.tasks, t.id = u.id ∧ u.mode = t.mode := by
  rcases step_schedule h hu with hc | ⟨t, ht, hid, hsame, -⟩
  · exact .inl hc
  · exact .inr ⟨t, ht, hid, hsame.mode⟩

/-- What goes by a task does not meet one that is created under its id. -/
theorem row_before {C : Config → Label → Prop} (hr : (lts cal b).Reach C p) {i j : Nat} {c : Call}
    {id : TaskId} (hk : p.pool.At i k) (hm : k.step b p.store = some (s', k'))
    (hj : p.pool.At j c) (hne : ∀ t, c ≠ .createTask t) (hid : id ∈ c.mentions)
    (hu : u ∈ s'.tasks) (hue : u.id = id) : ∃ t ∈ p.store.tasks, t.id = id ∧ Same t u := by
  rcases step_schedule hm hu with rfl | ⟨t, ht, hte, hsame, -⟩
  · obtain rfl := ((born hr).new i u hk).2.2 j c hj (hue ▸ hid)
    exact absurd (hj.eq hk) (hne u)
  · exact ⟨t, ht, hte.trans hue, hsame⟩

theorem Watchful.start (hW : Watchful p) {ids : List Nat} (hb : Begins cal p e k ids) :
    Watchful ⟨p.pool.start k, ids ++ p.minted, p.tally⟩ := by
  refine ⟨hW.rows, fun i c rows t hi => ?_, fun i c a hi hc => ?_⟩
  · rcases Pool.at_start.1 hi with hi | ⟨-, rfl⟩
    · exact hW.read i c rows t hi
    · cases hb with
      | dispatch _ _ _ _ _ hd => cases dispatch_spec hd
  · rcases Pool.at_start.1 hi with hi | ⟨-, rfl⟩
    · exact hW.claims i c a hi hc
    · cases hb with
      | dispatch hread ht _ _ _ hd =>
        cases dispatch_spec hd with
        | claim hid =>
          cases hc
          exact fun u hu hue hw => dispatch_final hd
            (((hW.read _ _ _ _ hread ht).2 u hu (hue.trans hid)).symm.trans hw)
        | skip => cases hc
        | move => cases hc
      | _ => cases hc

theorem Watchful.exec (hW : Watchful p) (hr : (lts cal b).Reach Kept p) {i : Nat}
    (hC : Kept p (.exec i)) (hk : p.pool.At i k) (hm : k.step b p.store = some (s', k'))
    {tally : List RunId} : Watchful ⟨p.pool.put i s' k', p.minted, tally⟩ := by
  refine ⟨fun u hu hw => ?_, fun j q rows t hj ht => ?_, fun j c a hj hc u hu hue hw => ?_⟩
  · rcases step_one_turn hm hW.rows (fun a ha => hW.claims i k a hk ha)
      (fun id ha => hC.armed i k id rfl hk ha) hu with rfl | ⟨t, -, -, -, -, -, hset⟩
    · exact .inl (created_fresh hr i _ hk u rfl).2.2.2.1
    · exact hset hw
  · rcases (Pool.at_put hk).1 hj with ⟨-, rfl⟩ | ⟨-, hj⟩
    · obtain ⟨rfl, hrows⟩ := step_reads hm
      exact ⟨hW.rows t (hrows t ht), fun u hu hue => congrArg (·.mode) (task_unique hu (hrows t ht) hue)⟩
    · obtain ⟨hset, hmode⟩ := hW.read j q rows t hj ht
      refine ⟨hset, fun u hu hue => ?_⟩
      obtain ⟨v, hv, hve, hvu⟩ := row_before hr hk hm hj (by simp) (List.mem_map_of_mem ht) hu hue
      exact hvu.mode.trans (hmode v hv hve)
  · have key : ∀ j c, p.pool.At j c → c.claims = some a → a.nextRunAt = none ∧ a.dueAt = none := by
      intro j c hj hc
      have hne : ∀ t, c ≠ .createTask t := by
        rintro t rfl
        cases hc
      obtain ⟨v, hv, hve, hvu⟩ := row_before hr hk hm hj hne (claims_mentions hc) hu hue
      exact hW.claims j c a hj hc v hv hve (hvu.mode.symm.trans hw)
    rcases (Pool.at_put hk).1 hj with ⟨-, rfl⟩ | ⟨-, hj⟩
    · exact key i k hk (step_claims hm hc)
    · exact key j c hj hc

theorem watchful (h : (lts cal b).Reach Kept p) : Watchful p := by
  refine h.inv_using (fun p h0 => ?_) fun p e p' hr ih hC hn => ?_
  · cases h0
    exact ⟨fun t ht => by simp [Table.empty, Table.mem_def] at ht,
      fun i k rows t hi => by simp [Pool.At] at hi, fun i k a hi => by simp [Pool.At] at hi⟩
  cases next_step hn with
  | start hb => exact ih.start (begins_spec hb)
  | exec hk hm => exact ih.exec hr hC hk hm
  | crash =>
    exact ⟨ih.rows, fun i k rows t hi => ih.read i k rows t (Pool.at_kill.1 hi).2,
      fun i k a hi => ih.claims i k a (Pool.at_kill.1 hi).2⟩

/-- The watch has been claimed, and its id is drawn. -/
structure Turned (id : TaskId) (p : Config) : Prop where
  minted : id ∈ p.minted
  old : ∀ i t, p.pool.At i (.createTask t) → t.id ≠ id
  watch : ∀ u ∈ p.store.tasks, u.id = id → u.mode = .watch
  count : ∀ u ∈ p.store.tasks, u.id = id → 0 < u.runCount

theorem Turned.settled {id : TaskId} (hT : Turned id p) (hr : (lts cal b).Reach Kept p)
    (hu : u ∈ p.store.tasks) (hid : u.id = id) :
    u.runCount = 1 ∧ u.nextRunAt = none ∧ u.dueAt = none := by
  rcases (watchful hr).rows u hu (hT.watch u hu hid) with h0 | h
  · have := hT.count u hu hid
    omega
  · exact h

theorem turned_step {id : TaskId} (hT : Turned id p) (hr : (lts cal b).Reach Kept p)
    (hC : Kept p e) (hn : next cal b p e = some p') : Turned id p' := by
  cases next_step hn with
  | start hb =>
    refine ⟨List.mem_append_right _ hT.minted, fun i t hi => ?_, hT.watch, hT.count⟩
    rcases Pool.at_start.1 hi with hi | ⟨-, rfl⟩
    · exact hT.old i t hi
    · cases begins_spec hb with
      | dispatch _ _ _ _ _ hd => cases dispatch_spec hd
      | create hf =>
        rintro rfl
        exact hf hT.minted
  | @exec i k k' s' hk hm =>
    refine ⟨hT.minted, fun j t hj => ?_, fun u hu hid => ?_, fun u hu hid => ?_⟩
    · rcases (Pool.at_put hk).1 hj with ⟨-, rfl⟩ | ⟨-, hj⟩
      · exact absurd rfl ((step_mentions hm).2 t)
      · exact hT.old j t hj
    · rcases step_mode hm hu with rfl | ⟨t, ht, hte, hmode⟩
      · exact absurd hid (hT.old i u hk)
      · exact hmode.trans (hT.watch t ht (hte.trans hid))
    · have hW := watchful hr
      rcases step_one_turn hm hW.rows (fun a ha => hW.claims i k a hk ha)
        (fun id ha => hC.armed i k id rfl hk ha) hu with rfl | ⟨t, ht, hte, -, hle, -⟩
      · exact absurd hid (hT.old i u hk)
      · exact Nat.lt_of_lt_of_le (hT.count t ht (hte.trans hid)) hle
  | crash =>
    exact ⟨hT.minted, fun i t hi => hT.old i t (Pool.at_kill.1 hi).2, hT.watch, hT.count⟩

/-- No label asks the hook of a watch that has been claimed. -/
theorem Turned.unasked {id : TaskId} (hT : Turned id p) (hr : (lts cal b).Reach Kept p)
    (hC : Kept p e) (hn : next cal b p e = some p') : e.asks p ≠ some id := by
  intro ha
  cases e with
  | dispatch i t r hook =>
    have hasks := ha
    simp only [Label.asks] at ha
    split at ha
    · next k rows hi =>
      split at ha
      · next hask =>
        cases ha
        have hmode : t.mode = .watch := by
          unfold asksHook at hask
          split at hask
          · cases hask
          · simp only [Bool.and_eq_true, beq_iff_eq] at hask
            exact hask.1.1.2
        obtain ⟨u, hu, hue, hcount⟩ := hC.fresh i t r hook rfl hasks
        cases next_step hn with
        | start hb =>
          cases begins_spec hb with
          | dispatch hi' ht hdue =>
            have := ((watchful hr).read _ _ _ _ hi' ht).1 hmode |>.due hdue
            have := hT.count u hu hue
            omega
      · cases ha
    · cases ha
  | _ => cases ha

/-- Once a watch has been claimed, no run claims it again, schedules it or asks its hook. -/
theorem watch_one_turn (h : (lts cal b).Reach Kept p) (ht : t ∈ p.store.tasks) (hw : t.mode = .watch)
    (hc : 0 < t.runCount) (hrun : (lts cal b).Run Kept p es p') :
    t.id ∉ asked cal b p es ∧ ∀ u ∈ p'.store.tasks, u.id = t.id →
      u.runCount = t.runCount ∧ u.nextRunAt = none ∧ u.dueAt = none := by
  have hT : Turned t.id p :=
    ⟨(born h).tasks t ht, fun i v hi he => ((born h).new i v hi).1 t ht he.symm,
      fun u hu he => task_unique hu ht he ▸ hw, fun u hu he => task_unique hu ht he ▸ hc⟩
  have hone : t.runCount = 1 := (hT.settled h ht rfl).1
  clear ht hw hc
  induction hrun with
  | nil => exact ⟨List.not_mem_nil, fun u hu he => hone ▸ hT.settled h hu he⟩
  | @cons p p₁ p' e es hC hn _ ih =>
    obtain ⟨hasked, hrows⟩ := ih (h.step hC hn) (turned_step hT h hC hn)
    refine ⟨fun hin => ?_, hrows⟩
    have hn' : next cal b p e = some p₁ := hn
    rw [asked, hn', List.mem_append] at hin
    rcases hin with hin | hin
    · exact hT.unasked h hC hn' (Option.mem_toList.1 hin)
    · exact hasked hin

namespace Sample

/-- The check of `Kept`. -/
def kept (p : Config) : Label → Bool
  | .exec i =>
    match p.pool.calls[i]? with
    | some (some k) => p.store.tasks.rows.all fun t =>
      k.arms != some t.id || t.mode != .watch || t.runCount == 0
    | _ => true
  | .dispatch i t r hook => (Label.asks p (.dispatch i t r hook)).isNone ||
    p.store.tasks.rows.any fun u => u.id == t.id && u.runCount == t.runCount
  | _ => true

theorem kept_iff (h : kept p e = true) : Kept p e := by
  refine ⟨fun i k id he hk ha t ht hid hw => ?_, fun i t r hook he ha => ?_⟩
  · subst he
    unfold Pool.At at hk
    simp only [kept, hk, List.all_eq_true] at h
    simpa [ha, hid, hw] using h t ht
  · subst he
    simp only [kept, ha, Option.isNone_some, Bool.false_or] at h
    obtain ⟨u, hu, hp⟩ := List.any_eq_true.1 h
    exact ⟨u, hu, by simpa using hp⟩

def hooked : Engine := { engine with watches := true }

/-- Two ticks read the watch, it is paused and resumed, and a third tick claims it. -/
def watchClaimed : List Label :=
  [.create watch, .exec 0, .setPaused watch true 0, .exec 1, .setPaused watch false 0, .exec 2,
    .tick hooked (60 * Clock.second), .exec 3, .tick hooked (60 * Clock.second), .exec 4,
    .dispatch 3 watch 2 (.answered .done), .exec 5]

/-- Its turn ends, and no tick reads it any more. -/
def watchEnded : List Label :=
  [.finish 5 { ok with releaseState := .done, released := by decide }, .exec 6,
    .tick hooked (600 * Clock.second), .exec 7]

/-- The second tick asks again, and moves a schedule that has ended. -/
def watchAsked : List Label := [.dispatch 4 watch 3 (.answered .pending), .exec 6]

/-- The engine dies, and the next one claims the watch once more. -/
def watchAgain : List Label :=
  [.recover ⟨8, 90⟩, .exec 7, .exec 7, .exec 7, .exec 7, .tick hooked (120 * Clock.second), .exec 8,
    .dispatch 8 { watch with
      nextRunAt := some 120, dueAt := some 120, claimAt := some 60, lastRunAt := some 60,
      lastStatus := some .interrupted, runCount := 1, consecutiveFailures := 1,
      updatedAt := 90 } 4 (.answered .done), .exec 9]

/-- What is in the store of the watches. -/
def watches (p : Config) : List (Nat × Option Time) :=
  p.store.tasks.rows.map fun t => (t.runCount, t.dueAt)

end Sample

/-- `watch_one_turn` over the end of a watch that was paused and resumed before it was claimed. -/
theorem watch_one_turn_run : ∃ p t p', t ∈ p.store.tasks ∧ t.runCount = 1 ∧
    (lts Sample.calendar .sqlite).Run Kept p Sample.watchEnded p' ∧
    (t.id ∉ asked Sample.calendar .sqlite p Sample.watchEnded ∧ ∀ u ∈ p'.store.tasks, u.id = t.id →
      u.runCount = t.runCount ∧ u.nextRunAt = none ∧ u.dueAt = none) := by
  have h : ((lts Sample.calendar .sqlite).check Sample.kept Sample.start Sample.watchClaimed).any
      (fun p => (p.store.tasks.rows.any fun t => decide (t.mode = .watch ∧ t.runCount = 1)) &&
        ((lts Sample.calendar .sqlite).check Sample.kept p Sample.watchEnded).isSome) = true := by
    decide
  obtain ⟨p, hp, h⟩ := (Option.any_eq_true _ _).1 h
  obtain ⟨ht, h⟩ := Bool.and_eq_true_iff.1 h
  obtain ⟨t, ht, hq⟩ := List.any_eq_true.1 ht
  obtain ⟨hw, hc⟩ := of_decide_eq_true hq
  obtain ⟨p', hp'⟩ := Option.isSome_iff_exists.1 h
  have hr := Lts.reach_of_check (L := lts Sample.calendar .sqlite) (fun _ _ => Sample.kept_iff)
    (s := Sample.start) rfl hp
  have hrun := Lts.run_of_check (L := lts Sample.calendar .sqlite) (fun _ _ => Sample.kept_iff) hp'
  exact ⟨p, t, p', ht, hc, hrun, watch_one_turn hr ht hw (by omega) hrun⟩

/-- A watch is claimed; a tick that read it before asks its hook again and gives it a schedule, and
it is claimed a second time. -/
theorem watch_two_turns : ∃ p p₁ p₂ t, (lts Sample.calendar .sqlite).Reach Lts.Any p ∧
    t ∈ p.store.tasks ∧ t.mode = .watch ∧ Sample.watches p = [(1, none)] ∧
    (lts Sample.calendar .sqlite).Run Lts.Any p Sample.watchAsked p₁ ∧
    t.id ∈ asked Sample.calendar .sqlite p Sample.watchAsked ∧
    Sample.watches p₁ = [(1, some 120)] ∧
    (lts Sample.calendar .sqlite).Run Lts.Any p₁ Sample.watchAgain p₂ ∧
    Sample.watches p₂ = [(2, none)] := by
  have h : ((lts Sample.calendar .sqlite).check (fun _ _ => true) Sample.start
      Sample.watchClaimed).any (fun p =>
        (decide (Sample.watches p = [(1, none)]) && p.store.tasks.rows.any fun t =>
          decide (t.mode = .watch ∧ t.id ∈ asked Sample.calendar .sqlite p Sample.watchAsked)) &&
        ((lts Sample.calendar .sqlite).check (fun _ _ => true) p Sample.watchAsked).any fun p₁ =>
          decide (Sample.watches p₁ = [(1, some 120)]) &&
          ((lts Sample.calendar .sqlite).check (fun _ _ => true) p₁ Sample.watchAgain).any fun p₂ =>
            decide (Sample.watches p₂ = [(2, none)])) = true := by
    decide
  obtain ⟨p, hp, h⟩ := (Option.any_eq_true _ _).1 h
  obtain ⟨ht, h⟩ := Bool.and_eq_true_iff.1 h
  obtain ⟨hs, ht⟩ := Bool.and_eq_true_iff.1 ht
  obtain ⟨t, ht, hq⟩ := List.any_eq_true.1 ht
  obtain ⟨hw, ha⟩ := of_decide_eq_true hq
  obtain ⟨p₁, hp₁, h⟩ := (Option.any_eq_true _ _).1 h
  obtain ⟨hs₁, h⟩ := Bool.and_eq_true_iff.1 h
  obtain ⟨p₂, hp₂, hs₂⟩ := (Option.any_eq_true _ _).1 h
  have any : ∀ (p : Config) (e : Label), true = true → Lts.Any p e := fun _ _ _ => trivial
  exact ⟨p, p₁, p₂, t, Lts.reach_of_check any (s := Sample.start) rfl hp, ht, hw,
    of_decide_eq_true hs, Lts.run_of_check any hp₁, ha, of_decide_eq_true hs₁,
    Lts.run_of_check any hp₂, of_decide_eq_true hs₂⟩

end Tasks
