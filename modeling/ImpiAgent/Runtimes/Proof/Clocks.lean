import ImpiAgent.Runtimes.Clocks
import Mathlib.Tactic.Linarith

/-!
# The clocks count the time the runtime is waited on

`_await_turn` reads its three clocks off the accounts `pause_clock` keeps. `Counted` is that the
accounts are right: what is paused of a turn is what they add up to, with the block that is open.
`Turn.Counted` is what a turn adds: when it began, which tools it has recorded, and whether it was
told to wrap up. `clocks_fair` puts them together. The clock of the silence reads no accounts at
all, so it needs an event after each pause (`Minded`); `silence_paused` is what happens otherwise.
-/

namespace TurnClocks

variable {s s' : State} {t u : Turn} {e : Label} {d : Decision} {r : ℚ}

/-! ## The accounts of the pauses -/

namespace State

/-- How long the outermost open block has been open, from the turn's start at most. -/
def waiting (s : State) : ℚ :=
  match s.uiWaitStarted with
  | none => 0
  | some w => s.now - w

theorem waiting_none (h : s.uiWaitStarted = none) : s.waiting = 0 := by
  rw [waiting, h]

@[simp] theorem leave_turn : s.leave.turn = none := rfl
@[simp] theorem stop_turn : (s.stop t d).turn = none := rfl

theorem waiting_some {w : ℚ} (h : s.uiWaitStarted = some w) : s.waiting = s.now - w := by
  rw [waiting, h]

end State

/-- The accounts of `pause_clock`. -/
structure Counted (s : State) : Prop where
  depth : s.uiWaitDepth = s.blocks.length
  started : s.uiWaitStarted = none ↔ s.blocks = []
  total : s.paused = s.uiWaitTotal + s.waiting

/-- A step that is no pause leaves the accounts as they are. -/
structure Unpaused (s s' : State) : Prop where
  now : s'.now = s.now
  blocks : s'.blocks = s.blocks
  uiWaitStarted : s'.uiWaitStarted = s.uiWaitStarted
  uiWaitDepth : s'.uiWaitDepth = s.uiWaitDepth
  uiWaitTotal : s'.uiWaitTotal = s.uiWaitTotal
  paused : s'.paused = s.paused

theorem Unpaused.waiting (h : Unpaused s s') : s'.waiting = s.waiting := by
  rw [State.waiting, State.waiting, h.uiWaitStarted, h.now]

theorem Counted.unpaused (h : Counted s) (hu : Unpaused s s') : Counted s' where
  depth := by rw [hu.uiWaitDepth, hu.blocks, h.depth]
  started := by rw [hu.uiWaitStarted, hu.blocks, h.started]
  total := by rw [hu.paused, hu.uiWaitTotal, hu.waiting, h.total]

theorem Counted.waiting_none (h : Counted s) (hw : s.uiWaitStarted = none) :
    s.paused = s.uiWaitTotal := by
  rw [h.total, State.waiting_none hw, add_zero]

theorem Counted.open (h : Counted s) (hb : s.blocks ≠ []) : ∃ w, s.uiWaitStarted = some w :=
  Option.ne_none_iff_exists'.1 (mt h.started.1 hb)

theorem Counted.fresh (now : ℚ) : Counted (.fresh now) :=
  ⟨rfl, ⟨fun _ => rfl, fun _ => rfl⟩, (add_zero 0).symm⟩

theorem Counted.pass (h : Counted s) (r : ℚ) : Counted (s.pass r) where
  depth := h.depth
  started := h.started
  total := by
    by_cases hb : s.blocks = []
    · have hw : (s.pass r).uiWaitStarted = none := h.started.2 hb
      rw [State.waiting_none hw, add_zero]
      simp only [State.pass, if_pos hb]
      exact h.waiting_none hw
    · obtain ⟨w, hw⟩ := h.open hb
      have hw' : (s.pass r).uiWaitStarted = some w := hw
      rw [State.waiting_some hw']
      simp only [State.pass, if_neg hb]
      rw [h.total, State.waiting_some hw]
      linarith

theorem Counted.pause (h : Counted s) (b : Nat) : Counted (s.pause b) := by
  refine ⟨congrArg (· + 1) h.depth, ?_, ?_⟩
  · simp only [State.pause]
    split
    · simp
    · rename_i hd
      simpa using mt h.started.1 fun hb => hd (by rw [h.depth, hb]; rfl)
  · by_cases hd : s.uiWaitDepth = 0
    · have hw : (s.pause b).uiWaitStarted = some s.now := if_pos hd
      rw [State.waiting_some hw]
      exact (h.waiting_none (h.started.2 (List.length_eq_zero_iff.1 (h.depth ▸ hd)))).trans (by
        simp [State.pause])
    · have hw : (s.pause b).uiWaitStarted = s.uiWaitStarted := if_neg hd
      rw [State.waiting, hw]
      exact h.total

theorem Counted.unpause (h : Counted s) {b : Nat} (hb : b ∈ s.blocks) :
    Counted (s.unpause b) := by
  have hlen : s.uiWaitDepth - 1 = (s.blocks.erase b).length := by
    rw [List.length_erase_of_mem hb, h.depth]
  have hnil : s.uiWaitDepth - 1 = 0 ↔ s.blocks.erase b = [] := by
    rw [hlen, List.length_eq_zero_iff]
  obtain ⟨w, hw⟩ := h.open (List.ne_nil_of_mem hb)
  have ht := h.total
  rw [State.waiting_some hw] at ht
  refine ⟨hlen, ?_, ?_⟩
  · simp only [State.unpause, hw, ← hnil]
    split_ifs with hd <;> simp [hd]
  · simp only [State.unpause, State.waiting, hw]
    by_cases hd : s.uiWaitDepth - 1 = 0
    · simp only [if_pos hd, add_zero]
      exact ht
    · simp only [if_neg hd]
      exact ht

theorem Counted.runTurn (h : Counted s) (limits : Limits) : Counted (s.runTurn limits) := by
  refine ⟨h.depth, ?_, ?_⟩
  · simp only [State.runTurn, h.depth, List.length_pos_iff]
    by_cases hb : s.blocks = [] <;> simp [hb]
  · simp only [State.runTurn, State.waiting]
    split_ifs <;> simp

/-! ## What the turn does -/

/-- Where the turn comes to the head of the loop of `_await_turn`: it has sent its prompt, or
`wait_for` has returned. -/
def Turn.head (t : Turn) (now : ℚ) : Option Turn :=
  match t.point with
  | .sending => some { t with started := now }
  | .polling => some t
  | .steering | .telling => none

/-- The turn is over, or goes on. -/
inductive Steady (s : State) (u : Turn) : State → Prop
  | done (poisoned : Bool) : Steady s u { s.leave with poisoned := poisoned }
  | on {u' : Turn} : u'.start = u.start → u'.started = u.started →
      u'.toolStarted = u.toolStarted → u'.wrappedUp = u.wrappedUp → Steady s u (s.put u')

/-- What the turn does from the head of the loop on. -/
inductive Ruled (s : State) (u : Turn) : State → Prop
  | steady {s' : State} : Steady s u s' → Ruled s u s'
  | timedOut : s.uiWaitStarted = none → u.limits.timeout ≤ s.active u →
      Ruled s u (s.stop u .timedOut)
  | stalled : u.done = false → s.uiWaitStarted = none → s.active u < u.limits.timeout →
      u.toolStarted = [] → u.limits.idleTimeout ≠ 0 →
      u.limits.idleTimeout ≤ s.now - u.lastEventAt → Ruled s u (s.stop u .stalled)
  | wrapUp : s.uiWaitStarted = none → u.wrappedUp = false → u.limits.wrapUpAfter ≤ s.active u →
      Ruled s u ((s.log u .wrapUp).put { u with wrappedUp := true, point := .steering })

theorem budget_steady : Steady s u (s.budget u) := by
  unfold State.budget
  split_ifs
  · exact .done true
  · exact .on rfl rfl rfl rfl
  · exact .on rfl rfl rfl rfl

theorem check_ruled : Ruled s u (s.check u) := by
  unfold State.check
  split_ifs with hd hw ht hi hwrap
  · exact .steady (.done s.poisoned)
  · exact .timedOut hw ht
  · exact .stalled (Bool.eq_false_iff.2 hd) hw (not_le.1 ht) hi.2.1 hi.1 hi.2.2
  · exact .wrapUp hw (by simpa using hwrap.2.1) hwrap.2.2
  · exact .steady budget_steady
  · exact .steady (.on rfl rfl rfl rfl)

theorem resume_cases : (∃ u, t.head s.now = some u ∧ Ruled s u (s.resume t)) ∨
    Steady s t (s.resume t) := by
  obtain ⟨limits, point, start, started, last, tools, tokens, wrapped, told, done⟩ := t
  cases point with
  | sending => exact .inl ⟨_, rfl, check_ruled⟩
  | steering => exact .inr budget_steady
  | telling => exact .inr (.on rfl rfl rfl rfl)
  | polling => exact .inl ⟨_, rfl, check_ruled⟩

/-! ## The turn and its decisions -/

/-- What is known of a turn in flight. -/
structure Known (s : State) (t : Turn) : Prop where
  start : t.start ≤ t.started
  started : t.started ≤ s.now
  running : ∀ id ∈ s.running, id ∈ t.toolStarted ∨ s.dispatching = some id ∨ id ∈ s.before
  wrapUp : t.wrappedUp = false → s.verdicts.countP (·.wrapsUp) = 0

structure Inv (s : State) : Prop where
  counted : Counted s
  turn : ∀ t, s.turn = some t → Known s t
  fair : Fair s

/-- With nobody waited on, the time a turn is counted is no more than the time it was not paused. -/
theorem Known.active_le (hk : Known s u) (hc : Counted s) (hw : s.uiWaitStarted = none) :
    s.active u ≤ s.now - u.start - s.paused := by
  have hs := hk.start
  rw [hc.waiting_none hw]
  simp only [State.active]
  linarith

/-- The turn is not done, has time left and no tool on its books, its silence counts, and nobody is
waited on. -/
def State.watched (s : State) (u : Turn) : Prop :=
  u.done = false ∧ s.active u < u.limits.timeout ∧ u.toolStarted = [] ∧
    u.limits.idleTimeout ≠ 0 ∧ s.blocks = []

/-- A pause has ended within the last `idle_timeout`, or a tool runs whose start the turn has not
recorded: it came before the turn, or is held while the remark before it is told. -/
def State.excused (s : State) (u : Turn) : Prop :=
  (∃ p ∈ s.pauseEnd, s.now - p < u.limits.idleTimeout) ∨
    ∃ id ∈ s.running, s.dispatching = some id ∨ id ∈ s.before

/-- At the head of the loop a turn with an excuse for its silence has had an event within the last
`idle_timeout`. -/
def Minded (s : State) (e : Label) : Prop :=
  e = .resume → ∀ t ∈ s.turn, ∀ u ∈ t.head s.now, s.watched u → s.excused u →
    s.now - u.lastEventAt < u.limits.idleTimeout

instance : Decidable (s.watched u) := by unfold State.watched; infer_instance
instance : Decidable (s.excused u) := by unfold State.excused; infer_instance
instance : Decidable (Minded s e) := by unfold Minded; infer_instance

theorem Known.head (h : Known s t) (hu : t.head s.now = some u) : Known s u := by
  unfold Turn.head at hu
  split at hu <;> cases hu
  · exact ⟨h.start.trans h.started, le_refl _, h.running, h.wrapUp⟩
  · exact h

theorem Fair.none (h : s.verdicts = []) : Fair s := by
  constructor
  · intro v hv
    rw [h] at hv
    exact absurd hv List.not_mem_nil
  · rw [h, List.countP_nil]
    exact Nat.zero_le 1

theorem Fair.log (h : Fair s) (hv : (s.verdict u d).fair = true)
    (hd : d = .wrapUp → s.verdicts.countP (·.wrapsUp) = 0) : Fair (s.log u d) where
  fair := List.forall_mem_cons.2 ⟨hv, h.fair⟩
  once := by
    rw [State.log, List.countP_cons]
    cases d with
    | timedOut => exact h.once
    | stalled => exact h.once
    | wrapUp =>
      rw [hd rfl]
      exact Nat.le_refl 1

theorem quiet_le (hp : ∀ p ∈ s.pauseEnd, r ≤ s.now - p) (hl : r ≤ s.now - u.lastEventAt) :
    r ≤ s.now - s.quietSince u := by
  unfold State.quietSince
  split
  · exact hl
  · rename_i p h
    rcases max_choice u.lastEventAt p with hm | hm <;> rw [hm]
    · exact hl
    · exact hp p h

theorem Steady.fair (h : Steady s u s') (hf : Fair s) : Fair s' := by
  cases h <;> exact ⟨hf.fair, hf.once⟩

theorem Ruled.fair (hr : Ruled s u s') (h : Inv s) (hk : Known s u)
    (hm : s.watched u → s.excused u → s.now - u.lastEventAt < u.limits.idleTimeout) :
    Fair s' := by
  cases hr with
  | steady hs => exact hs.fair h.fair
  | timedOut hw ht =>
    have hf : Fair (s.log u .timedOut) := h.fair.log
      (decide_eq_true (ht.trans (hk.active_le h.counted hw))) nofun
    exact ⟨hf.fair, hf.once⟩
  | stalled hd hw ht hts hi hl =>
    have hb := h.counted.started.1 hw
    have he : ¬s.excused u := fun he => (hm ⟨hd, ht, hts, hi, hb⟩ he).not_ge hl
    have hq : u.limits.idleTimeout ≤ s.now - s.quietSince u :=
      quiet_le (fun p hp => not_lt.1 fun hlt => he (.inl ⟨p, hp, hlt⟩)) hl
    have hnone : s.running = [] := by
      refine List.eq_nil_iff_forall_not_mem.2 fun id hid => ?_
      rcases hk.running id hid with hin | hin
      · rw [hts] at hin
        exact absurd hin List.not_mem_nil
      · exact he (.inr ⟨id, hid, hin⟩)
    have hf : Fair (s.log u .stalled) := h.fair.log
      (by simp [State.verdict, Verdict.fair, hq, hb, hnone]) nofun
    exact ⟨hf.fair, hf.once⟩
  | wrapUp hw hn ht =>
    have hf : Fair (s.log u .wrapUp) := h.fair.log
      (decide_eq_true (ht.trans (hk.active_le h.counted hw))) fun _ => hk.wrapUp hn
    exact ⟨hf.fair, hf.once⟩

theorem Steady.unpaused (h : Steady s u s') : Unpaused s s' := by
  cases h <;> exact ⟨rfl, rfl, rfl, rfl, rfl, rfl⟩

theorem Ruled.unpaused (h : Ruled s u s') : Unpaused s s' := by
  cases h with
  | steady hs => exact hs.unpaused
  | timedOut | stalled | wrapUp => exact ⟨rfl, rfl, rfl, rfl, rfl, rfl⟩

theorem Steady.turn (h : Steady s u s') (hk : Known s u) :
    ∀ t', s'.turn = some t' → Known s' t' := by
  rintro t' ht
  cases h with
  | done => cases ht
  | @on u' hst hsd htl hwr =>
    cases ht
    refine ⟨?_, ?_, ?_, ?_⟩
    · rw [hst, hsd]
      exact hk.start
    · rw [hsd]
      exact hk.started
    · rw [htl]
      exact hk.running
    · rw [hwr]
      exact hk.wrapUp

theorem Ruled.turn (h : Ruled s u s') (hk : Known s u) :
    ∀ t', s'.turn = some t' → Known s' t' := by
  cases h with
  | steady hs => exact hs.turn hk
  | timedOut | stalled =>
    intro t' ht
    rw [State.stop_turn] at ht
    cases ht
  | wrapUp hw hn ht =>
    rintro t' ⟨⟩
    exact ⟨hk.start, hk.started, hk.running, fun h => Bool.noConfusion h⟩

/-! ## Steps -/

theorem Inv.resume (h : Inv s) (ht : s.turn = some t) (hm : Minded s .resume) :
    Inv (s.resume t) := by
  have hk := h.turn t ht
  rcases resume_cases with ⟨u, hu, hr⟩ | hs
  · have hk' := hk.head hu
    exact ⟨h.counted.unpaused hr.unpaused, hr.turn hk', hr.fair h hk' (hm rfl t ht u hu)⟩
  · exact ⟨h.counted.unpaused hs.unpaused, hs.turn hk, hs.fair h.fair⟩

theorem Inv.runTurn (h : Inv s) (limits : Limits) : Inv (s.runTurn limits) := by
  refine ⟨h.counted.runTurn limits, ?_, .none rfl⟩
  rintro t ⟨⟩
  exact ⟨le_refl _, le_refl _, fun id hid => .inr (.inr hid), fun _ => rfl⟩

theorem dispatch_unpaused (ev : PiEvent) : Unpaused s (s.dispatch ev) := by
  unfold State.dispatch
  cases s.turn with
  | none => cases ev <;> exact ⟨rfl, rfl, rfl, rfl, rfl, rfl⟩
  | some t =>
    cases ev with
    | toolStart id remark => cases remark <;> exact ⟨rfl, rfl, rfl, rfl, rfl, rfl⟩
    | toolEnd | other => exact ⟨rfl, rfl, rfl, rfl, rfl, rfl⟩

theorem dispatch_verdicts (ev : PiEvent) : (s.dispatch ev).verdicts = s.verdicts := by
  unfold State.dispatch
  cases s.turn with
  | none => cases ev <;> rfl
  | some t =>
    cases ev with
    | toolStart id remark => cases remark <;> rfl
    | toolEnd | other => rfl

theorem Known.dispatch (hk : Known s t) (ht : s.turn = some t) (hd : s.dispatching = none)
    (ev : PiEvent) : ∀ t', (s.dispatch ev).turn = some t' → Known (s.dispatch ev) t' := by
  have hrun : ∀ id ∈ s.running, id ∈ t.toolStarted ∨ id ∈ s.before := fun id hid =>
    (hk.running id hid).imp_right fun h => h.resolve_left (by rw [hd]; nofun)
  rintro t' ht'
  cases ev with
  | toolStart id remark =>
    cases remark with
    | true =>
      simp only [State.dispatch, ht] at ht' ⊢
      cases ht'
      refine ⟨hk.start, hk.started, fun id' hid => ?_, hk.wrapUp⟩
      rcases List.mem_insert_iff.1 hid with rfl | hid
      · exact .inr (.inl rfl)
      · exact (hrun id' hid).imp_right .inr
    | false =>
      simp only [State.dispatch, ht] at ht' ⊢
      cases ht'
      refine ⟨hk.start, hk.started, fun id' hid => ?_, hk.wrapUp⟩
      rcases List.mem_insert_iff.1 hid with rfl | hid
      · exact .inl (List.mem_insert_self ..)
      · exact (hrun id' hid).imp (List.mem_insert_of_mem ·) .inr
  | toolEnd id =>
    simp only [State.dispatch, ht] at ht' ⊢
    cases ht'
    refine ⟨hk.start, hk.started, fun id' hid => ?_, hk.wrapUp⟩
    obtain ⟨hid, hne⟩ := List.mem_filter.1 hid
    exact (hrun id' hid).imp (List.mem_filter.2 ⟨·, hne⟩) fun h =>
      .inr (List.mem_filter.2 ⟨h, hne⟩)
  | other tokens settles =>
    simp only [State.dispatch, ht] at ht' ⊢
    cases ht'
    exact ⟨hk.start, hk.started, hk.running, hk.wrapUp⟩

theorem Inv.dispatch (h : Inv s) (hd : s.dispatching = none) (ev : PiEvent) :
    Inv (s.dispatch ev) := by
  refine ⟨h.counted.unpaused (dispatch_unpaused ev), ?_, ?_⟩
  · cases ht : s.turn with
    | none =>
      rintro t' ht'
      rw [State.dispatch, ht] at ht'
      cases ev <;> exact absurd (ht.symm.trans ht') nofun
    | some t => exact (h.turn t ht).dispatch ht hd ev
  · have hv := dispatch_verdicts (s := s) ev
    exact ⟨fun v hm => h.fair.fair v (hv ▸ hm), hv ▸ h.fair.once⟩

/-- The remark is told, and the turn records the start. -/
theorem Inv.told (h : Inv s) {id : String} (hd : s.dispatching = some id) :
    Inv ({ s with dispatching := none }.startTool id) := by
  refine ⟨h.counted.unpaused ⟨rfl, rfl, rfl, rfl, rfl, rfl⟩, ?_, ⟨h.fair.fair, h.fair.once⟩⟩
  rintro t' ht'
  obtain ⟨t, ht, rfl⟩ := Option.map_eq_some_iff.1 ht'
  have hk := h.turn t ht
  refine ⟨hk.start, hk.started, fun id' hid => ?_, hk.wrapUp⟩
  rcases hk.running id' hid with hin | hin | hin
  · exact .inl (List.mem_insert_of_mem hin)
  · cases hd.symm.trans hin
    exact .inl (List.mem_insert_self ..)
  · exact .inr (.inr hin)

theorem Inv.pass (h : Inv s) (hr : 0 ≤ r) : Inv (s.pass r) where
  counted := h.counted.pass r
  turn t ht := by
    have hk := h.turn t ht
    exact ⟨hk.start, hk.started.trans (le_add_of_nonneg_right hr), hk.running, hk.wrapUp⟩
  fair := ⟨h.fair.fair, h.fair.once⟩

theorem Inv.pause (h : Inv s) (b : Nat) : Inv (s.pause b) where
  counted := h.counted.pause b
  turn t ht :=
    have hk := h.turn t ht
    ⟨hk.start, hk.started, hk.running, hk.wrapUp⟩
  fair := ⟨h.fair.fair, h.fair.once⟩

theorem Inv.unpause (h : Inv s) {b : Nat} (hb : b ∈ s.blocks) : Inv (s.unpause b) where
  counted := h.counted.unpause hb
  turn t ht :=
    have hk := h.turn t ht
    ⟨hk.start, hk.started, hk.running, hk.wrapUp⟩
  fair := ⟨h.fair.fair, h.fair.once⟩

theorem Inv.step (h : Inv s) (hm : Minded s e) (hn : next s e = some s') : Inv s' := by
  cases e with
  | pass r =>
    simp only [next] at hn
    split at hn <;> cases hn
    exact h.pass ‹_›
  | pause b =>
    simp only [next] at hn
    split at hn <;> cases hn
    exact h.pause b
  | unpause b =>
    simp only [next] at hn
    split at hn <;> cases hn
    exact h.unpause ‹_›
  | runTurn limits =>
    simp only [next] at hn
    split at hn <;> cases hn
    exact h.runTurn limits
  | resume =>
    obtain ⟨t, ht, rfl⟩ := Option.map_eq_some_iff.1 hn
    exact h.resume ht hm
  | dispatch ev =>
    simp only [next] at hn
    split at hn <;> cases hn
    exact h.dispatch ‹_› ev
  | told =>
    obtain ⟨id, hd, rfl⟩ := Option.map_eq_some_iff.1 hn
    exact h.told hd
  | cut =>
    cases hn
    refine ⟨h.counted.unpaused ⟨rfl, rfl, rfl, rfl, rfl, rfl⟩, ?_, ⟨h.fair.fair, h.fair.once⟩⟩
    intro t' ht
    rw [State.leave_turn] at ht
    cases ht

theorem reach_inv (h : session.Reach Minded s) : Inv s := by
  refine h.inv (fun s h0 => ?_) fun _ _ _ hi hm hn => hi.step hm hn
  have h0 : s = .fresh s.now := h0
  rw [h0]
  refine ⟨.fresh _, fun t ht => ?_, .none rfl⟩
  cases ht

/-- The turn times out and is told to wrap up on the time it was not paused, once at most; and,
where its silence has an excuse only with an event within the last `idle_timeout`, it is stopped as
stalled only where it has been silent that long, with nobody waited on and no tool running. -/
theorem clocks_fair (h : session.Reach Minded s) : Fair s := (reach_inv h).fair

namespace Sample

def limits : Limits := ⟨300, 60, 100, 0⟩

/-- A block is open before the turn and another one overlaps it. An event follows the pause, and the
process is silent from the note on. -/
def waited : List Label :=
  [.pause 1, .pass 5, .runTurn limits, .resume, .pass 200, .pause 2, .pass 100, .unpause 1,
    .pass 50, .unpause 2, .dispatch (.other 0 false), .pass 50, .resume,
    .dispatch (.other 0 false), .pass 50, .resume, .dispatch (.toolStart "a" false), .resume,
    .pass 100, .resume, .dispatch (.toolEnd "a"), .pass 60, .resume]

/-- A person answers after 61 seconds, and the clocks are read before the process says more. -/
def answered : List Label :=
  [.runTurn limits, .resume, .pause 1, .pass 61, .unpause 1, .resume]

end Sample

theorem init_fresh (now : ℚ) : session.init (.fresh now) := rfl

theorem clocks_fair_waited : ∃ s, session.Reach Minded s ∧ Fair s ∧
    s.verdicts.map (fun v => (v.decision, v.elapsed, v.paused, v.quiet)) =
      [(.stalled, 610, 350, 60), (.wrapUp, 450, 350, 50)] := by
  have hrun : (session.check (fun s e => decide (Minded s e)) (.fresh 0) Sample.waited).map
      (fun s => s.verdicts.map fun v => (v.decision, v.elapsed, v.paused, v.quiet)) =
      some [(.stalled, 610, 350, 60), (.wrapUp, 450, 350, 50)] := by
    decide +kernel
  obtain ⟨s, hs, hv⟩ := Option.map_eq_some_iff.1 hrun
  have h : session.Reach Minded s :=
    Lts.reach_of_check (fun _ _ => of_decide_eq_true) (init_fresh 0) hs
  exact ⟨s, h, clocks_fair h, hv⟩

/-- The time a person is waited on counts as silence of the process. -/
theorem silence_paused : ¬∀ s, session.Reach Lts.Any s → Fair s := by
  intro hall
  have hrun : (session.check (fun _ _ => true) (.fresh 0) Sample.answered).map
      (fun s => s.verdicts.map fun v => v.fair) = some [false] := by
    decide +kernel
  obtain ⟨s, hs, hv⟩ := Option.map_eq_some_iff.1 hrun
  have h := (hall s (Lts.reach_of_check (fun _ _ _ => trivial) (init_fresh 0) hs)).fair
  obtain ⟨v, hm, hf⟩ := List.mem_map.1 (hv ▸ List.mem_singleton.2 rfl : false ∈ s.verdicts.map _)
  rw [h v hm] at hf
  cases hf

end TurnClocks
