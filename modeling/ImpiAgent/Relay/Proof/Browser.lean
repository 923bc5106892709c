import ImpiAgent.Relay.Browser

/-!
# One browser, in use or on its way out

Every process that runs is the one recorded, or is about to be (`Sound.alive`), and while it runs a
client is registered, an idle timer armed, an idle stop under way or an Acquire past its look at the
field (`Sound.idle`). All of it is what the holder of `opMu` may rely on (`Point.Fits`), since nobody
else writes `cmd` but a reaper, which only clears it.

A process that has exited stays recorded until its reaper has run. An Acquire that looks at the field
in between registers its client against a browser that is gone (`acquired_dead`); where none does
(`Guarded`), the relay keeps to all of `Kept` (`relay_kept`).
-/

namespace Relay

variable {s s' : State} {b b' : Browser} {i j p q : Nat} {k k' c : Point}

/-! ## The processes -/

theorem life_setLife {l l₀ : Life} (h : b.life p = some l₀) :
    (b.setLife p l).life q = if q = p then some l else b.life q := by
  unfold Browser.life Browser.setLife at *
  rw [List.getElem?_modify]
  by_cases hq : q = p
  · subst hq
    cases hx : b.processes[q]? with
    | none => simp [hx] at h
    | some x => simp
  · simp [hq, Ne.symm hq]

theorem life_spawn : b.spawn.life q =
    if q = b.processes.length then some .running else b.life q := by
  unfold Browser.life Browser.spawn
  rw [List.getElem?_append]
  by_cases hq : q < b.processes.length
  · rw [if_pos hq, if_neg (Nat.ne_of_lt hq)]
  · rw [if_neg hq]
    by_cases he : q = b.processes.length
    · simp [he]
    · rw [if_neg he, List.getElem?_eq_none (by simp; omega), List.getElem?_eq_none (by omega)]

theorem life_record : (b.record p).life q = b.life q := by
  unfold Browser.life Browser.record
  rw [List.getElem?_modify]
  cases b.processes[q]? with
  | none => rfl
  | some x =>
    by_cases hq : p = q <;> simp [hq]

theorem lt_of_life {l : Life} (h : b.life p = some l) : p < b.processes.length := by
  by_contra hp
  rw [Browser.life, List.getElem?_eq_none (by omega)] at h
  cases h

@[simp] theorem life_clear : (b.clear p).life q = b.life q := by
  unfold Browser.clear
  split <;> rfl

@[simp] theorem life_stopTimer : b.stopTimer.life q = b.life q := by
  unfold Browser.stopTimer
  split <;> rfl

@[simp] theorem stopTimer_cmd : b.stopTimer.cmd = b.cmd := by
  unfold Browser.stopTimer
  split <;> rfl

@[simp] theorem stopTimer_opMu : b.stopTimer.opMu = b.opMu := by
  unfold Browser.stopTimer
  split <;> rfl

@[simp] theorem stopTimer_processes : b.stopTimer.processes = b.processes := by
  unfold Browser.stopTimer
  split <;> rfl

theorem clear_cmd (h : b.cmd = some p ∨ b.cmd = none) : (b.clear p).cmd = none := by
  unfold Browser.clear
  split
  · rfl
  · exact h.resolve_left ‹_›

theorem clear_cmd_ne (h : q ≠ p) (hc : b.cmd = some q) : (b.clear p).cmd = some q := by
  unfold Browser.clear
  rw [if_neg (by rw [hc]; simpa using h), hc]

theorem mem_gone (h : p ∈ b.gone) : p < b.processes.length :=
  List.mem_range.1 (List.mem_filter.1 h).1

/-! ## The points of a call -/

/-- The call holds `opMu`. -/
def Point.inside : Point → Bool
  | .looking _ | .starting _ | .recording .. | .waiting .. | .clearing _ | .registering .. |
    .deciding _ | .signalling .. | .terminating .. => true
  | .acquiring _ | .stopping _ | .acquired .. | .failed | .stopped => false

/-- An Acquire that has stopped the idle timer and not returned. -/
def Point.launching : Point → Bool
  | .starting _ | .recording .. | .waiting .. | .clearing _ | .registering .. |
    .signalling (.launch _) _ | .terminating (.launch _) _ => true
  | _ => false

/-- An idle stop that has not returned. -/
def Point.idleStop : Point → Bool
  | .stopping idle | .deciding idle => idle
  | .signalling (.stop idle) _ | .terminating (.stop idle) _ => idle
  | _ => false

/-- The process is the one recorded, or the field is clear. -/
def Browser.Only (b : Browser) (p : Nat) : Prop := b.cmd = some p ∨ b.cmd = none

/-- What a call may rely on where it is. -/
def Point.Fits (b : Browser) : Point → Prop
  | .acquiring dead | .looking dead => ∀ q ∈ dead, q < b.processes.length
  | .starting dead => b.cmd = none ∧ ∀ q ∈ dead, q < b.processes.length
  | .recording dead p => b.cmd = none ∧ p ∉ dead
  | .waiting dead p => b.Only p ∧ p ∉ dead
  | .clearing p => b.Only p ∧ b.life p ≠ some .running
  | .registering dead p | .acquired dead p => p ∉ dead
  | .signalling cause p | .terminating cause p =>
    b.Only p ∧ (cause = .stop true → b.clients = 0)
  | .stopping _ | .deciding _ | .failed | .stopped => True

structure Sound (s : State) : Prop where
  lock : ∀ i k, s.At i k → k.inside = true → s.store.opMu = some i
  alive : ∀ p, s.store.life p = some .running →
    s.store.cmd = some p ∨ ∃ i dead, s.At i (.recording dead p)
  fits : ∀ i k, s.At i k → k.Fits s.store
  idle : ∀ p, s.store.life p = some .running → 0 < s.store.clients ∨ .armed ∈ s.store.timers ∨
    (∃ i k, s.At i k ∧ k.idleStop = true) ∨ ∃ i k, s.At i k ∧ k.launching = true

theorem inside_of_launching (h : k.launching = true) : k.inside = true := by
  cases k <;> first | rfl | cases h

/-- A call without `opMu` relies on what nobody takes back. -/
theorem Point.Fits.outside (h : k.Fits b) (hk : k.inside = false)
    (hl : b.processes.length ≤ b'.processes.length) : k.Fits b' := by
  cases k with
  | acquiring dead => exact fun q hq => Nat.lt_of_lt_of_le (h q hq) hl
  | acquired dead p => exact h
  | stopping => trivial
  | failed => trivial
  | stopped => trivial
  | _ => cases hk

/-- What a step from outside the calls leaves of what they rely on. -/
theorem Point.Fits.mono (h : k.Fits b) (hl : b.processes.length ≤ b'.processes.length)
    (hc : b'.cmd = b.cmd ∨ b'.cmd = none) (hn : b.clients = 0 → b'.clients = 0)
    (hr : ∀ p, b'.life p = some .running → b.life p = some .running) : k.Fits b' := by
  have only {p : Nat} (ho : b.Only p) : b'.Only p := by
    rcases hc with hc | hc
    · rw [Browser.Only, hc]
      exact ho
    · exact .inr hc
  have clear (ho : b.cmd = none) : b'.cmd = none := by
    rcases hc with hc | hc
    · rw [hc, ho]
    · exact hc
  cases k with
  | acquiring dead => exact fun q hq => Nat.lt_of_lt_of_le (h q hq) hl
  | looking dead => exact fun q hq => Nat.lt_of_lt_of_le (h q hq) hl
  | starting dead => exact ⟨clear h.1, fun q hq => Nat.lt_of_lt_of_le (h.2 q hq) hl⟩
  | recording dead p => exact ⟨clear h.1, h.2⟩
  | waiting dead p => exact ⟨only h.1, h.2⟩
  | clearing p => exact ⟨only h.1, fun hp => h.2 (hr p hp)⟩
  | registering dead p => exact h
  | acquired dead p => exact h
  | signalling cause p => exact ⟨only h.1, fun hs => hn (h.2 hs)⟩
  | terminating cause p => exact ⟨only h.1, fun hs => hn (h.2 hs)⟩
  | _ => trivial

namespace Sound

variable (h : Sound s)
include h

/-- Nobody else is inside with the holder of `opMu`, or where there is none. -/
theorem outside (ho : s.store.opMu = none ∨ s.store.opMu = some i) (hj : j ≠ i) (hc : s.At j c) :
    c.inside = false := by
  cases hin : c.inside with
  | false => rfl
  | true =>
    have hl := h.lock j c hc hin
    rcases ho with ho | ho
    · rw [ho] at hl
      cases hl
    · rw [ho] at hl
      exact absurd (Option.some.inj hl).symm hj

/-- A step of a call that has `opMu`, or takes it. -/
theorem put (hk : s.At i k) (ho : s.store.opMu = none ∨ s.store.opMu = some i)
    (hl : k'.inside = true → b'.opMu = some i)
    (hlen : s.store.processes.length ≤ b'.processes.length)
    (ha : ∀ p, b'.life p = some .running → b'.cmd = some p ∨ ∃ dead, k' = .recording dead p)
    (hf : k'.Fits b')
    (hi : ∀ p, b'.life p = some .running → 0 < b'.clients ∨ .armed ∈ b'.timers ∨
      (k'.idleStop = true ∨ ∃ j c, j ≠ i ∧ s.At j c ∧ c.idleStop = true) ∨ k'.launching = true) :
    Sound (s.put i b' k') := by
  refine ⟨fun j c hj hin => ?_, fun p hp => ?_, fun j c hj => ?_, fun p hp => ?_⟩
  · rcases (Pool.at_put hk).1 hj with ⟨rfl, rfl⟩ | ⟨hne, hj⟩
    · exact hl hin
    · rw [h.outside ho hne hj] at hin
      cases hin
  · rcases ha p hp with hp | ⟨dead, rfl⟩
    · exact .inl hp
    · exact .inr ⟨i, dead, Pool.at_put_self hk⟩
  · rcases (Pool.at_put hk).1 hj with ⟨rfl, rfl⟩ | ⟨hne, hj⟩
    · exact hf
    · exact (h.fits j c hj).outside (h.outside ho hne hj) hlen
  · rcases hi p hp with hp | hp | (hp | ⟨j, c, hne, hj, hp⟩) | hp
    · exact .inl hp
    · exact .inr (.inl hp)
    · exact .inr (.inr (.inl ⟨i, k', Pool.at_put_self hk, hp⟩))
    · exact .inr (.inr (.inl ⟨j, c, Pool.at_put_ne hk hj hne, hp⟩))
    · exact .inr (.inr (.inr ⟨i, k', Pool.at_put_self hk, hp⟩))

/-- A running process is the one recorded, or the one this call is about to record. -/
theorem alive_of (hk : s.At i k) (ho : s.store.opMu = none ∨ s.store.opMu = some i)
    (hp : s.store.life p = some .running) :
    s.store.cmd = some p ∨ ∃ dead, k = .recording dead p := by
  rcases h.alive p hp with hp | ⟨j, dead, hj⟩
  · exact .inl hp
  · by_cases hji : j = i
    · subst hji
      exact .inr ⟨dead, hk.eq hj⟩
    · exact absurd (h.outside ho hji hj) nofun

/-- What keeps the idle browser is still there where the call does not give it up. -/
theorem idle_of (hk : s.At i k) (ho : s.store.opMu = none ∨ s.store.opMu = some i)
    (hs : k.idleStop = true → k'.idleStop = true) (hl : k.launching = true → k'.launching = true)
    (hp : s.store.life p = some .running) : 0 < s.store.clients ∨ .armed ∈ s.store.timers ∨
      (k'.idleStop = true ∨ ∃ j c, j ≠ i ∧ s.At j c ∧ c.idleStop = true) ∨ k'.launching = true := by
  rcases h.idle p hp with hp | hp | ⟨j, c, hj, hp⟩ | ⟨j, c, hj, hp⟩
  · exact .inl hp
  · exact .inr (.inl hp)
  · by_cases hji : j = i
    · subst hji
      exact .inr (.inr (.inl (.inl (hs (hk.eq hj ▸ hp)))))
    · exact .inr (.inr (.inl (.inr ⟨j, c, hji, hj, hp⟩)))
  · by_cases hji : j = i
    · subst hji
      exact .inr (.inr (.inr (hl (hk.eq hj ▸ hp))))
    · have hin := inside_of_launching hp
      rw [h.outside ho hji hj] at hin
      cases hin

/-- A browser that its call has seen exit leaves no other running. -/
theorem none_running (hk : s.At i k) (ho : s.store.opMu = none ∨ s.store.opMu = some i)
    (hc : s.store.Only p) (hp : s.store.life p ≠ some .running)
    (hr : ∀ dead q, k ≠ .recording dead q) : s.store.life q ≠ some .running := fun hq => by
  rcases h.alive_of hk ho hq with he | ⟨dead, rfl⟩
  · rcases hc with hc | hc
    · rw [hc] at he
      exact hp (Option.some.inj he ▸ hq)
    · rw [hc] at he
      cases he
  · exact hr dead q rfl

/-- A step of a call, which never registers a client against a browser gone before it began. -/
theorem act {e : Event} {x : Browser × Point} (hk : s.At i k)
    (hg : ∀ dead p, k = .looking dead → s.store.cmd = some p → p ∉ dead)
    (ha : act i s.store k e = some x) : Sound (s.put i x.1 x.2) := by
  have hf := h.fits i k hk
  have held (hin : k.inside = true) := h.lock i k hk hin
  have mine (hin : k.inside = true) : s.store.opMu = none ∨ s.store.opMu = some i := .inr (held hin)
  -- a step that only moves the call on, inside
  have moves {k' : Point} (hin : k.inside = true) (hr : ∀ dead p, k ≠ .recording dead p)
      (hfit : k'.Fits s.store) (hs : k.idleStop = true → k'.idleStop = true)
      (hl : k.launching = true → k'.launching = true) : Sound (s.put i s.store k') := by
    refine h.put hk (mine hin) (fun _ => held hin) (Nat.le_refl _) (fun p hp => ?_) hfit
      fun p hp => h.idle_of hk (mine hin) hs hl hp
    refine .inl ((h.alive_of hk (mine hin) hp).resolve_right fun hd => ?_)
    obtain ⟨dead, he⟩ := hd
    exact hr dead p he
  -- a step that leaves where nothing runs
  have ends {b' : Browser} {k' : Point} (hin : k.inside = true) (hout : k'.inside = false)
      (hfit : k'.Fits b') (hlen : b'.processes = s.store.processes)
      (hn : ∀ q, s.store.life q ≠ some .running) : Sound (s.put i b' k') := by
    have hl (q : Nat) : b'.life q ≠ some .running := by
      unfold Browser.life
      rw [hlen]
      exact hn q
    exact h.put hk (mine hin) (fun hi => absurd (hout.symm.trans hi) (by rintro ⟨⟩))
      (Nat.le_of_eq (congrArg List.length hlen.symm))
      (fun p hp => absurd hp (hl p)) hfit fun p hp => absurd hp (hl p)
  cases k with
  | acquiring dead =>
    cases e with
    | go =>
      simp only [Relay.act] at ha
      split at ha <;> cases ha
      rename_i hn
      refine h.put hk (.inl hn) (fun _ => rfl) (Nat.le_refl _) (fun p hp => ?_) hf
        fun p hp => h.idle_of hk (.inl hn) (by rintro ⟨⟩) (by rintro ⟨⟩) hp
      exact .inl ((h.alive_of hk (.inl hn) hp).resolve_right (by simp))
    | _ => cases ha
  | looking dead =>
    cases e with
    | go =>
      simp only [Relay.act] at ha
      split at ha <;> cases ha
      · rename_i p hp
        refine h.put hk (mine rfl) (fun _ => ?_) (by simp) (fun q hq => ?_) (hg dead p rfl hp)
          fun q hq => .inr (.inr (.inr rfl))
        · simpa using held rfl
        · rw [life_stopTimer] at hq
          rw [stopTimer_cmd]
          exact .inl ((h.alive_of hk (mine rfl) hq).resolve_right (by simp))
      · rename_i hn
        refine h.put hk (mine rfl) (fun _ => ?_) (by simp) (fun q hq => ?_) ⟨by simpa using hn, ?_⟩
          fun q hq => .inr (.inr (.inr rfl))
        · simpa using held rfl
        · rw [life_stopTimer] at hq
          rw [stopTimer_cmd]
          exact .inl ((h.alive_of hk (mine rfl) hq).resolve_right (by simp))
        · intro q hq
          rw [stopTimer_processes]
          exact hf q hq
    | _ => cases ha
  | starting dead =>
    have hn (q : Nat) : s.store.life q ≠ some .running := fun hq => by
      rcases h.alive_of hk (mine rfl) hq with he | ⟨_, he⟩
      · rw [hf.1] at he
        cases he
      · cases he
    cases e with
    | go =>
      cases ha
      refine h.put hk (mine rfl) (fun _ => held rfl) (by simp [Browser.spawn]) (fun q hq => ?_)
        ⟨hf.1, fun hm => Nat.lt_irrefl _ (hf.2 _ hm)⟩ fun q hq => .inr (.inr (.inr rfl))
      rw [life_spawn] at hq
      split at hq
      · rename_i he
        exact .inr ⟨dead, by rw [he]⟩
      · exact absurd hq (hn q)
    | startFails =>
      cases ha
      exact ends rfl rfl trivial rfl hn
    | _ => cases ha
  | recording dead p =>
    cases e with
    | go =>
      cases ha
      refine h.put hk (mine rfl) (fun _ => held rfl) (by simp [Browser.record]) (fun q hq => ?_)
        ⟨.inl rfl, hf.2⟩ fun q hq => .inr (.inr (.inr rfl))
      rw [life_record] at hq
      rcases h.alive_of hk (mine rfl) hq with he | ⟨_, he⟩
      · rw [hf.1] at he
        cases he
      · cases he
        exact .inl rfl
    | _ => cases ha
  | waiting dead p =>
    cases e with
    | go =>
      cases ha
      exact moves rfl (by simp) hf.2 (by rintro ⟨⟩) fun _ => rfl
    | portFails =>
      cases ha
      exact moves rfl (by simp) ⟨hf.1, by rintro ⟨⟩⟩ (by rintro ⟨⟩) fun _ => rfl
    | _ => cases ha
  | clearing p =>
    cases e with
    | go =>
      cases ha
      refine ends rfl rfl trivial ?_ fun q => h.none_running hk (mine rfl) hf.1 hf.2 (by simp)
      show (s.store.clear p).processes = _
      unfold Browser.clear
      split <;> rfl
    | _ => cases ha
  | registering dead p =>
    cases e with
    | go =>
      cases ha
      refine h.put hk (mine rfl) (by rintro ⟨⟩) (Nat.le_refl _) (fun q hq => ?_) hf
        fun q hq => .inl (Nat.succ_pos _)
      exact .inl ((h.alive_of hk (mine rfl) hq).resolve_right (by simp))
    | _ => cases ha
  | stopping idle =>
    cases e with
    | go =>
      simp only [Relay.act] at ha
      split at ha <;> cases ha
      rename_i hn
      refine h.put hk (.inl hn) (fun _ => rfl) (Nat.le_refl _) (fun p hp => ?_) trivial
        fun p hp => h.idle_of hk (.inl hn) id (by rintro ⟨⟩) hp
      exact .inl ((h.alive_of hk (.inl hn) hp).resolve_right (by simp))
    | _ => cases ha
  | deciding idle =>
    cases e with
    | go =>
      simp only [Relay.act] at ha
      split at ha
      · rename_i hn
        cases ha
        refine ends rfl rfl trivial rfl fun q hq => ?_
        rcases h.alive_of hk (mine rfl) hq with he | ⟨_, he⟩
        · rw [hn] at he
          cases he
        · cases he
      · rename_i p hp
        split at ha <;> cases ha
        · rename_i hc
          refine h.put hk (mine rfl) (by rintro ⟨⟩) (Nat.le_refl _) (fun q hq => ?_) trivial
            fun q hq => .inl hc.2
          exact .inl ((h.alive_of hk (mine rfl) hq).resolve_right (by simp))
        · rename_i hc
          refine moves rfl (by simp) ⟨.inl hp, fun hs => ?_⟩ id (by rintro ⟨⟩)
          cases hs
          simpa using hc
    | _ => cases ha
  | signalling cause p =>
    cases e with
    | go =>
      cases ha
      exact moves rfl (by simp) hf (fun hs => by cases cause <;> exact hs) fun hl => by
        cases cause <;> exact hl
    | _ => cases ha
  | terminating cause p =>
    cases e with
    | kill =>
      cases ha
      exact moves rfl (by simp) hf id id
    | go =>
      simp only [Relay.act] at ha
      split at ha
      · rename_i hp
        have hd : s.store.life p ≠ some .running := by
          rw [hp]
          rintro ⟨⟩
        cases cause with
        | launch dead =>
          cases ha
          exact moves rfl (by simp) ⟨hf.1, hd⟩ (by rintro ⟨⟩) fun _ => rfl
        | stop idle =>
          cases ha
          exact ends rfl rfl trivial rfl fun q => h.none_running hk (mine rfl) hf.1 hd (by simp)
      · cases ha
    | _ => cases ha
  | _ => cases e <;> cases ha

/-- A step outside the calls: what is recorded may be cleared and clients may leave. -/
theorem outer {b' : Browser} (hm : b'.opMu = s.store.opMu)
    (hlen : s.store.processes.length ≤ b'.processes.length)
    (hc : b'.cmd = s.store.cmd ∨ b'.cmd = none) (hn : s.store.clients = 0 → b'.clients = 0)
    (hr : ∀ p, b'.life p = some .running → s.store.life p = some .running)
    (ha : ∀ p, b'.life p = some .running → s.store.cmd = some p → b'.cmd = some p)
    (hi : ∀ p, b'.life p = some .running → 0 < b'.clients ∨ .armed ∈ b'.timers ∨
      (∃ i k, s.At i k ∧ k.idleStop = true) ∨ ∃ i k, s.At i k ∧ k.launching = true) :
    Sound { s with store := b' } := by
  refine ⟨fun i k hk hin => hm.trans (h.lock i k hk hin), fun p hp => ?_, fun i k hk => ?_, hi⟩
  · exact (h.alive p (hr p hp)).imp_left (ha p hp)
  · exact (h.fits i k hk).mono hlen hc hn hr

/-- A new call, which has not got `opMu` yet. -/
theorem start (hk : k.inside = false) (hf : k.Fits s.store) : Sound (s.start k) := by
  refine ⟨fun i c hc hin => ?_, fun p hp => ?_, fun i c hc => ?_, fun p hp => ?_⟩
  · rcases Pool.at_start.1 hc with hc | ⟨-, rfl⟩
    · exact h.lock i c hc hin
    · rw [hk] at hin
      cases hin
  · exact (h.alive p hp).imp_right fun ⟨i, dead, hi⟩ => ⟨i, dead, Pool.at_start.2 (.inl hi)⟩
  · rcases Pool.at_start.1 hc with hc | ⟨-, rfl⟩
    · exact h.fits i c hc
    · exact hf
  · refine (h.idle p hp).imp_right fun hp => hp.imp_right fun hp => ?_
    exact hp.imp (fun ⟨i, c, hc, hs⟩ => ⟨i, c, Pool.at_start.2 (.inl hc), hs⟩)
      fun ⟨i, c, hc, hs⟩ => ⟨i, c, Pool.at_start.2 (.inl hc), hs⟩

end Sound

/-- No Acquire that looks at the field finds a browser there that was gone before it began. -/
def Guarded (s : State) : Label → Prop
  | .step i .go => ∀ dead p, s.At i (.looking dead) → s.store.cmd = some p → p ∉ dead
  | _ => True

theorem Sound.release (h : Sound s) : Sound { s with store := s.store.release } := by
  unfold Browser.release
  split
  · exact h
  · rename_i hpos
    split
    · rename_i hc
      refine h.outer rfl (Nat.le_refl _) (.inl rfl) (fun hz => absurd hz hpos) (fun _ => id)
        (fun _ _ => id) fun p hp => ?_
      rcases hc with hc | hc
      · exact .inl hc
      · -- what runs then is about to be recorded
        rcases h.alive p hp with he | ⟨i, dead, hi⟩
        · rw [hc] at he
          cases he
        · exact .inr (.inr (.inr ⟨i, _, hi, rfl⟩))
    · exact h.outer rfl (Nat.le_refl _) (.inl rfl) (fun hz => absurd hz hpos) (fun _ => id)
        (fun _ _ => id) fun p _ => .inr (.inl (by simp [Browser.arm]))

theorem Sound.fire (h : Sound s) {t : Nat} : Sound
    ({ s with store := { s.store with timers := s.store.timers.set t .fired } }.start
      (.stopping true)) := by
  refine ⟨fun i c hc hin => ?_, fun p hp => ?_, fun i c hc => ?_, fun p _ => ?_⟩
  · rcases Pool.at_start.1 hc with hc | ⟨-, rfl⟩
    · exact h.lock i c hc hin
    · cases hin
  · exact (h.alive p hp).imp_right fun ⟨i, dead, hi⟩ => ⟨i, dead, Pool.at_start.2 (.inl hi)⟩
  · rcases Pool.at_start.1 hc with hc | ⟨-, rfl⟩
    · exact (h.fits i c hc).mono (Nat.le_refl _) (.inl rfl) id fun _ => id
    · trivial
  · exact .inr (.inr (.inl ⟨_, _, Pool.at_start.2 (.inr ⟨rfl, rfl⟩), rfl⟩))

/-- A process that has exited, or whose channel its reaper closes. -/
theorem Sound.setLife (h : Sound s) {l l₀ : Life} (hp : s.store.life p = some l₀)
    (hl : l ≠ .running) : Sound { s with store := s.store.setLife p l } := by
  have hr (q : Nat) (hq : (s.store.setLife p l).life q = some .running) :
      s.store.life q = some .running := by
    rw [life_setLife hp] at hq
    split at hq
    · exact absurd (Option.some.inj hq) hl
    · exact hq
  exact h.outer rfl (by simp [Browser.setLife]) (.inl rfl) id hr (fun _ _ => id)
    fun q hq => h.idle q (hr q hq)

theorem Sound.reap (h : Sound s) (hp : s.store.life p = some .closed) :
    Sound { s with store := s.store.clear p } := by
  by_cases hc : s.store.cmd = some p
  · have he : s.store.clear p = { s.store with cmd := none } := if_pos hc
    rw [he]
    refine h.outer rfl (Nat.le_refl _) (.inr rfl) id (fun _ => id) (fun q hq hq' => ?_) h.idle
    rw [hc] at hq'
    have hq : s.store.life q = some .running := hq
    rw [← Option.some.inj hq', hp] at hq
    cases hq
  · have he : s.store.clear p = s.store := if_neg hc
    rw [he]
    exact h

theorem Sound.next (h : Sound s) {e : Label} (hg : Guarded s e) (hn : next s e = some s') :
    Sound s' := by
  cases e with
  | acquire =>
    cases hn
    exact h.start rfl fun q hq => mem_gone hq
  | stop =>
    cases hn
    exact h.start rfl trivial
  | release =>
    cases hn
    exact h.release
  | step i e =>
    simp only [Relay.next] at hn
    split at hn
    · rename_i k hk
      obtain ⟨x, ha, rfl⟩ := Option.map_eq_some_iff.1 hn
      refine h.act hk (fun dead p hk' => ?_) ha
      subst hk'
      cases e with
      | go => exact hg dead p hk
      | _ => cases ha
    · cases hn
  | fire t =>
    simp only [Relay.next] at hn
    split at hn <;> cases hn
    exact h.fire
  | exit p =>
    simp only [Relay.next] at hn
    split at hn <;> cases hn
    exact h.setLife ‹_› nofun
  | close p =>
    simp only [Relay.next] at hn
    split at hn <;> cases hn
    rename_i hp
    exact h.setLife (by rw [Browser.life, hp]; rfl) nofun
  | reap p =>
    simp only [Relay.next] at hn
    split at hn <;> cases hn
    exact h.reap ‹_›

theorem sound (hr : lts.Reach Guarded s) : Sound s := by
  refine hr.inv (fun s h0 => ?_) fun s e s' h hg hn => h.next hg hn
  subst h0
  have none (i : Nat) (k : Point) (hk : Pool.At (⟨.new, []⟩ : State) i k) : False :=
    absurd hk.lt (Nat.not_lt_zero i)
  exact ⟨fun i k hk => (none i k hk).elim, nofun, fun i k hk => (none i k hk).elim, nofun⟩

/-! ## What the relay keeps to -/

structure Kept (s : State) : Prop where
  one : ∀ p q, s.store.life p = some .running → s.store.life q = some .running → p = q
  unused : ∀ i p, s.At i (.signalling (.stop true) p) ∨ s.At i (.terminating (.stop true) p) →
    s.store.clients = 0
  live : ∀ i dead p, s.At i (.acquired dead p) → p ∉ dead
  idle : s.store.clients = 0 → ∀ p, s.store.life p = some .running →
    (∀ i k, s.At i k → k.launching = false) →
      .armed ∈ s.store.timers ∨ ∃ i k, s.At i k ∧ k.idleStop = true

theorem Sound.kept (h : Sound s) : Kept s := by
  refine ⟨fun p q hp hq => ?_, fun i p hk => ?_, fun i dead p hk => h.fits i _ hk,
    fun hz p hp hout => ?_⟩
  · rcases h.alive p hp with hp | ⟨i, dead, hi⟩ <;> rcases h.alive q hq with hq | ⟨j, dead', hj⟩
    · rw [hp] at hq
      exact Option.some.inj hq
    · have hn := (h.fits j _ hj).1
      rw [hp] at hn
      cases hn
    · have hn := (h.fits i _ hi).1
      rw [hq] at hn
      cases hn
    · have hl := (h.lock i _ hi rfl).symm.trans (h.lock j _ hj rfl)
      cases hl
      cases hi.eq hj
      rfl
  · rcases hk with hk | hk
    · exact (h.fits i _ hk).2 rfl
    · exact (h.fits i _ hk).2 rfl
  · rcases h.idle p hp with hc | ht | hs | ⟨i, k, hk, hl⟩
    · omega
    · exact .inl ht
    · exact .inr hs
    · rw [hout i k hk] at hl
      cases hl

/-- The relay runs one browser, stops none in use, hands out none that was gone before it was asked
for, and stops the one nobody uses. -/
theorem relay_kept (hr : lts.Reach Guarded s) : Kept s := (sound hr).kept

namespace Sample

/-- `Guarded`, decided. -/
def guarded (s : State) : Label → Bool
  | .step i .go =>
    match s.calls[i]? with
    | some (some (.looking dead)) => s.store.cmd.all fun p => p ∉ dead
    | _ => true
  | _ => true

theorem guarded_of_guarded (s : State) (e : Label) (h : guarded s e = true) : Guarded s e := by
  cases e with
  | step i e =>
    cases e with
    | go =>
      intro dead p hi hp
      simp only [guarded, show s.calls[i]? = some (some (.looking dead)) from hi, hp] at h
      simpa using h
    | _ => trivial
  | _ => trivial

def went (i n : Nat) : List Label := List.replicate n (.step i .go)

/-- A client, and the idle stop once it has left; the browser is reaped before the next client. -/
def idling : List Label :=
  .acquire :: went 0 6 ++ [.release, .fire 0] ++ went 1 3 ++
    [.exit 0, .close 0] ++ went 1 1 ++ [.reap 0, .acquire] ++ went 2 6

/-- The browser exits, and a client comes before it is reaped. -/
def crashing : List Label := .acquire :: went 0 6 ++ [.exit 0, .acquire] ++ went 1 3

end Sample

/-- The second client gets a browser of its own. -/
theorem relay_kept_run : ∃ s, lts.Reach Guarded s ∧
    (s.At 2 (.acquired [0] 1) ∧ s.store.clients = 1 ∧ s.At 1 .stopped) ∧ Kept s := by
  have hs : (lts.check Sample.guarded ⟨.new, []⟩ Sample.idling).any
      (fun s => s.At 2 (.acquired [0] 1) ∧ s.store.clients = 1 ∧ s.At 1 .stopped) = true := by
    decide
  obtain ⟨s, hc, hp⟩ := (Option.any_eq_true _ _).1 hs
  have hr := Lts.reach_of_check Sample.guarded_of_guarded rfl hc
  exact ⟨s, hr, of_decide_eq_true hp, relay_kept hr⟩

/-- An Acquire that began once the browser had exited is told that it is running. -/
theorem acquired_dead : ¬∀ s : State, lts.Reach Lts.Any s → Kept s := by
  intro h
  have hs : (lts.check (fun _ _ => true) ⟨.new, []⟩ Sample.crashing).any
      (fun s => s.At 1 (.acquired [0] 0)) = true := by
    decide
  obtain ⟨s, hc, hp⟩ := (Option.any_eq_true _ _).1 hs
  have hr := Lts.reach_of_check (L := lts) (C := Lts.Any) (fun _ _ _ => trivial) rfl hc
  exact (h s hr).live 1 [0] 0 (of_decide_eq_true hp) (by decide)

end Relay
