import ImpiAgent.Delegation.InFlight

/-!
# Awaiting an answer ends

`await_answers` waits on the futures of `_ends`, which `_run` resolves with its last statements.
`answers_end` is that the future of a trusted task is done when the task is over, and that whoever
awaits tasks that are over goes on, where no trusted task is left by a `CancelledError`, its own or
the one its turn ended with, and the write of its end does not raise (`Heeded`). `answer_never` is
what happens otherwise.
-/

namespace InFlight

open SessionIds (Str str)

variable {s s' : State} {e : Event} {t t' u : Task} {m m' : Memory} {a : Act} {i j : Nat}

/-- The steps with which `_run` is left before it has resolved its task's future. -/
def Task.leaves (t : Task) : Act → Bool
  | .cancel => t.point.active
  | .fail => match t.point with
    | .writing _ => true
    | _ => false
  | .resume => (t.point == .waiting || t.point == .draining) && t.turn == .over .cancelled
  | .callOff | .close _ => false

/-- `delegate` or `ask` has not spawned the task. -/
def Point.calling : Point → Bool
  | .resolving | .copying _ | .saving | .reading => true
  | _ => false

theorem calling_not {p : Point} (h : p.calling = true) : p.active = false ∧ p ≠ .ended := by
  constructor
  · cases p <;> first | rfl | cases h
  · rintro rfl
    cases h

/-- What a call or its task does to `_ends` and its futures. -/
inductive Books (t : Task) (m : Memory) (a : Act) : Task → Memory → Prop
  | idle {p : Point} : t.point.calling = true → p.active = false → p ≠ .ended →
      Books t m a (t.goto p) m
  | register : t.point.calling = true → Books t m a (t.spawn m).2 (t.spawn m).1
  | stay {p : Point} {turn : Turn} {m' : Memory} : t.point.active = true → p.active = true →
      m'.ends = m.ends → m'.resolved = m.resolved → m'.givenUp = m.givenUp →
      Books t m a { t with point := p, turn := turn } m'
  | settle : t.point.active = true → Books t m a (t.goto .ended) (m.settle t.job.taskId)
  | leave {m' : Memory} : t.leaves a = true → t.point.active = true →
      m'.ends = m.ends → m'.resolved = m.resolved → m'.givenUp = m.givenUp →
      Books t m a (t.goto .ended) m'
  | close {ended : Ended} : Books t m a { t with turn := .over ended } m

theorem hear_books {o : Delegation.TurnOutcome} (hp : t.point = .waiting ∨ t.point = .draining)
    (h : t.hear m o = some (m', t')) : Books t m .resume t' m' := by
  have hact : t.point.active = true := by rcases hp with hp | hp <;> rw [hp] <;> rfl
  unfold Task.hear at h
  split at h <;> cases h <;> rename_i ht
  · exact .stay hact rfl rfl rfl rfl
  · exact .stay hact rfl rfl rfl rfl
  · refine .leave ?_ hact rfl rfl rfl
    rcases hp with hp | hp <;> simp [Task.leaves, hp, ht]

theorem resume_books (h : t.resume m = some (m', t')) : Books t m .resume t' m' := by
  unfold Task.resume at h
  split at h <;> rename_i hp
  · split at h <;> cases h
    · exact .idle (by rw [hp]; rfl) rfl nofun
    · cases t.job.awaits with
      | zero => exact .idle (by rw [hp]; rfl) rfl nofun
      | succ n => exact .idle (by rw [hp]; rfl) rfl nofun
  · cases h
    exact .idle (by rw [hp]; rfl) rfl nofun
  · cases h
    exact .idle (by rw [hp]; rfl) rfl nofun
  · split at h <;> cases h
    · exact .idle (by rw [hp]; rfl) rfl nofun
    · exact .register (by rw [hp]; rfl)
  · cases h
    exact .register (by rw [hp]; rfl)
  · cases h
    exact .stay (by rw [hp]; rfl) rfl rfl rfl rfl
  · exact hear_books (.inl hp) h
  · cases h
    exact .stay (by rw [hp]; rfl) rfl rfl rfl rfl
  · cases h
    exact .stay (by rw [hp]; rfl) rfl rfl rfl rfl
  · exact hear_books (.inr hp) h
  · cases h
    exact .settle (by rw [hp]; rfl)
  all_goals cases h

theorem act_books (h : t.act m a = some (m', t')) : Books t m a t' m' := by
  cases a with
  | resume => exact resume_books h
  | fail =>
    simp only [Task.act, Task.fail] at h
    split at h <;> cases h <;> rename_i hp
    · exact .idle (by rw [hp]; rfl) rfl nofun
    · exact .idle (by rw [hp]; rfl) rfl nofun
    · exact .idle (by rw [hp]; rfl) rfl nofun
    · exact .register (by rw [hp]; rfl)
    · exact .stay (by rw [hp]; rfl) rfl rfl rfl rfl
    · exact .stay (by rw [hp]; rfl) rfl rfl rfl rfl
    · exact .stay (by rw [hp]; rfl) rfl rfl rfl rfl
    · exact .leave (by rw [Task.leaves, hp]) (by rw [hp]; rfl) rfl rfl rfl
  | cancel =>
    have leave : t.point.active = true → ∀ m', m'.ends = m.ends → m'.resolved = m.resolved →
        m'.givenUp = m.givenUp → Books t m .cancel (t.goto .ended) m' := fun hp _ => .leave hp hp
    simp only [Task.act, Task.cancel] at h
    split at h <;> cases h <;> rename_i hp
    iterate 4 exact .idle (by rw [hp]; rfl) rfl nofun
    all_goals exact leave (by rw [hp]; rfl) _ rfl rfl rfl
  | callOff =>
    simp only [Task.act, Task.callOff] at h
    split at h <;> cases h
    rename_i hc
    exact .stay (by rw [hc.1]; rfl) rfl rfl rfl rfl
  | close ended =>
    simp only [Task.act, Task.close] at h
    split at h <;> cases h
    exact .close

theorem Books.job (h : Books t m a t' m') : t'.job = t.job := by
  cases h <;> rfl

theorem isDone_iff {id : Str} : m.isDone id = true ↔ id ∈ m.resolved ∨ id ∈ m.givenUp := by
  simp [Memory.isDone]

/-- A future that is in the registry is done when the task is settled. -/
theorem settle_isDone {id : Str} (h : id ∈ m.ends) : (m.settle id).isDone id = true := by
  have hc : m.ends.contains id = true := List.contains_iff_mem.2 h
  rw [isDone_iff, Memory.settle, hc, Bool.true_and]
  cases hd : m.isDone id with
  | true => exact isDone_iff.1 hd
  | false => exact .inl List.mem_cons_self

/-- A future that is done stays so. -/
theorem Books.done_kept (h : Books t m a t' m') {id : Str} (hd : m.isDone id = true) :
    m'.isDone id = true := by
  cases h with
  | idle hp hq hn => exact hd
  | register hp =>
    simp only [Task.spawn, Memory.register]
    split <;> exact hd
  | stay hp hq he hr hg | leave hl hp he hr hg =>
    rw [isDone_iff] at hd ⊢
    rwa [hr, hg]
  | settle hp =>
    rw [isDone_iff] at hd ⊢
    refine hd.imp_left fun hr => ?_
    simp only [Memory.settle]
    split
    · exact List.mem_cons_of_mem _ hr
    · exact hr
  | close => exact hd

/-- What leaves the registry is the task's own, with its end. -/
theorem Books.ends_kept (h : Books t m a t' m') {id : Str} (hm : id ∈ m.ends) :
    id ∈ m'.ends ∨ id = t.job.taskId ∧ t'.point = .ended := by
  cases h with
  | idle hp hq hn => exact .inl hm
  | register hp =>
    simp only [Task.spawn, Memory.register]
    split
    · exact .inl (List.mem_cons_of_mem _ hm)
    · exact .inl hm
  | stay hp hq he hr hg | leave hl hp he hr hg => exact .inl (he ▸ hm)
  | settle hp =>
    by_cases hid : id = t.job.taskId
    · exact .inr ⟨hid, rfl⟩
    · exact .inl (List.mem_filter.2 ⟨hm, by simpa using hid⟩)
  | close => exact .inl hm

/-- What comes into the registry is the task's own, with its `_run`. -/
theorem Books.ends_came (h : Books t m a t' m') {id : Str} (hm : id ∈ m'.ends) :
    id ∈ m.ends ∨ id = t.job.taskId ∧ t.job.trusted = true ∧ t'.point.active = true := by
  cases h with
  | idle hp hq hn => exact .inl hm
  | register hp =>
    simp only [Task.spawn, Memory.register] at hm
    split at hm
    · rename_i ht
      rcases List.mem_cons.1 hm with rfl | hm
      · exact .inr ⟨rfl, ht, rfl⟩
      · exact .inl hm
    · exact .inl hm
  | stay hp hq he hr hg | leave hl hp he hr hg => exact .inl (he ▸ hm)
  | settle hp => exact .inl (List.mem_filter.1 hm).1
  | close => exact .inl hm

/-- A task that is over has left the registry, where it was not left before. -/
theorem Books.ends_own (h : Books t m a t' m') (hl : t.leaves a = false)
    (ha : t.point.active = true) (hm : t.job.taskId ∈ m'.ends) : t'.point.active = true := by
  cases h with
  | idle hp hq hn => cases (calling_not hp).1.symm.trans ha
  | register hp => rfl
  | stay hp hq he hr hg => exact hq
  | leave hl' hp he hr hg => cases hl.symm.trans hl'
  | settle hp => simp [Memory.settle] at hm
  | close => exact ha

/-- The task's future is in the registry while its `_run` goes on. -/
theorem Books.held (h : Books t m a t' m') (ht : t.job.trusted = true)
    (hh : t.point.active = true → t.job.taskId ∈ m.ends) (ha : t'.point.active = true) :
    t.job.taskId ∈ m'.ends := by
  cases h with
  | idle hp hq hn => cases hq.symm.trans ha
  | register hp => simp [Task.spawn, Memory.register, ht]
  | stay hp hq he hr hg => exact he ▸ hh hp
  | leave hl hp he hr hg => cases ha
  | settle hp => cases ha
  | close => exact hh ha

/-- Its future is done when it is over, where it was not left. -/
theorem Books.over (h : Books t m a t' m') (hl : t.leaves a = false)
    (hh : t.point.active = true → t.job.taskId ∈ m.ends)
    (hd : t.point = .ended → m.isDone t.job.taskId = true) (he : t'.point = .ended) :
    m'.isDone t.job.taskId = true := by
  cases h with
  | idle hp hq hn => exact absurd he hn
  | register hp => cases he
  | stay hp hq he' hr hg =>
    subst he
    cases hq
  | leave hl' hp he' hr hg => cases hl.symm.trans hl'
  | settle hp => exact settle_isDone (hh hp)
  | close => exact hd he

theorem Books.lives (h : Books t m a t' m') (ha : t.point.active = true ∨ t.point = .ended) :
    t'.point.active = true ∨ t'.point = .ended := by
  cases h with
  | idle hp hq hn =>
    rcases ha with ha | ha
    · cases (calling_not hp).1.symm.trans ha
    · exact absurd ha (calling_not hp).2
  | register hp => exact .inl rfl
  | stay hp hq he hr hg => exact .inl hq
  | leave | settle => exact .inr rfl
  | close => exact ha

theorem Books.stays_ended (h : Books t m a t' m') (he : t.point = .ended) : t'.point = .ended := by
  cases h with
  | idle hp | register hp => exact absurd he (calling_not hp).2
  | stay hp =>
    rw [he] at hp
    cases hp
  | leave | settle => rfl
  | close => exact he

/-- No trusted task is left before it has resolved its future. -/
def Heeded (s : State) (e : Event) : Prop :=
  ∀ i a t, e = .act i a → s.At i (.task t) → t.job.trusted = true → t.leaves a = false

theorem at_gathered {ids : List Str} (hj : s.At j (.gathering ids)) :
    (s.put j m .gathered).At i (.task t) ↔ s.At i (.task t) := by
  rw [Pool.at_put hj]
  constructor
  · rintro (⟨-, ht⟩ | ⟨-, hi⟩)
    · cases ht
    · exact hi
  · intro hi
    refine .inr ⟨?_, hi⟩
    rintro rfl
    cases hi.eq hj

theorem gathering_gathered {ids jds : List Str} (hj : s.At j (.gathering ids))
    (hk : (s.put j m .gathered).At i (.gathering jds)) : s.At i (.gathering jds) := by
  rcases (Pool.at_put hj).1 hk with ⟨-, hc⟩ | ⟨-, hk⟩
  · cases hc
  · exact hk

/-- No two tasks have one id. -/
def Numbered (s : State) : Prop := ∀ i j t u, s.At i (.task t) → s.At j (.task u) →
  t.job.taskId = u.job.taskId → i = j

theorem numbered_step (h : Numbered s) (hn : next s e = some s') : Numbered s' := by
  -- a task was there before the step, or it is the one that is called
  have old : ∀ {q : State}, (∀ i t, q.At i (.task t) → ∃ u, s.At i (.task u) ∧ u.job = t.job) →
      Numbered q := fun hq i j t u hi hj heq => by
    obtain ⟨t', hi, ht⟩ := hq i t hi
    obtain ⟨u', hj, hu⟩ := hq j u hj
    exact h i j t' u' hi hj (by rw [ht, hu, heq])
  cases next_step hn with
  | @call job key hkey hid =>
    intro i j t u hi hj heq
    rcases Pool.at_start.1 hi with hi | ⟨rfl, ht⟩ <;> rcases Pool.at_start.1 hj with hj | ⟨rfl, hu⟩
    · exact h i j t u hi hj heq
    · cases hu
      exact absurd heq (hid i t hi)
    · cases ht
      exact absurd heq.symm (hid j u hj)
    · rfl
  | @act i a t t' m hi ha =>
    refine old fun j u hj => ?_
    rcases (Pool.at_put hi).1 hj with ⟨rfl, hu⟩ | ⟨-, hj⟩
    · cases hu
      exact ⟨t, hi, (act_books ha).job.symm⟩
    · exact ⟨u, hj, rfl⟩
  | await =>
    refine old fun j u hj => ⟨u, (Pool.at_start.1 hj).resolve_right ?_, rfl⟩
    rintro ⟨-, hu⟩
    cases hu
  | wake hj | giveUp hj => exact old fun j u hu => ⟨u, (at_gathered hj).1 hu, rfl⟩

theorem numbered {C : State → Event → Prop} (h : lts.Reach C s) : Numbered s := by
  refine h.inv ?_ fun _ _ _ hs _ => numbered_step hs
  rintro _ rfl
  exact fun i _ _ _ hi => absurd hi.lt (Nat.not_lt_zero i)

/-- The books of `_ends`. -/
structure Promised (s : State) : Prop where
  held : ∀ i t, s.At i (.task t) → t.job.trusted = true → t.point.active = true →
    t.job.taskId ∈ s.store.ends
  ended : ∀ i t, s.At i (.task t) → t.job.trusted = true → t.point = .ended →
    s.store.isDone t.job.taskId = true
  known : ∀ id ∈ s.store.ends, ∃ i t, s.At i (.task t) ∧ t.job.taskId = id ∧
    t.job.trusted = true ∧ t.point.active = true
  awaited : ∀ j ids, s.At j (.gathering ids) → ∀ id ∈ ids, ∃ i t, s.At i (.task t) ∧
    t.job.taskId = id ∧ t.job.trusted = true ∧ (t.point.active = true ∨ t.point = .ended)

/-- The future of a trusted task that is over is done, and who awaits such tasks goes on. -/
structure AnswersEnd (s : State) : Prop where
  resolved : ∀ i t, s.At i (.task t) → t.job.trusted = true → t.point = .ended →
    s.store.isDone t.job.taskId = true
  woken : ∀ j ids, s.At j (.gathering ids) →
    (∀ i t, s.At i (.task t) → t.job.taskId ∈ ids → t.point = .ended) →
    ∃ s', next s (.wake j) = some s' ∧ s'.At j .gathered

/-- A step that does nothing to a task keeps the books, where what is awaited anew is in them. -/
theorem Promised.same (h : Promised s) {q : State} (he : q.store.ends = s.store.ends)
    (hd : ∀ id, s.store.isDone id = true → q.store.isDone id = true)
    (hq : ∀ i t, q.At i (.task t) ↔ s.At i (.task t))
    (hw : ∀ j ids, q.At j (.gathering ids) → s.At j (.gathering ids) ∨
      ∀ id ∈ ids, id ∈ s.store.ends) :
    Promised q where
  held i t hi ht ha := he ▸ h.held i t ((hq i t).1 hi) ht ha
  ended i t hi ht hp := hd _ (h.ended i t ((hq i t).1 hi) ht hp)
  known id hid := by
    obtain ⟨i, t, hi, ht⟩ := h.known id (he ▸ hid)
    exact ⟨i, t, (hq i t).2 hi, ht⟩
  awaited j ids hj id hid := by
    rcases hw j ids hj with hj | hw
    · obtain ⟨i, t, hi, ht⟩ := h.awaited j ids hj id hid
      exact ⟨i, t, (hq i t).2 hi, ht⟩
    · obtain ⟨i, t, hi, ht, htr, ha⟩ := h.known id (hw id hid)
      exact ⟨i, t, (hq i t).2 hi, ht, htr, .inl ha⟩

theorem promised_act (h : Promised s) (hid : Numbered s)
    (hC : t.job.trusted = true → t.leaves a = false) (hi : s.At i (.task t))
    (ha : t.act s.store a = some (m', t')) : Promised (s.put i m' (.task t')) := by
  have hb := act_books ha
  -- a task of the state after the step was at the same place before it
  have was : ∀ j u, (s.put i m' (.task t')).At j (.task u) → j = i ∧ u = t' ∨
      j ≠ i ∧ s.At j (.task u) := fun j u hj =>
    ((Pool.at_put hi).1 hj).imp_left fun h => ⟨h.1, by simpa using h.2⟩
  have other : ∀ j u, j ≠ i → s.At j (.task u) → u.job.taskId ≠ t.job.taskId :=
    fun j u hne hj heq => hne (hid j i u t hj hi heq)
  refine ⟨fun j u hj htr hact => ?_, fun j u hj htr hp => ?_, fun id hid => ?_,
    fun j ids hj id hid => ?_⟩
  · rcases was j u hj with ⟨rfl, rfl⟩ | ⟨hne, hj⟩
    · rw [hb.job] at htr ⊢
      exact hb.held htr (h.held j t hi htr) hact
    · exact (hb.ends_kept (h.held j u hj htr hact)).resolve_right fun hid => other j u hne hj hid.1
  · rcases was j u hj with ⟨rfl, rfl⟩ | ⟨hne, hj⟩
    · rw [hb.job] at htr ⊢
      exact hb.over (hC htr) (h.held j t hi htr) (h.ended j t hi htr) hp
    · exact hb.done_kept (h.ended j u hj htr hp)
  · rcases hb.ends_came hid with hold | ⟨rfl, htr, hact⟩
    · obtain ⟨j, u, hj, rfl, htr, hact⟩ := h.known id hold
      by_cases hne : j = i
      · subst hne
        obtain rfl : u = t := by simpa using hj.eq hi
        exact ⟨j, t', Pool.at_put_self hi, by rw [hb.job], by rw [hb.job, htr],
          hb.ends_own (hC htr) hact hid⟩
      · exact ⟨j, u, Pool.at_put_ne hi hj hne, rfl, htr, hact⟩
    · exact ⟨i, t', Pool.at_put_self hi, by rw [hb.job], by rw [hb.job, htr], hact⟩
  · have hj : s.At j (.gathering ids) := by
      rcases (Pool.at_put hi).1 hj with ⟨-, hc⟩ | ⟨-, hj⟩
      · cases hc
      · exact hj
    obtain ⟨k, u, hk, rfl, htr, hu⟩ := h.awaited j ids hj id hid
    by_cases hne : k = i
    · subst hne
      obtain rfl : u = t := by simpa using hk.eq hi
      exact ⟨k, t', Pool.at_put_self hi, by rw [hb.job], by rw [hb.job, htr], hb.lives hu⟩
    · exact ⟨k, u, Pool.at_put_ne hi hk hne, rfl, htr, hu⟩

theorem promised_step (h : Promised s) (hids : Numbered s) (hC : Heeded s e)
    (hn : next s e = some s') : Promised s' := by
  cases next_step hn with
  | @call job key hkey hid =>
    have was : ∀ i c, (s.start (.task ⟨job, key, .resolving, .unsubmitted⟩)).At i c →
        s.At i c ∨ i = s.calls.length ∧ c = .task ⟨job, key, .resolving, .unsubmitted⟩ :=
      fun i c => Pool.at_start.1
    have stays : ∀ {i c}, s.At i c →
        (s.start (.task ⟨job, key, .resolving, .unsubmitted⟩)).At i c := fun hi =>
      Pool.at_start.2 (.inl hi)
    refine ⟨fun i t hi htr ha => ?_, fun i t hi htr hp => ?_, fun id hid' => ?_,
      fun j ids hj id hid' => ?_⟩
    · rcases was i _ hi with hi | ⟨-, ht⟩
      · exact h.held i t hi htr ha
      · cases ht
        cases ha
    · rcases was i _ hi with hi | ⟨-, ht⟩
      · exact h.ended i t hi htr hp
      · cases ht
        cases hp
    · obtain ⟨i, t, hi, ht⟩ := h.known id hid'
      exact ⟨i, t, stays hi, ht⟩
    · rcases was j _ hj with hj | ⟨-, hc⟩
      · obtain ⟨i, t, hi, ht⟩ := h.awaited j ids hj id hid'
        exact ⟨i, t, stays hi, ht⟩
      · cases hc
  | act hi ha => exact promised_act h hids (hC _ _ _ rfl hi) hi ha
  | @await ids =>
    refine h.same rfl (fun _ => id) (fun i t => ?_) fun j jds hj => ?_
    · rw [Pool.at_start]
      exact or_iff_left fun ⟨_, ht⟩ => by cases ht
    · rcases Pool.at_start.1 hj with hj | ⟨-, hc⟩
      · exact .inl hj
      · cases hc
        exact .inr fun id hid => by simpa using (List.mem_filter.1 hid).2
  | @wake j ids hj =>
    exact h.same rfl (fun _ => id) (fun i t => at_gathered hj) fun k jds hk =>
      .inl (gathering_gathered hj hk)
  | @giveUp j ids hj =>
    refine h.same rfl (fun id hd => ?_) (fun i t => at_gathered hj) fun k jds hk =>
      .inl (gathering_gathered hj hk)
    exact isDone_iff.2 ((isDone_iff.1 hd).imp_right (List.mem_append_right _))

theorem promised (h : lts.Reach Heeded s) : Promised s := by
  refine h.inv_using ?_ fun _ _ _ hr hs hC => promised_step hs (numbered hr) hC
  rintro _ rfl
  exact ⟨fun i _ hi => absurd hi.lt (Nat.not_lt_zero i),
    fun i _ hi => absurd hi.lt (Nat.not_lt_zero i), nofun,
    fun j _ hj => absurd hj.lt (Nat.not_lt_zero j)⟩

theorem answers_end (h : lts.Reach Heeded s) : AnswersEnd s := by
  have hp := promised h
  refine ⟨hp.ended, fun j ids hj hover => ?_⟩
  have hall : ids.all s.store.isDone = true := by
    rw [List.all_eq_true]
    intro id hid
    obtain ⟨i, t, hi, rfl, htr, -⟩ := hp.awaited j ids hj id hid
    exact hp.ended i t hi htr (hover i t hi hid)
  refine ⟨s.put j s.store .gathered, ?_, Pool.at_put_self hj⟩
  rw [Pool.At] at hj
  simp only [next, hj, hall, Bool.true_or, if_true]

/-! ## A task that was left -/

/-- A task that is over and whose future is not done. -/
def Left (s : State) (i : Nat) (id : Str) : Prop :=
  (∃ t, s.At i (.task t) ∧ t.job.taskId = id ∧ t.point = .ended) ∧ s.store.isDone id = false

/-- A step that is none of the task's own does not resolve its future. -/
theorem Books.undone (h : Books t m a t' m') {id : Str} (hid : t.point = .ended ∨ id ≠ t.job.taskId)
    (hd : m.isDone id = false) : m'.isDone id = false := by
  rw [← Bool.not_eq_true, isDone_iff] at hd ⊢
  cases h with
  | idle | close => exact hd
  | register =>
    simp only [Task.spawn, Memory.register]
    split <;> exact hd
  | stay hp hq he hr hg | leave hl hp he hr hg => rwa [hr, hg]
  | settle hp =>
    have hne : id ≠ t.job.taskId := hid.resolve_left fun he => by rw [he] at hp; cases hp
    rw [not_or] at hd ⊢
    refine ⟨fun hm => ?_, hd.2⟩
    simp only [Memory.settle] at hm
    split at hm
    · exact (List.mem_cons.1 hm).elim hne hd.1
    · exact hd.1 hm

theorem leaves_ends (hl : t.leaves a = true) (h : t.act m a = some (m', t')) :
    t' = t.goto .ended ∧ m'.resolved = m.resolved ∧ m'.givenUp = m.givenUp := by
  cases a with
  | resume =>
    simp only [Task.leaves, Bool.and_eq_true, Bool.or_eq_true, beq_iff_eq] at hl
    obtain ⟨hp | hp, ht⟩ := hl <;>
      simp only [Task.act, Task.resume, hp, Task.hear, ht, Option.some.injEq] at h <;> cases h <;>
      exact ⟨rfl, rfl, rfl⟩
  | fail =>
    simp only [Task.leaves] at hl
    split at hl
    · rename_i hp
      simp only [Task.act, Task.fail, hp, Option.some.injEq] at h
      cases h
      exact ⟨rfl, rfl, rfl⟩
    · cases hl
  | cancel =>
    simp only [Task.leaves] at hl
    simp only [Task.act, Task.cancel] at h
    split at h <;> cases h <;> rename_i hp
    iterate 4
      rw [hp] at hl
      cases hl
    all_goals exact ⟨rfl, rfl, rfl⟩
  | callOff | close => cases hl

/-- A task that is left is over, and its future is as it was. -/
theorem left_of_leaves (hi : s.At i (.task t)) (hl : t.leaves a = true)
    (ha : t.act s.store a = some (m', t')) (hd : s.store.isDone t.job.taskId = false) :
    Left (s.put i m' (.task t')) i t.job.taskId := by
  obtain ⟨rfl, hr, hg⟩ := leaves_ends hl ha
  refine ⟨⟨_, Pool.at_put_self hi, rfl, rfl⟩, ?_⟩
  rw [Pool.put_store, Memory.isDone, hr, hg]
  exact hd

theorem left_step {id : Str} (h : Left s i id) (hid : Numbered s) (hg : ∀ j, e ≠ .giveUp j)
    (hn : next s e = some s') : Left s' i id := by
  obtain ⟨⟨t, hi, rfl, hp⟩, hd⟩ := h
  cases next_step hn with
  | call | await => exact ⟨⟨t, Pool.at_start.2 (.inl hi), rfl, hp⟩, hd⟩
  | @act j a u u' m hj ha =>
    have hb := act_books ha
    by_cases hne : i = j
    · subst hne
      obtain rfl : t = u := by simpa using hi.eq hj
      exact ⟨⟨u', Pool.at_put_self hj, by rw [hb.job], hb.stays_ended hp⟩, hb.undone (.inl hp) hd⟩
    · exact ⟨⟨t, Pool.at_put_ne hj hi hne, rfl, hp⟩,
        hb.undone (.inr fun heq => hne (hid i j t u hi hj heq)) hd⟩
  | wake hj => exact ⟨⟨t, (at_gathered hj).2 hi, rfl, hp⟩, hd⟩
  | giveUp hj => exact absurd rfl (hg _)

/-- Nothing resolves the future of a task that was left: whoever awaits it gives up or waits on. -/
theorem left_for_good {id : Str} {es : List Event} (hr : lts.Reach Lts.Any s)
    (hrun : lts.Run (fun _ e => ∀ j, e ≠ .giveUp j) s es s') (h : Left s i id) : Left s' i id :=
  hrun.inv_of hr (fun _ _ _ => trivial) h fun _ _ _ hr h hg =>
    left_step h (numbered hr) hg

/-! ## Runs -/

namespace Sample

def alone (taskId : String) : Job where
  taskId := str taskId
  agent := str "assistant"
  askerSessionId := str "assistant--d1"
  conversationId := str "d1"
  toAgent := str "coder"
  keepsOne := false
  trusted := true
  context := true
  awaits := 1

def place (taskId : String) : Str := str "delegated:" ++ str taskId

/-- A task is asked, its turn submitted, and awaited. -/
def awaited : List Event :=
  .call (alone "t1") (place "t1") :: List.replicate 5 (.act 0 .resume) ++ [.await [str "t1"]]

/-- The asker's turn is over, and neither the store nor the turn takes the task's end well. -/
def calledOff : List Event :=
  awaited ++ [.act 0 .callOff, .act 0 .fail, .act 0 (.close .raised), .act 0 .resume]

end Sample

/-- `Heeded`, as a check. -/
def heededCheck (s : State) : Event → Bool
  | .act i a => match s.calls[i]? with
    | some (some (.task t)) => !t.job.trusted || !t.leaves a
    | _ => true
  | _ => true

theorem heeded_of_check (h : heededCheck s e = true) : Heeded s e := by
  intro i a t he hi ht
  subst he
  rw [Pool.At] at hi
  simpa [heededCheck, hi, ht] using h

theorem answers_end_called_off : ∃ s, lts.Reach Heeded s ∧ AnswersEnd s ∧
    (∃ t, s.At 0 (.task t) ∧ t.job.trusted = true ∧ t.point = .ended) ∧
    s.At 1 (.gathering [str "t1"]) := by
  have hrun : (lts.check heededCheck ⟨.empty, []⟩ Sample.calledOff).map (·.calls) =
      some [some (.task ⟨Sample.alone "t1", Sample.place "t1", .ended, .over .raised⟩),
        some (.gathering [str "t1"])] := by
    decide +kernel
  obtain ⟨s, hs, hat⟩ := Option.map_eq_some_iff.1 hrun
  have h : lts.Reach Heeded s := Lts.reach_of_check (fun _ _ => heeded_of_check) rfl hs
  refine ⟨s, h, answers_end h, ⟨_, by rw [Pool.At, hat]; rfl, rfl, rfl⟩, ?_⟩
  rw [Pool.At, hat]
  rfl

/-- The first task is over, and its future is not done. -/
def silent (s : State) : Bool :=
  match s.calls[(0 : Nat)]? with
  | some (some (.task t)) =>
    t.job.trusted && t.point == .ended && !s.store.isDone t.job.taskId
  | _ => false

/-- A trusted task that is awaited and goes on so is over, and its future is not done. -/
def Silenced (way : List Event) : Prop :=
  ∃ s, lts.Run Lts.Any ⟨.empty, []⟩ (Sample.awaited ++ way) s ∧ ¬ AnswersEnd s

theorem silenced_of_check {way : List Event}
    (h : (lts.check (fun _ _ => true) ⟨.empty, []⟩ (Sample.awaited ++ way)).any silent = true) :
    Silenced way := by
  obtain ⟨s, hs, hq⟩ := (Option.any_eq_true ..).1 h
  refine ⟨s, Lts.run_of_check (fun _ _ _ => trivial) hs, fun hends => ?_⟩
  unfold silent at hq
  split at hq
  · rename_i t ht
    simp only [Bool.and_eq_true, beq_iff_eq, Bool.not_eq_true'] at hq
    cases hq.2.symm.trans (hends.resolved 0 t ht hq.1.1 hq.1.2)
  · cases hq

/-- The running task is cancelled, its turn ends so, or the store raises when its end is written. -/
theorem answer_never : Silenced [.act 0 .cancel] ∧
    Silenced [.act 0 (.close .cancelled), .act 0 .resume] ∧
    Silenced [.act 0 (.close (.outcome .replied)), .act 0 .resume, .act 0 .fail] :=
  ⟨silenced_of_check (by decide +kernel), silenced_of_check (by decide +kernel),
    silenced_of_check (by decide +kernel)⟩

end InFlight
