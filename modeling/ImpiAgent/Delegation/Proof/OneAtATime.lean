import ImpiAgent.Delegation.InFlight

/-!
# One task at a time

`_require_free` looks for a conversation in `_busy`, and a task's turn puts it there; what lies
between (`Point.preparing`) awaits. `one_task` is that of the tasks of one conversation one at
most has its turn open, and that a call which finds one is refused, where no call passes its check
while another is on the way from its own to its turn, and no task is left before its turn is over
(`Orderly`). `Marked` is the invariant: what is turning is in `_busy`, and of two tasks of one
conversation one at most is past its check. The registry then holds the link of each trusted task
(`linked`). `two_turns_at_once` and `turn_left_open` are what happens otherwise.
-/

namespace InFlight

open SessionIds (Str str)

variable {s s' : State} {e : Event}

/-- From a call's check to the `finally` of its task. -/
def Point.engaged (p : Point) : Bool := p.preparing || p.turning

/-- What a call or its task does to `_busy`, and when. -/
inductive Move (t : Task) (m : Memory) (a : Act) : Task → Memory → Prop
  | enter {p : Point} : a = .resume → t.point = .resolving → t.key ∉ m.busy →
      p.preparing = true → Move t m a (t.goto p) m
  | prepare {p : Point} {m' : Memory} : t.point.preparing = true → p.preparing = true →
      m'.busy = m.busy → Move t m a (t.goto p) m'
  | submit {m' : Memory} : t.point = .spawned → m'.busy = m.busy.insert t.key →
      Move t m a { t with point := .waiting, turn := .running } m'
  | watch {p : Point} : t.point.turning = true → p.turning = true → Move t m a (t.goto p) m
  | close {e : Ended} : t.turn = .running → Move t m a { t with turn := .over e } m
  | release {p : Point} {m' : Memory} : t.point.engaged = true → p.engaged = false →
      (t.turn = .running → a = .cancel ∨ a = .fail) → m'.busy = m.busy.filter (· ≠ t.key) →
      Move t m a (t.goto p) m'
  | rest {p : Point} {m' : Memory} : t.point.turning = false → p.engaged = false →
      m'.busy = m.busy → Move t m a (t.goto p) m'

variable {t t' u : Task} {m m' : Memory} {a : Act} {i j : Nat}

theorem register_busy (m : Memory) (key : Str) (job : Job) :
    (m.register key job).busy = m.busy := by
  unfold Memory.register
  split <;> rfl

theorem spawn_moves (h : t.point.preparing = true) : Move t m a (t.spawn m).2 (t.spawn m).1 :=
  .prepare h rfl (register_busy ..)

theorem hear_moves {o : Delegation.TurnOutcome} (hp : t.point.engaged = true)
    (h : t.hear m o = some (m', t')) : Move t m a t' m' := by
  unfold Task.hear at h
  split at h <;> cases h
  all_goals
    rename_i ht
    exact .release hp rfl (fun hr => by rw [hr] at ht; cases ht) rfl

theorem resume_moves (h : t.resume m = some (m', t')) : Move t m .resume t' m' := by
  unfold Task.resume at h
  split at h
  · rename_i hp
    split at h <;> cases h
    · exact .rest (by rw [hp]; rfl) rfl rfl
    · refine .enter rfl hp ‹_› ?_
      split <;> rfl
  · rename_i hp
    cases h
    exact .prepare (by rw [hp]; rfl) rfl rfl
  · rename_i hp
    cases h
    exact .prepare (by rw [hp]; rfl) rfl rfl
  · rename_i hp
    have hpre : t.point.preparing = true := by rw [hp]; rfl
    split at h <;> cases h
    · exact .prepare hpre rfl rfl
    · exact spawn_moves hpre
  · rename_i hp
    cases h
    exact spawn_moves (by rw [hp]; rfl)
  · rename_i hp
    cases h
    exact .submit hp rfl
  · rename_i hp
    exact hear_moves (by rw [hp]; rfl) h
  · rename_i hp
    cases h
    exact .watch (by rw [hp]; rfl) rfl
  · rename_i hp
    cases h
    exact .watch (by rw [hp]; rfl) rfl
  · rename_i hp
    exact hear_moves (by rw [hp]; rfl) h
  · rename_i hp
    cases h
    exact .rest (by rw [hp]; rfl) rfl rfl
  all_goals cases h

theorem fail_moves (h : t.fail m = some (m', t')) : Move t m .fail t' m' := by
  unfold Task.fail at h
  split at h <;> cases h <;> rename_i hp
  · exact .rest (by rw [hp]; rfl) rfl rfl
  · exact .rest (by rw [hp]; rfl) rfl rfl
  · exact .rest (by rw [hp]; rfl) rfl rfl
  · exact spawn_moves (by rw [hp]; rfl)
  · exact .release (by rw [hp]; rfl) rfl (fun _ => .inr rfl) rfl
  · exact .release (by rw [hp]; rfl) rfl (fun _ => .inr rfl) rfl
  · exact .release (by rw [hp]; rfl) rfl (fun _ => .inr rfl) rfl
  · exact .rest (by rw [hp]; rfl) rfl rfl

theorem cancel_moves (h : t.cancel m = some (m', t')) : Move t m .cancel t' m' := by
  have rest : t.point.turning = false → Move t m .cancel (t.goto .dropped) m ∧
      Move t m .cancel (t.goto .ended) m := fun hp =>
    ⟨.rest hp rfl rfl, .rest hp rfl rfl⟩
  unfold Task.cancel at h
  split at h <;> cases h <;> rename_i hp
  · exact (rest (by rw [hp]; rfl)).1
  · exact (rest (by rw [hp]; rfl)).1
  · exact (rest (by rw [hp]; rfl)).1
  · exact (rest (by rw [hp]; rfl)).1
  · exact (rest (by rw [hp]; rfl)).2
  · exact (rest (by rw [hp]; rfl)).2
  all_goals exact .release (by rw [hp]; rfl) rfl (fun _ => .inl rfl) rfl

theorem act_moves (h : t.act m a = some (m', t')) : Move t m a t' m' := by
  cases a with
  | resume => exact resume_moves h
  | fail => exact fail_moves h
  | cancel => exact cancel_moves h
  | callOff =>
    simp only [Task.act, Task.callOff] at h
    split at h <;> cases h
    rename_i hc
    exact .watch (by rw [hc.1]; rfl) rfl
  | close e =>
    simp only [Task.act, Task.close] at h
    split at h <;> cases h
    exact .close ‹_›

/-- No call passes its check while another of its conversation is between its own check and its
turn, and no task is cancelled, or raises where it is being called off, before its turn is over. -/
structure Orderly (s : State) (e : Event) : Prop where
  checks : ∀ i j t u, e = .act i .resume → s.At i (.task t) → t.point = .resolving →
    s.At j (.task u) → u.key = t.key → u.point.preparing = false
  turns : ∀ i t, e = .act i .cancel ∨ e = .act i .fail → s.At i (.task t) →
    t.point.turning = true → t.turn ≠ .running

theorem turning_engaged {p : Point} (h : p.turning = true) : p.engaged = true := by
  rw [Point.engaged, h, Bool.or_true]

theorem preparing_engaged {p : Point} (h : p.preparing = true) : p.engaged = true := by
  rw [Point.engaged, h, Bool.true_or]

theorem preparing_not {p : Point} (h : p.preparing = true) : p.turning = false := by
  cases p <;> first | rfl | cases h

theorem Move.key (h : Move t m a t' m') : t'.key = t.key := by
  cases h <;> rfl

/-- Who is past its check after a move was so before, or made its check and did not find the
conversation in `_busy`. -/
theorem Move.enters (h : Move t m a t' m') (he : t'.point.engaged = true) :
    t.point.engaged = true ∨ a = .resume ∧ t.point = .resolving ∧ t.key ∉ m.busy := by
  cases h with
  | enter ha hp hk hq => exact .inr ⟨ha, hp, hk⟩
  | prepare hp hq hb => exact .inl (preparing_engaged hp)
  | submit hp hb => exact .inl (by rw [hp]; rfl)
  | watch hp hq => exact .inl (turning_engaged hp)
  | close hr => exact .inl he
  | release hp hq ht hb => cases hq.symm.trans he
  | rest hp hq hb => cases hq.symm.trans he

/-- A conversation leaves `_busy` by a move of a task of its own that was past its check. -/
theorem Move.busy_kept (h : Move t m a t' m') {k : Str} (hk : k ∈ m.busy) :
    k ∈ m'.busy ∨ k = t.key ∧ t.point.engaged = true := by
  cases h with
  | enter | watch | close => exact .inl hk
  | prepare _ _ hb | rest _ _ hb => exact .inl (hb ▸ hk)
  | submit hp hb => exact .inl (hb ▸ List.mem_insert_of_mem hk)
  | release hp hq ht hb =>
    rw [hb, List.mem_filter, decide_eq_true_eq]
    by_cases hne : k = t.key
    · exact .inr ⟨hne, hp⟩
    · exact .inl ⟨hk, hne⟩

/-- A task whose turn has been submitted is in `_busy`. -/
theorem Move.busy_own (h : Move t m a t' m') (hb : t.point.turning = true → t.key ∈ m.busy)
    (ht : t'.point.turning = true) : t.key ∈ m'.busy := by
  cases h with
  | enter ha hp hk hq => cases (preparing_not hq).symm.trans ht
  | prepare hp hq hm => cases (preparing_not hq).symm.trans ht
  | submit hp hm => exact hm ▸ List.mem_insert_self
  | watch hp hq => exact hb hp
  | close hr => exact hb ht
  | release hp hq htn hm => cases hq.symm.trans (turning_engaged ht)
  | rest hp hq hm => cases hq.symm.trans (turning_engaged ht)

/-- Whose turn is open awaits it, where it did before and is not left with it open. -/
theorem Move.awaits (h : Move t m a t' m') (hw : t.turn = .running → t.point.turning = true)
    (ho : a = .cancel ∨ a = .fail → t.point.turning = true → t.turn ≠ .running)
    (hr : t'.turn = .running) : t'.point.turning = true := by
  cases h with
  | enter ha hp hk hq =>
    have := hw hr
    rw [hp] at this
    cases this
  | prepare hp hq hm => cases (preparing_not hp).symm.trans (hw hr)
  | submit hp hm => rfl
  | watch hp hq => exact hq
  | close hr' => cases hr
  | release hp hq ht hm => exact absurd hr (ho (ht hr) (hw hr))
  | rest hp hq hm => cases hp.symm.trans (hw hr)

/-- The books of `_busy`. -/
structure Marked (s : State) : Prop where
  awaited : ∀ i t, s.At i (.task t) → t.turn = .running → t.point.turning = true
  busy : ∀ i t, s.At i (.task t) → t.point.turning = true → t.key ∈ s.store.busy
  apart : ∀ i j t u, i ≠ j → s.At i (.task t) → s.At j (.task u) → t.key = u.key →
    t.point.engaged = true → u.point.engaged = false

/-- A task that makes its check orderly, and does not find its conversation in `_busy`, finds no
other past its own. -/
theorem Marked.alone (h : Marked s) (hC : Orderly s (.act i .resume)) (hi : s.At i (.task t))
    (hp : t.point = .resolving) (hk : t.key ∉ s.store.busy) (hj : s.At j (.task u))
    (hkey : u.key = t.key) : u.point.engaged = false := by
  rw [Point.engaged, hC.checks i j t u rfl hi hp hj hkey, Bool.false_or, ← Bool.not_eq_true]
  exact fun ht => hk (hkey ▸ h.busy j u hj ht)

theorem marked_act (h : Marked s) (hC : Orderly s (.act i a)) (hi : s.At i (.task t))
    (ha : t.act s.store a = some (m', t')) : Marked (s.put i m' (.task t')) := by
  have hm := act_moves ha
  -- what is past its check after the step shares its conversation with no other that is
  have alone : ∀ j u, j ≠ i → s.At j (.task u) → t'.key = u.key → t'.point.engaged = true →
      u.point.engaged = false := by
    intro j u hne hj hkey he
    rw [hm.key] at hkey
    rcases hm.enters he with he | ⟨rfl, hp, hk⟩
    · exact h.apart i j t u (Ne.symm hne) hi hj hkey he
    · exact h.alone hC hi hp hk hj hkey.symm
  refine ⟨fun j u hj hr => ?_, fun j u hj ht => ?_, fun j k u v hjk hu hv hkey he => ?_⟩
  · rcases (Pool.at_put hi).1 hj with ⟨rfl, hu⟩ | ⟨hne, hj⟩
    · cases hu
      exact hm.awaits (h.awaited j t hi) (fun hca => hC.turns j t (by simpa using hca) hi) hr
    · exact h.awaited j u hj hr
  · rcases (Pool.at_put hi).1 hj with ⟨rfl, hu⟩ | ⟨hne, hj⟩
    · cases hu
      rw [hm.key]
      exact hm.busy_own (h.busy j t hi) ht
    · rcases hm.busy_kept (h.busy j u hj ht) with hb | ⟨hkey, he⟩
      · exact hb
      · cases (h.apart i j t u (Ne.symm hne) hi hj hkey.symm he).symm.trans (turning_engaged ht)
  · rcases (Pool.at_put hi).1 hu with ⟨rfl, h'⟩ | ⟨hnj, hj⟩
    · cases h'
      obtain ⟨-, hk⟩ := ((Pool.at_put hi).1 hv).resolve_left fun h => hjk h.1.symm
      exact alone k v (Ne.symm hjk) hk hkey he
    · rcases (Pool.at_put hi).1 hv with ⟨rfl, h'⟩ | ⟨hnk, hk⟩
      · cases h'
        rw [← Bool.not_eq_true]
        intro hv'
        cases (alone j u hnj hj hkey.symm hv').symm.trans he
      · exact h.apart j k u v hjk hj hk hkey he

theorem marked_step (h : Marked s) (hC : Orderly s e) (hn : next s e = some s') : Marked s' := by
  -- a step of another call leaves the tasks and `_busy` as they are
  have same : ∀ q : State, q.store.busy = s.store.busy →
      (∀ i t, q.At i (.task t) → s.At i (.task t)) → Marked q := fun q hb hq =>
    ⟨fun i t hi => h.awaited i t (hq i t hi), fun i t hi ht => hb ▸ h.busy i t (hq i t hi) ht,
      fun i j t u hne hi hj => h.apart i j t u hne (hq i t hi) (hq j u hj)⟩
  cases next_step hn with
  | @call job key hkey hid =>
    have old : ∀ i t, (s.start (.task ⟨job, key, .resolving, .unsubmitted⟩)).At i (.task t) →
        s.At i (.task t) ∨ t.point = .resolving ∧ t.turn = .unsubmitted := fun i t hi => by
      rcases Pool.at_start.1 hi with hi | ⟨-, ht⟩
      · exact .inl hi
      · cases ht
        exact .inr ⟨rfl, rfl⟩
    refine ⟨fun i t hi hr => ?_, fun i t hi ht => ?_, fun i j t u hne hi hj hkey he => ?_⟩
    · rcases old i t hi with hi | ⟨-, ht⟩
      · exact h.awaited i t hi hr
      · cases ht.symm.trans hr
    · rcases old i t hi with hi | ⟨hp, -⟩
      · exact h.busy i t hi ht
      · rw [hp] at ht
        cases ht
    · rcases old j u hj with hj | ⟨hp, -⟩
      · rcases old i t hi with hi | ⟨hp, -⟩
        · exact h.apart i j t u hne hi hj hkey he
        · rw [hp] at he
          cases he
      · rw [hp]
        rfl
  | act hi ha => exact marked_act h hC hi ha
  | await =>
    refine same _ rfl fun i t hi => (Pool.at_start.1 hi).resolve_right ?_
    rintro ⟨-, ht⟩
    cases ht
  | wake hj | giveUp hj =>
    refine same _ rfl fun i t hi => (((Pool.at_put hj).1 hi).resolve_left ?_).2
    rintro ⟨-, ht⟩
    cases ht

theorem marked (h : lts.Reach Orderly s) : Marked s := by
  refine h.inv ?_ fun _ _ _ => marked_step
  rintro _ rfl
  exact ⟨fun i _ hi => absurd hi.lt (Nat.not_lt_zero i),
    fun i _ hi => absurd hi.lt (Nat.not_lt_zero i),
    fun i _ _ _ _ hi => absurd hi.lt (Nat.not_lt_zero i)⟩

/-- Of the tasks of one conversation one at most has its turn open, and a call that finds one is
refused. -/
structure OneTask (s : State) : Prop where
  single : ∀ i j t u, s.At i (.task t) → s.At j (.task u) → t.key = u.key →
    t.turn = .running → u.turn = .running → i = j
  refused : ∀ i j t u s', s.At i (.task t) → t.point = .resolving → s.At j (.task u) →
    u.key = t.key → u.turn = .running → next s (.act i .resume) = some s' →
    s'.At i (.task (t.goto .refused))

theorem one_task (h : lts.Reach Orderly s) : OneTask s := by
  have hm := marked h
  refine ⟨fun i j t u hi hj hkey ht hu => ?_, fun i j t u s' hi hp hj hkey hu hn => ?_⟩
  · by_contra hne
    have hei := turning_engaged (hm.awaited i t hi ht)
    cases (hm.apart i j t u hne hi hj hkey hei).symm.trans
      (turning_engaged (hm.awaited j u hj hu))
  · have hb : t.key ∈ s.store.busy := hkey ▸ hm.busy j u hj (hm.awaited j u hj hu)
    rw [next_act hi, Task.act, Task.resume, hp] at hn
    simp only [hb, if_true, Option.map_some, Option.some.injEq] at hn
    rw [← hn]
    exact Pool.at_put_self hi

/-! ## The registry of links -/

/-- The task is spawned and has not come to its `finally`. -/
def Point.held (p : Point) : Bool := p == .spawned || p.turning

def Task.link (t : Task) : TrustedLink := ⟨t.job.agent, t.job.askerSessionId, t.job.toAgent⟩

theorem held_engaged {p : Point} (h : p.held = true) : p.engaged = true := by
  rw [Point.held, Bool.or_eq_true, beq_iff_eq] at h
  rcases h with rfl | h
  · rfl
  · exact turning_engaged h

/-- What a call or its task does to `_links`. -/
inductive Registers (t : Task) (m : Memory) : Task → Memory → Prop
  | same {m' : Memory} {p : Point} {turn : Turn} : m'.links = m.links →
      (p.held = true → t.point.held = true) → Registers t m { t with point := p, turn := turn } m'
  | register : t.point.engaged = true → Registers t m (t.spawn m).2 (t.spawn m).1
  | release {p : Point} : t.point.engaged = true → p.held = false →
      Registers t m (t.goto p) (m.release t.key t.job)

theorem hear_registers {o : Delegation.TurnOutcome} (hp : t.point.engaged = true)
    (h : t.hear m o = some (m', t')) : Registers t m t' m' := by
  unfold Task.hear at h
  split at h <;> cases h <;> exact .release hp rfl

theorem act_registers (h : t.act m a = some (m', t')) : Registers t m t' m' := by
  cases a with
  | resume =>
    simp only [Task.act, Task.resume] at h
    split at h <;> rename_i hp
    · split at h <;> cases h
      · exact .same rfl nofun
      · refine .same rfl fun hh => ?_
        split at hh <;> cases hh
    · cases h
      exact .same rfl nofun
    · cases h
      exact .same rfl nofun
    · split at h <;> cases h
      · exact .same rfl nofun
      · exact .register (by rw [hp]; rfl)
    · cases h
      exact .register (by rw [hp]; rfl)
    · cases h
      exact .same rfl fun _ => by rw [hp]; rfl
    · exact hear_registers (by rw [hp]; rfl) h
    · cases h
      exact .same rfl fun _ => by rw [hp]; rfl
    · cases h
      exact .same rfl fun _ => by rw [hp]; rfl
    · exact hear_registers (by rw [hp]; rfl) h
    · cases h
      exact .same rfl nofun
    all_goals cases h
  | fail =>
    simp only [Task.act, Task.fail] at h
    split at h <;> cases h <;> rename_i hp
    · exact .same rfl nofun
    · exact .same rfl nofun
    · exact .same rfl nofun
    · exact .register (by rw [hp]; rfl)
    · exact .release (by rw [hp]; rfl) rfl
    · exact .release (by rw [hp]; rfl) rfl
    · exact .release (by rw [hp]; rfl) rfl
    · exact .same rfl nofun
  | cancel =>
    simp only [Task.act, Task.cancel] at h
    split at h <;> cases h <;> rename_i hp
    iterate 6 exact .same rfl nofun
    all_goals exact .release (by rw [hp]; rfl) rfl
  | callOff =>
    simp only [Task.act, Task.callOff] at h
    split at h <;> cases h
    rename_i hc
    exact .same rfl fun _ => by rw [hc.1]; rfl
  | close e =>
    simp only [Task.act, Task.close] at h
    split at h <;> cases h
    exact .same rfl id

/-- The link of another conversation stays. -/
theorem Registers.other (h : Registers t m t' m') {k : Str} (hk : k ≠ t.key) :
    m'.links.lookup k = m.links.lookup k := by
  cases h with
  | same hl hh => rw [hl]
  | register he =>
    simp only [Task.spawn, Memory.register]
    split
    · rw [Dict.lookup_assign, if_neg hk]
    · rfl
  | release he hp =>
    simp only [Memory.release]
    split
    · rw [Dict.lookup_remove, if_neg hk]
    · rfl

/-- The registry has the link of each trusted task that is spawned or turning. -/
def Linked (s : State) : Prop := ∀ i t, s.At i (.task t) → t.job.trusted = true →
  t.point.held = true → s.store.links.lookup t.key = some t.link

theorem linked_act (h : Linked s) (hm : Marked s) (hi : s.At i (.task t))
    (ha : t.act s.store a = some (m', t')) : Linked (s.put i m' (.task t')) := by
  have hr := act_registers ha
  intro j u hu htr hh
  rw [Pool.put_store]
  rcases (Pool.at_put hi).1 hu with ⟨rfl, h'⟩ | ⟨hne, hj⟩
  · cases h'
    cases hr with
    | same hl hh' =>
      rw [hl]
      exact h j t hi htr (hh' hh)
    | register he =>
      have htr : t.job.trusted = true := htr
      simp only [Task.spawn, Task.goto, Memory.register, htr, if_true, Dict.lookup_assign]
      rfl
    | release he hp => cases hp.symm.trans hh
  · by_cases hkey : u.key = t.key
    · cases hr with
      | same hl hh' => rw [hl]; exact h j u hj htr hh
      | register he | release he =>
        cases (hm.apart i j t u (Ne.symm hne) hi hj hkey.symm he).symm.trans (held_engaged hh)
    · rw [hr.other hkey]
      exact h j u hj htr hh

theorem linked_step (h : Linked s) (hm : Marked s) (hn : next s e = some s') : Linked s' := by
  cases next_step hn with
  | call hkey hid =>
    intro i t hi htr hh
    rcases Pool.at_start.1 hi with hi | ⟨-, ht⟩
    · exact h i t hi htr hh
    · cases ht
      cases hh
  | act hi ha => exact linked_act h hm hi ha
  | await =>
    intro i t hi
    refine h i t ((Pool.at_start.1 hi).resolve_right ?_)
    rintro ⟨-, ht⟩
    cases ht
  | wake hj | giveUp hj =>
    intro i t hi
    refine h i t (((Pool.at_put hj).1 hi).resolve_left ?_).2
    rintro ⟨-, ht⟩
    cases ht

theorem linked (h : lts.Reach Orderly s) : Linked s := by
  refine h.inv_using ?_ fun _ _ _ hr hl _ => linked_step hl (marked hr)
  rintro _ rfl
  exact fun i _ hi => absurd hi.lt (Nat.not_lt_zero i)

/-! ## Runs -/

namespace Sample

def asked (taskId : String) (trusted : Bool) : Job where
  taskId := str taskId
  agent := str "assistant"
  askerSessionId := str "assistant--d1"
  conversationId := str "d1"
  toAgent := str "coder"
  keepsOne := true
  trusted := trusted
  context := false
  awaits := 0

/-- The conversation the asked agent keeps for the asker's. -/
def key : Str := str "delegated:assistant-e254ac076291fd5c"

/-- The task's call passes its check, and its turn is submitted. -/
def submitted (i : Nat) : List Event := List.replicate 3 (.act i .resume)

/-- Its turn comes to its end, and is written down. -/
def answered (i : Nat) : List Event :=
  [.act i (.close (.outcome .replied)), .act i .resume, .act i .resume]

/-- A call that finds a task in progress, and one behind its end. -/
def inTurn : List Event :=
  .call (asked "t1" true) key :: submitted 0 ++
    .call (asked "t2" false) key :: .act 1 .resume :: answered 0 ++
    .call (asked "t3" false) key :: submitted 2

/-- Two calls made at once. -/
def atOnce : List Event :=
  [.call (asked "t1" false) key, .call (asked "t2" false) key, .act 0 .resume, .act 1 .resume,
    .act 0 .resume, .act 1 .resume, .act 0 .resume, .act 1 .resume]

/-- The asker's turn is over, and the store raises where the task is to be called off. -/
def leftOpen : List Event :=
  .call (asked "t1" true) key :: submitted 0 ++ .act 0 .callOff :: .act 0 .fail ::
    .call (asked "t2" false) key :: submitted 1

end Sample

/-- `Orderly`, as a check. -/
def orderlyCheck (s : State) : Event → Bool
  | .act i a => match s.calls[i]? with
    | some (some (.task t)) =>
      (a != .resume || t.point != .resolving ||
        (tasks s).all fun u => u.key != t.key || !u.point.preparing) &&
      (a != .cancel && a != .fail || !t.point.turning || t.turn != .running)
    | _ => true
  | _ => true

theorem orderly_of_check (h : orderlyCheck s e = true) : Orderly s e := by
  refine ⟨fun i j t u he hi hp hj hkey => ?_, fun i t he hi ht hr => ?_⟩
  · subst he
    rw [Pool.At] at hi
    have hu := mem_tasks.2 ⟨j, hj⟩
    simp only [orderlyCheck, hi, hp, bne_self_eq_false, Bool.false_or, Bool.and_eq_true,
      List.all_eq_true, Bool.or_eq_true, bne_iff_ne, Bool.not_eq_true'] at h
    exact (h.1 u hu).resolve_left (not_not_intro hkey)
  · rcases he with rfl | rfl <;> rw [Pool.At] at hi <;> simp [orderlyCheck, hi, ht, hr] at h

theorem one_task_in_turn : ∃ s, lts.Reach Orderly s ∧ OneTask s ∧
    (∃ t, s.At 1 (.task t) ∧ t.point = .refused) ∧
    ∃ t, s.At 2 (.task t) ∧ t.turn = .running := by
  have hrun : (lts.check orderlyCheck ⟨.empty, []⟩ Sample.inTurn).map
      (fun s => (s.calls[1]?, s.calls[2]?)) =
      some (some (some (.task ⟨Sample.asked "t2" false, Sample.key, .refused, .unsubmitted⟩)),
        some (some (.task ⟨Sample.asked "t3" false, Sample.key, .waiting, .running⟩))) := by
    decide +kernel
  obtain ⟨s, hs, hat⟩ := Option.map_eq_some_iff.1 hrun
  obtain ⟨h1, h2⟩ := Prod.mk.inj hat
  have h : lts.Reach Orderly s := Lts.reach_of_check (fun _ _ => orderly_of_check) rfl hs
  exact ⟨s, h, one_task h, ⟨_, h1, rfl⟩, _, h2, rfl⟩

theorem not_oneTask (h : s.calls = [some (.task t), some (.task u)]) (hkey : t.key = u.key)
    (ht : t.turn = .running) (hu : u.turn = .running) : ¬ OneTask s := by
  intro hone
  have h0 : s.At 0 (.task t) := by
    rw [Pool.At, h]
    rfl
  have h1 : s.At 1 (.task u) := by
    rw [Pool.At, h]
    rfl
  cases hone.single 0 1 t u h0 h1 hkey ht hu

/-- Two calls that each make their check before the other's turn is submitted both pass it. -/
theorem two_turns_at_once : ∃ s, lts.Reach Lts.Any s ∧ ¬ OneTask s := by
  have hrun : (lts.check (fun _ _ => true) ⟨.empty, []⟩ Sample.atOnce).map (·.calls) =
      some [some (.task ⟨Sample.asked "t1" false, Sample.key, .waiting, .running⟩),
        some (.task ⟨Sample.asked "t2" false, Sample.key, .waiting, .running⟩)] := by
    decide +kernel
  obtain ⟨s, hs, hat⟩ := Option.map_eq_some_iff.1 hrun
  exact ⟨s, Lts.reach_of_check (fun _ _ _ => trivial) rfl hs, not_oneTask hat rfl rfl rfl⟩

/-- A task that raises while it is called off leaves its turn open, and the next call passes. -/
theorem turn_left_open : ∃ s, lts.Reach Lts.Any s ∧ ¬ OneTask s := by
  have hrun : (lts.check (fun _ _ => true) ⟨.empty, []⟩ Sample.leftOpen).map (·.calls) =
      some [some (.task ⟨Sample.asked "t1" true, Sample.key, .writing .error, .running⟩),
        some (.task ⟨Sample.asked "t2" false, Sample.key, .waiting, .running⟩)] := by
    decide +kernel
  obtain ⟨s, hs, hat⟩ := Option.map_eq_some_iff.1 hrun
  exact ⟨s, Lts.reach_of_check (fun _ _ _ => trivial) rfl hs, not_oneTask hat rfl rfl rfl⟩

end InFlight
