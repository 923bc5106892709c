import ImpiAgent.Flows.Proof.Coalescer

/-!
# What a waiter is told

A future is registered under the id of its message, so that a batch settles whatever is registered
under the ids of its messages. `Coherent` says of a step when that is right: what a batch settles
are the futures of its own messages, a registration replaces none that is still waited for, and no
message that was given up is handed over after all. `Told` is the invariant of a run of such steps:
who still waits is registered, and waits for a batch that has not ended or a worker that is not over
(`Live`).
-/

namespace Coalescer

open Delegation (TurnOutcome)

variable {μ χ : Type} {D : Deployment μ} {q : Queue μ χ}

namespace Waiters

variable {w : Waiters} {e : Ending}

theorem tell_tracked (n : Nat) : (w.tell n e).tracked = w.tracked := by
  unfold tell
  split <;> rfl

theorem tell_futures (n f : Nat) :
    (w.tell n e).futures f =
      if w.futures f = some .waiting ∧ f = n then some (.told e) else w.futures f := by
  unfold tell
  by_cases hf : f = n
  · subst hf
    by_cases hw : w.futures f = some .waiting <;> simp [hw]
  · by_cases hw : w.futures n = some .waiting <;> simp [hw, hf]

theorem pop_tracked (id x : String) :
    (w.pop e id).tracked x = if x = id then none else w.tracked x := by
  unfold pop
  by_cases hx : x = id
  · subst hx
    split
    · rw [tell_tracked]
      simp
    · simp [*]
  · split
    · rw [tell_tracked]
      simp [hx]
    · simp [hx]

theorem pop_futures (id : String) (f : Nat) :
    (w.pop e id).futures f =
      if w.futures f = some .waiting ∧ w.tracked id = some f then some (.told e)
      else w.futures f := by
  unfold pop
  cases ht : w.tracked id with
  | none => simp
  | some n =>
    show ((Waiters.mk _ w.futures w.told).tell n e).futures f = _
    rw [tell_futures]
    simp [eq_comm]

theorem settle_tracked (ids : List String) (x : String) :
    (w.settle e ids).tracked x = if x ∈ ids then none else w.tracked x := by
  unfold settle
  induction ids generalizing w with
  | nil => simp
  | cons id ids ih =>
    rw [List.foldl_cons, ih, pop_tracked]
    by_cases hx : x = id <;> by_cases hm : x ∈ ids <;> simp [hx, hm]

/-- Settling tells those who wait and are registered under one of the ids. -/
theorem settle_futures (ids : List String) (f : Nat) :
    (w.settle e ids).futures f =
      if w.futures f = some .waiting ∧ ∃ x ∈ ids, w.tracked x = some f then some (.told e)
      else w.futures f := by
  unfold settle
  induction ids generalizing w with
  | nil => simp
  | cons id ids ih =>
    rw [List.foldl_cons, ih, pop_futures]
    by_cases hw : w.futures f = some .waiting
    · by_cases hid : w.tracked id = some f
      · simp [hw, hid]
      · have hx : (∃ x ∈ ids, (w.pop e id).tracked x = some f) ↔
            ∃ x ∈ ids, w.tracked x = some f := by
          refine exists_congr fun x => and_congr_right fun _ => ?_
          rw [pop_tracked]
          by_cases heq : x = id
          · simp [heq, hid]
          · simp [heq]
        simp [hw, hid, hx]
    · simp [hw]

/-- What the coalescer set on a future: nothing until it is told, then that and nothing more. -/
def Logged (w : Waiters) : Prop :=
  ∀ n, w.told.filter (·.1 = n) =
    match w.futures n with
    | some (.told e) => [(n, e)]
    | _ => []

theorem Logged.tell (h : w.Logged) (n : Nat) : (w.tell n e).Logged := by
  intro f
  unfold Waiters.tell
  split
  · rename_i hw
    show (w.told ++ [(n, e)]).filter _ = _
    have hf := h f
    rw [List.filter_append, hf]
    by_cases heq : f = n
    · subst heq
      simp [hw]
    · have : ¬n = f := fun h => heq h.symm
      simp [heq, this]
  · exact h f

theorem Logged.pop (h : w.Logged) (id : String) : (w.pop e id).Logged := by
  unfold Waiters.pop
  split
  · have hw : Logged { w with tracked := Function.update w.tracked id none } := h
    exact hw.tell _
  · exact h

theorem Logged.settle (h : w.Logged) (ids : List String) : (w.settle e ids).Logged := by
  unfold Waiters.settle
  induction ids generalizing w with
  | nil => exact h
  | cons id ids ih => exact ih (h.pop id)

theorem Logged.track (h : w.Logged) (id : String) {n : Nat} (hn : w.futures n = none) :
    (w.track id n).Logged := by
  intro f
  show w.told.filter _ = match Function.update w.futures n _ f with | some (.told e) => _ | _ => _
  have hf := h f
  by_cases heq : f = n
  · subst heq
    rw [hn] at hf
    simp [hf]
  · rw [Function.update_of_ne heq]
    exact hf

theorem withdraw_futures (n f : Nat) :
    (w.withdraw n).futures f =
      if w.futures f = some .waiting ∧ f = n then some .withdrawn else w.futures f := by
  unfold withdraw
  by_cases hf : f = n
  · subst hf
    by_cases hw : w.futures f = some .waiting <;> simp [hw]
  · by_cases hw : w.futures n = some .waiting <;> simp [hw, hf]

theorem withdraw_tracked (n : Nat) : (w.withdraw n).tracked = w.tracked := by
  unfold withdraw
  split <;> rfl

theorem Logged.withdraw (h : w.Logged) (n : Nat) : (w.withdraw n).Logged := by
  intro f
  have ht : (w.withdraw n).told = w.told := by
    unfold Waiters.withdraw
    split <;> rfl
  rw [ht, h f, withdraw_futures]
  by_cases hw : w.futures f = some .waiting ∧ f = n
  · rw [if_pos hw, hw.1]
  · rw [if_neg hw]

end Waiters

/-! ## Where a message is -/

namespace Queue

/-- The message waits for a worker that is not over, or for a batch that has not ended. -/
def Live (q : Queue μ χ) (n : Nat) : Prop :=
  (∃ conv, n ∈ q.pending conv ∧ q.Alive conv) ∨ ∃ x ∈ q.batches, n ∈ x.msgs ∧ x.ending = none

/-- The message is in a buffer that no worker empties. -/
def Left (q : Queue μ χ) (n : Nat) : Prop := ∃ conv, n ∈ q.pending conv ∧ ¬q.Alive conv

/-- The message was in a batch that ended so. -/
def Ended (q : Queue μ χ) (n : Nat) (e : Ending) : Prop :=
  ∃ x ∈ q.batches, n ∈ x.msgs ∧ x.ending = some e

instance (n : Nat) (e : Ending) : Decidable (q.Ended n e) :=
  inferInstanceAs (Decidable (∃ x ∈ q.batches, _))

theorem mem_ids {ns : List Nat} {id : String} :
    id ∈ q.ids D ns ↔ ∃ n ∈ ns, ∃ x, q.submitted[n]? = some x ∧ D.messageId x.msg = id := by
  simp [ids, List.mem_filterMap]

theorem ids_append (ns ms : List Nat) : q.ids D (ns ++ ms) = q.ids D ns ++ q.ids D ms := by
  simp [ids]

/-! ### Alive -/

theorem Alive.submit {conv : String} (h : q.Alive conv) (msg : μ) (chat : χ) :
    (q.submit D msg chat).Alive conv := by
  obtain ⟨t, k, ht, hk⟩ := h
  exact ⟨t, k, submit_tasks ht, hk⟩

theorem alive_submit {conv : String} {msg : μ} {chat : χ}
    (h : (q.submit D msg chat).Alive conv) : q.Alive conv ∨ D.key msg = conv := by
  obtain ⟨t, k, ht, hconv, hk⟩ := h
  rcases tasks_submit ht with ht | ⟨-, -, rfl⟩
  · exact .inl ⟨t, k, ht, hconv, hk⟩
  · exact .inr hconv

/-- What a task does to its own entry leaves the other conversations alone. -/
theorem alive_set {t : Nat} {k : Task χ} {p : Point} (ht : q.tasks[t]? = some k) {conv : String}
    (hne : k.conv ≠ conv) {q' : Queue μ χ} (hq : q'.tasks = q.tasks.set t { k with point := p }) :
    q'.Alive conv ↔ q.Alive conv := by
  constructor
  · rintro ⟨t₁, k₁, ht₁, hconv, hk₁⟩
    rw [hq] at ht₁
    rcases tasks_set ht ht₁ with ⟨-, rfl⟩ | ⟨-, ht₁⟩
    · exact absurd hconv hne
    · exact ⟨t₁, k₁, ht₁, hconv, hk₁⟩
  · rintro ⟨t₁, k₁, ht₁, hconv, hk₁⟩
    refine ⟨t₁, k₁, ?_, hconv, hk₁⟩
    have hne' : t ≠ t₁ := by
      rintro rfl
      cases ht.symm.trans ht₁
      exact hne hconv
    rw [hq, List.getElem?_set_ne hne']
    exact ht₁

/-- A conversation whose task is over has no other. -/
theorem not_alive_stop (h : Sound D none q) {t : Nat} {k : Task χ} (ht : q.tasks[t]? = some k)
    (hk : k.point ≠ .ended) {q' : Queue μ χ}
    (hq : q'.tasks = q.tasks.set t { k with point := .ended }) : ¬q'.Alive k.conv := by
  rintro ⟨t', k', ht', hconv, hk'⟩
  rw [hq] at ht'
  rcases tasks_set ht ht' with ⟨-, rfl⟩ | ⟨hne, ht'⟩
  · exact hk' rfl
  · exact hne (h.one ht' ht hk' hk hconv)

/-! ### Submit -/

theorem mem_pending_submit {n : Nat} {conv : String} {msg : μ} {chat : χ} :
    n ∈ (q.submit D msg chat).pending conv ↔
      n ∈ q.pending conv ∨ n = q.submitted.length ∧ D.key msg = conv := by
  show n ∈ Function.update q.pending _ _ conv ↔ _
  by_cases h : conv = D.key msg
  · subst h
    simp
  · have : ¬D.key msg = conv := fun heq => h heq.symm
    simp [h, this]

theorem Live.submit {n : Nat} (h : q.Live n) (msg : μ) (chat : χ) :
    (q.submit D msg chat).Live n := by
  rcases h with ⟨conv, hn, ha⟩ | h
  · exact .inl ⟨conv, mem_pending_submit.2 (.inl hn), ha.submit msg chat⟩
  · exact .inr h

theorem Left.submit {n : Nat} (h : q.Left n) {msg : μ} {chat : χ}
    (hn : n ∉ q.pending (D.key msg)) : (q.submit D msg chat).Left n := by
  obtain ⟨conv, hp, ha⟩ := h
  refine ⟨conv, mem_pending_submit.2 (.inl hp), fun h => ?_⟩
  rcases alive_submit h with h | rfl
  · exact ha h
  · exact hn hp

/-- A new message waits for the worker its conversation has, or now gets. -/
theorem live_submit {msg : μ} {chat : χ}
    (h : ∀ t, q.workers (D.key msg) = some t → q.Alive (D.key msg)) :
    (q.submit D msg chat).Live q.submitted.length := by
  refine .inl ⟨D.key msg, mem_pending_submit.2 (.inr ⟨rfl, rfl⟩), ?_⟩
  cases hw : q.workers (D.key msg) with
  | some t => exact (h t hw).submit msg chat
  | none =>
    refine ⟨q.tasks.length, ⟨D.key msg, chat, q.submitted.length, .created⟩, ?_, rfl, by simp⟩
    simp [Queue.submit, hw]

/-! ### Take -/

theorem take_cases (t : Nat) (k : Task χ) :
    q.pending k.conv = [] ∧ q.take t k = q.finish t k ∨
      q.pending k.conv ≠ [] ∧ q.take t k = q.hand t k := by
  unfold take
  by_cases h : q.pending k.conv = []
  · exact .inl ⟨h, if_pos h⟩
  · exact .inr ⟨h, if_neg h⟩

theorem Live.finish {n t : Nat} {k : Task χ} (h : q.Live n) (ht : q.tasks[t]? = some k)
    (hn : n ∉ q.pending k.conv) {q' : Queue μ χ}
    (hq : q'.tasks = q.tasks.set t { k with point := .ended }) (hp : q'.pending = q.pending)
    (hb : q'.batches = q.batches) : q'.Live n := by
  rcases h with ⟨conv, hc, ha⟩ | h
  · have hne : k.conv ≠ conv := by
      rintro rfl
      exact hn hc
    exact .inl ⟨conv, hp ▸ hc, (alive_set ht hne hq).2 ha⟩
  · exact .inr (hb ▸ h)

theorem Live.hand {n t : Nat} {k : Task χ} (h : q.Live n) (ht : q.tasks[t]? = some k) :
    (q.hand t k).Live n := by
  rcases h with ⟨conv, hc, ha⟩ | ⟨x, hx, h⟩
  · by_cases hne : k.conv = conv
    · subst hne
      exact .inr ⟨_, List.mem_append_right _ (List.mem_singleton.2 rfl), hc, rfl⟩
    · refine .inl ⟨conv, ?_, (alive_set ht hne rfl).2 ha⟩
      show n ∈ Function.update q.pending k.conv [] conv
      rw [Function.update_of_ne (Ne.symm hne)]
      exact hc
  · exact .inr ⟨x, List.mem_append_left _ hx, h⟩

theorem Live.take {n t : Nat} {k : Task χ} (h : q.Live n) (ht : q.tasks[t]? = some k) :
    (q.take t k).Live n := by
  rcases take_cases (q := q) t k with ⟨hp, heq⟩ | ⟨-, heq⟩
  · rw [heq]
    exact h.finish ht (by simp [hp]) rfl rfl rfl
  · rw [heq]
    exact h.hand ht

/-- What the task's own conversation has buffered is not left. -/
theorem Left.take {n t : Nat} {k : Task χ} (h : q.Left n) (ht : q.tasks[t]? = some k)
    (hk : k.point ≠ .ended) : (q.take t k).Left n := by
  obtain ⟨conv, hc, ha⟩ := h
  have hne : k.conv ≠ conv := by
    rintro rfl
    exact ha ⟨t, k, ht, rfl, hk⟩
  rcases take_cases (q := q) t k with ⟨-, heq⟩ | ⟨-, heq⟩
  · rw [heq]
    exact ⟨conv, hc, fun h => ha ((alive_set ht hne rfl).1 h)⟩
  · rw [heq]
    refine ⟨conv, ?_, fun h => ha ((alive_set ht hne rfl).1 h)⟩
    show n ∈ Function.update q.pending k.conv [] conv
    rw [Function.update_of_ne (Ne.symm hne)]
    exact hc

theorem Left.finish (hI : Sound D none q) {n t : Nat} {k : Task χ}
    (h : q.Left n ∨ n ∈ q.pending k.conv) (ht : q.tasks[t]? = some k) (hk : k.point ≠ .ended)
    {q' : Queue μ χ} (hq : q'.tasks = q.tasks.set t { k with point := .ended })
    (hp : q'.pending = q.pending) : q'.Left n := by
  have hown : n ∈ q.pending k.conv → q'.Left n := fun hn =>
    ⟨k.conv, hp ▸ hn, not_alive_stop hI ht hk hq⟩
  rcases h with ⟨conv, hc, ha⟩ | hn
  · by_cases hne : k.conv = conv
    · subst hne
      exact hown hc
    · exact ⟨conv, hp ▸ hc, fun h => ha ((alive_set ht hne hq).1 h)⟩
  · exact hown hn

theorem Ended.take {n t : Nat} {k : Task χ} {e : Ending} (h : q.Ended n e) :
    (q.take t k).Ended n e := by
  obtain ⟨x, hx, h⟩ := h
  rcases take_cases (q := q) t k with ⟨-, heq⟩ | ⟨-, heq⟩
  · exact heq ▸ ⟨x, hx, h⟩
  · exact heq ▸ ⟨x, List.mem_append_left _ hx, h⟩

/-! ### Close -/

section
variable {t b n : Nat} {k : Task χ} {msgs : List Nat} {e : Ending}

theorem Live.close (h : q.Live n)
    (hb : q.batches[b]? = some ⟨k.conv, k.chat, k.starter, msgs, none⟩) (hn : n ∉ msgs) :
    (q.close b e).Live n := by
  rcases h with h | ⟨x, hx, hm, he⟩
  · exact .inl h
  · obtain ⟨i, hi⟩ := List.mem_iff_getElem?.1 hx
    have hne : b ≠ i := by
      rintro rfl
      cases hb.symm.trans hi
      exact hn hm
    refine .inr ⟨x, List.mem_of_getElem? (i := i) ?_, hm, he⟩
    rw [close_getElem?, hi, Option.map_some, if_neg hne]

theorem Ended.close {e' : Ending} (h : q.Ended n e')
    (hb : q.batches[b]? = some ⟨k.conv, k.chat, k.starter, msgs, none⟩) :
    (q.close b e).Ended n e' := by
  obtain ⟨x, hx, hm, he⟩ := h
  obtain ⟨i, hi⟩ := List.mem_iff_getElem?.1 hx
  have hne : b ≠ i := by
    rintro rfl
    cases hb.symm.trans hi
    exact nomatch he
  refine ⟨x, List.mem_of_getElem? (i := i) ?_, hm, he⟩
  rw [close_getElem?, hi, Option.map_some, if_neg hne]

theorem ended_close (hb : q.batches[b]? = some ⟨k.conv, k.chat, k.starter, msgs, none⟩)
    (hn : n ∈ msgs) : (q.close b e).Ended n e := by
  refine ⟨⟨k.conv, k.chat, k.starter, msgs, some e⟩, List.mem_of_getElem? (i := b) ?_, hn, rfl⟩
  rw [close_getElem?, hb, Option.map_some, if_pos rfl]

end

end Queue

/-! ## Runs -/

variable {s s' : State μ χ} {ev : Event μ χ}

/-- Whoever still waits under an id of the messages `ns` waits for one of them. -/
def Owns (D : Deployment μ) (s : State μ χ) (ns : List Nat) : Prop :=
  ∀ id ∈ s.queue.ids D ns, ∀ f, s.waiters.tracked id = some f →
    s.waiters.futures f = some .waiting → f ∈ ns

/-- No message that was given up is in the buffer of `conv`. -/
def Clear (s : State μ χ) (conv : String) : Prop :=
  ∀ n ∈ s.queue.pending conv, s.waiters.futures n ≠ some (.told .cancelled)

/-- The futures a worker settles where it is cancelled: before its first step none. -/
def Spares (D : Deployment μ) (s : State μ χ) (conv : String) : Point → Prop
  | .created => ∀ n ∈ s.queue.pending conv, s.waiters.futures n ≠ some .waiting
  | .handling _ msgs => Owns D s (msgs ++ s.queue.pending conv)
  | .ended => True

/-- The messages of the batch in hand. -/
def Point.msgs : Point → List Nat
  | .handling _ msgs => msgs
  | _ => []

/-- When a step keeps the futures and the messages together. -/
def Coherent (D : Deployment μ) (s : State μ χ) : Event μ χ → Prop
  | .submit msg _ => Clear s (D.key msg)
  | .submitTracked msg _ =>
    Clear s (D.key msg) ∧
      (∀ f, s.waiters.tracked (D.messageId msg) = some f →
        s.waiters.futures f ≠ some .waiting) ∧
      ∀ t, s.queue.workers (D.key msg) = some t → s.queue.Alive (D.key msg)
  | .begin _ | .withdrawn _ => True
  | .completed t _ | .crashed t => ∀ k, s.queue.tasks[t]? = some k → Owns D s k.point.msgs
  | .cancelled t => ∀ k, s.queue.tasks[t]? = some k → Spares D s k.conv k.point

section
variable (D s)

instance (conv : String) : Decidable (q.Alive conv) :=
  decidable_of_iff (∃ k ∈ q.tasks, k.conv = conv ∧ k.point ≠ .ended) <| by
    constructor
    · rintro ⟨k, hk, h⟩
      obtain ⟨t, ht⟩ := List.mem_iff_getElem?.1 hk
      exact ⟨t, k, ht, h⟩
    · rintro ⟨t, k, ht, h⟩
      exact ⟨k, List.mem_of_getElem? ht, h⟩

instance (ns : List Nat) : Decidable (Owns D s ns) :=
  inferInstanceAs (Decidable (∀ id ∈ s.queue.ids D ns, ∀ f ∈ s.waiters.tracked id, _ → _))

instance (conv : String) : Decidable (Clear s conv) :=
  inferInstanceAs (Decidable (∀ n ∈ s.queue.pending conv, _))

instance (conv : String) (p : Point) : Decidable (Spares D s conv p) :=
  match p with
  | .created => inferInstanceAs (Decidable (∀ n ∈ s.queue.pending conv, _))
  | .handling _ msgs => inferInstanceAs (Decidable (Owns D s (msgs ++ s.queue.pending conv)))
  | .ended => inferInstanceAs (Decidable True)

instance (e : Event μ χ) : Decidable (Coherent D s e) :=
  match e with
  | .submit msg _ => inferInstanceAs (Decidable (Clear s (D.key msg)))
  | .submitTracked msg _ =>
    inferInstanceAs (Decidable (Clear s (D.key msg) ∧
      (∀ f ∈ s.waiters.tracked (D.messageId msg), _) ∧
      ∀ t ∈ s.queue.workers (D.key msg), s.queue.Alive (D.key msg)))
  | .begin _ | .withdrawn _ => inferInstanceAs (Decidable True)
  | .completed t _ | .crashed t =>
    inferInstanceAs (Decidable (∀ k ∈ s.queue.tasks[t]?, Owns D s k.point.msgs))
  | .cancelled t =>
    inferInstanceAs (Decidable (∀ k ∈ s.queue.tasks[t]?, Spares D s k.conv k.point))

end

/-- What holds of the futures in a run of coherent steps. -/
structure Told (D : Deployment μ) (s : State μ χ) : Prop where
  known : ∀ n, s.waiters.futures n ≠ none → n < s.queue.submitted.length
  waits : ∀ n, s.waiters.futures n = some .waiting → s.queue.Live n ∧
    ∃ x, s.queue.submitted[n]? = some x ∧ s.waiters.tracked (D.messageId x.msg) = some n
  outcome : ∀ n o, s.waiters.futures n = some (.told (.outcome o)) → s.queue.Ended n (.outcome o)
  cancelled : ∀ n, s.waiters.futures n = some (.told .cancelled) →
    s.queue.Ended n .cancelled ∨ s.queue.Left n
  logged : s.waiters.Logged

/-- A future that settling leaves waiting is of none of the messages, and stays registered. -/
theorem Told.settle (h : Told D s) {ns : List Nat} {e : Ending} {n : Nat}
    (hn : (s.waiters.settle e (s.queue.ids D ns)).futures n = some .waiting) :
    s.waiters.futures n = some .waiting ∧ n ∉ ns ∧
      ∃ x, s.queue.submitted[n]? = some x ∧
        (s.waiters.settle e (s.queue.ids D ns)).tracked (D.messageId x.msg) = some n := by
  rw [Waiters.settle_futures] at hn
  split at hn
  · cases hn
  · rename_i hno
    obtain ⟨-, x, hx, ht⟩ := h.waits n hn
    have hid : D.messageId x.msg ∉ s.queue.ids D ns := fun hm => hno ⟨hn, _, hm, ht⟩
    refine ⟨hn, fun hm => hid (Queue.mem_ids.2 ⟨n, hm, x, hx, rfl⟩), x, hx, ?_⟩
    rw [Waiters.settle_tracked, if_neg hid]
    exact ht

/-- Who is told something by settling the messages `ns` waited for one of them. -/
theorem told_settle {ns : List Nat} {e e' : Ending} {n : Nat} (h : Owns D s ns)
    (hn : (s.waiters.settle e (s.queue.ids D ns)).futures n = some (.told e')) :
    n ∈ ns ∧ e' = e ∨ s.waiters.futures n = some (.told e') := by
  rw [Waiters.settle_futures] at hn
  split at hn
  · rename_i hw
    obtain ⟨hw, id, hid, ht⟩ := hw
    cases hn
    exact .inl ⟨h id hid n ht hw, rfl⟩
  · exact .inr hn

theorem settle_known {ns : List Nat} {e : Ending} {n : Nat}
    (hn : (s.waiters.settle e (s.queue.ids D ns)).futures n ≠ none) :
    s.waiters.futures n ≠ none := by
  rw [Waiters.settle_futures] at hn
  split at hn
  · rename_i hw
    simp [hw.1]
  · exact hn

/-- A submit on the buffers alone. -/
theorem Told.submit {msg : μ} (chat : χ) (h : Told D s) (hc : Clear s (D.key msg)) :
    Told D { s with queue := s.queue.submit D msg chat } where
  known n hn := by
    show n < (s.queue.submitted ++ [_]).length
    have := h.known n hn
    simp
    omega
  waits n hn := by
    obtain ⟨hl, x, hx, ht⟩ := h.waits n hn
    refine ⟨hl.submit msg chat, x, ?_, ht⟩
    exact (List.getElem?_append_left (List.getElem?_eq_some_iff.1 hx).1).trans hx
  outcome n o hn := h.outcome n o hn
  cancelled n hn := by
    rcases h.cancelled n hn with he | hl
    · exact .inl he
    · exact .inr (hl.submit fun hm => hc n hm hn)
  logged := h.logged

/-- A future for the message just submitted, under an id nobody waits under. -/
theorem Told.track {msg : μ} {chat : χ} (h : Told D s)
    (hw : ∀ f, s.waiters.tracked (D.messageId msg) = some f →
      s.waiters.futures f ≠ some .waiting) (hc : Clear s (D.key msg))
    (ha : ∀ t, s.queue.workers (D.key msg) = some t → s.queue.Alive (D.key msg)) :
    Told D ⟨s.queue.submit D msg chat,
      s.waiters.track (D.messageId msg) s.queue.submitted.length⟩ := by
  have hs := h.submit chat hc
  have hnone : s.waiters.futures s.queue.submitted.length = none := by
    apply Classical.byContradiction
    intro hn
    have := h.known _ hn
    omega
  have hold : ∀ n, n ≠ s.queue.submitted.length →
      (s.waiters.track (D.messageId msg) s.queue.submitted.length).futures n =
        s.waiters.futures n := fun n hne => Function.update_of_ne hne ..
  have hnew : (s.waiters.track (D.messageId msg) s.queue.submitted.length).futures
      s.queue.submitted.length = some .waiting := Function.update_self ..
  have hlen : (s.queue.submit D msg chat).submitted.length = s.queue.submitted.length + 1 := by
    simp [Queue.submit]
  refine ⟨fun n hn => ?_, fun n hn => ?_, fun n o hn => ?_, fun n hn => ?_, ?_⟩
  · by_cases hne : n = s.queue.submitted.length
    · show n < (s.queue.submit D msg chat).submitted.length
      omega
    · rw [hold n hne] at hn
      exact hs.known n hn
  · by_cases hne : n = s.queue.submitted.length
    · subst hne
      exact ⟨Queue.live_submit ha, ⟨msg, chat⟩, List.getElem?_concat_length,
        Function.update_self ..⟩
    · rw [hold n hne] at hn
      obtain ⟨hl, x, hx, ht⟩ := hs.waits n hn
      refine ⟨hl, x, hx, ?_⟩
      have hid : D.messageId x.msg ≠ D.messageId msg := fun heq => hw n (heq ▸ ht) hn
      exact (Function.update_of_ne hid ..).trans ht
  · by_cases hne : n = s.queue.submitted.length
    · subst hne
      cases hnew.symm.trans hn
    · rw [hold n hne] at hn
      exact hs.outcome n o hn
  · by_cases hne : n = s.queue.submitted.length
    · subst hne
      cases hnew.symm.trans hn
    · rw [hold n hne] at hn
      exact hs.cancelled n hn
  · exact h.logged.track _ hnone

theorem submitted_take (t : Nat) (k : Task χ) : (q.take t k).submitted = q.submitted := by
  rcases Queue.take_cases (q := q) t k with ⟨-, heq⟩ | ⟨-, heq⟩ <;> rw [heq] <;> rfl

theorem Told.take (h : Told D s) {t : Nat} {k : Task χ} (ht : s.queue.tasks[t]? = some k)
    (hk : k.point ≠ .ended) : Told D { s with queue := s.queue.take t k } where
  known n hn := by
    show n < (s.queue.take t k).submitted.length
    rw [submitted_take]
    exact h.known n hn
  waits n hn := by
    obtain ⟨hl, x, hx, htr⟩ := h.waits n hn
    refine ⟨hl.take ht, x, ?_, htr⟩
    show (s.queue.take t k).submitted[n]? = some x
    rw [submitted_take]
    exact hx
  outcome n o hn := (h.outcome n o hn).take
  cancelled n hn := (h.cancelled n hn).imp Queue.Ended.take fun hl => hl.take ht hk
  logged := h.logged

/-- The batch of task `t` is settled, and the task is between two batches. -/
theorem Told.close (h : Told D s) {b : Nat} {k : Task χ} {msgs : List Nat}
    (hb : s.queue.batches[b]? = some ⟨k.conv, k.chat, k.starter, msgs, none⟩)
    (ho : Owns D s msgs) (o : TurnOutcome) :
    Told D ⟨s.queue.close b (.outcome o),
      s.waiters.settle (.outcome o) (s.queue.ids D msgs)⟩ where
  known n hn := h.known n (settle_known hn)
  waits n hn := by
    obtain ⟨hw, hm, hx⟩ := h.settle hn
    exact ⟨(h.waits n hw).1.close hb hm, hx⟩
  outcome n o' hn := by
    rcases told_settle ho hn with ⟨hm, heq⟩ | hn
    · cases heq
      exact Queue.ended_close hb hm
    · exact (h.outcome n o' hn).close hb
  cancelled n hn := by
    rcases told_settle ho hn with ⟨-, heq⟩ | hn
    · exact nomatch heq
    · exact (h.cancelled n hn).imp (fun he => he.close hb) id
  logged := h.logged.settle _

/-- A worker that is cancelled gives up its batch and what is buffered. -/
theorem Told.abandon (h : Told D s) (hI : Sound D none s.queue) {t b : Nat} {k : Task χ}
    {msgs : List Nat} (ht : s.queue.tasks[t]? = some k) (hk : k.point = .handling b msgs)
    (ho : Owns D s (msgs ++ s.queue.pending k.conv)) : Told D (abandoned D s t k b msgs) := by
  have hb := hI.handling t k b msgs ht nofun hk
  have hk' : k.point ≠ .ended := by simp [hk]
  have hw : (abandoned D s t k b msgs).waiters =
      s.waiters.settle .cancelled (s.queue.ids D (msgs ++ s.queue.pending k.conv)) := by
    rw [Queue.ids_append]
    exact List.foldl_append.symm
  refine ⟨fun n hn => ?_, fun n hn => ?_, fun n o hn => ?_, fun n hn => ?_, ?_⟩
  · rw [hw] at hn
    exact h.known n (settle_known hn)
  · rw [hw] at hn
    obtain ⟨hwait, hm, hx⟩ := h.settle hn
    have hm' : n ∉ msgs ∧ n ∉ s.queue.pending k.conv := by simpa using hm
    rw [hw]
    exact ⟨((h.waits n hwait).1.close hb hm'.1).finish ht hm'.2 rfl rfl rfl, hx⟩
  · rw [hw] at hn
    rcases told_settle ho hn with ⟨-, heq⟩ | hn
    · exact nomatch heq
    · exact (h.outcome n o hn).close hb
  · rw [hw] at hn
    rcases told_settle ho hn with ⟨hm, -⟩ | hn
    · rcases List.mem_append.1 hm with hm | hm
      · exact .inl (Queue.ended_close hb hm)
      · exact .inr (Queue.Left.finish hI (.inr hm) ht hk' rfl rfl)
    · rcases h.cancelled n hn with he | hl
      · exact .inl (he.close hb)
      · exact .inr (Queue.Left.finish hI (.inl hl) ht hk' rfl rfl)
  · rw [hw]
    exact h.logged.settle _

/-- A worker is cancelled before its first step, with nobody waiting for what it would have begun
with. -/
theorem Told.stop (h : Told D s) (hI : Sound D none s.queue) {t : Nat} {k : Task χ}
    (ht : s.queue.tasks[t]? = some k) (hk : k.point = .created)
    (hn : ∀ n ∈ s.queue.pending k.conv, s.waiters.futures n ≠ some .waiting) :
    Told D { s with queue := s.queue.stop t k } :=
  { h with
    waits := fun n hw => by
      obtain ⟨hl, hx⟩ := h.waits n hw
      exact ⟨hl.finish ht (fun hm => hn n hm hw) rfl rfl rfl, hx⟩
    cancelled := fun n hc => by
      rcases h.cancelled n hc with he | hl
      · exact .inl he
      · exact .inr (Queue.Left.finish hI (.inl hl) ht (by simp [hk]) rfl rfl) }

theorem Told.withdraw (h : Told D s) (n : Nat) :
    Told D { s with waiters := s.waiters.withdraw n } := by
  have hf : ∀ f v, v ≠ .withdrawn → (s.waiters.withdraw n).futures f = some v →
      s.waiters.futures f = some v := by
    intro f v hv h
    rw [Waiters.withdraw_futures] at h
    split at h
    · cases h
      exact absurd rfl hv
    · exact h
  refine ⟨fun f hk => h.known f ?_, fun f hw => ?_, fun f o ho => h.outcome f o (hf f _ nofun ho),
    fun f hc => h.cancelled f (hf f _ nofun hc), h.logged.withdraw n⟩
  · intro hnone
    have hk : (s.waiters.withdraw n).futures f ≠ none := hk
    rw [Waiters.withdraw_futures] at hk
    simp [hnone] at hk
  · show _ ∧ ∃ x, _ ∧ (s.waiters.withdraw n).tracked _ = _
    rw [Waiters.withdraw_tracked]
    exact h.waits f (hf f _ nofun hw)

theorem Told.step (h : Told D s) (hI : Sound D none s.queue) (hc : Coherent D s ev)
    (hn : next D s ev = some s') : Told D s' := by
  cases does_of_next hn with
  | submit msg chat => exact h.submit chat hc
  | submitTracked msg chat => exact h.track hc.2.1 hc.1 hc.2.2
  | begin ht hk => exact h.take ht (by simp [hk])
  | @settled _ t k b msgs o he ht hk =>
    have ho : Owns D s k.point.msgs := by
      cases ev with
      | completed t' o' =>
        cases he
        exact hc k ht
      | crashed t' =>
        cases he
        exact hc k ht
      | _ => exact nomatch he
    rw [hk] at ho
    have hb := hI.handling t k b msgs ht nofun hk
    exact Told.take (h.close hb ho o) ht (by simp [hk])
  | @stopped t k ht hk =>
    have hs : Spares D s k.conv k.point := hc k ht
    rw [hk] at hs
    exact h.stop hI ht hk hs
  | @abandoned t k b msgs ht hk =>
    have hs : Spares D s k.conv k.point := hc k ht
    rw [hk] at hs
    exact h.abandon hI ht hk hs
  | withdrawn n => exact h.withdraw n

theorem Told.reach (h : (lts D).Reach (Coherent D) s) : Told D s := by
  refine h.inv_using (fun s h0 => ?_) fun s e s' hr hT hc hn => hT.step (Sound.reach hr) hc hn
  cases h0
  exact ⟨fun _ h => absurd rfl h, nofun, nofun, nofun, fun _ => rfl⟩

/-- No task is cancelled. -/
def Uncancelled (_ : State μ χ) : Event μ χ → Prop
  | .cancelled _ => False
  | _ => True

/-- Whatever is buffered has a worker that will hand it over, and no worker entry is stale. -/
structure Manned (q : Queue μ χ) : Prop where
  buffered : ∀ conv n, n ∈ q.pending conv → q.Alive conv
  working : ∀ conv t, q.workers conv = some t → q.Alive conv

theorem Manned.submit (h : Manned q) (msg : μ) (chat : χ) : Manned (q.submit D msg chat) := by
  have hnew : (q.submit D msg chat).Alive (D.key msg) := by
    cases hw : q.workers (D.key msg) with
    | some t => exact (h.working _ t hw).submit msg chat
    | none =>
      refine ⟨q.tasks.length, ⟨D.key msg, chat, q.submitted.length, .created⟩, ?_, rfl, by simp⟩
      simp [Queue.submit, hw]
  refine ⟨fun conv n hn => ?_, fun conv t hw => ?_⟩
  · rcases Queue.mem_pending_submit.1 hn with hn | ⟨-, rfl⟩
    · exact (h.buffered conv n hn).submit msg chat
    · exact hnew
  · by_cases heq : D.key msg = conv
    · exact heq ▸ hnew
    · have hw : (if _ then _ else _ : String → Option Nat) conv = some t := hw
      refine (h.working conv t ?_).submit msg chat
      split at hw
      · rw [Function.update_of_ne (Ne.symm heq)] at hw
        exact hw
      · exact hw

theorem Manned.take (h : Manned q) {t : Nat} {k : Task χ} (ht : q.tasks[t]? = some k) :
    Manned (q.take t k) := by
  rcases Queue.take_cases (q := q) t k with ⟨hp, heq⟩ | ⟨-, heq⟩
  · rw [heq]
    refine ⟨fun conv n hn => ?_, fun conv t' hw => ?_⟩
    · have hne : k.conv ≠ conv := by
        rintro rfl
        have hn : n ∈ q.pending k.conv := hn
        simp [hp] at hn
      exact (Queue.alive_set ht hne rfl).2 (h.buffered conv n hn)
    · have hw : Function.update q.workers k.conv none conv = some t' := hw
      by_cases hne : k.conv = conv
      · subst hne
        exact nomatch (Function.update_self ..).symm.trans hw
      · rw [Function.update_of_ne (Ne.symm hne)] at hw
        exact (Queue.alive_set ht hne rfl).2 (h.working conv t' hw)
  · rw [heq]
    have hown : (q.hand t k).Alive k.conv :=
      ⟨t, _, List.getElem?_set_self (List.getElem?_eq_some_iff.1 ht).1, rfl, by simp⟩
    refine ⟨fun conv n hn => ?_, fun conv t' hw => ?_⟩
    · have hn : n ∈ Function.update q.pending k.conv [] conv := hn
      by_cases hne : k.conv = conv
      · exact hne ▸ hown
      · rw [Function.update_of_ne (Ne.symm hne)] at hn
        exact (Queue.alive_set ht hne rfl).2 (h.buffered conv n hn)
    · by_cases hne : k.conv = conv
      · exact hne ▸ hown
      · exact (Queue.alive_set ht hne rfl).2 (h.working conv t' hw)

theorem Manned.step (h : Manned s.queue) (hc : Uncancelled s ev) (hn : next D s ev = some s') :
    Manned s'.queue := by
  cases does_of_next hn with
  | submit msg chat => exact h.submit msg chat
  | submitTracked msg chat => exact h.submit msg chat
  | begin ht hk => exact h.take ht
  | settled _ ht hk => exact Manned.take (q := s.queue.close _ _) ⟨h.buffered, h.working⟩ ht
  | stopped => exact hc.elim
  | abandoned => exact hc.elim
  | withdrawn => exact h

theorem Manned.reach (h : (lts D).Reach Uncancelled s) : Manned s.queue := by
  refine h.inv (I := fun s => Manned s.queue) (fun s h0 => ?_) fun s e s' hM hc hn => hM.step hc hn
  cases h0
  exact ⟨nofun, nofun⟩

/-! ## The results -/

/-- What was handed over of a conversation and what is buffered of it are what was submitted, in
order. A message is in one batch at most, and one batch of a conversation is being handled. -/
structure Handed (D : Deployment μ) (q : Queue μ χ) : Prop where
  order : ∀ conv, q.handed conv ++ q.pending conv = q.sent D conv
  once : q.all.Nodup
  one : ∀ (b b' : Nat) (x x' : Batch χ), q.batches[b]? = some x → q.batches[b']? = some x' →
    x.ending = none → x'.ending = none → x.conv = x'.conv → b = b'

/-- Who waits, waits for a batch that has not ended or a worker that is not over. What was set on a
future is what became of its message's batch, or `cancelled` where the message was not in any, and
it was set once. -/
structure Settled (s : State μ χ) : Prop where
  waiting : ∀ n, s.waiters.futures n = some .waiting → s.queue.Live n
  outcome : ∀ n o, s.waiters.futures n = some (.told (.outcome o)) → s.queue.Ended n (.outcome o)
  cancelled : ∀ n, s.waiters.futures n = some (.told .cancelled) →
    s.queue.Ended n .cancelled ∨ n ∉ s.queue.all
  once : s.waiters.Logged

theorem Told.settled (h : Told D s) (hI : Sound D none s.queue) : Settled s where
  waiting n hn := (h.waits n hn).1
  outcome := h.outcome
  cancelled n hn := by
    rcases h.cancelled n hn with he | ⟨conv, hp, -⟩
    · exact .inl he
    · exact .inr (hI.pending_new hp)
  once := h.logged

/-- Every message is in the history of exactly one conversation. -/
theorem sent_of_lt {n : Nat} (hn : n < q.submitted.length) : ∃ conv, n ∈ q.sent D conv :=
  ⟨_, Queue.mem_sent.2 ⟨q.submitted[n], List.getElem?_eq_getElem hn, rfl⟩⟩

/-- Messages are handed over in order and at most once, one batch of a conversation at a time, in
every run. Where no task is cancelled, every message was handed over or will be by a worker that is
not over. Where every step is coherent, who waits is told what became of the batch. -/
theorem coalesced :
    (∀ s : State μ χ, (lts D).Reach Lts.Any s → Handed D s.queue) ∧
      (∀ s : State μ χ, (lts D).Reach Uncancelled s → ∀ n < s.queue.submitted.length,
        n ∈ s.queue.all ∨ ∃ conv, n ∈ s.queue.pending conv ∧ s.queue.Alive conv) ∧
      ∀ s : State μ χ, (lts D).Reach (Coherent D) s → Settled s := by
  refine ⟨fun s h => ?_, fun s h n hn => ?_, fun s h => (Told.reach h).settled (Sound.reach h)⟩
  · have hI := Sound.reach h
    exact ⟨hI.order, hI.once, fun _ _ _ _ => hI.one_at_a_time⟩
  · have hI := Sound.reach h
    obtain ⟨conv, hsent⟩ := sent_of_lt (D := D) hn
    rw [← hI.order conv] at hsent
    rcases List.mem_append.1 hsent with hh | hp
    · obtain ⟨x, hx, -, hm⟩ := Queue.mem_handed.1 hh
      exact .inl (Queue.mem_all.2 ⟨x, hx, hm⟩)
    · exact .inr ⟨conv, hp, (Manned.reach h).buffered conv n hp⟩

/-- A burst of messages is one batch, and each waiter is told of its own. -/
theorem coalesced_run : ∃ s : State Sample.Message String,
    (lts Sample.platform).Reach (Coherent Sample.platform) s ∧ s.queue.all = [0, 1, 2] ∧
      s.waiters.told = [(0, .outcome .replied), (2, .outcome .error)] ∧ Settled s := by
  have h : ((lts Sample.platform).check (fun s e => decide (Coherent Sample.platform s e))
      Sample.start Sample.burst).any (fun s => decide (s.queue.all = [0, 1, 2] ∧
        s.waiters.told = [(0, .outcome .replied), (2, .outcome .error)])) = true := by decide
  obtain ⟨s, hs, hq⟩ := (Option.any_eq_true _ _).1 h
  obtain ⟨ha, ht⟩ := of_decide_eq_true hq
  have hr := Lts.reach_of_check (fun _ _ h => of_decide_eq_true h) rfl hs
  exact ⟨s, hr, ha, ht, coalesced.2.2 s hr⟩

/-- Three ways in which a waiter is not told what became of its message: another batch's message had
the same id; a message was given up and then handed over; the worker never began. -/
theorem settled_wrong :
    (∃ s : State Sample.Message String, (lts Sample.platform).Reach Lts.Any s ∧
      s.waiters.futures 0 = some .waiting ∧ s.queue.Ended 0 (.outcome .replied) ∧
      s.waiters.futures 1 = some (.told (.outcome .replied)) ∧
      ¬s.queue.Ended 1 (.outcome .replied)) ∧
    (∃ s : State Sample.Message String, (lts Sample.platform).Reach Lts.Any s ∧
      s.waiters.futures 1 = some (.told .cancelled) ∧ s.queue.Ended 1 (.outcome .replied)) ∧
    ∃ s : State Sample.Message String, (lts Sample.platform).Reach Lts.Any s ∧
      s.waiters.futures 0 = some .waiting ∧ ∀ k ∈ s.queue.tasks, k.point = .ended := by
  have h1 : ((lts Sample.platform).check (fun _ _ => true) Sample.start Sample.clash).any
      (fun s => decide (s.waiters.futures 0 = some .waiting ∧
        s.queue.Ended 0 (.outcome .replied) ∧
        s.waiters.futures 1 = some (.told (.outcome .replied)) ∧
        ¬s.queue.Ended 1 (.outcome .replied))) = true := by decide
  have h2 : ((lts Sample.platform).check (fun _ _ => true) Sample.start Sample.revived).any
      (fun s => decide (s.waiters.futures 1 = some (.told .cancelled) ∧
        s.queue.Ended 1 (.outcome .replied))) = true := by decide
  have h3 : ((lts Sample.platform).check (fun _ _ => true) Sample.start Sample.unstarted).any
      (fun s => decide (s.waiters.futures 0 = some .waiting ∧
        ∀ k ∈ s.queue.tasks, k.point = .ended)) = true := by decide
  obtain ⟨s1, hs1, hq1⟩ := (Option.any_eq_true _ _).1 h1
  obtain ⟨s2, hs2, hq2⟩ := (Option.any_eq_true _ _).1 h2
  obtain ⟨s3, hs3, hq3⟩ := (Option.any_eq_true _ _).1 h3
  exact ⟨⟨s1, Lts.reach_of_check (fun _ _ _ => trivial) rfl hs1, of_decide_eq_true hq1⟩,
    ⟨s2, Lts.reach_of_check (fun _ _ _ => trivial) rfl hs2, of_decide_eq_true hq2⟩,
    ⟨s3, Lts.reach_of_check (fun _ _ _ => trivial) rfl hs3, of_decide_eq_true hq3⟩⟩

end Coalescer
