import ImpiAgent.Flows.Coalescer
import Mathlib.Data.List.Enum
import Mathlib.Data.List.Nodup

/-!
# What becomes of a submitted message

`Sound`: what holds of the buffers and the workers in every run. What was handed over of a
conversation and what is buffered of it are together what was submitted, in order (`order`); only
one task of a conversation is not over, and its worker entry is that task (`owned`).
-/

namespace Coalescer

open Delegation (TurnOutcome)

variable {μ χ : Type} {D : Deployment μ} {q : Queue μ χ}

namespace Queue

/-- The messages submitted in a conversation, oldest first. -/
def sent (D : Deployment μ) (q : Queue μ χ) (conv : String) : List Nat :=
  (q.submitted.zipIdx.filter fun x => D.key x.1.msg = conv).map Prod.snd

/-- The messages handed to the flow in a conversation, in the order of its batches. -/
def handed (q : Queue μ χ) (conv : String) : List Nat :=
  q.batches.flatMap fun x => if x.conv = conv then x.msgs else []

/-- The messages handed to the flow. -/
def all (q : Queue μ χ) : List Nat := q.batches.flatMap Batch.msgs

/-- A worker of the conversation has begun or will. -/
def Alive (q : Queue μ χ) (conv : String) : Prop :=
  ∃ (t : Nat) (k : Task χ), q.tasks[t]? = some k ∧ k.conv = conv ∧ k.point ≠ .ended

theorem mem_sent {n : Nat} {conv : String} :
    n ∈ q.sent D conv ↔ ∃ x, q.submitted[n]? = some x ∧ D.key x.msg = conv := by
  simp [sent, List.mem_zipIdx_iff_getElem?]

theorem sent_nodup (conv : String) : (q.sent D conv).Nodup := by
  refine List.Nodup.sublist (List.filter_sublist.map _) ?_
  rw [List.zipIdx_map_snd]
  exact List.nodup_range'

theorem mem_handed {n : Nat} {conv : String} :
    n ∈ q.handed conv ↔ ∃ x ∈ q.batches, x.conv = conv ∧ n ∈ x.msgs := by
  simp [handed, List.mem_flatMap]

theorem mem_all {n : Nat} : n ∈ q.all ↔ ∃ x ∈ q.batches, n ∈ x.msgs := List.mem_flatMap

/-- Closing a batch changes nothing but its ending. -/
theorem close_map {β : Type} {g : Batch χ → β} (hg : ∀ x e, g { x with ending := e } = g x)
    (b : Nat) (e : Ending) : (q.close b e).batches.map g = q.batches.map g := by
  refine List.ext_getElem? fun i => ?_
  simp only [close, List.getElem?_map, List.getElem?_modify]
  cases q.batches[i]? with
  | none => rfl
  | some x =>
    by_cases hb : b = i
    · simp [hb, hg]
    · simp [hb]

theorem close_handed (b : Nat) (e : Ending) (conv : String) :
    (q.close b e).handed conv = q.handed conv := by
  unfold handed
  rw [List.flatMap_def, List.flatMap_def, close_map (fun _ _ => rfl)]

theorem close_all (b : Nat) (e : Ending) : (q.close b e).all = q.all := by
  unfold all
  rw [List.flatMap_def, List.flatMap_def, close_map (fun _ _ => rfl)]

theorem close_getElem? (b i : Nat) (e : Ending) :
    (q.close b e).batches[i]? =
      q.batches[i]?.map fun x => if b = i then { x with ending := some e } else x := by
  simp [close, List.getElem?_modify]

end Queue

/-- The client is the one its message was submitted with, in its conversation. -/
def Starts (D : Deployment μ) (q : Queue μ χ) (conv : String) (chat : χ) (starter : Nat) : Prop :=
  ∃ x, q.submitted[starter]? = some x ∧ x.chat = chat ∧ D.key x.msg = conv

/-- What stands in a list after one more came at its end. -/
theorem getElem?_snoc {α : Type} {l : List α} {x y : α} {i : Nat} (h : (l ++ [x])[i]? = some y) :
    l[i]? = some y ∨ i = l.length ∧ y = x := by
  rw [List.getElem?_append] at h
  split at h
  · exact .inl h
  · obtain ⟨hi, rfl⟩ := List.getElem?_eq_some_iff.1 h
    have hi : i - l.length < 1 := hi
    refine .inr ⟨by omega, ?_⟩
    simp

/-- The tasks after task `t` has moved. -/
theorem tasks_set {t t' : Nat} {k k' k₁ : Task χ} (ht : q.tasks[t]? = some k)
    (h : (q.tasks.set t k₁)[t']? = some k') :
    t' = t ∧ k' = k₁ ∨ t' ≠ t ∧ q.tasks[t']? = some k' := by
  rw [List.getElem?_set] at h
  by_cases heq : t = t'
  · subst heq
    have hlt := (List.getElem?_eq_some_iff.1 ht).1
    rw [if_pos rfl, if_pos hlt] at h
    exact .inl ⟨rfl, (Option.some.inj h).symm⟩
  · rw [if_neg heq] at h
    exact .inr ⟨Ne.symm heq, h⟩

/-- One message more was submitted. -/
theorem sent_submit (msg : μ) (chat : χ) (conv : String) :
    (q.submit D msg chat).sent D conv =
      q.sent D conv ++ if D.key msg = conv then [q.submitted.length] else [] := by
  unfold Queue.sent Queue.submit
  by_cases h : D.key msg = conv
  · simp [List.zipIdx_append, List.filter_append, h]
  · simp [List.zipIdx_append, List.filter_append, h]

theorem Starts.submit {conv : String} {chat : χ} {n : Nat} (h : Starts D q conv chat n) (msg : μ)
    (chat' : χ) : Starts D (q.submit D msg chat') conv chat n := by
  obtain ⟨x, hx, hc⟩ := h
  have hlt := (List.getElem?_eq_some_iff.1 hx).1
  exact ⟨x, (List.getElem?_append_left hlt).trans hx, hc⟩

/-- The tasks after a submit: those before it, and a new one where the conversation had none. -/
theorem tasks_submit {msg : μ} {chat : χ} {t : Nat} {k : Task χ}
    (h : (q.submit D msg chat).tasks[t]? = some k) :
    q.tasks[t]? = some k ∨ q.workers (D.key msg) = none ∧ t = q.tasks.length ∧
      k = ⟨D.key msg, chat, q.submitted.length, .created⟩ := by
  unfold Queue.submit at h
  cases hw : q.workers (D.key msg) with
  | some _ => simp only [hw] at h; exact .inl h
  | none =>
    simp only [hw] at h
    rcases getElem?_snoc h with h | ⟨rfl, rfl⟩
    · exact .inl h
    · exact .inr ⟨rfl, rfl, rfl⟩

/-- A task before the submit is one after it. -/
theorem submit_tasks {msg : μ} {chat : χ} {t : Nat} {k : Task χ} (h : q.tasks[t]? = some k) :
    (q.submit D msg chat).tasks[t]? = some k := by
  unfold Queue.submit
  dsimp only
  split
  · exact (List.getElem?_append_left (List.getElem?_eq_some_iff.1 h).1).trans h
  · exact h

/-- What holds of the queue while task `free` is between two batches (`none` between two steps). -/
structure Sound (D : Deployment μ) (free : Option Nat) (q : Queue μ χ) : Prop where
  order : ∀ conv, q.handed conv ++ q.pending conv = q.sent D conv
  once : q.all.Nodup
  owned : ∀ t k, q.tasks[t]? = some k → k.point ≠ .ended → q.workers k.conv = some t
  hired : ∀ conv t, q.workers conv = some t → ∃ k, q.tasks[t]? = some k ∧ k.conv = conv
  handling : ∀ t k b msgs, q.tasks[t]? = some k → some t ≠ free → k.point = .handling b msgs →
    q.batches[b]? = some ⟨k.conv, k.chat, k.starter, msgs, none⟩
  unended : ∀ b x, q.batches[b]? = some x → x.ending = none →
    ∃ t k, q.tasks[t]? = some k ∧ some t ≠ free ∧ k.point = .handling b x.msgs
  starts : ∀ k ∈ q.tasks, Starts D q k.conv k.chat k.starter
  served : ∀ x ∈ q.batches, x.msgs ≠ [] ∧ Starts D q x.conv x.chat x.starter

namespace Sound

variable {free : Option Nat}

/-- What is buffered was not handed over. -/
theorem pending_new (h : Sound D free q) {conv : String} {n : Nat} (hn : n ∈ q.pending conv) :
    n ∉ q.all := by
  intro ha
  obtain ⟨x, hx, hnx⟩ := Queue.mem_all.1 ha
  have hsent : n ∈ q.sent D conv := h.order conv ▸ List.mem_append_right _ hn
  have hsent' : n ∈ q.sent D x.conv :=
    h.order x.conv ▸ List.mem_append_left _ (Queue.mem_handed.2 ⟨x, hx, rfl, hnx⟩)
  obtain ⟨y, hy, hconv⟩ := Queue.mem_sent.1 hsent
  obtain ⟨y', hy', hconv'⟩ := Queue.mem_sent.1 hsent'
  cases hy.symm.trans hy'
  have hd : (q.handed conv ++ q.pending conv).Nodup := h.order conv ▸ Queue.sent_nodup conv
  exact (List.nodup_append.1 hd).2.2 n
    (Queue.mem_handed.2 ⟨x, hx, hconv'.symm.trans hconv, hnx⟩) n hn rfl

/-- Two tasks of a conversation that are not over are one. -/
theorem one (h : Sound D free q) {t t' : Nat} {k k' : Task χ} (ht : q.tasks[t]? = some k)
    (ht' : q.tasks[t']? = some k') (hk : k.point ≠ .ended) (hk' : k'.point ≠ .ended)
    (hconv : k.conv = k'.conv) : t = t' := by
  have := h.owned t k ht hk
  rw [hconv, h.owned t' k' ht' hk'] at this
  exact (Option.some.inj this).symm

/-- A task that handles nothing may be set aside. -/
theorem aside (h : Sound D none q) {t : Nat} {k : Task χ} (ht : q.tasks[t]? = some k)
    (hk : k.point = .created) : Sound D (some t) q :=
  { h with
    handling := fun t' k' b msgs ht' _ => h.handling t' k' b msgs ht' nofun
    unended := fun b x hx he => by
      obtain ⟨t', k', ht', -, hk'⟩ := h.unended b x hx he
      refine ⟨t', k', ht', ?_, hk'⟩
      rintro heq
      cases heq
      cases ht.symm.trans ht'
      exact nomatch hk.symm.trans hk' }

theorem close (h : Sound D none q) {t b : Nat} {k : Task χ} {msgs : List Nat}
    (ht : q.tasks[t]? = some k) (hk : k.point = .handling b msgs) (e : Ending) :
    Sound D (some t) (q.close b e) where
  order conv := by
    rw [Queue.close_handed]
    exact h.order conv
  once := by
    rw [Queue.close_all]
    exact h.once
  owned := h.owned
  hired := h.hired
  handling t' k' b' msgs' ht' hne hk' := by
    have hx := h.handling t k b msgs ht nofun hk
    have hx' := h.handling t' k' b' msgs' ht' nofun hk'
    have hb : b ≠ b' := by
      rintro rfl
      have hconv : k.conv = k'.conv := congrArg Batch.conv (Option.some.inj (hx.symm.trans hx'))
      have := h.one ht ht' (by simp [hk]) (by simp [hk']) hconv
      exact hne (congrArg some this.symm)
    rw [Queue.close_getElem?, hx', Option.map_some, if_neg hb]
  unended b' x hx he := by
    rw [Queue.close_getElem?] at hx
    obtain ⟨y, hy, rfl⟩ := Option.map_eq_some_iff.1 hx
    by_cases hb : b = b'
    · simp [hb] at he
    · rw [if_neg hb] at he ⊢
      obtain ⟨t', k', ht', -, hk'⟩ := h.unended b' y hy he
      refine ⟨t', k', ht', ?_, hk'⟩
      rintro heq
      cases heq
      cases ht.symm.trans ht'
      cases hk.symm.trans hk'
      exact hb rfl
  starts := h.starts
  served x hx := by
    obtain ⟨i, hi⟩ := List.mem_iff_getElem?.1 hx
    rw [Queue.close_getElem?] at hi
    obtain ⟨y, hy, rfl⟩ := Option.map_eq_some_iff.1 hi
    have := h.served y (List.mem_of_getElem? hy)
    split <;> exact this

theorem stop {t : Nat} (h : Sound D (some t) q) {k : Task χ} (ht : q.tasks[t]? = some k) :
    Sound D none (q.stop t k) where
  order := h.order
  once := h.once
  owned t' k' ht' hk' := by
    rcases tasks_set ht ht' with ⟨-, rfl⟩ | ⟨-, ht'⟩
    · exact absurd rfl hk'
    · exact h.owned t' k' ht' hk'
  hired conv t' hw := by
    obtain ⟨k', ht', hconv⟩ := h.hired conv t' hw
    by_cases heq : t' = t
    · subst heq
      cases ht.symm.trans ht'
      refine ⟨_, List.getElem?_set_self (List.getElem?_eq_some_iff.1 ht).1, hconv⟩
    · exact ⟨k', (List.getElem?_set_ne (Ne.symm heq)).trans ht', hconv⟩
  handling t' k' b msgs ht' _ hk' := by
    rcases tasks_set ht ht' with ⟨-, rfl⟩ | ⟨hne, ht'⟩
    · exact nomatch hk'
    · exact h.handling t' k' b msgs ht' (fun heq => hne (Option.some.inj heq)) hk'
  unended b x hx he := by
    obtain ⟨t', k', ht', hne, hk'⟩ := h.unended b x hx he
    have hne' : t ≠ t' := fun heq => hne (congrArg some heq.symm)
    exact ⟨t', k', (List.getElem?_set_ne hne').trans ht', nofun, hk'⟩
  starts k' hk' := by
    rcases List.mem_or_eq_of_mem_set hk' with hk' | rfl
    · exact h.starts k' hk'
    · exact h.starts k (List.mem_of_getElem? ht)
  served := h.served

theorem finish {t : Nat} (h : Sound D (some t) q) {k : Task χ} (ht : q.tasks[t]? = some k)
    (hk : k.point ≠ .ended) : Sound D none (q.finish t k) :=
  { h.stop ht with
    owned := fun t' k' ht' hk' => by
      have hw := (h.stop ht).owned t' k' ht' hk'
      have hne : k'.conv ≠ k.conv := by
        intro hconv
        rcases tasks_set ht ht' with ⟨-, rfl⟩ | ⟨hne, ht'⟩
        · exact hk' rfl
        · exact hne (h.one ht' ht hk' hk hconv)
      exact (Function.update_of_ne hne ..).trans hw
    hired := fun conv t' hw => by
      by_cases hconv : conv = k.conv
      · subst hconv
        exact nomatch (Function.update_self ..).symm.trans hw
      · exact (h.stop ht).hired conv t' ((Function.update_of_ne hconv ..).symm.trans hw) }

theorem hand {t : Nat} (h : Sound D (some t) q) {k : Task χ} (ht : q.tasks[t]? = some k)
    (hk : k.point ≠ .ended) (hp : q.pending k.conv ≠ []) : Sound D none (q.hand t k) where
  order conv := by
    have ho := h.order conv
    have hh : (q.hand t k).handed conv =
        q.handed conv ++ if k.conv = conv then q.pending k.conv else [] := by
      simp [Queue.hand, Queue.handed]
    rw [hh]
    show _ ++ Function.update q.pending k.conv [] conv = q.sent D conv
    by_cases hconv : k.conv = conv
    · subst hconv
      rw [if_pos rfl, Function.update_self, List.append_nil]
      exact ho
    · rw [if_neg hconv, Function.update_of_ne (Ne.symm hconv), List.append_nil]
      exact ho
  once := by
    have ha : (q.hand t k).all = q.all ++ q.pending k.conv := by simp [Queue.hand, Queue.all]
    have hs : (q.handed k.conv ++ q.pending k.conv).Nodup :=
      h.order k.conv ▸ Queue.sent_nodup k.conv
    rw [ha, List.nodup_append]
    refine ⟨h.once, (List.nodup_append.1 hs).2.1, fun n hn m hm heq => ?_⟩
    exact h.pending_new hm (heq ▸ hn)
  owned t' k' ht' hk' := by
    rcases tasks_set ht ht' with ⟨rfl, rfl⟩ | ⟨-, ht'⟩
    · exact h.owned t' k ht hk
    · exact h.owned t' k' ht' hk'
  hired conv t' hw := by
    obtain ⟨k', ht', hconv⟩ := h.hired conv t' hw
    by_cases heq : t' = t
    · subst heq
      cases ht.symm.trans ht'
      exact ⟨_, List.getElem?_set_self (List.getElem?_eq_some_iff.1 ht).1, hconv⟩
    · exact ⟨k', (List.getElem?_set_ne (Ne.symm heq)).trans ht', hconv⟩
  handling t' k' b msgs ht' _ hk' := by
    rcases tasks_set ht ht' with ⟨rfl, rfl⟩ | ⟨hne, ht'⟩
    · cases hk'
      exact List.getElem?_concat_length
    · have hx := h.handling t' k' b msgs ht' (fun heq => hne (Option.some.inj heq)) hk'
      have hlt := (List.getElem?_eq_some_iff.1 hx).1
      exact (List.getElem?_append_left hlt).trans hx
  unended b x hx he := by
    have hx : (q.batches ++ [_])[b]? = some x := hx
    rcases getElem?_snoc hx with hx | ⟨rfl, rfl⟩
    · obtain ⟨t', k', ht', hne, hk'⟩ := h.unended b x hx he
      have hne' : t ≠ t' := fun heq => hne (congrArg some heq.symm)
      exact ⟨t', k', (List.getElem?_set_ne hne').trans ht', nofun, hk'⟩
    · exact ⟨t, _, List.getElem?_set_self (List.getElem?_eq_some_iff.1 ht).1, nofun, rfl⟩
  starts k' hk' := by
    rcases List.mem_or_eq_of_mem_set hk' with hk' | rfl
    · exact h.starts k' hk'
    · exact h.starts k (List.mem_of_getElem? ht)
  served x hx := by
    rcases List.mem_append.1 hx with hx | hx
    · exact h.served x hx
    · cases List.mem_singleton.1 hx
      exact ⟨hp, h.starts k (List.mem_of_getElem? ht)⟩

theorem submit (h : Sound D none q) (msg : μ) (chat : χ) : Sound D none (q.submit D msg chat) where
  order conv := by
    rw [sent_submit, ← h.order conv, List.append_assoc]
    show _ ++ Function.update q.pending _ _ conv = _
    by_cases hconv : D.key msg = conv
    · subst hconv
      rw [if_pos rfl, Function.update_self]
      rfl
    · rw [if_neg hconv, Function.update_of_ne (Ne.symm hconv), List.append_nil]
      rfl
  once := h.once
  owned t k ht hk := by
    show (if _ then _ else _ : String → Option Nat) k.conv = some t
    rcases tasks_submit ht with ht | ⟨hw, rfl, rfl⟩
    · have ho := h.owned t k ht hk
      split
      · rename_i hn
        have hne : k.conv ≠ D.key msg := by
          intro heq
          simp [← heq, ho] at hn
        rw [Function.update_of_ne hne, ho]
      · exact ho
    · simp [hw]
  hired conv t hw := by
    have hw : (if _ then _ else _ : String → Option Nat) conv = some t := hw
    split at hw
    · rename_i hn
      by_cases heq : conv = D.key msg
      · subst heq
        rw [Function.update_self] at hw
        cases hw
        refine ⟨⟨D.key msg, chat, q.submitted.length, .created⟩, ?_, rfl⟩
        simp [Queue.submit, hn]
      · rw [Function.update_of_ne heq] at hw
        obtain ⟨k, ht, hconv⟩ := h.hired conv t hw
        exact ⟨k, submit_tasks ht, hconv⟩
    · obtain ⟨k, ht, hconv⟩ := h.hired conv t hw
      exact ⟨k, submit_tasks ht, hconv⟩
  handling t k b msgs ht _ hk := by
    rcases tasks_submit ht with ht | ⟨-, -, rfl⟩
    · exact h.handling t k b msgs ht nofun hk
    · exact nomatch hk
  unended b x hx he := by
    obtain ⟨t, k, ht, hne, hk⟩ := h.unended b x hx he
    exact ⟨t, k, submit_tasks ht, hne, hk⟩
  starts k hk := by
    obtain ⟨t, ht⟩ := List.mem_iff_getElem?.1 hk
    rcases tasks_submit ht with ht | ⟨-, -, rfl⟩
    · exact (h.starts k (List.mem_of_getElem? ht)).submit msg chat
    · exact ⟨⟨msg, chat⟩, List.getElem?_concat_length, rfl, rfl⟩
  served x hx := by
    obtain ⟨hne, hs⟩ := h.served x hx
    exact ⟨hne, hs.submit msg chat⟩

theorem take {t : Nat} (h : Sound D (some t) q) {k : Task χ} (ht : q.tasks[t]? = some k)
    (hk : k.point ≠ .ended) : Sound D none (q.take t k) := by
  unfold Queue.take
  split
  · exact h.finish ht hk
  · exact h.hand ht hk ‹_›

end Sound

/-! ## Steps -/

variable {s s' : State μ χ} {e : Event μ χ}

/-- The task whose batch ends with an outcome, and the outcome. -/
def Event.ends : Event μ χ → Option (Nat × TurnOutcome)
  | .completed t o => some (t, o)
  | .crashed t => some (t, .error)
  | _ => none

/-- What a step does. -/
inductive Does (D : Deployment μ) (s : State μ χ) : Event μ χ → State μ χ → Prop
  | submit (msg chat) : Does D s (.submit msg chat) { s with queue := s.queue.submit D msg chat }
  | submitTracked (msg chat) :
      Does D s (.submitTracked msg chat)
        ⟨s.queue.submit D msg chat, s.waiters.track (D.messageId msg) s.queue.submitted.length⟩
  | begin {t k} : s.queue.tasks[t]? = some k → k.point = .created →
      Does D s (.begin t) { s with queue := s.queue.take t k }
  | settled {e t k b msgs o} : e.ends = some (t, o) → s.queue.tasks[t]? = some k →
      k.point = .handling b msgs → Does D s e (settled D s t k b msgs o)
  | stopped {t k} : s.queue.tasks[t]? = some k → k.point = .created →
      Does D s (.cancelled t) { s with queue := s.queue.stop t k }
  | abandoned {t k b msgs} : s.queue.tasks[t]? = some k → k.point = .handling b msgs →
      Does D s (.cancelled t) (abandoned D s t k b msgs)
  | withdrawn (n) : Does D s (.withdrawn n) { s with waiters := s.waiters.withdraw n }

theorem does_of_next (h : next D s e = some s') : Does D s e s' := by
  cases e with
  | submit msg chat => cases h; exact .submit msg chat
  | submitTracked msg chat => cases h; exact .submitTracked msg chat
  | withdrawn n => cases h; exact .withdrawn n
  | begin t =>
    obtain ⟨k, ht, h⟩ := Option.bind_eq_some_iff.1 h
    simp only [Task.next] at h
    split at h
    · cases h; exact .begin ht ‹_›
    · cases h
  | completed t o =>
    obtain ⟨k, ht, h⟩ := Option.bind_eq_some_iff.1 h
    simp only [Task.next] at h
    split at h
    · cases h; exact .settled rfl ht ‹_›
    · cases h
  | crashed t =>
    obtain ⟨k, ht, h⟩ := Option.bind_eq_some_iff.1 h
    simp only [Task.next] at h
    split at h
    · cases h; exact .settled rfl ht ‹_›
    · cases h
  | cancelled t =>
    obtain ⟨k, ht, h⟩ := Option.bind_eq_some_iff.1 h
    simp only [Task.next] at h
    split at h
    · cases h; exact .stopped ht ‹_›
    · cases h; exact .abandoned ht ‹_›
    · cases h

theorem Sound.step (hI : Sound D none s.queue) (h : next D s e = some s') :
    Sound D none s'.queue := by
  cases does_of_next h with
  | submit msg chat => exact hI.submit msg chat
  | submitTracked msg chat => exact hI.submit msg chat
  | begin ht hk => exact (hI.aside ht hk).take ht (by simp [hk])
  | settled _ ht hk => exact (hI.close ht hk _).take ht (by simp [hk])
  | stopped ht hk => exact (hI.aside ht hk).stop ht
  | abandoned ht hk => exact (hI.close ht hk _).finish ht (by simp [hk])
  | withdrawn => exact hI

theorem Sound.init (h : (lts D).init s) : Sound D none s.queue := by
  cases h
  exact ⟨fun _ => rfl, .nil, nofun, nofun, nofun, nofun, nofun, nofun⟩

theorem Sound.reach {C : State μ χ → Event μ χ → Prop} (h : (lts D).Reach C s) :
    Sound D none s.queue :=
  h.inv (fun _ => Sound.init) fun _ _ _ hI _ hn => hI.step hn

/-- A batch that has not ended is the only such one of its conversation. -/
theorem Sound.one_at_a_time (h : Sound D none q) {b b' : Nat} {x x' : Batch χ}
    (hx : q.batches[b]? = some x) (hx' : q.batches[b']? = some x') (he : x.ending = none)
    (he' : x'.ending = none) (hconv : x.conv = x'.conv) : b = b' := by
  obtain ⟨t, k, ht, -, hk⟩ := h.unended b x hx he
  obtain ⟨t', k', ht', -, hk'⟩ := h.unended b' x' hx' he'
  have hb := h.handling t k b x.msgs ht nofun hk
  have hb' := h.handling t' k' b' x'.msgs ht' nofun hk'
  have hc : x.conv = k.conv := congrArg Batch.conv (Option.some.inj (hx.symm.trans hb))
  have hc' : x'.conv = k'.conv := congrArg Batch.conv (Option.some.inj (hx'.symm.trans hb'))
  have := h.one ht ht' (by simp [hk]) (by simp [hk']) (hc ▸ hc' ▸ hconv)
  subst this
  cases ht.symm.trans ht'
  exact (Point.handling.inj (hk.symm.trans hk')).1

/-- The client a message was submitted with. -/
def Queue.client (q : Queue μ χ) (n : Nat) : Option χ := q.submitted[n]?.map Submission.chat

/-- The client a batch is handed to the flow with is that of the message whose submit created the
worker. It is the one the batch's newest message came with exactly where these two came with one
client. -/
theorem handed_with_newest (h : (lts D).Reach Lts.Any s) (x : Batch χ) (hx : x ∈ s.queue.batches) :
    ∃ newest, x.msgs.getLast? = some newest ∧
      (some x.chat = s.queue.client newest ↔
        s.queue.client x.starter = s.queue.client newest) := by
  obtain ⟨hne, y, hy, hchat, -⟩ := (Sound.reach h).served x hx
  refine ⟨_, List.getLast?_eq_some_getLast hne, ?_⟩
  have hc : s.queue.client x.starter = some x.chat := by
    rw [← hchat]
    simp [Queue.client, hy]
  rw [hc]

namespace Sample

structure Message where
  conversationId : String
  messageId : String

def platform : Deployment Message := ⟨Message.conversationId, Message.messageId⟩

def start : State Message String :=
  ⟨⟨[], fun _ => [], fun _ => none, [], []⟩, ⟨fun _ => none, fun _ => none, []⟩⟩

/-- Two messages while the turn of a first one runs. -/
def burst : List (Event Message String) :=
  [.submitTracked ⟨"a", "1"⟩ "http", .begin 0, .submit ⟨"a", "2"⟩ "slack",
    .submitTracked ⟨"a", "3"⟩ "slack", .completed 0 .replied, .crashed 0]

/-- Two conversations' messages with one id, the second's turn in hand. -/
def clash : List (Event Message String) :=
  [.submitTracked ⟨"a", "1"⟩ "slack", .begin 0, .submitTracked ⟨"b", "1"⟩ "slack", .begin 1,
    .completed 0 .replied]

/-- A worker cancelled with a message in its buffer, and a submit after it. -/
def revived : List (Event Message String) :=
  [.submit ⟨"a", "1"⟩ "slack", .begin 0, .submitTracked ⟨"a", "2"⟩ "slack", .cancelled 0,
    .submit ⟨"a", "3"⟩ "slack", .begin 1, .completed 1 .replied]

/-- A worker cancelled before its first step. -/
def unstarted : List (Event Message String) :=
  [.submitTracked ⟨"a", "1"⟩ "slack", .cancelled 0]

end Sample

/-- A batch of the worker's own client. -/
theorem handed_with_newest_run : ∃ s : State Sample.Message String,
    (lts Sample.platform).Reach Lts.Any s ∧ ∃ x ∈ s.queue.batches, ∃ newest,
      x.msgs.getLast? = some newest ∧ (some x.chat = s.queue.client newest ↔
        s.queue.client x.starter = s.queue.client newest) := by
  have h : ((lts Sample.platform).check (fun _ _ => true) Sample.start Sample.burst).any
      (fun s => decide (⟨"a", "http", 0, [0], some (.outcome .replied)⟩ ∈ s.queue.batches)) =
        true := by decide
  obtain ⟨s, hs, hx⟩ := (Option.any_eq_true _ _).1 h
  have hr := Lts.reach_of_check (fun _ _ _ => trivial) rfl hs
  exact ⟨s, hr, _, of_decide_eq_true hx, handed_with_newest hr _ (of_decide_eq_true hx)⟩

/-- A worker that a message from one gateway started hands over, with that gateway's client, what
arrived from another. -/
theorem other_client : ∃ s : State Sample.Message String,
    (lts Sample.platform).Reach Lts.Any s ∧ ∃ x ∈ s.queue.batches,
      x.chat = "http" ∧ (x.msgs.getLast?.bind s.queue.client) = some "slack" := by
  have h : ((lts Sample.platform).check (fun _ _ => true) Sample.start Sample.burst).any
      (fun s => decide (∃ x ∈ s.queue.batches, x.chat = "http" ∧
        (x.msgs.getLast?.bind s.queue.client) = some "slack")) = true := by decide
  obtain ⟨s, hs, hx⟩ := (Option.any_eq_true _ _).1 h
  exact ⟨s, Lts.reach_of_check (fun _ _ _ => trivial) rfl hs, of_decide_eq_true hx⟩

end Coalescer
