import ImpiAgent.Delegation.System

/-!
# What a step does to the tasks and to the coroutines

`Goes`, `Hears` and `spawns_spec` say what a coroutine does next, `Came` where one found after a
step comes from, `row_step` who wrote a row. From these, `Known`: every record a coroutine holds or
the store keeps is, but for how it ended, the one its task was started with
(`DelegationRecord.asked`), and a coroutine other than the one starting the task holds it only once
it is saved.
-/

namespace Delegation

variable {s s' : State} {e : Event} {σ σ' : Store}

/-- What the next statement of coroutine `i` of process `p` does. -/
inductive Goes (i : Nat) (p : Process) (now : Time) (σ : Store) : Point → Store → Point → Prop
  | saved {entry : DelegationRecord} : Goes i p now σ (.saving entry) (σ.saveDelegation entry)
      (.turning entry entry.trusted)
  | calledOff {entry ended : DelegationRecord} : Goes i p now σ (.callingOff entry ended)
      (σ.endDelegation ended).1 (.turning entry false)
  | won {ended : DelegationRecord} : σ.ends ended = true → ended.trusted = false →
      Goes i p now σ (.ending ended) (σ.endDelegation ended).1 (.answering i ended none)
  | ended {ended : DelegationRecord} : (σ.ends ended = true → ended.trusted = true) →
      Goes i p now σ (.ending ended) (σ.endDelegation ended).1 .returned
  | called {party : Nat} {ended : DelegationRecord} {deadline : Option Time} :
      Goes i p now σ (.answering party ended deadline) σ
        (.dispatched party ended (deadline.getD (now + answerWaitS)))
  | noted {record : DelegationRecord} :
      Goes i p now σ (.noting record) (σ.saveDelegation record) .returned
  | owned {agent conversationId id : String} {entry : DelegationRecord} :
      σ.getDelegation id = some entry → Goes i p now σ (.owning agent conversationId id) σ
        (.cancelling { entry with status := .cancelled, finishedAt := some now })
  | denied {agent conversationId id : String} :
      Goes i p now σ (.owning agent conversationId id) σ .returned
  | cancelled {ended : DelegationRecord} :
      Goes i p now σ (.cancelling ended) (σ.endDelegation ended).1 .returned
  | forgets {asker conversationId : String} : Goes i p now σ (.forgetting asker conversationId) σ
      (.forgetNext ((σ.runningDelegations.filter fun entry =>
        entry.agent == asker && entry.conversationId == conversationId).map fun entry =>
          { entry with status := .cancelled, finishedAt := some now,
                       notice := "conversation_forgotten" }))
  | forgot {ended : DelegationRecord} {todo : List DelegationRecord} :
      Goes i p now σ (.forgetNext (ended :: todo)) (σ.endDelegation ended).1 (.forgetNext todo)
  | reads : Goes i p now σ .recovering σ (.recoverNext σ.runningDelegations)
  | loses {entry : DelegationRecord} {todo : List DelegationRecord} : lost p σ entry = true →
      Goes i p now σ (.recoverNext (entry :: todo)) σ
        (.failing { entry with status := .failed, finishedAt := some now,
                               notice := "engine_restarted" } todo)
  | spares {entry : DelegationRecord} {todo : List DelegationRecord} : lost p σ entry = false →
      Goes i p now σ (.recoverNext (entry :: todo)) σ (.recoverNext todo)
  | failed {ended : DelegationRecord} {todo : List DelegationRecord} :
      Goes i p now σ (.failing ended todo) (σ.endDelegation ended).1 (.recoverNext todo)

theorem step_goes {i : Nat} {p : Process} {now : Time} {k k' : Point}
    (h : k.step i p now σ = some (σ', k')) : Goes i p now σ k σ' k' := by
  cases k with
  | saving => cases h; exact .saved
  | callingOff => cases h; exact .calledOff
  | ending ended =>
    obtain ⟨rfl, hk⟩ := Prod.mk.inj (Option.some.inj h)
    split at hk <;> cases hk
    · rename_i hw
      rw [Bool.and_eq_true, Bool.not_eq_true'] at hw
      exact .won hw.1 hw.2
    · rename_i hw
      refine .ended fun he => ?_
      simpa [show σ.ends ended = true from he] using hw
  | answering => cases h; exact .called
  | noting => cases h; exact .noted
  | owning =>
    obtain ⟨rfl, hk⟩ := Prod.mk.inj (Option.some.inj h)
    split at hk
    · rename_i ha
      split at hk <;> cases hk
      · exact .owned ha
      · exact .denied
    · cases hk
      exact .denied
  | cancelling => cases h; exact .cancelled
  | forgetting => cases h; exact .forgets
  | forgetNext todo => cases todo <;> cases h; exact .forgot
  | recovering => cases h; exact .reads
  | recoverNext todo =>
    cases todo with
    | nil => cases h
    | cons entry todo =>
      obtain ⟨rfl, hk⟩ := Prod.mk.inj (Option.some.inj h)
      split at hk <;> cases hk
      · exact .loses ‹_›
      · exact .spares (Bool.eq_false_iff.2 ‹_›)
  | failing => cases h; exact .failed
  | turning | dispatched | returned => cases h

/-- What a coroutine makes of what it hears. -/
inductive Hears (now : Time) : Point → Heard → Point → Prop
  | ended {entry : DelegationRecord} {watched : Bool} {outcome : TurnOutcome}
      {answer notice : String} : Hears now (.turning entry watched) (.turn outcome answer notice)
        (.ending { entry with status := statusByOutcome outcome, finishedAt := some now,
                              answer, notice })
  | gone {entry : DelegationRecord} : Hears now (.turning entry true) .askerGone
      (.callingOff entry { entry with status := .cancelled, finishedAt := some now,
                                      notice := "asker_turn_ended" })
  | handed {party : Nat} {r : DelegationRecord} {deadline : Time} :
      Hears now (.dispatched party r deadline) (.ran .turn)
        (.noting { r with deliveredAt := some now })
  | again {party : Nat} {r : DelegationRecord} {deadline : Time} :
      Hears now (.dispatched party r deadline) (.ran .busy) (.answering party r (some deadline))
  | refused {party : Nat} {r : DelegationRecord} {deadline : Time} {a : Ran} :
      a = .refused ∨ a = .busy ∧ ¬ now < deadline →
      Hears now (.dispatched party r deadline) (.ran a) (.noting (undelivered r))
  | raised {party : Nat} {r : DelegationRecord} {deadline : Time} :
      Hears now (.dispatched party r deadline) (.ran .raised) .returned

theorem hear_hears {now : Time} {k k' : Point} {h : Heard} (hk : k.hear now h = some k') :
    Hears now k h k' := by
  unfold Point.hear at hk
  split at hk
  · cases hk
    exact .ended
  · cases hk
    exact .gone
  · rename_i party r deadline ran
    rw [← Option.some.inj hk]
    cases ran with
    | turn => exact .handed
    | busy =>
      simp only [answered]
      split
      · exact .again
      · exact .refused (.inr ⟨rfl, ‹_›⟩)
    | refused => exact .refused (.inl rfl)
    | raised => exact .raised
  · cases hk

theorem spawns_spec {i : Nat} {k c : Point} (h : k.spawns i σ = some c) :
    ∃ r todo, k = .failing r todo ∧ σ.ends r = true ∧ r.trusted = false ∧
      c = .answering i r none := by
  unfold Point.spawns at h
  split at h
  · split at h <;> cases h
    rename_i hw
    rw [Bool.and_eq_true, Bool.not_eq_true'] at hw
    exact ⟨_, _, rfl, hw.1, hw.2, rfl⟩
  · cases h

/-- The coroutine an event moves. -/
def Event.mover : Event → Option Nat
  | .step i _ | .hear i .. | .drop i => some i
  | _ => none

/-- Where coroutine `j` at `c` after the event `e` comes from. -/
inductive Came (s : State) : Event → Nat → Point → Prop
  | stayed {e : Event} {j : Nat} {c : Point} : s.At j c → e.mover ≠ some j → Came s e j c
  | delegate {p : Process} {entry : DelegationRecord} : p ∈ s.alive → entry.asked = entry →
      entry.replica = p.replica → (∀ d ∈ s.drawn, d.2.id ≠ entry.id) →
      Came s (.delegate p entry) s.pool.calls.length (.saving entry)
  | cancel {p : Process} {agent conversationId id : String} :
      Came s (.cancel p agent conversationId id) s.pool.calls.length
        (.owning agent conversationId id)
  | forget {p : Process} {asker conversationId : String} :
      Came s (.forget p asker conversationId) s.pool.calls.length (.forgetting asker conversationId)
  | recover {p : Process} : Came s (.recover p) s.pool.calls.length .recovering
  | moved {i : Nat} {now : Time} {p : Process} {k c : Point} {σ : Store} : s.home i = some p →
      s.At i k → Goes i p now s.store k σ c → Came s (.step i now) i c
  | spawned {i : Nat} {now : Time} {r : DelegationRecord} {todo : List DelegationRecord} :
      s.At i (.failing r todo) → s.store.ends r = true → r.trusted = false →
      Came s (.step i now) s.pool.calls.length (.answering i r none)
  | heard {i : Nat} {h : Heard} {now : Time} {p : Process} {k c : Point} : s.home i = some p →
      s.At i k → Hears now k h c → Came s (.hear i h now) i c

theorem came (hn : next s e = some s') {j : Nat} {c : Point} (h : s'.At j c) : Came s e j c := by
  cases next_step hn with
  | delegate hp ha hr hd =>
    rcases Pool.at_start.1 h with h | ⟨rfl, rfl⟩
    · exact .stayed h nofun
    · exact .delegate hp ha hr hd
  | cancel =>
    rcases Pool.at_start.1 h with h | ⟨rfl, rfl⟩
    · exact .stayed h nofun
    · exact .cancel
  | forget =>
    rcases Pool.at_start.1 h with h | ⟨rfl, rfl⟩
    · exact .stayed h nofun
    · exact .forget
  | recover =>
    rcases Pool.at_start.1 h with h | ⟨rfl, rfl⟩
    · exact .stayed h nofun
    · exact .recover
  | @step i now p k k' σ hp hk hm =>
    have put : ∀ {j c}, (s.pool.put i σ k').At j c → Came s (.step i now) j c := by
      intro j c h
      rcases (Pool.at_put hk).1 h with ⟨rfl, rfl⟩ | ⟨hne, h⟩
      · exact .moved hp hk (step_goes hm)
      · exact .stayed h fun he => hne (Option.some.inj he).symm
    cases hc : k.spawns i s.store with
    | none =>
      rw [hc] at h
      exact put h
    | some c₀ =>
      rw [hc] at h
      rcases Pool.at_start.1 h with h | ⟨rfl, rfl⟩
      · exact put h
      · have hlen : (s.pool.put i σ k').calls.length = s.pool.calls.length := List.length_set
        obtain ⟨r, todo, rfl, hw, ht, rfl⟩ := spawns_spec hc
        exact hlen ▸ .spawned hk hw ht
  | hear hp hk hh =>
    rcases (Pool.at_put hk).1 h with ⟨rfl, rfl⟩ | ⟨hne, h⟩
    · exact .heard hp hk (hear_hears hh)
    · exact .stayed h fun he => hne (Option.some.inj he).symm
  | drop =>
    obtain ⟨hne, h⟩ := Pool.at_kill.1 h
    exact .stayed h fun he => hne (Option.some.inj he).symm
  | _ => exact .stayed h nofun

/-- What a statement does to the store. -/
inductive Wrote (σ : Store) : Point → Store → Prop
  | saved {entry : DelegationRecord} : Wrote σ (.saving entry) (σ.saveDelegation entry)
  | noted {record : DelegationRecord} : Wrote σ (.noting record) (σ.saveDelegation record)
  | ended {k : Point} {how : How} {r : DelegationRecord} : k.ends = some (how, r) →
      Wrote σ k (σ.endDelegation r).1
  | read {k : Point} : k.ends = none → Wrote σ k σ

theorem goes_wrote {i : Nat} {p : Process} {now : Time} {k k' : Point}
    (h : Goes i p now σ k σ' k') : Wrote σ k σ' := by
  cases h with
  | saved => exact .saved
  | noted => exact .noted
  | called | owned | denied | forgets | reads | loses | spares => exact .read rfl
  | _ => exact .ended rfl

/-- A coroutine writes `r` in the place of its task's row. -/
inductive Writes (σ : Store) (r : DelegationRecord) : Point → Prop
  | saved : Writes σ r (.saving r)
  | noted : Writes σ r (.noting r)
  | ended {k : Point} {how : How} : k.ends = some (how, r) → σ.ends r = true → Writes σ r k

theorem wrote_row {k : Point} (h : Wrote σ k σ') (id : String) :
    σ'.getDelegation id = σ.getDelegation id ∨
      ∃ r, Writes σ r k ∧ r.id = id ∧ σ'.getDelegation id = some r := by
  cases h with
  | @saved r =>
    by_cases hid : id = r.id
    · exact .inr ⟨r, .saved, hid.symm, by rw [Store.get_save, if_pos hid]⟩
    · exact .inl (by rw [Store.get_save, if_neg hid])
  | @noted r =>
    by_cases hid : id = r.id
    · exact .inr ⟨r, .noted, hid.symm, by rw [Store.get_save, if_pos hid]⟩
    · exact .inl (by rw [Store.get_save, if_neg hid])
  | @ended _ _ r hk =>
    by_cases hc : id = r.id ∧ σ.ends r = true
    · exact .inr ⟨r, .ended hk hc.2, hc.1.symm, by rw [Store.get_end, if_pos hc]⟩
    · exact .inl (by rw [Store.get_end, if_neg hc])
  | read => exact .inl rfl

/-- A row after a step is the one there was, or the coroutine that moved wrote it. -/
theorem row_step (hn : next s e = some s') (id : String) :
    s'.store.getDelegation id = s.store.getDelegation id ∨
      ∃ i now k r, e = .step i now ∧ s.At i k ∧ Writes s.store r k ∧ r.id = id ∧
        s'.store.getDelegation id = some r := by
  cases next_step hn with
  | @step i now p k k' σ hp hk hm =>
    rw [State.spawns_store]
    rcases wrote_row (goes_wrote (step_goes hm)) id with hrow | ⟨r, hw, hid, hrow⟩
    · exact .inl hrow
    · exact .inr ⟨i, now, k, r, rfl, hk, hw, hid, hrow⟩
  | _ => exact .inl rfl

/-- The row a coroutine has saved. -/
theorem effect_saving {i : Nat} {now : Time} {entry : DelegationRecord}
    (hn : next s (.step i now) = some s') (hi : s.At i (.saving entry)) {id : String} :
    s'.store.getDelegation id = if id = entry.id then some entry else s.store.getDelegation id := by
  cases next_step hn with
  | step _ hk hm =>
    cases Pool.At.eq hk hi
    cases hm
    rw [State.spawns_store]
    exact Store.get_save

theorem row_kept (hn : next s e = some s') {id : String}
    (h : s.store.getDelegation id ≠ none) : s'.store.getDelegation id ≠ none := by
  rcases row_step hn id with he | ⟨_, _, _, _, -, -, -, -, he⟩
  · rwa [he]
  · rw [he]
    exact Option.some_ne_none _

/-- The records a coroutine holds. -/
def Point.holds : Point → List DelegationRecord
  | .saving r | .turning r _ | .ending r | .answering _ r _ | .dispatched _ r _ | .noting r
  | .cancelling r => [r]
  | .callingOff entry ended => [entry, ended]
  | .forgetNext todo | .recoverNext todo => todo
  | .failing ended todo => ended :: todo
  | .owning .. | .forgetting .. | .recovering | .returned => []

theorem ends_holds {k : Point} {how : How} {r : DelegationRecord} (h : k.ends = some (how, r)) :
    r ∈ k.holds := by
  cases k with
  | forgetNext todo =>
    cases todo <;> cases h
    exact List.mem_cons_self
  | _ => cases h <;> simp [Point.holds]

theorem writes_holds {k : Point} {r : DelegationRecord} (h : Writes σ r k) : r ∈ k.holds := by
  cases h with
  | ended hk => exact ends_holds hk
  | _ => exact List.mem_cons_self

/-- A record a coroutine holds after a statement it held before, but for how the task ended, or it
is of a row it has read. -/
theorem goes_holds {i : Nat} {p : Process} {now : Time} {k k' : Point} {r : DelegationRecord}
    (h : Goes i p now σ k σ' k') (hr : r ∈ k'.holds) :
    (∃ a ∈ k.holds, a.asked = r.asked) ∨
      ∃ a, σ.getDelegation a.id = some a ∧ a.asked = r.asked := by
  cases h with
  | @owned _ _ _ a ha =>
    cases List.mem_singleton.1 hr
    exact .inr ⟨a, (Store.get_iff.1 ha).2.symm ▸ ha, rfl⟩
  | forgets =>
    obtain ⟨a, ha, rfl⟩ := List.mem_map.1 hr
    exact .inr ⟨a, (Store.mem_running.1 (List.mem_filter.1 ha).1).1, rfl⟩
  | reads => exact .inr ⟨r, (Store.mem_running.1 hr).1, rfl⟩
  | forgot | spares | failed => exact .inl ⟨r, List.mem_cons_of_mem _ hr, rfl⟩
  | loses =>
    rcases List.mem_cons.1 hr with rfl | hr
    · exact .inl ⟨_, List.mem_cons_self, rfl⟩
    · exact .inl ⟨r, List.mem_cons_of_mem _ hr, rfl⟩
  | saved | won | called => exact .inl ⟨r, hr, rfl⟩
  | calledOff =>
    cases List.mem_singleton.1 hr
    exact .inl ⟨r, List.mem_cons_self, rfl⟩
  | ended | noted | denied | cancelled => cases hr

theorem hears_holds {now : Time} {k k' : Point} {h : Heard} {r : DelegationRecord}
    (hk : Hears now k h k') (hr : r ∈ k'.holds) : ∃ a ∈ k.holds, a.asked = r.asked := by
  cases hk with
  | gone =>
    rcases List.mem_cons.1 hr with rfl | hr
    · exact ⟨_, List.mem_cons_self, rfl⟩
    · cases List.mem_singleton.1 hr
      exact ⟨_, List.mem_cons_self, rfl⟩
  | raised => cases hr
  | _ =>
    cases List.mem_singleton.1 hr
    exact ⟨_, List.mem_cons_self, rfl⟩

/-- `r` is of a task that was drawn. -/
def Drawn (s : State) (r : DelegationRecord) : Prop := ∃ d ∈ s.drawn, d.2 = r.asked

/-- What is known of the tasks drawn: each has its coroutine, of the process the record names, and
every record about it is the one drawn but for how the task ended. -/
structure Known (s : State) : Prop where
  length : s.homes.length = s.pool.calls.length
  drawn : ∀ d ∈ s.drawn, d.2.asked = d.2 ∧ ∃ p, s.homes[d.1]? = some p ∧ d.2.replica = p.replica
  unique : ∀ d ∈ s.drawn, ∀ d' ∈ s.drawn, d.2.id = d'.2.id → d = d'
  rows : ∀ id r, s.store.getDelegation id = some r → Drawn s r
  held : ∀ i k, s.At i k → ∀ r ∈ k.holds, Drawn s r
  saving : ∀ i entry, s.At i (.saving entry) →
    (i, entry) ∈ s.drawn ∧ s.store.getDelegation entry.id = none
  saved : ∀ i k, s.At i k → (∀ entry, k ≠ .saving entry) → ∀ r ∈ k.holds,
    s.store.getDelegation r.id ≠ none

theorem id_of_asked {a r : DelegationRecord} (h : a.asked = r.asked) : a.id = r.id := by
  rw [← asked_id a, h, asked_id]

/-- The processes of the coroutines there are do not change, and no task is taken back. -/
theorem ghosts_step (hn : next s e = some s') :
    (∀ (i : Nat) (p : Process), s.homes[i]? = some p → s'.homes[i]? = some p) ∧ (∀ d ∈ s.drawn, d ∈ s'.drawn) ∧
      (∀ w ∈ s.wins, w ∈ s'.wins) := by
  have add : ∀ {i : Nat} {p q : Process}, s.homes[i]? = some p → (s.homes ++ [q])[i]? = some p := by
    intro i p q h
    rw [List.getElem?_append_left (List.getElem?_eq_some_iff.1 h).1, h]
  cases next_step hn with
  | delegate => exact ⟨fun _ _ h => add h, fun d hd => List.mem_cons_of_mem _ hd, fun _ h => h⟩
  | cancel => exact ⟨fun _ _ h => add h, fun _ h => h, fun _ h => h⟩
  | forget => exact ⟨fun _ _ h => add h, fun _ h => h, fun _ h => h⟩
  | recover => exact ⟨fun _ _ h => add h, fun _ h => h, fun _ h => h⟩
  | @step i now p k k' σ hp hk hm =>
    cases k.spawns i s.store with
    | none => exact ⟨fun _ _ h => h, fun _ h => h, fun _ h => List.mem_append_right _ h⟩
    | some c => exact ⟨fun _ _ h => add h, fun _ h => h, fun _ h => List.mem_append_right _ h⟩
  | _ => exact ⟨fun _ _ h => h, fun _ h => h, fun _ h => h⟩

theorem length_step (hn : next s e = some s') (h : s.homes.length = s.pool.calls.length) :
    s'.homes.length = s'.pool.calls.length := by
  have add : ∀ (q : Process) (k : Point),
      (s.homes ++ [q]).length = (s.pool.start k).calls.length := by
    intro q k
    simp [Pool.start, h]
  cases next_step hn with
  | delegate => exact add _ _
  | cancel => exact add _ _
  | forget => exact add _ _
  | recover => exact add _ _
  | @step i now p k k' σ hp hk hm =>
    cases k.spawns i s.store <;> simp [State.spawns, State.spawn, Pool.start, Pool.put, h]
  | hear => simp [Pool.put, h]
  | drop => simp [Pool.kill, h]
  | _ => exact h

theorem Drawn.of_asked {a r : DelegationRecord} (h : Drawn s a) (he : a.asked = r.asked) :
    Drawn s r := by
  obtain ⟨d, hd, hda⟩ := h
  exact ⟨d, hd, hda.trans he⟩

theorem Drawn.step {r : DelegationRecord} (h : Drawn s r) (hn : next s e = some s') :
    Drawn s' r := by
  obtain ⟨d, hd, he⟩ := h
  exact ⟨d, (ghosts_step hn).2.1 d hd, he⟩

/-- The tasks drawn by a step: none, or a new one. -/
theorem drawn_step (hn : next s e = some s') : s'.drawn = s.drawn ∨
    ∃ p entry, s'.drawn = (s.homes.length, entry) :: s.drawn ∧
      s'.homes[s.homes.length]? = some p ∧ entry.asked = entry ∧ entry.replica = p.replica ∧
      ∀ d ∈ s.drawn, d.2.id ≠ entry.id := by
  cases next_step hn with
  | delegate _ ha hr hd => exact .inr ⟨_, _, rfl, List.getElem?_concat_length, ha, hr, hd⟩
  | @step i now p k k' σ hp hk hm => exact .inl (by cases k.spawns i s.store <;> rfl)
  | _ => exact .inl rfl

theorem drawn_of_delegate {p : Process} {entry : DelegationRecord}
    (hn : next s (.delegate p entry) = some s') : (s.homes.length, entry) ∈ s'.drawn := by
  cases next_step hn
  exact List.mem_cons_self

theorem held_step (h : Known s) (hn : next s e = some s') :
    ∀ i k, s'.At i k → ∀ r ∈ k.holds, Drawn s' r := by
  intro i k hi r hr
  cases came hn hi with
  | stayed hj => exact (h.held i k hj r hr).step hn
  | @delegate p entry _ ha =>
    cases List.mem_singleton.1 hr
    exact ⟨_, drawn_of_delegate hn, ha.symm⟩
  | cancel | forget | recover => cases hr
  | moved _ hk hg =>
    rcases goes_holds hg hr with ⟨a, ha, he⟩ | ⟨a, ha, he⟩
    · exact ((h.held _ _ hk a ha).of_asked he).step hn
    · exact ((h.rows _ a ha).of_asked he).step hn
  | spawned hk =>
    cases List.mem_singleton.1 hr
    exact (h.held _ _ hk r List.mem_cons_self).step hn
  | heard _ hk hh =>
    obtain ⟨a, ha, he⟩ := hears_holds hh hr
    exact ((h.held _ _ hk a ha).of_asked he).step hn

theorem saving_step (h : Known s) (hn : next s e = some s') : ∀ i entry,
    s'.At i (.saving entry) →
      (i, entry) ∈ s'.drawn ∧ s'.store.getDelegation entry.id = none := by
  intro i entry hi
  cases came hn hi with
  | stayed hj hmoved =>
    obtain ⟨hd, hrow⟩ := h.saving i entry hj
    refine ⟨(ghosts_step hn).2.1 _ hd, ?_⟩
    rcases row_step hn entry.id with he | ⟨j, now, k, r, rfl, hk, hw, hid, -⟩
    · rw [he, hrow]
    · exfalso
      -- another coroutine saves a task of its own, the others write tasks that are saved
      cases hw with
      | saved =>
        have := h.unique _ (h.saving j r hk).1 _ hd hid
        cases this
        exact hmoved rfl
      | noted => exact h.saved j _ hk (fun _ he => by cases he) r List.mem_cons_self (hid ▸ hrow)
      | ended _ hends =>
        obtain ⟨a, ha, -⟩ := Store.ends_iff.1 hends
        rw [hid, hrow] at ha
        cases ha
  | @delegate p _ _ _ _ hd =>
    refine ⟨h.length ▸ drawn_of_delegate hn, ?_⟩
    have hrow : s'.store.getDelegation entry.id = s.store.getDelegation entry.id := by
      cases next_step hn
      rfl
    rw [hrow, Option.eq_none_iff_forall_not_mem]
    intro r hr
    obtain ⟨d, hmem, he⟩ := h.rows _ r hr
    exact hd d hmem (by rw [he, asked_id, (Store.get_iff.1 hr).2])
  | moved _ _ hg => cases hg
  | heard _ _ hh => cases hh

theorem saved_step (h : Known s) (hn : next s e = some s') : ∀ i k, s'.At i k →
    (∀ entry, k ≠ .saving entry) → ∀ r ∈ k.holds, s'.store.getDelegation r.id ≠ none := by
  intro i k hi hne r hr
  cases came hn hi with
  | stayed hj => exact row_kept hn (h.saved i k hj hne r hr)
  | delegate => exact absurd rfl (hne _)
  | cancel | forget | recover => cases hr
  | @moved _ _ _ k₀ _ σ hp hk hg =>
    by_cases hs : ∃ entry, k₀ = .saving entry
    · obtain ⟨entry, rfl⟩ := hs
      cases hg
      cases List.mem_singleton.1 hr
      have hrow := (effect_saving hn hk).trans (if_pos rfl)
      rw [hrow]
      exact Option.some_ne_none _
    · rcases goes_holds hg hr with ⟨a, ha, he⟩ | ⟨a, ha, he⟩
      · have := h.saved _ _ hk (fun entry hx => hs ⟨entry, hx⟩) a ha
        exact row_kept hn (id_of_asked he ▸ this)
      · refine row_kept hn ?_
        rw [← id_of_asked he, ha]
        exact Option.some_ne_none _
  | spawned hk =>
    cases List.mem_singleton.1 hr
    exact row_kept hn (h.saved _ _ hk (fun _ he => by cases he) r List.mem_cons_self)
  | heard _ hk hh =>
    obtain ⟨a, ha, he⟩ := hears_holds hh hr
    have := h.saved _ _ hk (by rintro entry rfl; cases hh) a ha
    exact row_kept hn (id_of_asked he ▸ this)

theorem known_step (h : Known s) (hn : next s e = some s') : Known s' := by
  obtain ⟨homes, old, -⟩ := ghosts_step hn
  refine ⟨length_step hn h.length, fun d hd => ?_, fun d hd d' hd' hid => ?_, fun id r hr => ?_,
    held_step h hn, saving_step h hn, saved_step h hn⟩
  · rcases drawn_step hn with he | ⟨p, entry, he, hp, ha, hr, -⟩
    · obtain ⟨hda, p, hp, hr⟩ := h.drawn d (he ▸ hd)
      exact ⟨hda, p, homes _ p hp, hr⟩
    · rcases List.mem_cons.1 (he ▸ hd) with rfl | hd
      · exact ⟨ha, p, hp, hr⟩
      · obtain ⟨hda, p, hp, hr⟩ := h.drawn d hd
        exact ⟨hda, p, homes _ p hp, hr⟩
  · rcases drawn_step hn with he | ⟨p, entry, he, -, -, -, hnew⟩
    · exact h.unique d (he ▸ hd) d' (he ▸ hd') hid
    · rcases List.mem_cons.1 (he ▸ hd) with rfl | hd <;>
        rcases List.mem_cons.1 (he ▸ hd') with rfl | hd'
      · rfl
      · exact absurd hid.symm (hnew d' hd')
      · exact absurd hid (hnew d hd)
      · exact h.unique d hd d' hd' hid
  · rcases row_step hn id with he | ⟨i, now, k, r', -, hk, hw, -, he⟩
    · exact (h.rows id r (he ▸ hr)).step hn
    · cases he.symm.trans hr
      exact (h.held i k hk r (writes_holds hw)).step hn

theorem known {C : State → Event → Prop} (h : lts.Reach C s) : Known s := by
  refine h.inv (fun s h0 => ?_) fun s e s' ih _ hn => known_step ih hn
  cases h0
  have none_at : ∀ i k, ¬ Pool.At (⟨⟨.empty, []⟩, []⟩ : Pool Store Point) i k := by
    intro i k hi
    simp [Pool.At] at hi
  exact ⟨rfl, by simp, by simp, fun id r hr => absurd (Store.get_iff.1 hr).1 (by simp [Table.empty, Table.mem_def]),
    fun i k hi => absurd hi (none_at i k), fun i k hi => absurd hi (none_at i _),
    fun i k hi => absurd hi (none_at i k)⟩

end Delegation
