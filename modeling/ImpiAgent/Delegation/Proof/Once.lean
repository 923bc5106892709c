import ImpiAgent.Delegation.Proof.Runs

/-!
# A task ends once, and is answered at most once

`end_delegation` is the one step out of running, and whoever calls it acts on what it returned. So
there is one call that matched for a task that has ended and none for one that has not (`count`),
the later saves of a record repeat its verdict (`notes`), and the asker's turn on the answer belongs
to the coroutine of that one call (`owed`), which makes it once (`apart`, `nodup`).
-/

namespace Delegation

variable {s s' : State} {e : Event} {σ σ' : Store}

/-- The records a coroutine will call `end_delegation` with. -/
def Point.closes : Point → List DelegationRecord
  | .callingOff _ r | .ending r | .cancelling r | .failing r _ => [r]
  | .forgetNext todo => todo
  | _ => []

/-- The answer a coroutine is to hand to the asker, and the one that ended the task. -/
def Point.answers : Point → Option (Nat × DelegationRecord)
  | .answering party r _ | .dispatched party r _ => some (party, r)
  | _ => none

/-- The calls of `end_delegation` that ended task `id`. -/
def State.won (s : State) (id : String) : Nat := s.wins.countP (·.ended.id == id)

/-- Task `id` has ended. -/
def Store.done (σ : Store) (id : String) : Bool := (σ.getDelegation id).any (·.status != .running)

theorem outcome_ends (o : TurnOutcome) : statusByOutcome o ≠ .running := by
  cases o <;> decide

theorem ends_closes {k : Point} {how : How} {r : DelegationRecord} (h : k.ends = some (how, r)) :
    r ∈ k.closes := by
  cases k with
  | forgetNext todo =>
    cases todo <;> cases h
    exact List.mem_cons_self
  | _ => cases h <;> exact List.mem_cons_self

theorem goes_closes {i : Nat} {p : Process} {now : Time} {k k' : Point} {r : DelegationRecord}
    (h : Goes i p now σ k σ' k') (hr : r ∈ k'.closes) : r ∈ k.closes ∨ r.status ≠ .running := by
  cases h with
  | owned =>
    cases List.mem_singleton.1 hr
    exact .inr nofun
  | forgets =>
    obtain ⟨a, -, rfl⟩ := List.mem_map.1 hr
    exact .inr nofun
  | forgot => exact .inl (List.mem_cons_of_mem _ hr)
  | loses =>
    cases List.mem_singleton.1 hr
    exact .inr nofun
  | _ => cases hr

theorem hears_closes {now : Time} {k k' : Point} {h : Heard} {r : DelegationRecord}
    (hk : Hears now k h k') (hr : r ∈ k'.closes) : r.status ≠ .running := by
  cases hk with
  | ended =>
    cases List.mem_singleton.1 hr
    exact outcome_ends _
  | gone =>
    cases List.mem_singleton.1 hr
    nofun
  | _ => cases hr

/-- What a step does to the rows and to the wins. -/
inductive Effect (s s' : State) : Event → Prop
  | quiet {e : Event} : s'.wins = s.wins →
      (∀ id, s'.store.getDelegation id = s.store.getDelegation id) → Effect s s' e
  | saved {i : Nat} {now : Time} {entry : DelegationRecord} : s.At i (.saving entry) →
      s'.wins = s.wins → (∀ id, s'.store.getDelegation id =
        if id = entry.id then some entry else s.store.getDelegation id) → Effect s s' (.step i now)
  | noted {i : Nat} {now : Time} {r : DelegationRecord} : s.At i (.noting r) →
      s'.wins = s.wins → (∀ id, s'.store.getDelegation id =
        if id = r.id then some r else s.store.getDelegation id) → Effect s s' (.step i now)
  | won {i : Nat} {now : Time} {k : Point} {how : How} {r : DelegationRecord} : s.At i k →
      k.ends = some (how, r) → s.store.ends r = true → s'.wins = ⟨i, how, r⟩ :: s.wins →
      (∀ id, s'.store.getDelegation id =
        if id = r.id then some r else s.store.getDelegation id) → Effect s s' (.step i now)

theorem spawns_wins (s : State) (p : Process) (c : Option Point) :
    (s.spawns p c).wins = s.wins ∧ (s.spawns p c).starts = s.starts ∧
      (s.spawns p c).turns = s.turns := by
  cases c <;> exact ⟨rfl, rfl, rfl⟩

theorem effect (hn : next s e = some s') : Effect s s' e := by
  cases next_step hn with
  | @step i now p k k' σ hp hk hm =>
    have hwins := (spawns_wins { s with
      pool := s.pool.put i σ k'
      wins := k.wins i s.store ++ s.wins
      starts := k.starts ++ s.starts } p (k.spawns i s.store)).1
    have none_won : k.ends = none → k.wins i s.store = [] := by
      intro hx
      simp [Point.wins, hx]
    cases goes_wrote (step_goes hm) with
    | saved => exact .saved hk hwins fun id => by rw [State.spawns_store]; exact Store.get_save
    | noted => exact .noted hk hwins fun id => by rw [State.spawns_store]; exact Store.get_save
    | @ended _ how r hx =>
      by_cases hends : s.store.ends r = true
      · have hw : k.wins i s.store = [⟨i, how, r⟩] := by simp [Point.wins, hx, hends]
        refine .won hk hx hends (hwins.trans (by rw [hw]; rfl)) fun id => ?_
        rw [State.spawns_store]
        exact Store.get_end.trans (by simp [hends])
      · have hw : k.wins i s.store = [] := by simp [Point.wins, hx, hends]
        refine .quiet (hwins.trans (by rw [hw]; rfl)) fun id => ?_
        rw [State.spawns_store]
        exact Store.get_end.trans (by simp [hends])
    | read hx =>
      refine .quiet (hwins.trans (by rw [none_won hx]; rfl)) fun id => ?_
      rw [State.spawns_store]
      rfl
  | _ => exact .quiet rfl fun id => rfl

theorem won_step {i : Nat} {now : Time} {k : Point} {how : How} {r : DelegationRecord}
    (hn : next s (.step i now) = some s') (hk : s.At i k) (hx : k.ends = some (how, r))
    (hw : s.store.ends r = true) : s'.wins = ⟨i, how, r⟩ :: s.wins := by
  cases next_step hn with
  | step _ hk' =>
    cases Pool.At.eq hk' hk
    rw [(spawns_wins _ _ _).1]
    simp [Point.wins, hx, hw]

/-- The `run_turn` calls after a step. -/
theorem starts_step (hn : next s e = some s') : s'.starts = s.starts ∨
    ∃ i party r deadline, s.At i (.answering party r deadline) ∧
      s'.starts = ⟨party, r.id, answerRequest r⟩ :: s.starts := by
  cases next_step hn with
  | @step i now p k k' σ hp hk hm =>
    rw [(spawns_wins _ _ _).2.1]
    cases k with
    | answering party r deadline => exact .inr ⟨i, party, r, deadline, hk, rfl⟩
    | _ => exact .inl rfl
  | _ => exact .inl rfl

/-- The `run_turn` calls that came back by a step. -/
theorem turns_step (hn : next s e = some s') : s'.turns = s.turns ∨
    ∃ i now party r deadline, e = .hear i (.ran .turn) now ∧ s.At i (.dispatched party r deadline) ∧
      s'.turns = ⟨party, r.id, answerRequest r⟩ :: s.turns := by
  cases next_step hn with
  | @hear i h now p k k' hp hk hh =>
    show k.turns h ++ s.turns = s.turns ∨ _
    unfold Point.turns
    split
    · exact .inr ⟨i, now, _, _, _, rfl, hk, rfl⟩
    · exact .inl rfl
  | step => exact .inl (spawns_wins _ _ _).2.2
  | _ => exact .inl rfl

/-- The step by which a coroutine comes to have an answer to hand over: it has won. -/
structure Owner (s s' : State) (e : Event) (j party : Nat) (r : DelegationRecord) (k : Point)
    (how : How) (now : Time) : Prop where
  event : e = .step party now
  point : s.At party k
  ends : k.ends = some (how, r)
  written : s.store.ends r = true
  how : how = .turn ∧ j = party ∨ how = .recovery ∧ j = s.pool.calls.length
  asked : r.trusted = false

/-- A coroutine that has an answer to hand over had it before, or has just won. -/
theorem answers_came (hn : next s e = some s') {j : Nat} {c : Point} {party : Nat}
    {r : DelegationRecord} (hj : s'.At j c) (hc : c.answers = some (party, r)) :
    (∃ k, s.At j k ∧ k.answers = some (party, r)) ∨
      ∃ k how now, Owner s s' e j party r k how now := by
  cases came hn hj with
  | stayed hk => exact .inl ⟨c, hk, hc⟩
  | delegate | cancel | forget | recover => cases hc
  | @moved i now p k _ σ hp hk hg =>
    cases hg with
    | won hw ht =>
      cases hc
      exact .inr ⟨_, .turn, now, rfl, hk, rfl, hw, .inl ⟨rfl, rfl⟩, ht⟩
    | called => exact .inl ⟨_, hk, hc⟩
    | _ => cases hc
  | @spawned i now a todo hk hw ht =>
    cases hc
    exact .inr ⟨_, .recovery, now, rfl, hk, rfl, hw, .inr ⟨rfl, rfl⟩, ht⟩
  | heard _ hk hh =>
    cases hh with
    | again => exact .inl ⟨_, hk, hc⟩
    | _ => cases hc

/-- Task `r.id` has been ended with the verdict of `r`. -/
def Final (s : State) (r : DelegationRecord) : Prop :=
  ∃ w ∈ s.wins, w.ended.id = r.id ∧ w.ended.status = r.status ∧ w.ended.answer = r.answer

/-- The call that ended a task, and whose coroutine hands over the answer. -/
structure Wins (s : State) (party : Nat) (r : DelegationRecord) (w : Win) : Prop where
  won : w ∈ s.wins
  party : w.party = party
  ended : w.ended = r
  how : w.how = .turn ∨ w.how = .recovery
  asked : r.trusted = false

/-- A note that is about to be saved is of the record that was handed over. -/
theorem noting_came (hn : next s e = some s') {j : Nat} {r : DelegationRecord}
    (hj : s'.At j (.noting r)) : s.At j (.noting r) ∧ e.mover ≠ some j ∨
      ∃ party a deadline, s.At j (.dispatched party a deadline) ∧ a.id = r.id ∧
        a.status = r.status ∧ a.answer = r.answer ∧ (a.notice = "" ∨ r.notice = a.notice) := by
  cases came hn hj with
  | stayed hk hne => exact .inl ⟨hk, hne⟩
  | moved _ _ hg => cases hg
  | heard _ hk hh =>
    cases hh with
    | handed => exact .inr ⟨_, _, _, hk, rfl, rfl, rfl, .inr rfl⟩
    | @refused party a =>
      refine .inr ⟨_, _, _, hk, rfl, rfl, rfl, ?_⟩
      by_cases hnote : a.notice = ""
      · exact .inl hnote
      · exact .inr (if_neg hnote)

/-- What holds of the tasks and of the coroutines, whatever the order of the steps. -/
structure Once (s : State) : Prop where
  closes : ∀ i k, s.At i k → ∀ r ∈ k.closes, r.status ≠ .running
  count : ∀ id, s.won id = if s.store.done id = true then 1 else 0
  verdict : ∀ w ∈ s.wins, ∃ r, s.store.getDelegation w.ended.id = some r ∧
    r.status = w.ended.status ∧ r.answer = w.ended.answer
  drawn : ∀ w ∈ s.wins, Drawn s w.ended
  owed : ∀ i k party r, s.At i k → k.answers = some (party, r) → ∃ w, Wins s party r w
  fresh : ∀ i k party r, s.At i k → k.answers = some (party, r) → ∀ t ∈ s.turns, t.task ≠ r.id
  apart : ∀ i j k c p q r u, s.At i k → s.At j c → k.answers = some (p, r) →
    c.answers = some (q, u) → r.id = u.id → i = j
  notes : ∀ i r, s.At i (.noting r) → Final s r
  called : ∀ i party r deadline, s.At i (.dispatched party r deadline) →
    ⟨party, r.id, answerRequest r⟩ ∈ s.starts
  starts : ∀ d ∈ s.starts, ∃ w, Wins s d.party w.ended w ∧ w.ended.id = d.task ∧
    d.request = answerRequest w.ended
  turns : ∀ t ∈ s.turns, t ∈ s.starts
  nodup : (s.turns.map (·.task)).Nodup

theorem done_iff {id : String} :
    σ.done id = true ↔ ∃ r, σ.getDelegation id = some r ∧ r.status ≠ .running := by
  rw [Store.done, Option.any_eq_true]
  simp

theorem won_pos {w : Win} (h : w ∈ s.wins) : 0 < s.won w.ended.id :=
  List.countP_pos_iff.2 ⟨w, h, beq_self_eq_true _⟩

theorem won_cons {w : Win} (h : s'.wins = w :: s.wins) (id : String) :
    s'.won id = s.won id + if w.ended.id = id then 1 else 0 := by
  simp [State.won, h, List.countP_cons]

theorem Once.done (h : Once s) {w : Win} (hw : w ∈ s.wins) : s.store.done w.ended.id = true := by
  have hc := h.count w.ended.id
  have := won_pos hw
  split at hc
  · assumption
  · omega

/-- The row of a task that has ended has its verdict. -/
theorem Once.row (h : Once s) {r : DelegationRecord} (hf : Final s r) :
    ∃ a, s.store.getDelegation r.id = some a ∧ a.status = r.status ∧ a.answer = r.answer ∧
      a.status ≠ .running := by
  obtain ⟨w, hw, hid, hst, han⟩ := hf
  obtain ⟨a, ha, has, haa⟩ := h.verdict w hw
  obtain ⟨a', ha', hne⟩ := done_iff.1 (h.done hw)
  cases ha.symm.trans ha'
  exact ⟨a, hid ▸ ha, has.trans hst, haa.trans han, hne⟩

/-- A task whose row is running has no win. -/
theorem Once.none_won (h : Once s) {r : DelegationRecord} (hr : s.store.ends r = true) :
    s.won r.id = 0 := by
  obtain ⟨a, ha, hst⟩ := Store.ends_iff.1 hr
  rw [h.count, if_neg]
  intro hd
  obtain ⟨a', ha', hne⟩ := done_iff.1 hd
  cases ha.symm.trans ha'
  exact hne hst

theorem Once.unwon (h : Once s) {r : DelegationRecord} (hr : s.store.ends r = true) {w : Win}
    (hw : w ∈ s.wins) : w.ended.id ≠ r.id := by
  intro he
  have := won_pos hw
  rw [he, h.none_won hr] at this
  omega

/-- Two calls that ended one task are one. -/
theorem Once.one_win (h : Once s) {w w' : Win} (hw : w ∈ s.wins) (hw' : w' ∈ s.wins)
    (hid : w.ended.id = w'.ended.id) : w = w' := by
  have hc := h.count w.ended.id
  rw [if_pos (h.done hw), State.won, List.countP_eq_length_filter, List.length_eq_one_iff] at hc
  obtain ⟨a, ha⟩ := hc
  have key : ∀ v ∈ s.wins, v.ended.id = w.ended.id → v = a := by
    intro v hv hvid
    have : v ∈ s.wins.filter (·.ended.id == w.ended.id) :=
      List.mem_filter.2 ⟨hv, beq_iff_eq.2 hvid⟩
    rw [ha] at this
    exact List.mem_singleton.1 this
  rw [key w hw rfl, key w' hw' hid.symm]

theorem saving_running (hk : Known s) {i : Nat} {entry : DelegationRecord}
    (hi : s.At i (.saving entry)) : entry.status = .running := by
  have ha := (hk.drawn _ (hk.saving i entry hi).1).1
  exact congrArg DelegationRecord.status ha.symm

theorem count_step (h : Once s) (hk : Known s) (hn : next s e = some s') (id : String) :
    s'.won id = if s'.store.done id = true then 1 else 0 := by
  have same : s'.wins = s.wins → s'.won id = s.won id := fun hw => by rw [State.won, hw, State.won]
  cases effect hn with
  | quiet hw hrow =>
    rw [same hw, h.count, Store.done, Store.done, hrow]
  | @saved i now entry hi hw hrow =>
    rw [same hw, h.count, Store.done, Store.done, hrow]
    by_cases hid : id = entry.id
    · rw [if_pos hid, hid, (hk.saving i entry hi).2]
      simp [saving_running hk hi]
    · rw [if_neg hid]
  | @noted i now r hi hw hrow =>
    rw [same hw, h.count, Store.done, Store.done, hrow]
    by_cases hid : id = r.id
    · obtain ⟨a, ha, hst, -, hne⟩ := h.row (h.notes i r hi)
      have hne' : r.status ≠ .running := hst ▸ hne
      rw [if_pos hid, hid, ha]
      simp [hne, hne']
    · rw [if_neg hid]
  | @won i now k how r hi hends hwr hw hrow =>
    rw [won_cons hw, Store.done, hrow]
    by_cases hid : id = r.id
    · have hne := h.closes i k hi r (ends_closes hends)
      subst hid
      simp [h.none_won hwr, hne]
    · rw [if_neg (Ne.symm hid), if_neg hid, h.count, Store.done, Nat.add_zero]

theorem verdict_step (h : Once s) (hk : Known s) (hn : next s e = some s') : ∀ w ∈ s'.wins,
    ∃ r, s'.store.getDelegation w.ended.id = some r ∧ r.status = w.ended.status ∧
      r.answer = w.ended.answer := by
  intro w hw
  cases effect hn with
  | quiet hwins hrow =>
    rw [hrow]
    exact h.verdict w (hwins ▸ hw)
  | @saved i now entry hi hwins hrow =>
    obtain ⟨r, hr, hv⟩ := h.verdict w (hwins ▸ hw)
    rw [hrow, if_neg]
    · exact ⟨r, hr, hv⟩
    · intro hid
      rw [hid, (hk.saving i entry hi).2] at hr
      cases hr
  | @noted i now r hi hwins hrow =>
    obtain ⟨a, ha, hst, han⟩ := h.verdict w (hwins ▸ hw)
    rw [hrow]
    split
    · rename_i hid
      obtain ⟨a', ha', hst', han', -⟩ := h.row (h.notes i r hi)
      cases ha.symm.trans (hid ▸ ha')
      exact ⟨r, rfl, hst'.symm.trans hst, han'.symm.trans han⟩
    · exact ⟨a, ha, hst, han⟩
  | @won i now k how r hi hends hwr hwins hrow =>
    rw [hwins] at hw
    rcases List.mem_cons.1 hw with rfl | hw
    · exact ⟨r, by rw [hrow, if_pos rfl], rfl, rfl⟩
    · rw [hrow, if_neg (h.unwon hwr hw)]
      exact h.verdict w hw

theorem wins_drawn_step (h : Once s) (hk : Known s) (hn : next s e = some s') :
    ∀ w ∈ s'.wins, Drawn s' w.ended := by
  intro w hw
  cases effect hn with
  | quiet hwins => exact (h.drawn w (hwins ▸ hw)).step hn
  | saved _ hwins => exact (h.drawn w (hwins ▸ hw)).step hn
  | noted _ hwins => exact (h.drawn w (hwins ▸ hw)).step hn
  | @won i now k how r hi hends _ hwins =>
    rw [hwins] at hw
    rcases List.mem_cons.1 hw with rfl | hw
    · exact (hk.held i k hi r (ends_holds hends)).step hn
    · exact (h.drawn w hw).step hn

theorem closes_step (h : Once s) (hn : next s e = some s') :
    ∀ i k, s'.At i k → ∀ r ∈ k.closes, r.status ≠ .running := by
  intro i k hi r hr
  cases came hn hi with
  | stayed hj => exact h.closes i k hj r hr
  | delegate | cancel | forget | recover => cases hr
  | moved _ hk hg =>
    rcases goes_closes hg hr with hr | hne
    · exact h.closes _ _ hk r hr
    · exact hne
  | spawned => cases hr
  | heard _ _ hh => exact hears_closes hh hr

theorem Wins.step {party : Nat} {r : DelegationRecord} {w : Win} (h : Wins s party r w)
    (hn : next s e = some s') : Wins s' party r w :=
  { h with won := (ghosts_step hn).2.2 w h.won }

/-- The win of the coroutine that has just won. -/
theorem Owner.wins {j party : Nat} {r : DelegationRecord} {k : Point} {how : How} {now : Time}
    (h : Owner s s' e j party r k how now) (hn : next s e = some s') :
    Wins s' party r ⟨party, how, r⟩ := by
  have hwon : s'.wins = ⟨party, how, r⟩ :: s.wins := by
    cases h.event
    exact won_step hn h.point h.ends h.written
  exact ⟨hwon ▸ List.mem_cons_self, rfl, rfl, h.how.imp And.left And.left, h.asked⟩

theorem owed_step (h : Once s) (hn : next s e = some s') : ∀ i k party r, s'.At i k →
    k.answers = some (party, r) → ∃ w, Wins s' party r w := by
  intro i k party r hi ha
  rcases answers_came hn hi ha with ⟨k₀, hk, hk₀⟩ | ⟨_, _, _, ho⟩
  · obtain ⟨w, hw⟩ := h.owed i k₀ party r hk hk₀
    exact ⟨w, hw.step hn⟩
  · exact ⟨_, ho.wins hn⟩

/-- What a coroutine that has just won answers was answered by no other. -/
theorem Owner.first {j party : Nat} {r : DelegationRecord} {k : Point} {how : How} {now : Time}
    (ho : Owner s s' e j party r k how now) (h : Once s) {w : Win} (hw : w ∈ s.wins) :
    w.ended.id ≠ r.id := h.unwon ho.written hw

theorem apart_step (h : Once s) (hn : next s e = some s') : ∀ i j k c p q r u, s'.At i k →
    s'.At j c → k.answers = some (p, r) → c.answers = some (q, u) → r.id = u.id → i = j := by
  intro i j k c p q r u hi hj hk hc hid
  rcases answers_came hn hi hk with ⟨k₀, hi₀, hk₀⟩ | ⟨_, _, _, ho⟩ <;>
    rcases answers_came hn hj hc with ⟨c₀, hj₀, hc₀⟩ | ⟨_, _, _, ho'⟩
  · exact h.apart i j k₀ c₀ p q r u hi₀ hj₀ hk₀ hc₀ hid
  · obtain ⟨w, hw⟩ := h.owed i k₀ p r hi₀ hk₀
    exact absurd (hw.ended ▸ hid) (ho'.first h hw.won)
  · obtain ⟨w, hw⟩ := h.owed j c₀ q u hj₀ hc₀
    exact absurd (hw.ended ▸ hid.symm) (ho.first h hw.won)
  · -- one step makes one win, of one coroutine
    have he := ho.event.symm.trans ho'.event
    cases he
    cases Pool.At.eq ho.point ho'.point
    cases ho.ends.symm.trans ho'.ends
    rcases ho.how with ⟨rfl, rfl⟩ | ⟨rfl, rfl⟩ <;> rcases ho'.how with ⟨hx, rfl⟩ | ⟨hx, rfl⟩ <;>
      first
      | rfl
      | cases hx

theorem fresh_step (h : Once s) (hn : next s e = some s') : ∀ i k party r, s'.At i k →
    k.answers = some (party, r) → ∀ t ∈ s'.turns, t.task ≠ r.id := by
  intro i k party r hi ha t ht
  have old : t ∈ s.turns → t.task ≠ r.id := by
    intro ht
    rcases answers_came hn hi ha with ⟨k₀, hk, hk₀⟩ | ⟨_, _, _, ho⟩
    · exact h.fresh i k₀ party r hk hk₀ t ht
    · obtain ⟨w, hw, hid, -⟩ := h.starts t (h.turns t ht)
      exact hid ▸ ho.first h hw.won
  rcases turns_step hn with hs | ⟨j, now, q, u, deadline, rfl, hj, hs⟩
  · exact old (hs ▸ ht)
  · rcases List.mem_cons.1 (hs ▸ ht) with rfl | ht
    · intro hid
      -- the turn came back to another coroutine, which had the answer of another task
      rcases answers_came hn hi ha with ⟨k₀, hk, hk₀⟩ | ⟨_, _, _, ho⟩
      · have hij := h.apart j i _ k₀ q party u r hj hk rfl hk₀ hid
        subst hij
        cases came hn hi with
        | stayed _ hne => exact hne rfl
        | heard _ hk' hh =>
          cases Pool.At.eq hk' hj
          cases hh <;> cases ha
      · cases ho.event
    · exact old ht

theorem notes_step (h : Once s) (hn : next s e = some s') :
    ∀ i r, s'.At i (.noting r) → Final s' r := by
  intro i r hi
  have keep : ∀ w ∈ s.wins, w ∈ s'.wins := (ghosts_step hn).2.2
  rcases noting_came hn hi with ⟨hi, -⟩ | ⟨party, a, deadline, hj, hid, hst, han, -⟩
  · obtain ⟨w, hw, hv⟩ := h.notes i r hi
    exact ⟨w, keep w hw, hv⟩
  · obtain ⟨w, hw⟩ := h.owed i _ party a hj rfl
    obtain rfl := hw.ended
    exact ⟨w, keep w hw.won, hid, hst, han⟩

theorem called_step (h : Once s) (hn : next s e = some s') : ∀ i party r deadline,
    s'.At i (.dispatched party r deadline) → ⟨party, r.id, answerRequest r⟩ ∈ s'.starts := by
  intro i party r deadline hi
  have keep : ∀ d ∈ s.starts, d ∈ s'.starts := by
    intro d hd
    rcases starts_step hn with hs | ⟨_, _, _, _, -, hs⟩
    · exact hs ▸ hd
    · exact hs ▸ List.mem_cons_of_mem _ hd
  cases came hn hi with
  | stayed hj => exact keep _ (h.called i party r deadline hj)
  | moved _ hk hg =>
    cases hg
    cases next_step hn with
    | step _ hk' =>
      cases Pool.At.eq hk' hk
      rw [(spawns_wins _ _ _).2.1]
      exact List.mem_cons_self
  | heard _ _ hh => cases hh

theorem starts_owned_step (h : Once s) (hn : next s e = some s') : ∀ d ∈ s'.starts,
    ∃ w, Wins s' d.party w.ended w ∧ w.ended.id = d.task ∧ d.request = answerRequest w.ended := by
  intro d hd
  have old : d ∈ s.starts → ∃ w, Wins s' d.party w.ended w ∧ w.ended.id = d.task ∧
      d.request = answerRequest w.ended := by
    intro hd
    obtain ⟨w, hw, hv⟩ := h.starts d hd
    exact ⟨w, hw.step hn, hv⟩
  rcases starts_step hn with hs | ⟨j, party, r, deadline, hj, hs⟩
  · exact old (hs ▸ hd)
  · rcases List.mem_cons.1 (hs ▸ hd) with rfl | hd
    · obtain ⟨w, hw⟩ := h.owed j _ party r hj rfl
      obtain rfl := hw.ended
      exact ⟨w, hw.step hn, rfl, rfl⟩
    · exact old hd

theorem turns_called_step (h : Once s) (hn : next s e = some s') :
    (∀ t ∈ s'.turns, t ∈ s'.starts) ∧ (s'.turns.map (·.task)).Nodup := by
  rcases turns_step hn with ht | ⟨j, now, party, r, deadline, rfl, hj, ht⟩
  · rw [ht]
    refine ⟨fun t hs => ?_, h.nodup⟩
    rcases starts_step hn with hs' | ⟨_, _, _, _, -, hs'⟩ <;> rw [hs']
    · exact h.turns t hs
    · exact List.mem_cons_of_mem _ (h.turns t hs)
  · have hs' : s'.starts = s.starts := by
      cases next_step hn
      rfl
    rw [ht, hs']
    refine ⟨fun t hs => ?_, ?_⟩
    · rcases List.mem_cons.1 hs with rfl | hs
      · exact h.called j party r deadline hj
      · exact h.turns t hs
    · rw [List.map_cons, List.nodup_cons]
      refine ⟨fun hx => ?_, h.nodup⟩
      obtain ⟨t, hmem, hid⟩ := List.mem_map.1 hx
      exact h.fresh j _ party r hj rfl t hmem hid

theorem once_step (h : Once s) (hk : Known s) (hn : next s e = some s') : Once s' where
  closes := closes_step h hn
  count := count_step h hk hn
  verdict := verdict_step h hk hn
  drawn := wins_drawn_step h hk hn
  owed := owed_step h hn
  fresh := fresh_step h hn
  apart := apart_step h hn
  notes := notes_step h hn
  called := called_step h hn
  starts := starts_owned_step h hn
  turns := (turns_called_step h hn).1
  nodup := (turns_called_step h hn).2

theorem once {C : State → Event → Prop} (h : lts.Reach C s) : Once s := by
  refine h.inv_using (fun s h0 => ?_) fun s e s' hr ih _ hn => once_step ih (known hr) hn
  cases h0
  have none_at : ∀ i k, ¬ Pool.At (⟨⟨.empty, []⟩, []⟩ : Pool Store Point) i k := by
    intro i k hi
    simp [Pool.At] at hi
  exact
    { closes := fun i k hi => absurd hi (none_at i k)
      count := fun id => rfl
      verdict := by simp
      drawn := by simp
      owed := fun i k _ _ hi => absurd hi (none_at i k)
      fresh := fun i k _ _ hi => absurd hi (none_at i k)
      apart := fun i _ k _ _ _ _ _ hi => absurd hi (none_at i k)
      notes := fun i _ hi => absurd hi (none_at i _)
      called := fun i _ _ _ hi => absurd hi (none_at i _)
      starts := by simp
      turns := by simp
      nodup := .nil }

/-- A verdict that is written is the verdict after every later step. -/
theorem verdict_kept (h : Once s) (hk : Known s) (hn : next s e = some s')
    {r : DelegationRecord} {id : String} (hr : s.store.getDelegation id = some r)
    (hst : r.status ≠ .running) : ∃ r', s'.store.getDelegation id = some r' ∧
      r'.status = r.status ∧ r'.answer = r.answer := by
  cases effect hn with
  | quiet _ hrow => exact ⟨r, by rw [hrow, hr], rfl, rfl⟩
  | @saved i now entry hi _ hrow =>
    rw [hrow, if_neg]
    · exact ⟨r, hr, rfl, rfl⟩
    · intro hid
      rw [hid, (hk.saving i entry hi).2] at hr
      cases hr
  | @noted i now a hi _ hrow =>
    rw [hrow]
    split
    · rename_i hid
      obtain ⟨b, hb, hbs, hba, -⟩ := h.row (h.notes i a hi)
      cases hr.symm.trans (hid ▸ hb)
      exact ⟨a, rfl, hbs.symm, hba.symm⟩
    · exact ⟨r, hr, rfl, rfl⟩
  | @won i now k how a hi hends hwr _ hrow =>
    rw [hrow, if_neg]
    · exact ⟨r, hr, rfl, rfl⟩
    · intro hid
      obtain ⟨b, hb, hbs⟩ := Store.ends_iff.1 hwr
      cases hr.symm.trans (hid ▸ hb)
      exact hst hbs

/-- So along a run. -/
theorem verdict_run {C : State → Event → Prop} (h : lts.Reach C s) {es : List Event}
    (hrun : lts.Run C s es s') {r : DelegationRecord} {id : String}
    (hr : s.store.getDelegation id = some r) (hst : r.status ≠ .running) :
    ∃ r', s'.store.getDelegation id = some r' ∧ r'.status = r.status ∧ r'.answer = r.answer := by
  refine hrun.inv (I := fun s' => ∃ r', s'.store.getDelegation id = some r' ∧
    r'.status = r.status ∧ r'.answer = r.answer) h ⟨r, hr, rfl, rfl⟩
    fun s₁ e s₂ hr₁ ⟨r₁, hrow, hs, ha⟩ _ hn => ?_
  obtain ⟨r₂, hrow₂, hs₂, ha₂⟩ := verdict_kept (once hr₁) (known hr₁) hn hrow (hs ▸ hst)
  exact ⟨r₂, hrow₂, hs₂.trans hs, ha₂.trans ha⟩

/-- A call of `end_delegation`, whoever made it, leaves its task ended. -/
theorem ends_done {C : State → Event → Prop} (h : lts.Reach C s) {i : Nat} {k : Point}
    {how : How} {r : DelegationRecord} {now : Time} (hi : s.At i k) (hx : k.ends = some (how, r))
    (hn : next s (.step i now) = some s') : s'.store.done r.id = true := by
  have hk := known h
  have h' := once_step (once h) hk hn
  have hsaved : s.store.getDelegation r.id ≠ none :=
    hk.saved i k hi (by rintro entry rfl; cases hx) r (ends_holds hx)
  obtain ⟨a, ha⟩ := Option.ne_none_iff_exists'.1 hsaved
  rw [done_iff]
  by_cases hst : a.status = .running
  · have hends : s.store.ends r = true := Store.ends_iff.2 ⟨a, ha, hst⟩
    have hwon := won_step hn hi hx hends
    obtain ⟨b, hb, hbs, -⟩ := h'.verdict ⟨i, how, r⟩ (hwon ▸ List.mem_cons_self)
    refine ⟨b, hb, hbs ▸ ?_⟩
    exact (once h).closes i k hi r (ends_closes hx)
  · obtain ⟨b, hb, hbs, -⟩ := verdict_kept (once h) hk hn ha hst
    exact ⟨b, hb, hbs ▸ hst⟩

/-- A call of `end_delegation` leaves its task ended by one call. -/
theorem ends_once {C : State → Event → Prop} (h : lts.Reach C s) {i : Nat} {k : Point}
    {how : How} {r : DelegationRecord} {now : Time} (hi : s.At i k) (hx : k.ends = some (how, r))
    (hn : next s (.step i now) = some s') : s'.won r.id = 1 := by
  rw [(once_step (once h) (known h) hn).count, if_pos (ends_done h hi hx hn)]

/-- A delegated task ends once and is answered at most once, for every interleaving: the stored
task is running while no call of `end_delegation` matched, and otherwise exactly one did, whose
status and answer the row keeps along every later run; each call made leaves one. The asker's turn
is run by the coroutine of that call alone, comes back with an outcome at most once, and is not
started for a task that `cancel`, `forget` or the end of the asker's turn ended, nor for a trusted
one. -/
theorem ended_once (h : lts.Reach Lts.Any s) :
    (∀ id r, s.store.getDelegation id = some r →
      s.wins.countP (·.ended.id == id) = if r.status = .running then 0 else 1) ∧
    (∀ i k how r now s', s.At i k → k.ends = some (how, r) → next s (.step i now) = some s' →
      s'.wins.countP (·.ended.id == r.id) = 1) ∧
    (∀ w ∈ s.wins, ∃ r, s.store.getDelegation w.ended.id = some r ∧ r.status ≠ .running ∧
      r.status = w.ended.status ∧ r.answer = w.ended.answer) ∧
    (∀ id r es s', s.store.getDelegation id = some r → r.status ≠ .running →
      lts.Run Lts.Any s es s' → ∃ r', s'.store.getDelegation id = some r' ∧
        r'.status = r.status ∧ r'.answer = r.answer) ∧
    (s.turns.map (·.task)).Nodup ∧ (∀ t ∈ s.turns, t ∈ s.starts) ∧
    (∀ d ∈ s.starts, ∃ w ∈ s.wins, w.party = d.party ∧ w.ended.id = d.task ∧
      d.request = answerRequest w.ended) ∧
    (∀ d ∈ s.starts, ∀ w ∈ s.wins, w.ended.id = d.task →
      w.how ≠ .cancel ∧ w.how ≠ .forget ∧ w.how ≠ .askerGone) ∧
    (∀ d ∈ s.starts, ∀ t ∈ s.drawn, t.2.id = d.task → t.2.trusted = false) := by
  have ho := once h
  have hk := known h
  refine ⟨fun id r hr => ?_, fun i k how r now s' hi hx hn => ends_once h hi hx hn,
    fun w hw => ?_, fun id r es s' hr hst hrun => verdict_run h hrun hr hst, ho.nodup, ho.turns, fun d hd => ?_,
    fun d hd w hw hid => ?_, fun d hd t ht hid => ?_⟩
  · have hc := ho.count id
    rw [State.won, Store.done, hr] at hc
    rw [hc]
    by_cases hst : r.status = .running <;> simp [hst]
  · obtain ⟨r, hr, hst, han⟩ := ho.verdict w hw
    obtain ⟨a, ha, hne⟩ := done_iff.1 (ho.done hw)
    cases hr.symm.trans ha
    exact ⟨r, hr, hne, hst, han⟩
  · obtain ⟨w, hw, hid, hreq⟩ := ho.starts d hd
    exact ⟨w, hw.won, hw.party, hid, hreq⟩
  · obtain ⟨w', hw', hid', -⟩ := ho.starts d hd
    cases ho.one_win hw hw'.won (hid.trans hid'.symm)
    rcases hw'.how with hh | hh <;> rw [hh] <;> exact ⟨nofun, nofun, nofun⟩
  · obtain ⟨w, hw, hid', -⟩ := ho.starts d hd
    obtain ⟨t', ht', he⟩ := ho.drawn w hw.won
    have hx : t = t' := hk.unique t ht t' ht' (by rw [hid, he, asked_id, hid'])
    rw [hx, he, asked_trusted]
    exact hw.asked

namespace Sample

/-- A replica, and a task one of its agents hands another. -/
def replica : Process := ⟨1, true⟩

def entry : DelegationRecord where
  id := "ab"
  agent := "asker"
  toAgent := "other"
  channelId := "c"
  conversationId := "c1"
  kind := "dm"
  userId := "u"
  status := .running
  startedAt := 10
  attributes := []
  finishedAt := none
  answer := ""
  notice := ""
  deliveredAt := none
  trusted := false
  replica := some 1

def start : State := ⟨⟨⟨.empty, []⟩, []⟩, [], [], [], [], [], [], [], []⟩

/-- The task is started, and its turn begins. -/
def handed : List Event := [.boot replica, .beat replica, .delegate replica entry, .step 0 10]

/-- The turn ends while the asker cancels; the cancel comes second, and the answer is handed over. -/
def answer : List Event :=
  [.cancel replica "asker" "c1" "ab", .step 1 20, .hear 0 (.turn .replied "done" "") 21, .step 0 21,
    .step 1 22, .step 0 22, .hear 0 (.ran .turn) 30, .step 0 30]

end Sample

/-- A cancel that comes after the turn's own end changes nothing, and the answer is delivered. -/
theorem ended_once_run : ∃ s, lts.Reach Lts.Any s ∧ s.turns.length = 1 ∧
    s.wins.countP (·.ended.id == "ab") = 1 ∧ (s.turns.map (·.task)).Nodup := by
  have h : (lts.check (fun _ _ => true) Sample.start (Sample.handed ++ Sample.answer)).any
      (fun s => (s.store.getDelegation "ab").any (·.status == .answered) &&
        s.turns.length == 1) = true := by decide
  obtain ⟨s, hs, hq⟩ := (Option.any_eq_true _ _).1 h
  obtain ⟨hrow, hlen⟩ := Bool.and_eq_true_iff.1 hq
  obtain ⟨r, hr, hst⟩ := (Option.any_eq_true _ _).1 hrow
  have hreach : lts.Reach Lts.Any s := Lts.reach_of_check (fun _ _ _ => trivial) rfl hs
  obtain ⟨hcount, -, -, -, hnodup, -⟩ := ended_once hreach
  refine ⟨s, hreach, beq_iff_eq.1 hlen, ?_, hnodup⟩
  rw [hcount "ab" r hr, beq_iff_eq.1 hst]
  rfl

end Delegation
