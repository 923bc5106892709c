import ImpiAgent.Delegation.Proof.Lost

/-!
# What becomes of an answer

A task's verdict is written before the asker's turn on it is run, and `recover` looks at running
tasks only. So the coroutine that ended the task is all there is to know that the answer is to be
handed over: where it is lost in between, or the turn raises, nothing is left that acts on it
(`answer_lost`). `Minded` is the condition that this does not happen to an answer of which nothing
is told yet, and that the record of an answer that could not be handed over has no notice of its own
that the note would leave there. Under it, once a pass of recovery has come to its end, every task
it could see runs on a live replica, was ended by its asker, or is told of (`none_lost`).
-/

namespace Delegation

variable {s s' : State} {e : Event} {σ σ' : Store}

/-- The record whose answer a coroutine has in hand. -/
def Point.owes : Point → Option DelegationRecord
  | .answering _ r _ | .dispatched _ r _ | .noting r => some r
  | _ => none

/-- The notice says that the answer was not handed over, or that the task was lost. -/
def DelegationRecord.admits (r : DelegationRecord) : Prop :=
  r.notice = "undelivered" ∨ r.notice = "engine_restarted"

instance (r : DelegationRecord) : Decidable r.admits := by
  unfold DelegationRecord.admits
  infer_instance

theorem undelivered_admits {r : DelegationRecord} (h : r.admits) : (undelivered r).admits := by
  have hne : r.notice ≠ "" := by
    rintro hx
    rcases h with h | h <;> exact absurd (hx.symm.trans h) (by decide)
  have hkeep : (undelivered r).notice = r.notice := if_neg hne
  unfold DelegationRecord.admits
  rw [hkeep]
  exact h

/-- The asker's turn on task `id` came back. -/
def Handed (s : State) (id : String) : Prop := ∃ t ∈ s.turns, t.task = id

/-- The answer was handed to the asker's conversation, or the record says it was not. -/
def Told (s : State) (id : String) : Prop :=
  Handed s id ∨ ∃ r, s.store.getDelegation id = some r ∧ r.admits

/-- No coroutine is lost with an answer in hand of which nothing is told, no turn on an answer
raises, and an answer that is not handed over has no other notice. -/
structure Minded (s : State) (e : Event) : Prop where
  drop : ∀ i k r, e = .drop i → s.At i k → k.owes = some r → Told s r.id
  die : ∀ p i k r, e = .die p → s.homes[i]? = some p → s.At i k → k.owes = some r → Told s r.id
  raised : ∀ i now party r deadline, e = .hear i (.ran .raised) now →
    s.At i (.dispatched party r deadline) → Told s r.id
  refused : ∀ i now party r deadline a, e = .hear i (.ran a) now →
    s.At i (.dispatched party r deadline) → a = .refused ∨ a = .busy ∧ ¬ now < deadline →
      Told s r.id ∨ r.notice = "" ∨ r.admits

/-- A coroutine that does not move is where it was. -/
theorem at_stays (hn : next s e = some s') {j : Nat} {k : Point} (hj : s.At j k)
    (hne : e.mover ≠ some j) : s'.At j k := by
  cases next_step hn with
  | delegate | cancel | forget | recover => exact Pool.at_start.2 (.inl hj)
  | @step i now p k₀ k' σ hp hk hm =>
    have hput : (s.pool.put i σ k').At j k :=
      Pool.at_put_ne hk hj fun he => hne (congrArg some he.symm)
    cases k₀.spawns i s.store with
    | none => exact hput
    | some c => exact Pool.at_start.2 (.inl hput)
  | hear _ hk => exact Pool.at_put_ne hk hj fun he => hne (congrArg some he.symm)
  | drop => exact Pool.at_kill.2 ⟨fun he => hne (congrArg some he.symm), hj⟩
  | _ => exact hj

/-- A coroutine that issues a statement. -/
theorem at_moved {i : Nat} {now : Time} {k : Point} (hn : next s (.step i now) = some s')
    (hi : s.At i k) : ∃ p c, s.home i = some p ∧ Goes i p now s.store k s'.store c ∧ s'.At i c := by
  cases next_step hn with
  | @step _ _ p k₀ c σ hp hk hm =>
    cases Pool.At.eq hk hi
    rw [State.spawns_store]
    refine ⟨p, c, hp, step_goes hm, ?_⟩
    have hput : (s.pool.put i σ c).At i c := Pool.at_put_self hk
    cases k.spawns i s.store with
    | none => exact hput
    | some c₀ => exact Pool.at_start.2 (.inl hput)

/-- A coroutine that hears what it waited for. -/
theorem at_heard {i : Nat} {h : Heard} {now : Time} {k : Point}
    (hn : next s (.hear i h now) = some s') (hi : s.At i k) :
    ∃ c, Hears now k h c ∧ s'.At i c ∧ s'.turns = k.turns h ++ s.turns := by
  cases next_step hn with
  | hear hp hk hh =>
    cases Pool.At.eq hk hi
    exact ⟨_, hear_hears hh, Pool.at_put_self hk, rfl⟩

/-- The process of a coroutine is alive after a step, unless it has died by it. -/
theorem home_stays (hn : next s e = some s') {j : Nat} {p : Process} (hj : s.home j = some p)
    (hne : e ≠ .die p) : s'.home j = some p := by
  obtain ⟨hh, ha⟩ := home_iff.1 hj
  refine home_iff.2 ⟨(ghosts_step hn).1 j p hh, ?_⟩
  cases next_step hn with
  | boot => exact List.mem_cons_of_mem _ ha
  | @die q => exact List.mem_filter.2 ⟨ha, bne_iff_ne.2 fun he => hne (he ▸ rfl)⟩
  | @step i now q k k' σ hp hk hm => cases k.spawns i s.store <;> exact ha
  | _ => exact ha

/-- A coroutine that has an answer in hand had it before, or has just won. -/
theorem owes_came (hn : next s e = some s') {j : Nat} {c : Point} {r : DelegationRecord}
    (hj : s'.At j c) (hc : c.owes = some r) :
    (∃ k a, s.At j k ∧ k.owes = some a ∧ a.id = r.id) ∨
      ∃ k how now party, Owner s s' e j party r k how now := by
  cases c with
  | noting =>
    cases hc
    rcases noting_came hn hj with ⟨hk, -⟩ | ⟨party, a, deadline, hk, hid, -⟩
    · exact .inl ⟨_, _, hk, rfl, rfl⟩
    · exact .inl ⟨_, a, hk, rfl, hid⟩
  | answering party ended deadline =>
    cases hc
    rcases answers_came hn hj rfl with ⟨k, hk, ha⟩ | ⟨k, how, now, ho⟩
    · cases k <;> cases ha <;> exact .inl ⟨_, _, hk, rfl, rfl⟩
    · exact .inr ⟨k, how, now, party, ho⟩
  | dispatched party ended deadline =>
    cases hc
    rcases answers_came hn hj rfl with ⟨k, hk, ha⟩ | ⟨k, how, now, ho⟩
    · cases k <;> cases ha <;> exact .inl ⟨_, _, hk, rfl, rfl⟩
    · exact .inr ⟨k, how, now, party, ho⟩
  | _ => cases hc

/-- Whoever has an answer in hand, its task has been won. -/
theorem owes_won (h : Once s) {i : Nat} {k : Point} {r : DelegationRecord} (hi : s.At i k)
    (hk : k.owes = some r) : ∃ w ∈ s.wins, w.ended.id = r.id := by
  cases k with
  | noting =>
    cases hk
    obtain ⟨w, hw, hid, -⟩ := h.notes i _ hi
    exact ⟨w, hw, hid⟩
  | answering =>
    cases hk
    obtain ⟨w, hw⟩ := h.owed i _ _ _ hi rfl
    exact ⟨w, hw.won, congrArg DelegationRecord.id hw.ended⟩
  | dispatched =>
    cases hk
    obtain ⟨w, hw⟩ := h.owed i _ _ _ hi rfl
    exact ⟨w, hw.won, congrArg DelegationRecord.id hw.ended⟩
  | _ => cases hk

/-- The answers in hand are of different tasks. -/
def Sole (s : State) : Prop := ∀ i j k c r u, s.At i k → s.At j c → k.owes = some r →
  c.owes = some u → r.id = u.id → i = j

theorem sole_step (h : Sole s) (ho : Once s) (hn : next s e = some s') : Sole s' := by
  intro i j k c r u hi hj hk hc hid
  rcases owes_came hn hi hk with ⟨k₀, a, hi₀, hk₀, ha⟩ | ⟨_, _, _, _, hw⟩ <;>
    rcases owes_came hn hj hc with ⟨c₀, b, hj₀, hc₀, hb⟩ | ⟨_, _, _, _, hw'⟩
  · exact h i j k₀ c₀ a b hi₀ hj₀ hk₀ hc₀ (by rw [ha, hid, hb])
  · obtain ⟨w, hwon, hwid⟩ := owes_won ho hi₀ hk₀
    exact absurd (by rw [hwid, ha, hid]) (hw'.first ho hwon)
  · obtain ⟨w, hwon, hwid⟩ := owes_won ho hj₀ hc₀
    exact absurd (by rw [hwid, hb, hid]) (hw.first ho hwon)
  · cases hw.event.symm.trans hw'.event
    cases Pool.At.eq hw.point hw'.point
    cases hw.ends.symm.trans hw'.ends
    rcases hw.how with ⟨rfl, rfl⟩ | ⟨rfl, rfl⟩ <;> rcases hw'.how with ⟨hx, rfl⟩ | ⟨hx, rfl⟩ <;>
      first
      | rfl
      | cases hx

/-- What an answer in hand is, against the row of its task. -/
structure Rows (s : State) : Prop where
  answer : ∀ i k party r, s.At i k → k.answers = some (party, r) →
    s.store.getDelegation r.id = some r
  note : ∀ i r, s.At i (.noting r) → ∃ a, s.store.getDelegation r.id = some a ∧ (a.admits → r.admits)
  failing : ∀ i r todo, s.At i (.failing r todo) → r.notice = "engine_restarted"
  watched : ∀ i entry, s.At i (.turning entry true) → entry.trusted = true
  calling : ∀ i entry r, s.At i (.callingOff entry r) → r.trusted = true

theorem answers_owes {k : Point} {party : Nat} {r : DelegationRecord}
    (h : k.answers = some (party, r)) : k.owes = some r := by
  cases k <;> cases h <;> rfl

/-- The row of a task whose answer is in hand is not written by another. -/
theorem owed_row (ho : Once s) (hk : Known s) (hs : Sole s) (hn : next s e = some s') {i : Nat}
    {k : Point} {r a : DelegationRecord} (hi : s.At i k) (hr : k.owes = some r)
    (hnote : ∀ u, k = .noting u → e.mover ≠ some i) (ha : s.store.getDelegation r.id = some a) :
    s'.store.getDelegation r.id = some a := by
  obtain ⟨w, hw, hid⟩ := owes_won ho hi hr
  cases effect hn with
  | quiet _ hrow => rw [hrow, ha]
  | @saved j now entry hj _ hrow =>
    rw [hrow, if_neg, ha]
    intro hx
    rw [hx, (hk.saving j entry hj).2] at ha
    cases ha
  | @noted j now u hj _ hrow =>
    rw [hrow, if_neg, ha]
    intro hx
    have hij := hs i j k _ r u hi hj hr rfl hx
    subst hij
    cases Pool.At.eq hi hj
    exact hnote _ rfl rfl
  | @won j now c how u hj hends hwr _ hrow =>
    rw [hrow, if_neg, ha]
    exact fun hx => ho.unwon hwr hw (hid.trans hx)

/-- The row of a task that has just been won is what it was ended with. -/
theorem Owner.row {j party : Nat} {r : DelegationRecord} {k : Point} {how : How} {now : Time}
    (h : Owner s s' e j party r k how now) (hn : next s e = some s') :
    s'.store.getDelegation r.id = some r := by
  cases h.event
  have hk := h.point
  cases next_step hn with
  | step _ hk' hm =>
    cases Pool.At.eq hk' hk
    rw [State.spawns_store]
    have hx := h.ends
    cases goes_wrote (step_goes hm) with
    | ended hends =>
      cases hends.symm.trans hx
      exact Store.get_end.trans (if_pos ⟨rfl, h.written⟩)
    | read hends => cases hends.symm.trans hx
    | saved => cases hx
    | noted => cases hx

/-- Only the turn of a trusted task is watched. -/
theorem goes_watched {i : Nat} {p : Process} {now : Time} {k c : Point} {entry : DelegationRecord}
    (h : Goes i p now σ k σ' c) (hc : c = .turning entry true) : entry.trusted = true := by
  cases h with
  | saved =>
    obtain ⟨rfl, ht⟩ := Point.turning.inj hc
    exact ht
  | _ => cases hc

theorem rows_step (h : Rows s) (ho : Once s) (hk : Known s) (hs : Sole s)
    (hn : next s e = some s') : Rows s' := by
  refine ⟨fun i k party r hi ha => ?_, fun i r hi => ?_, fun i r todo hi => ?_,
    fun i entry hi => ?_, fun i entry r hi => ?_⟩
  · rcases answers_came hn hi ha with ⟨k₀, hi₀, ha₀⟩ | ⟨_, _, _, hw⟩
    · refine owed_row ho hk hs hn hi₀ (answers_owes ha₀) ?_ (h.answer i k₀ party r hi₀ ha₀)
      rintro u rfl
      cases ha₀
    · exact hw.row hn
  · rcases noting_came hn hi with ⟨hi, hne⟩ | ⟨party, a, deadline, hi₀, hid, -, -, hnote⟩
    · obtain ⟨a, ha, hadm⟩ := h.note i r hi
      exact ⟨a, owed_row ho hk hs hn hi rfl (fun _ _ => hne) ha, hadm⟩
    · have hrow := h.answer i _ party a hi₀ rfl
      have hkeep := owed_row ho hk hs hn hi₀ rfl (by rintro u hu; cases hu) hrow
      refine ⟨a, hid ▸ hkeep, fun hadm => ?_⟩
      rcases hnote with hnote | hnote
      · rcases hadm with hx | hx <;> exact absurd (hnote.symm.trans hx) (by decide)
      · unfold DelegationRecord.admits
        rw [hnote]
        exact hadm
  · rcases failing_came hn hi with hi | ⟨_, _, _, _, _, _, _, _, hnote⟩
    · exact h.failing i r todo hi
    · exact hnote
  · cases came hn hi with
    | stayed hj => exact h.watched i entry hj
    | moved _ _ hg => exact goes_watched hg rfl
    | heard _ _ hh => cases hh
  · cases came hn hi with
    | stayed hj => exact h.calling i entry r hj
    | moved _ _ hg => cases hg
    | heard _ hj hh =>
      cases hh with
      | @gone entry => exact h.watched i entry hj

theorem Handed.step {id : String} (h : Handed s id) (hn : next s e = some s') : Handed s' id := by
  obtain ⟨t, ht, hid⟩ := h
  refine ⟨t, ?_, hid⟩
  rcases turns_step hn with hs | ⟨_, _, _, _, _, -, -, hs⟩
  · exact hs ▸ ht
  · exact hs ▸ List.mem_cons_of_mem _ ht

/-- What is told of a task that has ended stays. -/
theorem Told.step {id : String} (h : Told s id) (hwon : ∃ w ∈ s.wins, w.ended.id = id)
    (ho : Once s) (hk : Known s) (hr : Rows s) (hn : next s e = some s') : Told s' id := by
  rcases h with h | ⟨a, ha, hadm⟩
  · exact .inl (h.step hn)
  · refine .inr ?_
    obtain ⟨w, hw, rfl⟩ := hwon
    cases effect hn with
    | quiet _ hrow => exact ⟨a, by rw [hrow, ha], hadm⟩
    | @saved j now entry hj _ hrow =>
      refine ⟨a, ?_, hadm⟩
      rw [hrow, if_neg, ha]
      intro hx
      rw [hx, (hk.saving j entry hj).2] at ha
      cases ha
    | @noted j now u hj _ hrow =>
      by_cases hx : w.ended.id = u.id
      · obtain ⟨b, hb, hkeep⟩ := hr.note j u hj
        cases ha.symm.trans (hx ▸ hb)
        exact ⟨u, by rw [hrow, if_pos hx], hkeep hadm⟩
      · exact ⟨a, by rw [hrow, if_neg hx, ha], hadm⟩
    | @won j now c how u hj hends hwr _ hrow =>
      exact ⟨a, by rw [hrow, if_neg (ho.unwon hwr hw), ha], hadm⟩

/-- A coroutine of a process that is alive has the answer of task `id` in hand, and where all that
is left to do is the note, the answer was handed over or the note says that it was not. -/
def InHand (s : State) (id : String) : Prop :=
  ∃ i k r, s.At i k ∧ s.home i ≠ none ∧ k.owes = some r ∧ r.id = id ∧
    ∀ u, k = .noting u → Handed s id ∨ u.admits

/-- Of a task that its turn or recovery ended the answer is in hand, or something is told; a task
that the end of the asker's turn ended is a trusted one. -/
structure Accounted (s : State) : Prop where
  told : ∀ w ∈ s.wins, w.how = .turn ∨ w.how = .recovery → w.ended.trusted = false →
    Told s w.ended.id ∨ InHand s w.ended.id
  gone : ∀ w ∈ s.wins, w.how = .askerGone → w.ended.trusted = true

theorem home_ne_none {i : Nat} (h : s.home i ≠ none) : ∃ p, s.home i = some p :=
  Option.ne_none_iff_exists'.1 h

/-- An answer in hand stays in hand, or something is told of it. -/
theorem InHand.step {id : String} (h : InHand s id) (hC : Minded s e) (ho : Once s) (hk : Known s)
    (hr : Rows s) (hn : next s e = some s') : Told s' id ∨ InHand s' id := by
  obtain ⟨i, k, r, hi, hhome, howes, rfl, hnote⟩ := h
  obtain ⟨p, hp⟩ := home_ne_none hhome
  have hwon := owes_won ho hi howes
  have told : Told s r.id → Told s' r.id := fun ht => ht.step hwon ho hk hr hn
  by_cases hdie : e = .die p
  · exact .inl (told (hC.die p i k r hdie (home_iff.1 hp).1 hi howes))
  have hhome' : s'.home i ≠ none := by
    rw [home_stays hn hp hdie]
    exact Option.some_ne_none _
  by_cases hmove : e.mover = some i
  · cases e with
    | step j now =>
      cases hmove
      obtain ⟨q, c, -, hg, hc⟩ := at_moved hn hi
      cases k with
      | answering =>
        cases howes
        generalize s'.store = σ at hg
        cases hg
        exact .inr ⟨i, _, r, hc, hhome', rfl, rfl, by rintro u hu; cases hu⟩
      | noting =>
        cases howes
        have hrow : s'.store.getDelegation r.id = some r := by
          generalize s'.store = σ at hg
          cases hg
          rw [Store.get_save, if_pos rfl]
        rcases hnote r rfl with hh | hadm
        · exact .inl (.inl (hh.step hn))
        · exact .inl (.inr ⟨r, hrow, hadm⟩)
      | dispatched => cases hg
      | _ => cases howes
    | hear j heard now =>
      cases hmove
      obtain ⟨c, hh, hc, hturns⟩ := at_heard hn hi
      cases k with
      | dispatched party =>
        cases howes
        cases hh with
        | handed =>
          refine .inl (.inl ⟨⟨party, r.id, answerRequest r⟩, ?_, rfl⟩)
          rw [hturns]
          exact List.mem_cons_self
        | again => exact .inr ⟨i, _, r, hc, hhome', rfl, rfl, by rintro u hu; cases hu⟩
        | refused ha =>
          rcases hC.refused i now _ r _ _ rfl hi ha with ht | hempty | hadm
          · exact .inl (told ht)
          · refine .inr ⟨i, _, _, hc, hhome', rfl, rfl, fun u hu => .inr ?_⟩
            cases hu
            exact .inl (if_pos hempty)
          · refine .inr ⟨i, _, _, hc, hhome', rfl, rfl, fun u hu => .inr ?_⟩
            cases hu
            exact undelivered_admits hadm
        | raised => exact .inl (told (hC.raised i now _ r _ rfl hi))
      | answering | noting => cases hh
      | _ => cases howes
    | drop j =>
      cases hmove
      exact .inl (told (hC.drop i k r rfl hi howes))
    | _ => cases hmove
  · refine .inr ⟨i, k, r, at_stays hn hi hmove, hhome', howes, rfl, fun u hu => ?_⟩
    exact (hnote u hu).imp_left fun hh => hh.step hn

theorem accounted_step (h : Accounted s) (hC : Minded s e) (ho : Once s) (hk : Known s)
    (hr : Rows s) (hn : next s e = some s') : Accounted s' := by
  have told : ∀ w ∈ s.wins, w.how = .turn ∨ w.how = .recovery → w.ended.trusted = false →
      Told s' w.ended.id ∨ InHand s' w.ended.id := by
    intro w hw hhow ht
    rcases h.told w hw hhow ht with htold | hhand
    · exact .inl (htold.step ⟨w, hw, rfl⟩ ho hk hr hn)
    · exact hhand.step hC ho hk hr hn
  cases effect hn with
  | quiet hwins => exact ⟨hwins ▸ told, hwins ▸ h.gone⟩
  | saved _ hwins => exact ⟨hwins ▸ told, hwins ▸ h.gone⟩
  | noted _ hwins => exact ⟨hwins ▸ told, hwins ▸ h.gone⟩
  | @won i now k how r hi hends hwr hwins hrow =>
    refine ⟨fun w hw hhow ht => ?_, fun w hw hhow => ?_⟩
    · rcases List.mem_cons.1 (hwins ▸ hw) with rfl | hw
      · -- the coroutine of the task goes on to the answer; recovery leaves its notice in the row
        cases k with
        | ending =>
          cases hends
          obtain ⟨p, c, hp, hg, hc⟩ := at_moved hn hi
          have hhome : s'.home i ≠ none := by
            rw [home_stays hn hp nofun]
            exact Option.some_ne_none _
          generalize s'.store = σ at hg
          cases hg with
          | won => exact .inr ⟨i, _, r, hc, hhome, rfl, rfl, by rintro u hu; cases hu⟩
          | ended htr => exact absurd (htr hwr) (by rw [ht]; decide)
        | failing =>
          cases hends
          exact .inl (.inr ⟨r, by rw [hrow, if_pos rfl], .inr (hr.failing i r _ hi)⟩)
        | forgetNext todo =>
          cases todo <;> cases hends
          rcases hhow with hx | hx <;> cases hx
        | _ =>
          cases hends
          try (rcases hhow with hx | hx <;> cases hx)
      · exact told w hw hhow ht
    · rcases List.mem_cons.1 (hwins ▸ hw) with rfl | hw
      · cases hhow
        cases k with
        | callingOff =>
          cases hends
          exact hr.calling i _ r hi
        | forgetNext todo => cases todo <;> cases hends
        | _ => cases hends
      · exact h.gone w hw hhow

theorem told_or_in_hand {C : State → Event → Prop} (hC : ∀ s e, C s e → Minded s e)
    (h : lts.Reach C s) : Sole s ∧ Rows s ∧ Accounted s := by
  refine h.inv_using (I := fun s => Sole s ∧ Rows s ∧ Accounted s) (fun s h0 => ?_)
    fun s e s' hr ⟨hs, hrow, ha⟩ hc hn => ?_
  · cases h0
    have none_at : ∀ i k, ¬ Pool.At (⟨⟨.empty, []⟩, []⟩ : Pool Store Point) i k := by
      intro i k hi
      simp [Pool.At] at hi
    refine ⟨fun i _ k _ _ _ hi => absurd hi (none_at i k), ⟨fun i k _ _ hi => ?_, fun i _ hi => ?_,
      fun i _ _ hi => ?_, fun i _ hi => ?_, fun i _ _ hi => ?_⟩, ⟨by simp, by simp⟩⟩ <;>
      exact absurd hi (none_at i _)
  · exact ⟨sole_step hs (once hr) hn, rows_step hrow (once hr) (known hr) hs hn,
      accounted_step ha (hC s e hc) (once hr) (known hr) hrow hn⟩

/-! ## A pass of recovery -/

/-- Task `id` is still ahead of a coroutine of `recover`. -/
def Point.Awaits (id : String) : Point → Prop
  | .recovering => True
  | .recoverNext todo => ∃ r ∈ todo, r.id = id
  | .failing r todo => r.id = id ∨ ∃ u ∈ todo, u.id = id
  | _ => False

/-- Somewhere on the way from `s` to `s'` the task's replica held its lease. -/
def LiveBetween (C : State → Event → Prop) (s : State) (es : List Event) (s' : State)
    (id : String) : Prop :=
  ∃ es₁ s₁ es₂ r q, es = es₁ ++ es₂ ∧ lts.Run C s es₁ s₁ ∧ lts.Run C s₁ es₂ s' ∧
    s₁.store.getDelegation id = some r ∧ r.replica = some q ∧ q ∈ s₁.store.present

theorem calls_grow (hn : next s e = some s') : s.pool.calls.length ≤ s'.pool.calls.length := by
  cases next_step hn with
  | delegate | cancel | forget | recover => simp [State.spawn, Pool.start]
  | @step i now p k k' σ hp hk hm =>
    cases k.spawns i s.store <;> simp [State.spawns, State.spawn, Pool.start, Pool.put]
  | hear => simp [Pool.put]
  | drop => simp [Pool.kill]
  | _ => exact le_refl _

/-- A coroutine that is there at the end of a run was there all along. -/
theorem run_back {C : State → Event → Prop} {es : List Event} (hrun : lts.Run C s es s') {j : Nat}
    {c : Point} (hj : s'.At j c) (hlt : j < s.pool.calls.length) : ∃ k, s.At j k := by
  induction hrun with
  | nil => exact ⟨c, hj⟩
  | cons _ hn _ ih =>
    replace hn : next _ _ = some _ := hn
    obtain ⟨k, hk⟩ := ih hj (Nat.lt_of_lt_of_le hlt (calls_grow hn))
    cases came hn hk with
    | stayed hk => exact ⟨_, hk⟩
    | moved _ hk => exact ⟨_, hk⟩
    | heard _ hk => exact ⟨_, hk⟩
    | _ => exact absurd hlt (Nat.lt_irrefl _)

theorem lost_false {p : Process} {entry : DelegationRecord} (h : lost p σ entry = false) :
    ∃ q, entry.replica = some q ∧ q ∈ σ.present := by
  cases hq : entry.replica with
  | none => simp [lost, hq] at h
  | some q =>
    simp [lost, hq, Store.live] at h
    exact ⟨q, rfl, h.2⟩

/-- Two records of one task are one but for how it ended. -/
theorem same_asked (hk : Known s) {r u : DelegationRecord} (hr : Drawn s r) (hu : Drawn s u)
    (hid : r.id = u.id) : r.asked = u.asked := by
  obtain ⟨d, hd, he⟩ := hr
  obtain ⟨d', hd', he'⟩ := hu
  have hx := hk.unique d hd d' hd' (by rw [he, he', asked_id, asked_id, hid])
  rw [← he, ← he', hx]

/-- At the end of a pass a task that was ahead of it has ended, or its replica was there. -/
theorem pass {C : State → Event → Prop} {es : List Event} {j : Nat} {k : Point} {id : String}
    {r : DelegationRecord} (h : lts.Reach C s) (hrun : lts.Run C s es s') (hj : s.At j k)
    (hk : k.Awaits id) (hrow : s.store.getDelegation id = some r)
    (hend : s'.At j (.recoverNext [])) :
    (∃ a, s'.store.getDelegation id = some a ∧ a.status ≠ .running) ∨
      LiveBetween C s es s' id := by
  induction hrun generalizing k r with
  | nil =>
    cases Pool.At.eq hj hend
    obtain ⟨_, hx, -⟩ := hk
    cases hx
  | @cons s s₁ s' e es hc hn hrun ih =>
    replace hn : next s e = some s₁ := hn
    have h₁ : lts.Reach C s₁ := h.step hc hn
    obtain ⟨r₁, hrow₁⟩ : ∃ r₁, s₁.store.getDelegation id = some r₁ :=
      Option.ne_none_iff_exists'.1 (row_kept hn (by rw [hrow]; exact Option.some_ne_none _))
    have ended : (∃ a, s₁.store.getDelegation id = some a ∧ a.status ≠ .running) →
        ∃ a, s'.store.getDelegation id = some a ∧ a.status ≠ .running := by
      rintro ⟨a, ha, hst⟩
      obtain ⟨b, hb, hbs, -⟩ := verdict_run h₁ hrun ha hst
      exact ⟨b, hb, hbs ▸ hst⟩
    -- on from the next state, where the task is still ahead of the pass
    have onward : ∀ c, s₁.At j c → c.Awaits id →
        (∃ a, s'.store.getDelegation id = some a ∧ a.status ≠ .running) ∨
          LiveBetween C s (e :: es) s' id := by
      intro c hcat hca
      rcases ih h₁ hcat hca hrow₁ hend with hdone | ⟨es₁, s₂, es₂, a, q, rfl, h1, h2, hlive⟩
      · exact .inl hdone
      · exact .inr ⟨e :: es₁, s₂, es₂, a, q, rfl, .cons hc hn h1, h2, hlive⟩
    by_cases hmove : e.mover = some j
    · cases e with
      | step i now =>
        cases hmove
        obtain ⟨p, c, -, hg, hcat⟩ := at_moved hn hj
        generalize hσ : s₁.store = σ at hg
        cases hg with
        | reads =>
          by_cases hst : r.status = .running
          · have hid := (Store.get_iff.1 hrow).2
            exact onward _ hcat ⟨r, Store.mem_running.2 ⟨hid.symm ▸ hrow, hst⟩, hid⟩
          · rw [← hσ] at hrow
            exact .inl (ended ⟨r, hrow, hst⟩)
        | @loses entry todo hl =>
          obtain ⟨u, hu, hid⟩ := hk
          rcases List.mem_cons.1 hu with rfl | hu
          · exact onward _ hcat (.inl hid)
          · exact onward _ hcat (.inr ⟨u, hu, hid⟩)
        | @spares entry todo hl =>
          obtain ⟨u, hu, hid⟩ := hk
          rcases List.mem_cons.1 hu with rfl | hu
          · obtain ⟨q, hq, hpres⟩ := lost_false hl
            have hask := same_asked (known h) ((known h).rows id r hrow)
              ((known h).held _ _ hj u List.mem_cons_self)
              ((Store.get_iff.1 hrow).2.trans hid.symm)
            have hrep : r.replica = u.replica := by
              rw [← asked_replica r, hask, asked_replica]
            exact .inr ⟨[], s, _, r, q, rfl, .nil, .cons hc hn hrun, hrow, hrep.trans hq, hpres⟩
          · exact onward _ hcat ⟨u, hu, hid⟩
        | @failed u todo =>
          rcases hk with rfl | hmem
          · have hdone := ends_done h hj (k := .failing u todo) rfl hn
            exact .inl (ended (done_iff.1 hdone))
          · exact onward _ hcat hmem
        | _ => exact hk.elim
      | hear i heard now =>
        cases hmove
        obtain ⟨c, hh, -⟩ := at_heard hn hj
        cases hh <;> exact hk.elim
      | drop i =>
        cases hmove
        have hlt := Nat.lt_of_lt_of_le hj.lt (calls_grow hn)
        obtain ⟨c, hcat⟩ := run_back hrun hend hlt
        cases next_step hn
        exact absurd rfl (Pool.at_kill.1 hcat).1
      | _ => cases hmove
    · exact onward k (at_stays hn hj hmove) hk

/-- No finished delegation is silently lost: where every step meets the condition, a task that was
there when a pass of recovery read the running ones is, when the pass has come to its end, running
on a replica that was alive, ended by its asker or with its conversation, or handed over, or its
record says that it was not, or a coroutine of a live process has its answer in hand. -/
theorem none_lost {es : List Event} {j : Nat} {id : String} {r₀ : DelegationRecord}
    (h : lts.Reach Minded s) (hrun : lts.Run Minded s es s') (hj : s.At j .recovering)
    (hend : s'.At j (.recoverNext [])) (hrow : s.store.getDelegation id = some r₀)
    (htr : r₀.trusted = false) :
    ∃ r, s'.store.getDelegation id = some r ∧
      (r.status = .running ∧ LiveBetween Minded s es s' id ∨
        r.status ≠ .running ∧
          ((∃ w ∈ s'.wins, w.ended.id = id ∧ (w.how = .cancel ∨ w.how = .forget)) ∨
            Told s' id ∨ InHand s' id)) := by
  have h' := h.run hrun
  have hk := known h'
  have ho := once h'
  obtain ⟨-, -, ha⟩ := told_or_in_hand (fun _ _ hc => hc) h'
  have hp := pass h hrun hj trivial hrow hend
  have hkept : s'.store.getDelegation id ≠ none := by
    refine hrun.inv (I := fun s' => s'.store.getDelegation id ≠ none) h ?_
      fun _ _ _ _ hi _ hn => row_kept hn hi
    rw [hrow]
    exact Option.some_ne_none _
  obtain ⟨r, hr⟩ := Option.ne_none_iff_exists'.1 hkept
  refine ⟨r, hr, ?_⟩
  by_cases hst : r.status = .running
  · refine .inl ⟨hst, hp.resolve_left ?_⟩
    rintro ⟨a, har, hne⟩
    cases hr.symm.trans har
    exact hne hst
  · refine .inr ⟨hst, ?_⟩
    have hwon : 0 < s'.won id := by
      rw [ho.count, if_pos (done_iff.2 ⟨r, hr, hst⟩)]
      exact Nat.one_pos
    obtain ⟨w, hw, hwid⟩ := List.countP_pos_iff.1 hwon
    replace hwid := beq_iff_eq.1 hwid
    have htw : w.ended.trusted = false := by
      -- the task is the one the pass could see
      have hd₀ : Drawn s' r₀ := by
        refine hrun.inv (I := fun s' => Drawn s' r₀) h ((known h).rows id r₀ hrow)
          fun _ _ _ _ hi _ hn => hi.step hn
      have hask := same_asked hk (ho.drawn w hw) hd₀ (hwid.trans (Store.get_iff.1 hrow).2.symm)
      rw [← asked_trusted, hask, asked_trusted, htr]
    cases hhow : w.how with
    | cancel => exact .inl ⟨w, hw, hwid, .inl hhow⟩
    | forget => exact .inl ⟨w, hw, hwid, .inr hhow⟩
    | askerGone => exact absurd (ha.gone w hw hhow) (by rw [htw]; decide)
    | turn => exact .inr (hwid ▸ ha.told w hw (.inl hhow) htw)
    | recovery => exact .inr (hwid ▸ ha.told w hw (.inr hhow) htw)

/-- A step that loses no answer in hand, and on which no dispatch fails. -/
def mindedCheck (s : State) : Event → Bool
  | .drop _ | .die _ => s.pool.calls.all fun k => k.all (·.owes.isNone)
  | .hear _ (.ran a) _ => a == .turn
  | _ => true

theorem minded_of_check (h : mindedCheck s e = true) : Minded s e := by
  have idle : (s.pool.calls.all fun k => k.all (·.owes.isNone)) = true →
      ∀ i k r, s.At i k → k.owes = some r → Told s r.id := by
    intro hall i k r hi hk
    have hmem : some k ∈ s.pool.calls := hi.mem
    have := List.all_eq_true.1 hall _ hmem
    simp [hk] at this
  refine ⟨fun i k r he hi hk => ?_, fun p i k r he _ hi hk => ?_, fun i now party r d he hi => ?_,
    fun i now party r d a he hi ha => ?_⟩
  · subst he
    exact idle h i k r hi hk
  · subst he
    exact idle h i k r hi hk
  · subst he
    cases h
  · subst he
    rcases ha with rfl | ⟨rfl, -⟩ <;> cases h

/-- The replica that runs the task dies, and another one's pass ends it with its notice. -/
theorem none_lost_run : ∃ s s' es, lts.Reach Minded s ∧ lts.Run Minded s es s' ∧
    s.At 1 .recovering ∧ s'.At 1 (.recoverNext []) ∧ ∃ r, s'.store.getDelegation "ab" = some r ∧
      (r.status = .running ∧ LiveBetween Minded s es s' "ab" ∨
        r.status ≠ .running ∧
          ((∃ w ∈ s'.wins, w.ended.id = "ab" ∧ (w.how = .cancel ∨ w.how = .forget)) ∨
            Told s' "ab" ∨ InHand s' "ab")) := by
  have h : (lts.check mindedCheck Sample.start (Sample.handed ++
      [.boot ⟨2, true⟩, .die Sample.replica, .lapse 1, .recover ⟨2, true⟩])).any (fun s =>
        decide (s.At 1 .recovering) &&
        (s.store.getDelegation "ab").any (!·.trusted) &&
        (lts.check mindedCheck s [.step 1 50, .step 1 50, .step 1 50]).any fun s' =>
          decide (s'.At 1 (.recoverNext []))) = true := by decide
  obtain ⟨s, hs, hq⟩ := (Option.any_eq_true _ _).1 h
  obtain ⟨hq, hq'⟩ := Bool.and_eq_true_iff.1 hq
  obtain ⟨hj, hrow⟩ := Bool.and_eq_true_iff.1 hq
  obtain ⟨r₀, hrow, htr⟩ := (Option.any_eq_true _ _).1 hrow
  obtain ⟨s', hs', hend⟩ := (Option.any_eq_true _ _).1 hq'
  have hreach : lts.Reach Minded s := Lts.reach_of_check (fun _ _ => minded_of_check) rfl hs
  have hrun := Lts.run_of_check (fun _ _ => minded_of_check) hs'
  have hj := of_decide_eq_true hj
  have hend := of_decide_eq_true hend
  have htr : r₀.trusted = false := by simpa using htr
  exact ⟨s, s', _, hreach, hrun, hj, hend, none_lost hreach hrun hj hend hrow htr⟩

/-- Task `id` has ended and nobody knows of its answer. -/
def silent (s : State) (id : String) : Bool :=
  (s.store.getDelegation id).any (fun r => r.status != .running && !r.trusted && !decide r.admits) &&
    s.turns.all (·.task != id) && s.wins.all (fun w => w.how != .cancel && w.how != .forget) &&
    (List.range s.pool.calls.length).all fun i =>
      s.home i == none || (s.pool.calls[i]?.getD none).all (·.owes.isNone)

theorem silent_spec {id : String} (h : silent s id = true) :
    (∃ r, s.store.getDelegation id = some r ∧ r.status ≠ .running ∧ r.trusted = false) ∧
      ¬ (∃ w ∈ s.wins, w.ended.id = id ∧ (w.how = .cancel ∨ w.how = .forget)) ∧ ¬ Told s id ∧
      ¬ InHand s id := by
  simp only [silent, Bool.and_eq_true, Option.any_eq_true, List.all_eq_true, bne_iff_ne,
    Bool.not_eq_true', decide_eq_false_iff_not, List.mem_range, Bool.or_eq_true, beq_iff_eq] at h
  obtain ⟨⟨⟨⟨r, hr, ⟨hst, htr⟩, hadm⟩, hturns⟩, hwins⟩, hcalls⟩ := h
  refine ⟨⟨r, hr, hst, htr⟩, ?_, ?_, ?_⟩
  · rintro ⟨w, hw, -, hx | hx⟩
    · exact (hwins w hw).1 hx
    · exact (hwins w hw).2 hx
  · rintro (⟨t, ht, hid⟩ | ⟨a, ha, hx⟩)
    · exact hturns t ht hid
    · cases hr.symm.trans ha
      exact hadm hx
  · rintro ⟨i, k, a, hi, hhome, hk, -⟩
    have hcall : s.pool.calls[i]? = some (some k) := hi
    rcases hcalls i hi.lt with hx | hx
    · exact hhome hx
    · simp [hcall, hk] at hx

/-- Losing the answer by `lost`, and a pass of recovery after it, leave the task ended with no
notice, not handed over and in nobody's hand. -/
def Silenced (lost : List Event) : Prop :=
  ∃ s s' es, lts.Reach Lts.Any s ∧ lts.Run Lts.Any s (lost ++ es) s' ∧
    s'.At 1 (.recoverNext []) ∧
    (∃ r, s'.store.getDelegation "ab" = some r ∧ r.status ≠ .running ∧ r.trusted = false) ∧
    ¬ (∃ w ∈ s'.wins, w.ended.id = "ab" ∧ (w.how = .cancel ∨ w.how = .forget)) ∧
    ¬ Told s' "ab" ∧ ¬ InHand s' "ab"

theorem silenced_of_check {lost : List Event}
    (h : (lts.check (fun _ _ => true) Sample.start (Sample.handed ++
      [.hear 0 (.turn .replied "done" "") 21, .step 0 21])).any (fun s =>
        (lts.check (fun _ _ => true) s (lost ++ [.boot ⟨2, true⟩, .lapse 1, .recover ⟨2, true⟩,
          .step 1 50])).any fun s' =>
            decide (s'.At 1 (.recoverNext [])) && silent s' "ab") = true) : Silenced lost := by
  obtain ⟨s, hs, hq⟩ := (Option.any_eq_true _ _).1 h
  obtain ⟨s', hs', hq⟩ := (Option.any_eq_true _ _).1 hq
  obtain ⟨hend, hsilent⟩ := Bool.and_eq_true_iff.1 hq
  exact ⟨s, s', _, Lts.reach_of_check (fun _ _ _ => trivial) rfl hs,
    Lts.run_of_check (fun _ _ _ => trivial) hs', of_decide_eq_true hend, silent_spec hsilent⟩

/-- The process dies after it wrote the verdict, or the turn on the answer raises. -/
theorem answer_lost : Silenced [.die Sample.replica] ∧
    Silenced [.step 0 22, .hear 0 (.ran .raised) 23] :=
  ⟨silenced_of_check (by decide), silenced_of_check (by decide)⟩

end Delegation
