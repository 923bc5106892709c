import ImpiAgent.Delegation.Proof.Once

/-!
# What recovery takes for lost

`_lost` takes a task recorded under the replica that asks for one of its own earlier life. That is
so at the start of a process, whose replica id is new and which has started nothing; on every later
pass of `run_recovery` it is a task of its own, with its turn running (`own_task_ended`). `Apart` is
the condition that a pass meets no task its own process started, with the two things the deployment
promises: an engine without a replica id is alone, and a replica whose lease lapsed is dead. Under
it every task recovery ends was started by a process that is no longer alive (`only_lost`).
-/

namespace Delegation

variable {s s' : State} {e : Event} {σ : Store}

/-- A pass of recovery looks at no task of its own process, no other engine is alive where it or the
task has no replica id, and a replica without a lease is dead. -/
structure Apart (s : State) (e : Event) : Prop where
  own : ∀ i now p entry todo, e = .step i now → s.home i = some p →
    s.At i (.recoverNext (entry :: todo)) → ∀ d ∈ s.drawn, d.2 = entry.asked →
      s.homes[d.1]? ≠ some p
  single : ∀ i now p entry todo, e = .step i now → s.home i = some p →
    s.At i (.recoverNext (entry :: todo)) → p.replicated = false ∨ entry.replica = none →
      ∀ a ∈ s.alive, a = p
  lapsed : ∀ i now p entry todo q, e = .step i now → s.home i = some p →
    s.At i (.recoverNext (entry :: todo)) → entry.replica = some q → q ∉ s.store.present →
      ∀ a ∈ s.alive, a.replica ≠ some q

/-- A process that is alive, or that a coroutine was begun in. -/
def Seen (s : State) (p : Process) : Prop := p ∈ s.alive ∨ p ∈ s.homes

/-- Process numbers are not used twice. -/
structure Numbered (s : State) : Prop where
  booted : ∀ p, Seen s p → p.pid ∈ s.booted
  unique : ∀ p q, Seen s p → Seen s q → p.pid = q.pid → p = q

theorem home_iff {i : Nat} {p : Process} :
    s.home i = some p ↔ s.homes[i]? = some p ∧ p ∈ s.alive := by
  rw [State.home, Option.filter_eq_some_iff, List.contains_iff_mem]

/-- A process seen after a step was seen before, or has just started. -/
theorem seen_step (hn : next s e = some s') :
    (∀ p, Seen s' p → Seen s p) ∧ s'.booted = s.booted ∨
      ∃ b, b.pid ∉ s.booted ∧ s'.booted = b.pid :: s.booted ∧ ∀ p, Seen s' p → p = b ∨ Seen s p := by
  have spawn : ∀ {p q : Process}, p ∈ s.alive → q ∈ s.alive ∨ q ∈ s.homes ++ [p] → Seen s q := by
    rintro p q hp (hq | hq)
    · exact .inl hq
    · rcases List.mem_append.1 hq with hq | hq
      · exact .inr hq
      · exact .inl (List.mem_singleton.1 hq ▸ hp)
  cases next_step hn with
  | @boot b hb =>
    refine .inr ⟨b, hb, rfl, ?_⟩
    rintro p (hp | hp)
    · exact (List.mem_cons.1 hp).imp_right .inl
    · exact .inr (.inr hp)
  | die => exact .inl ⟨fun p hp => hp.imp_left fun hp => (List.mem_filter.1 hp).1, rfl⟩
  | delegate hp => exact .inl ⟨fun q hq => spawn hp hq, rfl⟩
  | cancel hp => exact .inl ⟨fun q hq => spawn hp hq, rfl⟩
  | forget hp => exact .inl ⟨fun q hq => spawn hp hq, rfl⟩
  | recover hp => exact .inl ⟨fun q hq => spawn hp hq, rfl⟩
  | @step i now p k k' σ hp hk hm =>
    cases k.spawns i s.store with
    | none => exact .inl ⟨fun q hq => hq, rfl⟩
    | some c =>
      have hhome : p ∈ s.homes := List.mem_of_getElem? (home_iff.1 hp).1
      refine .inl ⟨?_, rfl⟩
      rintro q (hq | hq)
      · exact .inl hq
      · rcases List.mem_append.1 hq with hq | hq
        · exact .inr hq
        · exact .inr (List.mem_singleton.1 hq ▸ hhome)
  | _ => exact .inl ⟨fun p hp => hp, rfl⟩

theorem numbered {C : State → Event → Prop} (h : lts.Reach C s) : Numbered s := by
  refine h.inv (fun s h0 => ?_) fun s e s' ih _ hn => ?_
  · cases h0
    exact ⟨fun p hp => by simp [Seen] at hp, fun p q hp => by simp [Seen] at hp⟩
  · rcases seen_step hn with ⟨hseen, hb⟩ | ⟨b, hnew, hb, hseen⟩
    · exact ⟨fun p hp => hb ▸ ih.booted p (hseen p hp),
        fun p q hp hq => ih.unique p q (hseen p hp) (hseen q hq)⟩
    · have old : ∀ p, Seen s p → p.pid ≠ b.pid := fun p hp he => hnew (he ▸ ih.booted p hp)
      refine ⟨fun p hp => ?_, fun p q hp hq he => ?_⟩
      · rcases hseen p hp with rfl | hp
        · exact hb ▸ List.mem_cons_self
        · exact hb ▸ List.mem_cons_of_mem _ (ih.booted p hp)
      · rcases hseen p hp with rfl | hp <;> rcases hseen q hq with rfl | hq
        · rfl
        · exact absurd he.symm (old q hq)
        · exact absurd he (old p hp)
        · exact ih.unique p q hp hq he

/-- Process `p` is dead for good, and where `c` asks for leases its own has lapsed for good. -/
structure Gone (s : State) (p c : Process) : Prop where
  seen : p ∈ s.homes
  dead : p ∉ s.alive
  absent : c.replicated = true → ∀ q, p.replica = some q → q ∉ s.store.present

theorem pid_of_replica {p : Process} {q : Replica} (h : p.replica = some q) : p.pid = q := by
  unfold Process.replica at h
  split at h <;> cases h
  rfl

theorem Gone.step {p c : Process} (h : Gone s p c) (hs : Numbered s) (hn : next s e = some s') :
    Gone s' p c := by
  have hseen : p ∈ s'.homes := by
    obtain ⟨i, hi⟩ := List.mem_iff_getElem?.1 h.seen
    exact List.mem_of_getElem? ((ghosts_step hn).1 i p hi)
  cases next_step hn with
  | @boot b hb =>
    refine ⟨hseen, fun hp => ?_, h.absent⟩
    rcases List.mem_cons.1 hp with rfl | hp
    · exact hb (hs.booted p (.inr h.seen))
    · exact h.dead hp
  | die => exact ⟨hseen, fun hp => h.dead (List.mem_filter.1 hp).1, h.absent⟩
  | @beat a ha =>
    refine ⟨hseen, h.dead, fun hc q hq hmem => ?_⟩
    rcases List.mem_append.1 hmem with hmem | hmem
    · rw [Option.mem_toList] at hmem
      have hpid : p.pid = a.pid := (pid_of_replica hq).trans (pid_of_replica hmem).symm
      exact h.dead (hs.unique p a (.inr h.seen) (.inl ha) hpid ▸ ha)
    · exact h.absent hc q hq hmem
  | lapse =>
    exact ⟨hseen, h.dead, fun hc q hq hmem => h.absent hc q hq (List.mem_filter.1 hmem).1⟩
  | delegate | cancel | forget | recover => exact ⟨hseen, h.dead, h.absent⟩
  | @step i now p' k k' σ hp hk hm =>
    have hpres : σ.present = s.store.present := by
      cases goes_wrote (step_goes hm) with
      | saved => exact Store.save_present
      | noted => exact Store.save_present
      | ended => exact Store.end_present
      | read => rfl
    refine ⟨hseen, ?_, ?_⟩
    · cases k.spawns i s.store <;> exact h.dead
    · rw [State.spawns_store]
      exact hpres ▸ h.absent
  | _ => exact ⟨hseen, h.dead, h.absent⟩

/-- The process that started the task of `r` is gone. -/
def Orphan (s : State) (r : DelegationRecord) (c : Process) : Prop :=
  ∀ d ∈ s.drawn, d.2 = r.asked → ∃ p, s.homes[d.1]? = some p ∧ Gone s p c

theorem Orphan.step {r : DelegationRecord} {c : Process} (h : Orphan s r c) (hr : Drawn s r)
    (hk' : Known s') (hs : Numbered s) (hn : next s e = some s') :
    Orphan s' r c := by
  intro d hd he
  obtain ⟨d₀, hd₀, he₀⟩ := hr
  have hx : d = d₀ := hk'.unique d hd d₀ ((ghosts_step hn).2.1 d₀ hd₀) (by rw [he, he₀])
  subst hx
  obtain ⟨p, hp, hg⟩ := h d hd₀ he
  exact ⟨p, (ghosts_step hn).1 d.1 p hp, hg.step hs hn⟩

/-- What a pass takes for lost is, where the pass meets the condition. -/
theorem lost_orphan (hk : Known s) (hs : Numbered s) {i : Nat} {now : Time} {c : Process}
    {entry : DelegationRecord} {todo : List DelegationRecord} (hC : Apart s (.step i now))
    (hc : s.home i = some c) (hi : s.At i (.recoverNext (entry :: todo)))
    (hl : lost c s.store entry = true) : Orphan s entry c := by
  intro d hd he
  obtain ⟨-, p, hp, hr⟩ := hk.drawn d hd
  have hrep : entry.replica = p.replica := by rw [← hr, he, asked_replica]
  have hown : p ≠ c := fun hx => hC.own i now c entry todo rfl hc hi d hd he (hx ▸ hp)
  have hseen : p ∈ s.homes := List.mem_of_getElem? hp
  have hcseen : c ∈ s.homes := List.mem_of_getElem? (home_iff.1 hc).1
  have alone : c.replicated = false ∨ entry.replica = none → p ∉ s.alive := fun hx ha =>
    hown (hC.single i now c entry todo rfl hc hi hx p ha)
  -- two processes do not share a replica id
  have other : ∀ q, p.replica = some q → c.replica ≠ some q := fun q hq hcq =>
    hown (hs.unique p c (.inr hseen) (.inr hcseen)
      ((pid_of_replica hq).trans (pid_of_replica hcq).symm))
  refine ⟨p, hp, hseen, ?_, fun hrc q hq hpres => ?_⟩
  · cases hq : p.replica with
    | none => exact alone (.inr (hrep.trans hq))
    | some q =>
      by_cases hrc : c.replicated = true
      · intro ha
        have hpres : q ∉ s.store.present := by
          intro hpres
          simp [lost, hrep, hq, hrc, Store.live, hpres, Ne.symm (other q hq)] at hl
        exact hC.lapsed i now c entry todo q rfl hc hi (hrep.trans hq) hpres p ha hq
      · exact alone (.inl (Bool.eq_false_iff.2 hrc))
  · simp [lost, hrep, hq, hrc, Store.live, hpres, Ne.symm (other q hq)] at hl

/-- A task is about to be ended as lost because the pass has just taken it for lost. -/
theorem failing_came (hn : next s e = some s') {j : Nat} {r : DelegationRecord}
    {todo : List DelegationRecord} (hj : s'.At j (.failing r todo)) :
    s.At j (.failing r todo) ∨ ∃ now c entry, e = .step j now ∧ s.home j = some c ∧
      s.At j (.recoverNext (entry :: todo)) ∧ lost c s.store entry = true ∧
      r.asked = entry.asked ∧ r.notice = "engine_restarted" := by
  cases came hn hj with
  | stayed hk => exact .inl hk
  | moved hp hk hg =>
    cases hg with
    | loses hl => exact .inr ⟨_, _, _, rfl, hp, hk, hl, rfl, rfl⟩
  | heard _ _ hh => cases hh

/-- What recovery has ended, or is about to end, is gone. -/
structure Lost (s : State) : Prop where
  failing : ∀ i r todo, s.At i (.failing r todo) →
    ∃ c, s.homes[i]? = some c ∧ Orphan s r c
  wins : ∀ w ∈ s.wins, w.how = .recovery → ∃ c, s.homes[w.party]? = some c ∧ Orphan s w.ended c

theorem lost_step {C : State → Event → Prop} (hr : lts.Reach C s) (h : Lost s)
    (hC : Apart s e) (hn : next s e = some s') : Lost s' := by
  have hk := known hr
  have hs := numbered hr
  have hk' := known_step hk hn
  have homes := (ghosts_step hn).1
  have keep : ∀ {r c}, Orphan s r c → Drawn s r → Orphan s' r c := fun ho hd =>
    ho.step hd hk' hs hn
  have failing : ∀ i r todo, s.At i (.failing r todo) →
      ∃ c, s'.homes[i]? = some c ∧ Orphan s' r c := by
    intro i r todo hi
    obtain ⟨c, hc, ho⟩ := h.failing i r todo hi
    exact ⟨c, homes i c hc, keep ho (hk.held i _ hi r List.mem_cons_self)⟩
  refine ⟨fun i r todo hi => ?_, fun w hw hhow => ?_⟩
  · rcases failing_came hn hi with hi | ⟨now, c, entry, rfl, hc, hi, hl, he, -⟩
    · exact failing i r todo hi
    · have ho : Orphan s r c := fun d hd hx => lost_orphan hk hs hC hc hi hl d hd (hx.trans he)
      have hd : Drawn s r := (hk.held i _ hi entry List.mem_cons_self).of_asked he.symm
      exact ⟨c, homes i c (home_iff.1 hc).1, keep ho hd⟩
  · have old : w ∈ s.wins → ∃ c, s'.homes[w.party]? = some c ∧ Orphan s' w.ended c := by
      intro hw
      obtain ⟨c, hc, ho⟩ := h.wins w hw hhow
      exact ⟨c, homes _ c hc, keep ho ((once hr).drawn w hw)⟩
    cases effect hn with
    | quiet hwins => exact old (hwins ▸ hw)
    | saved _ hwins => exact old (hwins ▸ hw)
    | noted _ hwins => exact old (hwins ▸ hw)
    | @won i now k how r hi hends hwr hwins =>
      rcases List.mem_cons.1 (hwins ▸ hw) with rfl | hw
      · cases hhow
        cases k <;> try cases hends
        · rename_i todo
          cases todo <;> cases hends
        · exact failing i _ _ hi
      · exact old hw

/-- Recovery ends only lost tasks: where no pass meets a task its own process started, an engine
without a replica id is the only one, and a replica without a lease is dead, the process that
started a task recovery ended is no longer alive, in every state reached; nor does a replica that
ended it find a lease of that process. -/
theorem only_lost (h : lts.Reach Apart s) : ∀ w ∈ s.wins, w.how = .recovery →
    ∀ d ∈ s.drawn, d.2 = w.ended.asked → ∃ p c, s.homes[d.1]? = some p ∧
      s.homes[w.party]? = some c ∧ p ∉ s.alive ∧
      (c.replicated = true → ∀ q, p.replica = some q → q ∉ s.store.present) := by
  have hl : Lost s := by
    refine h.inv_using (fun s h0 => ?_) fun s e s' hr ih hC hn => lost_step hr ih hC hn
    cases h0
    exact ⟨fun i r todo hi => by simp [Pool.At] at hi, fun w hw => by simp at hw⟩
  intro w hw hhow d hd he
  obtain ⟨c, hc, ho⟩ := hl.wins w hw hhow
  obtain ⟨p, hp, hg⟩ := ho d hd he
  exact ⟨p, c, hp, hc, hg.dead, hg.absent⟩

/-- The condition of a step, looked at on the concrete state. -/
def apartCheck (s : State) : Event → Bool
  | .step i _ =>
    match s.home i, s.pool.calls[i]? with
    | some p, some (some (.recoverNext (entry :: _))) =>
      s.drawn.all (fun d => d.2 != entry.asked || s.homes[d.1]? != some p) &&
      ((p.replicated && entry.replica.isSome) || s.alive.all (· == p)) &&
      entry.replica.all fun q => s.store.live q || s.alive.all (·.replica != some q)
    | _, _ => true
  | _ => true

theorem apart_of_check (h : apartCheck s e = true) : Apart s e := by
  have key : ∀ i now p entry todo, e = .step i now → s.home i = some p →
      s.At i (.recoverNext (entry :: todo)) →
      s.drawn.all (fun d => d.2 != entry.asked || s.homes[d.1]? != some p) = true ∧
      ((p.replicated && entry.replica.isSome) || s.alive.all (· == p)) = true ∧
      (entry.replica.all fun q => s.store.live q || s.alive.all (·.replica != some q)) = true := by
    rintro i now p entry todo rfl hp hi
    have hi : s.pool.calls[i]? = some (some (.recoverNext (entry :: todo))) := hi
    simp only [apartCheck, hp, hi, Bool.and_eq_true] at h
    exact ⟨h.1.1, by simpa using h.1.2, h.2⟩
  refine ⟨fun i now p entry todo he hp hi d hd hda hx => ?_,
    fun i now p entry todo he hp hi hrep a ha => ?_,
    fun i now p entry todo q he hp hi hrep habs a ha hx => ?_⟩
  · obtain ⟨h1, -, -⟩ := key i now p entry todo he hp hi
    have := List.all_eq_true.1 h1 d hd
    simp [hda, hx] at this
  · obtain ⟨-, h2, -⟩ := key i now p entry todo he hp hi
    rcases hrep with hrep | hrep <;> simp [hrep] at h2 <;> exact h2 a ha
  · obtain ⟨-, -, h3⟩ := key i now p entry todo he hp hi
    simp [hrep, Store.live, habs] at h3
    exact h3 a ha hx

/-- The replica that started the task dies, its lease lapses, and another replica ends the task. -/
theorem only_lost_run : ∃ s w d p, lts.Reach Apart s ∧ w ∈ s.wins ∧ w.how = .recovery ∧
    d ∈ s.drawn ∧ d.2 = w.ended.asked ∧ s.homes[d.1]? = some p ∧ p ∉ s.alive := by
  have h : (lts.check apartCheck Sample.start (Sample.handed ++
      [.boot ⟨2, true⟩, .die Sample.replica, .lapse 1, .recover ⟨2, true⟩, .step 1 50, .step 1 50,
        .step 1 50])).any (fun s => s.wins.any fun w => w.how == .recovery &&
      s.drawn.any fun d => d.2 == w.ended.asked) = true := by decide
  obtain ⟨s, hs, hq⟩ := (Option.any_eq_true _ _).1 h
  obtain ⟨w, hw, hq⟩ := List.any_eq_true.1 hq
  obtain ⟨hhow, hq⟩ := Bool.and_eq_true_iff.1 hq
  obtain ⟨d, hd, he⟩ := List.any_eq_true.1 hq
  have hreach : lts.Reach Apart s := Lts.reach_of_check (fun _ _ => apart_of_check) rfl hs
  obtain ⟨p, c, hp, -, hdead, -⟩ :=
    only_lost hreach w hw (beq_iff_eq.1 hhow) d hd (beq_iff_eq.1 he)
  exact ⟨s, w, d, p, hreach, hw, beq_iff_eq.1 hhow, hd, beq_iff_eq.1 he, hp, hdead⟩

/-- A replica's own pass ends a task it started, while the task's turn is running in it. -/
theorem own_task_ended : ∃ s i entry watched w d p, lts.Reach Lts.Any s ∧ w ∈ s.wins ∧
    w.how = .recovery ∧ d ∈ s.drawn ∧ d.2 = w.ended.asked ∧ s.homes[d.1]? = some p ∧ p ∈ s.alive ∧
    s.homes[w.party]? = some p ∧ s.At i (.turning entry watched) ∧ entry = d.2 := by
  have h : (lts.check (fun _ _ => true) Sample.start (Sample.handed ++
      [.recover Sample.replica, .step 1 50, .step 1 50, .step 1 50])).any
      (fun s => s.wins.any (fun w => w.how == .recovery && s.homes[w.party]? == some Sample.replica &&
        (w.ended.asked == Sample.entry)) && s.drawn.contains (0, Sample.entry) &&
        s.homes[0]? == some Sample.replica && s.alive.contains Sample.replica &&
        decide (s.At 0 (.turning Sample.entry false))) = true := by decide
  obtain ⟨s, hs, hq⟩ := (Option.any_eq_true _ _).1 h
  simp only [Bool.and_eq_true, beq_iff_eq, List.contains_iff_mem, decide_eq_true_eq,
    List.any_eq_true] at hq
  obtain ⟨⟨⟨⟨⟨w, hw, ⟨hhow, hparty⟩, hask⟩, hd⟩, hhome⟩, halive⟩, hturn⟩ := hq
  exact ⟨s, 0, Sample.entry, false, w, (0, Sample.entry), Sample.replica,
    Lts.reach_of_check (fun _ _ _ => trivial) rfl hs, hw, hhow, hd, hask.symm, hhome, halive, hparty,
    hturn, rfl⟩

end Delegation
