import ImpiAgent.Runtimes.Proof.Proofs

/-!
# Which sessions have a turn in flight

`Turning`: a call inside the lock of a session that is registered prompts its process, the process
of a call that prompts is busy, and a registered process is busy only while a call is inside the
lock of its session (`busy_iff`). So of a registered session the flag `busy` and the lock say the
same, though the droppers look at one or both.

`Shift` is what a step of a call does to the turns: the turn it was, if it was one, is over
(`Leaves`); then the call rests, drops a session, or begins a turn, on a session it finds or on one
it brings up. A session dropped to make room was idle.
-/

namespace Pi

open Text (Str)

variable {o : Options} {c c' c₀ : Core} {r r' : Runtime}

/-! ## What a step does to the turns -/

namespace Core

/-- The processes as the turns have them. -/
def turns (c : Core) : List (Bool × ProofId) :=
  c.processes.map fun pr => (pr.busy, pr.proofSessionId)

/-- Nothing has changed for the turns. -/
structure Still (c c' : Core) : Prop where
  turns : c'.turns = c.turns
  current : c'.current = c.current

theorem Still.refl : Still c c := ⟨rfl, rfl⟩

theorem Still.trans (h : Still c c₀) (h' : Still c₀ c') : Still c c' :=
  ⟨h'.turns.trans h.turns, h'.current.trans h.current⟩

theorem still_mark (p : Nat) (l : Life) : Still c (c.mark p l) := by
  refine ⟨?_, rfl⟩
  refine List.ext_getElem? fun q => ?_
  unfold turns
  rw [List.getElem?_map, List.getElem?_map, getElem?_mark]
  split
  · rw [Option.map_map]
    rfl
  · rfl

theorem turns_setBusy (p : Nat) (b : Bool) :
    (c.setBusy p b).turns = c.turns.modify p fun x => (b, x.2) := by
  refine List.ext_getElem? fun q => ?_
  unfold turns
  rw [List.getElem?_map, List.getElem?_modify, List.getElem?_map, getElem?_setBusy]
  split <;> cases c.processes[q]? <;> rfl

theorem Still.setBusy (h : Still c c') (p : Nat) (b : Bool) :
    Still (c.setBusy p b) (c'.setBusy p b) := by
  refine ⟨?_, h.current⟩
  rw [turns_setBusy, turns_setBusy, h.turns]

theorem still_touch (s : Session) : Still c (c.touch s) := ⟨rfl, (same_touch s).current⟩

theorem still_giveAgent (agent : Str) : Still c (c.giveAgent o agent) := by
  unfold giveAgent
  split
  · exact .refl
  · exact ⟨rfl, rfl⟩

theorem still_releasePermits (agent : Str) : Still c (c.releasePermits o agent) := by
  have h : Still c { c with free := c.free + 1 } := ⟨rfl, rfl⟩
  exact h.trans (still_giveAgent agent)

theorem still_unwind (timeout : Bool) (k : After) : Still c (unwind o c timeout k) := by
  unfold unwind
  split
  · split
    · exact still_giveAgent _
    · exact .refl
  · exact .refl

theorem still_closeSession (s : Session) (agent : Str) (gone : Bool) :
    Still c (c.closeSession o s agent gone) := by
  have hr : Still c (c.revoke s.proofSessionId) := ⟨rfl, rfl⟩
  exact (hr.trans (still_releasePermits agent)).trans (still_mark _ _)

theorem still_spawnSession (a : Attempt) : Still c (c.spawnSession a).1 := by
  unfold spawnSession
  split <;> exact ⟨rfl, rfl⟩

end Core

open Core (Still)

def Point.isTurn : Point → Bool
  | .prompting .. => true
  | _ => false

def After.isRoom : After → Bool
  | .agentRoom _ | .globalRoom _ => true
  | _ => false

/-- A point at which a call neither is a turn nor makes room. -/
def Point.rests : Point → Bool
  | .prompting .. => false
  | .closing _ _ after => !after.isRoom
  | _ => true

/-- The turn the call was, if it was one, is over. -/
inductive Leaves (c : Core) : Point → Core → Prop
  | rest {k : Point} {c' : Core} : k.isTurn = false → Still c c' → Leaves c k c'
  | ended {a : Attempt} {s : Session} {c' : Core} :
      Still (c.setBusy s.process false) c' → Leaves c (.prompting a s) c'

/-- What a step of call `i` does (module doc). -/
inductive Shift (r : Runtime) (i : Nat) : Point → Core × Point → Prop
  | rests {k pt : Point} {c : Core} : Leaves r.store k c → pt.rests = true →
      (∀ key, pt.holds = some key →
        k.isTurn = false ∧ k.holds = some key ∨ key ∉ r.store.sessions.map Prod.fst) →
      Shift r i k (c, pt)
  | drops {k : Point} {c c' : Core} {s : Session} {agent key : Str} {after : After} :
      Leaves r.store k c → c.dropSession i key = some (c', s, agent) →
      (∀ key', after.holds = some key' → key' = key ∨ k.isTurn = false ∧ k.holds = some key') →
      (after.isRoom = true → ∃ agent₀, key ∈ (idle r agent₀).map Prod.snd) →
      Shift r i k (c', .closing s agent after)
  | enters {profile : Profile} {key : Str} {m : Managed} :
      lockHeld r key = false → (key, m) ∈ r.store.sessions →
      Shift r i (.locking profile key)
        (r.store.setBusy m.session.process true, .prompting ⟨profile, some key⟩ m.session)
  | opens {a : Attempt} {id : ProofId} {proof : Nat} :
      Shift r i (.spawning a id proof) (r.store.opened i a id proof)

section

variable {i : Nat} {a : Attempt} {s : Session} {agent key : Str} {k : Point} {after : After}
  {pt : Point}

theorem Point.isTurn_of_rests (h : pt.rests = true) : pt.isTurn = false := by
  cases pt <;> first | rfl | cases h

/-- A call that is no turn goes on inside the lock it is inside of, if any. -/
theorem Shift.keeps (hk : k.isTurn = false) (hs : Still r.store c) (hp : pt.rests = true)
    (hh : ∀ key, pt.holds = some key → k.holds = some key) : Shift r i k (c, pt) :=
  .rests (.rest hk hs) hp fun key hkey => .inl ⟨hk, hh key hkey⟩

theorem Shift.ends (hl : Leaves r.store k c) : Shift r i k (c, .done) := .rests hl rfl nofun

theorem shift_sweep (hl : Leaves r.store k c) : ∀ keys : List Str, Shift r i k (c.sweep i keys)
  | [] => .ends hl
  | key :: keys => by
    unfold Core.sweep
    split
    · exact .drops hl ‹_› nofun nofun
    · exact shift_sweep hl keys

theorem afterCancel_rests (key : Str) (resetting : Option Str) :
    (afterCancel key resetting).rests = true ∧ (afterCancel key resetting).holds = none := by
  cases resetting <;> exact ⟨rfl, rfl⟩

theorem shift_afterCancel {resetting : Option Str} (hl : Leaves r.store k c) :
    Shift r i k (c, afterCancel key resetting) := by
  obtain ⟨ht, hh⟩ := afterCancel_rests key resetting
  exact .rests hl ht fun key' hk => by rw [hh] at hk; cases hk

theorem shift_dropThen (hl : Leaves r.store k c) (hp : pt.rests = true) (hh : pt.holds = none)
    (ha : ∀ key', after.holds = some key' → key' = key) (hr : after.isRoom = false) :
    Shift r i k (dropThen c i key after pt) := by
  unfold dropThen
  split
  · exact .drops hl ‹_› (fun key' hk => .inl (ha key' hk)) (by rw [hr]; nofun)
  · exact .rests hl hp (by rw [hh]; nofun)

theorem shift_queueAgent (hk : k.isTurn = false) (hs : Still r.store r'.store)
    (hh : k.holds = a.key) : Shift r i k (queueAgent r' a) := by
  unfold queueAgent
  split
  · exact .keeps hk hs rfl fun key hkey => hh.trans hkey
  · exact .keeps hk (hs.trans ⟨rfl, rfl⟩) rfl fun key hkey => hh.trans hkey

theorem shift_queueGlobal (hk : k.isTurn = false) (hs : Still r.store r'.store)
    (hh : k.holds = a.key) : Shift r i k (queueGlobal r' a) := by
  unfold queueGlobal
  split
  · exact .keeps hk hs rfl fun key hkey => hh.trans hkey
  · exact .keeps hk (hs.trans ⟨rfl, rfl⟩) rfl fun key hkey => hh.trans hkey

/-- `_make_room` finds somebody. -/
theorem shift_makeRoom {agent₀ : Option Str} (hk : k.isTurn = false)
    (hm : makeRoom o r i agent₀ = some (c', s, agent)) (hh : after.holds = k.holds) :
    Shift r i k (c', .closing s agent after) := by
  obtain ⟨x, hx, hd⟩ := makeRoom_eq_some hm
  exact .drops (.rest hk .refl) hd (fun key' hkey => .inr ⟨hk, hh.symm.trans hkey⟩)
    fun _ => ⟨agent₀, List.mem_map_of_mem hx⟩

theorem shift_acquire (hk : k.isTurn = false) (hh : k.holds = a.key) :
    Shift r i k (acquire o r i a) := by
  unfold acquire
  split
  · exact .keeps hk .refl rfl fun key hkey => hh.trans hkey
  · split
    · split
      · exact shift_makeRoom hk ‹_› hh.symm
      · exact shift_queueAgent hk .refl hh
    · exact shift_queueAgent hk .refl hh

theorem shift_acquireGlobal (hk : k.isTurn = false) (hh : k.holds = a.key) :
    Shift r i k (acquireGlobal o r i a) := by
  unfold acquireGlobal
  split
  · split
    · exact shift_makeRoom hk ‹_› hh.symm
    · exact shift_queueGlobal hk .refl hh
  · exact shift_queueGlobal hk .refl hh

/-- The call has the lock: there is no process, or one for the turn, or one to be dropped. -/
theorem shift_turn {profile : Profile} (hl : lockHeld r key = false) :
    Shift r i (.locking profile key) (turn r i profile key) := by
  have here : Leaves r.store (.locking profile key) r.store := .rest rfl .refl
  unfold turn
  split
  · rename_i hn
    refine .rests here rfl fun key' hkey => .inr ?_
    cases hkey
    exact Dict.lookup_eq_none.1 hn
  · rename_i m hm
    split
    · exact .enters hl (Dict.mem_of_lookup hm)
    · split
      · refine .drops here ‹_› (fun key' hkey => .inl ?_) nofun
        cases hkey
        rfl
      · rename_i hd
        rw [Core.dropSession, hm] at hd
        cases hd

theorem shift_resume (hs : Still r.store r'.store) :
    Shift r i (.closing s agent after) (resume r' i after) := by
  have here : Leaves r.store (.closing s agent after) r'.store := .rest rfl hs
  cases after with
  | create a => exact .keeps rfl hs rfl fun _ => id
  | agentRoom a => exact shift_queueAgent rfl hs rfl
  | globalRoom a => exact shift_queueGlobal rfl hs rfl
  | turnOver key | forget key => exact .ends here
  | cancelled key resetting => exact shift_afterCancel here
  | sweep keys => exact shift_sweep here keys

theorem shift_spawnSession : Shift r i (.granted a) (r.store.spawnSession a) := by
  have hs : Still r.store (r.store.spawnSession a).1 := Core.still_spawnSession a
  unfold Core.spawnSession at hs ⊢
  split
  · rename_i key hkey
    rw [hkey] at hs
    exact .keeps rfl hs rfl fun _ => id
  · rename_i hkey
    rw [hkey] at hs
    exact .keeps rfl hs rfl fun _ => id

theorem shift_promptOver (hs : Still r.store c) :
    Shift r i (.prompting a s) (c.promptOver i a s) := by
  have hl : Leaves r.store (.prompting a s) (c.setBusy s.process false) :=
    .ended (hs.setBusy s.process false)
  unfold Core.promptOver
  split
  · exact .ends hl
  · refine .rests (.ended ((hs.setBusy s.process false).trans (Core.still_mark _ _))) rfl nofun

/-- What a step of a call does, point by point. -/
theorem act_shift {e : Event} {q : Core × Point} (ha : act o r i k e = some q) :
    Shift r i k q := by
  cases k with
  | locking profile key =>
    cases e with
    | enter =>
      simp only [act] at ha
      split at ha <;> cases ha
      exact shift_turn (Bool.eq_false_iff.2 ‹_›)
    | cancel gone =>
      cases ha
      exact .ends (.rest rfl .refl)
    | _ => cases ha
  | acquire a =>
    cases e with
    | go =>
      cases ha
      exact shift_acquire rfl rfl
    | _ => cases ha
  | agentQueue a =>
    cases e with
    | take =>
      simp only [act] at ha
      split at ha <;> cases ha
      exact .keeps rfl ⟨rfl, rfl⟩ rfl fun _ => id
    | timeout | cancel gone =>
      cases ha
      exact .ends (.rest rfl .refl)
    | _ => cases ha
  | acquireGlobal a =>
    cases e with
    | go =>
      cases ha
      exact shift_acquireGlobal rfl rfl
    | _ => cases ha
  | globalQueue a =>
    cases e with
    | take =>
      simp only [act] at ha
      split at ha <;> cases ha
      exact .keeps rfl ⟨rfl, rfl⟩ rfl fun _ => id
    | timeout =>
      cases ha
      exact .ends (.rest rfl (Core.still_giveAgent _))
    | cancel gone =>
      cases ha
      exact .ends (.rest rfl .refl)
    | _ => cases ha
  | granted a =>
    cases e with
    | go =>
      cases ha
      exact shift_spawnSession
    | _ => cases ha
  | spawning a id proof =>
    cases e with
    | spawned =>
      cases ha
      exact .opens
    | spawnFailed =>
      cases ha
      exact .ends (.rest rfl (Core.still_releasePermits _))
    | cancel gone =>
      cases ha
      exact .ends (.rest rfl .refl)
    | _ => cases ha
  | prompting a s =>
    cases e with
    | answered =>
      cases ha
      exact shift_promptOver (Core.still_touch s)
    | broken =>
      simp only [act] at ha
      split at ha <;> cases ha
      · rename_i key hkey
        refine shift_dropThen (.ended .refl) rfl rfl (fun key' hk => ?_) rfl
        exact Option.some.inj (hk.symm.trans hkey)
      · exact shift_promptOver .refl
    | failed | cancel gone =>
      cases ha
      exact shift_promptOver .refl
    | _ => cases ha
  | cancelling key resetting =>
    cases e with
    | ended =>
      cases ha
      exact shift_afterCancel (.rest rfl .refl)
    | stuck =>
      cases ha
      obtain ⟨hp, hh⟩ := afterCancel_rests key resetting
      exact shift_dropThen (.rest rfl .refl) hp hh (fun _ h => by cases h) rfl
    | cancel gone =>
      cases ha
      exact .ends (.rest rfl .refl)
    | _ => cases ha
  | resetLocking agent key =>
    cases e with
    | enter =>
      simp only [act] at ha
      split at ha <;> cases ha
      exact shift_dropThen (.rest rfl .refl) rfl rfl (fun _ hk => (Option.some.inj hk).symm) rfl
    | cancel gone =>
      cases ha
      exact .ends (.rest rfl .refl)
    | _ => cases ha
  | closing s agent after =>
    have closed (gone : Bool) : Still r.store (r.store.closeSession o s agent gone) :=
      Core.still_closeSession s agent gone
    cases e with
    | closed =>
      cases ha
      exact shift_resume (closed true)
    | closeRaised timeout gone =>
      cases ha
      exact .ends (.rest rfl ((closed gone).trans (Core.still_unwind _ _)))
    | cancel gone =>
      cases ha
      exact .ends (.rest rfl ((closed gone).trans (Core.still_unwind _ _)))
    | _ => cases ha
  | done => cases e <;> cases ha

end

/-! ## The turns in flight -/

/-- The process of the turn `a` is busy, and the session's own. -/
def Core.Prompts (c : Core) (a : Attempt) (s : Session) : Prop :=
  ∃ id, c.turns[s.process]? = some (true, id) ∧ ∀ key, a.key = some key → id = .session key

/-- The turns in flight (module doc). -/
structure Turning (r : Runtime) : Prop where
  inside : ∀ i k key s, r.At i k → k.holds = some key → (key, s) ∈ r.store.current →
    ∃ a, k = .prompting a s
  prompting : ∀ i a s, r.At i (.prompting a s) → r.store.Prompts a s
  turning : ∀ key s id, (key, s) ∈ r.store.current →
    r.store.turns[s.process]? = some (true, id) → ∃ i k, r.At i k ∧ k.holds = some key

/-- What a step of call `i` ends in (`Turning`, of the call and of the others). -/
structure Turned (r : Runtime) (i : Nat) (q : Core × Point) : Prop where
  inside : ∀ j k key s, j ≠ i → r.At j k → k.holds = some key → (key, s) ∈ q.1.current →
    ∃ a, k = .prompting a s
  own : ∀ key s, q.2.holds = some key → (key, s) ∈ q.1.current → ∃ a, q.2 = .prompting a s
  prompting : ∀ j a s, j ≠ i → r.At j (.prompting a s) → q.1.Prompts a s
  prompts : ∀ a s, q.2 = .prompting a s → q.1.Prompts a s
  turning : ∀ key s id, (key, s) ∈ q.1.current → q.1.turns[s.process]? = some (true, id) →
    q.2.holds = some key ∨ ∃ j k, j ≠ i ∧ r.At j k ∧ k.holds = some key

section

variable {i j : Nat} {a a' : Attempt} {s s' : Session} {agent key : Str} {k : Point}
  {id : ProofId} {life : Life}

theorem Turning.put {q : Core × Point} (h : Turned r i q) (hi : r.At i k) :
    Turning (r.put i q.1 q.2) := by
  refine ⟨fun j k' key s hj hk hm => ?_, fun j a s hj => ?_, fun key s id hm ht => ?_⟩
  · rcases (Pool.at_put hi).1 hj with ⟨-, rfl⟩ | ⟨hne, hj⟩
    · exact h.own key s hk hm
    · exact h.inside j k' key s hne hj hk hm
  · rcases (Pool.at_put hi).1 hj with ⟨-, heq⟩ | ⟨hne, hj⟩
    · exact h.prompts a s heq.symm
    · exact h.prompting j a s hne hj
  · rcases h.turning key s id hm ht with hk | ⟨j, k', hne, hj, hk⟩
    · exact ⟨i, q.2, Pool.at_put_self hi, hk⟩
    · exact ⟨j, k', Pool.at_put_ne hi hj hne, hk⟩

theorem Core.Has.turn (h : c.Has s agent life) :
    ∃ b, c.turns[s.process]? = some (b, s.proofSessionId) := by
  obtain ⟨pr, hpr, -, hid, -⟩ := h
  refine ⟨pr.busy, ?_⟩
  rw [Core.turns, List.getElem?_map, hpr, ← hid]
  rfl

theorem Core.turns_setBusy_ne {p q : Nat} {b : Bool} (h : q ≠ p) :
    (c.setBusy p b).turns[q]? = c.turns[q]? := by
  rw [Core.turns_setBusy, List.getElem?_modify_ne _ _ h.symm]

theorem Core.turns_setBusy_self {p : Nat} {b b' : Bool} (h : c.turns[p]? = some (b, id)) :
    (c.setBusy p b').turns[p]? = some (b', id) := by
  rw [Core.turns_setBusy, List.getElem?_modify_eq, h]
  rfl

/-- No two calls prompt one process. -/
theorem Turning.apart (h : Turning r) (ho : Owned r) (hi : r.At i (.prompting a s))
    (hj : r.At j (.prompting a' s')) (hne : i ≠ j) : s.process ≠ s'.process := by
  intro heq
  obtain ⟨id, ht, hid⟩ := h.prompting i a s hi
  obtain ⟨id', ht', hid'⟩ := h.prompting j a' s' hj
  rw [heq, ht'] at ht
  cases ht
  have hf := ho.fits i _ hi
  have hf' := ho.fits j _ hj
  cases hk : a.key with
  | some key =>
    cases hk' : a'.key with
    | some key' =>
      have hkey : key = key' := by
        have := (hid key hk).symm.trans (hid' key' hk')
        cases this
        rfl
      exact hne (ho.apart i j _ _ key hi hj hk (hkey ▸ hk'))
    | none =>
      obtain ⟨b, hb⟩ := (hf' hk').1.turn
      cases ht'.symm.trans hb
      exact (hf' hk').2 key (hid key hk)
  | none =>
    obtain ⟨pr, hpr, -, hp, hl⟩ := (hf hk).1
    cases hk' : a'.key with
    | some key' =>
      obtain ⟨b, hb⟩ := (hf hk).1.turn
      rw [heq] at hb
      cases ht'.symm.trans hb
      exact (hf hk).2 key' (hid' key' hk')
    | none =>
      obtain ⟨pr', hpr', -, -, hl'⟩ := (hf' hk').1
      rw [heq, hpr'] at hpr
      cases hpr
      cases hl.symm.trans hl'
      exact hne rfl

/-! ## Steps -/

/-- The other calls are as `Turning` has them, and every turn in flight is one of them. -/
structure Others (r : Runtime) (i : Nat) (c : Core) : Prop where
  inside : ∀ j k key s, j ≠ i → r.At j k → k.holds = some key → (key, s) ∈ c.current →
    ∃ a, k = .prompting a s
  prompting : ∀ j a s, j ≠ i → r.At j (.prompting a s) → c.Prompts a s
  turning : ∀ key s id, (key, s) ∈ c.current → c.turns[s.process]? = some (true, id) →
    ∃ j k, j ≠ i ∧ r.At j k ∧ k.holds = some key

theorem Turning.others (h : Turning r) (ho : Owned r) (hi : r.At i k) (hl : Leaves r.store k c) :
    Others r i c := by
  have inside (hs : c.current = r.store.current) (j : Nat) (k' : Point) (key : Str) (s : Session)
      (hj : r.At j k') (hk : k'.holds = some key) (hm : (key, s) ∈ c.current) :
      ∃ a, k' = .prompting a s := h.inside j k' key s hj hk (hs ▸ hm)
  cases hl with
  | rest hk hs =>
    refine ⟨fun j k' key s _ => inside hs.current j k' key s, fun j a s _ hj => ?_,
      fun key s id hm ht => ?_⟩
    · unfold Core.Prompts
      rw [hs.turns]
      exact h.prompting j a s hj
    · obtain ⟨j, k', hj, hkey⟩ := h.turning key s id (hs.current ▸ hm) (hs.turns ▸ ht)
      refine ⟨j, k', ?_, hj, hkey⟩
      rintro rfl
      cases hi.eq hj
      obtain ⟨a, rfl⟩ := h.inside j _ key s hj hkey (hs.current ▸ hm)
      cases hk
  | @ended a₀ s₀ _ hs =>
    refine ⟨fun j k' key s _ => inside hs.current j k' key s, fun j a s hne hj => ?_,
      fun key s id hm ht => ?_⟩
    · have hp := h.apart ho hj hi hne
      obtain ⟨id, ht, hid⟩ := h.prompting j a s hj
      exact ⟨id, by rw [hs.turns, Core.turns_setBusy_ne hp, ht], hid⟩
    · rw [hs.turns] at ht
      have hp : s.process ≠ s₀.process := by
        intro heq
        rw [heq, Core.turns_setBusy, List.getElem?_modify_eq] at ht
        cases hx : r.store.turns[s₀.process]? <;> rw [hx] at ht <;> cases ht
      rw [Core.turns_setBusy_ne hp] at ht
      obtain ⟨j, k', hj, hkey⟩ := h.turning key s id (hs.current ▸ hm) ht
      refine ⟨j, k', ?_, hj, hkey⟩
      rintro rfl
      cases hi.eq hj
      obtain ⟨a, heq⟩ := h.inside j _ key s hj hkey (hs.current ▸ hm)
      cases heq
      exact hp rfl

/-- A session dropped is a session less. -/
theorem Others.drop (h : Others r i c) (hd : c.dropSession i key = some (c', s, agent)) :
    Others r i c' ∧ ∀ key' s', (key', s') ∈ c'.current → (key', s') ∈ c.current ∧ key' ≠ key := by
  obtain ⟨m, hm, rfl, rfl, rfl⟩ := Core.dropSession_eq hd
  have hs : Still { c with sessions := Dict.remove key c.sessions }
      (({ c with sessions := Dict.remove key c.sessions }.revoke (.session key)).mark
        m.session.process (.closing i)) := by
    have hr : Still { c with sessions := Dict.remove key c.sessions }
      ({ c with sessions := Dict.remove key c.sessions }.revoke (.session key)) := ⟨rfl, rfl⟩
    exact hr.trans (Core.still_mark _ _)
  have sub (key' : Str) (s' : Session) (hm' : (key', s') ∈ ((({ c with
      sessions := Dict.remove key c.sessions } : Core).revoke (.session key)).mark
        m.session.process (.closing i)).current) : (key', s') ∈ c.current ∧ key' ≠ key := by
    obtain ⟨x, hx, heq⟩ := List.mem_map.1 hm'
    obtain ⟨hx, hne⟩ := Dict.mem_remove.1 hx
    cases heq
    exact ⟨List.mem_map_of_mem (f := fun x => (x.1, x.2.session)) hx, hne⟩
  refine ⟨⟨fun j k key' s' hne hj hk hm' => ?_, fun j a s' hne hj => ?_,
    fun key' s' id hm' ht => ?_⟩, sub⟩
  · exact h.inside j k key' s' hne hj hk (sub key' s' hm').1
  · unfold Core.Prompts
    rw [hs.turns]
    exact h.prompting j a s' hne hj
  · exact h.turning key' s' id (sub key' s' hm').1 (hs.turns ▸ ht)

theorem Others.turned {pt : Point} (h : Others r i c) (hp : pt.isTurn = false)
    (hh : ∀ key s, pt.holds = some key → (key, s) ∉ c.current) : Turned r i (c, pt) where
  inside := h.inside
  own key s hk hm := absurd hm (hh key s hk)
  prompting := h.prompting
  prompts a s heq := by
    cases heq
    cases hp
  turning key s id hm ht := .inr (h.turning key s id hm ht)

/-- Two sessions have two processes. -/
theorem Owned.process_inj (h : Owned r) {key' : Str} (hm : (key, s) ∈ r.store.current)
    (hm' : (key', s') ∈ r.store.current) (hp : s.process = s'.process) : key = key' := by
  obtain ⟨⟨_, m⟩, hx, heq⟩ := List.mem_map.1 hm
  obtain ⟨⟨_, m'⟩, hx', heq'⟩ := List.mem_map.1 hm'
  cases heq
  cases heq'
  obtain ⟨⟨pr, hpr, -, -, hl⟩, -⟩ := h.kept _ _ hx
  obtain ⟨⟨pr', hpr', -, -, hl'⟩, -⟩ := h.kept _ _ hx'
  rw [hp, hpr'] at hpr
  cases hpr
  cases hl.symm.trans hl'
  rfl

/-- The call takes a session it finds for its turn. -/
theorem Turning.enters (h : Turning r) (ho : Owned r) {profile : Profile} {m : Managed}
    (hi : r.At i (.locking profile key)) (hm : (key, m) ∈ r.store.sessions)
    (hfree : ∀ j k, j ≠ i → r.At j k → k.holds ≠ some key) :
    Turned r i (r.store.setBusy m.session.process true,
      .prompting ⟨profile, some key⟩ m.session) := by
  have hc : (key, m.session) ∈ r.store.current :=
    List.mem_map_of_mem (f := fun x => (x.1, x.2.session)) hm
  have hproc : ∃ b, r.store.turns[m.session.process]? = some (b, .session key) := by
    rw [← (ho.kept key m hm).2]
    exact (ho.kept key m hm).1.turn
  have others := h.others ho hi (.rest rfl .refl)
  refine ⟨others.inside, fun key' s hk hm' => ?_, fun j a s hne hj => ?_, fun a s heq => ?_,
    fun key' s id hm' ht => ?_⟩
  · cases hk
    obtain ⟨x, hx, heq⟩ := List.mem_map.1 (show (key, s) ∈ r.store.current from hm')
    cases heq
    exact ⟨_, by rw [ho.distinct.eq hm hx]⟩
  · have hp : s.process ≠ m.session.process := by
      intro heq
      obtain ⟨id, ht, hid⟩ := others.prompting j a s hne hj
      obtain ⟨b, hb⟩ := hproc
      rw [heq, hb] at ht
      cases ht
      cases hk : a.key with
      | none =>
        obtain ⟨b', hb'⟩ := (ho.fits j _ hj hk).1.turn
        rw [heq, hb] at hb'
        have hs : ProofId.session key = s.proofSessionId := congrArg Prod.snd (Option.some.inj hb')
        exact (ho.fits j _ hj hk).2 key hs.symm
      | some key' =>
        cases hid key' hk
        exact hfree j _ hne hj hk
    obtain ⟨id, ht, hid⟩ := others.prompting j a s hne hj
    exact ⟨id, by rw [Core.turns_setBusy_ne hp, ht], hid⟩
  · cases heq
    obtain ⟨b, hb⟩ := hproc
    refine ⟨_, Core.turns_setBusy_self hb, fun key' hk => ?_⟩
    cases hk
    rfl
  · by_cases hp : s.process = m.session.process
    · cases ho.process_inj hm' hc hp
      exact .inl rfl
    · rw [Core.turns_setBusy_ne hp] at ht
      exact .inr (others.turning key' s id hm' ht)

/-- The call has brought up the process of its turn. -/
theorem Turning.opens (h : Turning r) (ho : Owned r) {proof : Nat}
    (hi : r.At i (.spawning a id proof)) : Turned r i (r.store.opened i a id proof) := by
  have others := h.others ho hi (.rest rfl .refl)
  have hf := ho.fits i _ hi
  have new (pr : Process) (l : List (Str × Managed)) :
      ({ r.store with processes := r.store.processes ++ [pr], sessions := l } : Core).turns =
        r.store.turns ++ [(pr.busy, pr.proofSessionId)] := by
    simp [Core.turns]
  have prompts (pr : Process) (l : List (Str × Managed)) (j : Nat) (a : Attempt) (s : Session)
      (hne : j ≠ i) (hj : r.At j (.prompting a s)) :
      Core.Prompts { r.store with processes := r.store.processes ++ [pr], sessions := l } a s := by
    obtain ⟨id, ht, hid⟩ := others.prompting j a s hne hj
    refine ⟨id, ?_, hid⟩
    rw [new, List.getElem?_append_left (List.getElem?_eq_some_iff.1 ht).1, ht]
  have hlen : r.store.turns.length = r.store.processes.length := List.length_map _
  have own (pr : Process) (l : List (Str × Managed)) (hpr : pr.busy = true)
      (hid : pr.proofSessionId = id) :
      Core.Prompts { r.store with processes := r.store.processes ++ [pr], sessions := l } a
        ⟨r.store.processes.length, id⟩ := by
    refine ⟨id, ?_, hf.1⟩
    rw [new, ← hlen, List.getElem?_concat_length, hpr, hid]
  -- a session registered before has a process brought up before
  have old {key : Str} {s : Session} {pr : Process} {l : List (Str × Managed)} {x : Bool × ProofId}
      (hm : (key, s) ∈ r.store.current)
      (ht : ({ r.store with processes := r.store.processes ++ [pr], sessions := l } : Core).turns[
        s.process]? = some x) : r.store.turns[s.process]? = some x := by
    obtain ⟨⟨_, m⟩, hx, heq⟩ := List.mem_map.1 hm
    cases heq
    have hlt := (ho.kept _ _ hx).1.lt
    rwa [new, List.getElem?_append_left (hlen ▸ hlt)] at ht
  unfold Core.opened
  cases hkey : a.key with
  | none =>
    refine ⟨others.inside, fun key s hk => ?_, prompts _ _, fun a' s' heq => ?_,
      fun key s id' hm ht => .inr (others.turning key s id' hm (old hm ht))⟩
    · cases hkey.symm.trans hk
    · cases heq
      exact own _ _ rfl rfl
  | some key =>
    have hmem {key' : Str} {s : Session} {m : Managed} {c : Core}
        (hc : c.sessions = Dict.assign key m r.store.sessions) (hm : (key', s) ∈ c.current) :
        key' = key ∧ s = m.session ∨ (key', s) ∈ r.store.current := by
      obtain ⟨x, hx, heq⟩ := List.mem_map.1 hm
      rw [hc] at hx
      cases heq
      rcases Dict.mem_assign hx with rfl | hx
      · exact .inl ⟨rfl, rfl⟩
      · exact .inr (List.mem_map_of_mem (f := fun x => (x.1, x.2.session)) hx)
    have hnew : key ∉ r.store.sessions.map Prod.fst := ho.creates i _ key hi hkey
    refine ⟨fun j k key' s hne hj hk hm => ?_, fun key' s hk hm => ?_, prompts _ _,
      fun a' s' heq => ?_, fun key' s id' hm ht => ?_⟩
    · rcases hmem rfl hm with ⟨rfl, -⟩ | hm
      · exact absurd (ho.apart j i _ _ _ hj hi hk hkey) hne
      · exact others.inside j k key' s hne hj hk hm
    · cases hkey.symm.trans hk
      rcases hmem rfl hm with ⟨-, rfl⟩ | hm
      · exact ⟨a, rfl⟩
      · exact absurd (Core.keys_current r.store ▸ Core.mem_keys_current hm) hnew
    · cases heq
      exact own _ _ rfl rfl
    · rcases hmem rfl hm with ⟨rfl, -⟩ | hm
      · exact .inl hkey
      · exact .inr (others.turning key' s id' hm (old hm ht))

theorem Shift.turned {q : Core × Point} (hq : Shift r i k q) (h : Turning r) (ho : Owned r)
    (hi : r.At i k) : Turned r i q := by
  -- inside a lock, and no turn: the session is not registered
  have unregistered (hk : k.isTurn = false) {key : Str} {s : Session} (hh : k.holds = some key) :
      (key, s) ∉ r.store.current := fun hm => by
    obtain ⟨a, rfl⟩ := h.inside i k key s hi hh hm
    cases hk
  have current {c : Core} (hl : Leaves r.store k c) : c.current = r.store.current := by
    cases hl with
    | rest hk hs => exact hs.current
    | ended hs => exact hs.current
  cases hq with
  | rests hl hp hh =>
    refine (h.others ho hi hl).turned (Point.isTurn_of_rests hp) fun key s hk => ?_
    rw [current hl]
    rcases hh key hk with ⟨hk', hhold⟩ | hn
    · exact unregistered hk' hhold
    · exact fun hm => hn (Core.keys_current r.store ▸ Core.mem_keys_current hm)
  | drops hl hd hh hr =>
    obtain ⟨hothers, hsub⟩ := (h.others ho hi hl).drop hd
    refine hothers.turned rfl fun key s hk hm => ?_
    obtain ⟨hm, hne⟩ := hsub key s hm
    rcases hh key hk with heq | ⟨hk', hhold⟩
    · exact hne heq
    · exact unregistered hk' hhold (current hl ▸ hm)
  | enters hl hm =>
    refine h.enters ho hi hm fun j k _ hj hk => ?_
    rw [lockHeld_of_holds hj hk] at hl
    cases hl
  | opens => exact h.opens ho hi

theorem shift_begin (call : Call) : Shift r i .done (begin o r.store i call) := by
  have here : Leaves r.store .done r.store := .rest rfl .refl
  have cancelled (key : Str) (resetting : Option Str) :
      Shift r i .done (r.store, cancelling r.store key resetting) := by
    unfold cancelling
    split
    · split
      · exact .rests here rfl nofun
      · exact shift_afterCancel here
    · exact shift_afterCancel here
  cases call with
  | runStateful profile key => exact .rests here rfl nofun
  | runStateless profile => exact .rests here rfl nofun
  | cancel key => exact cancelled key none
  | reset agent key => exact cancelled key (some agent)
  | reap => exact shift_sweep here _
  | dropAgentSessions agent => exact shift_sweep here _
  | close => exact shift_sweep here _

/-- A call that has done nothing. -/
theorem Turning.start_done (h : Turning r) : Turning (r.start .done) := by
  refine ⟨fun i k key s hi hk hm => ?_, fun i a s hi => ?_, fun key s id hm ht => ?_⟩
  · rcases Pool.at_start.1 hi with hi | ⟨-, rfl⟩
    · exact h.inside i k key s hi hk hm
    · cases hk
  · rcases Pool.at_start.1 hi with hi | ⟨-, heq⟩
    · exact h.prompting i a s hi
    · cases heq
  · obtain ⟨i, k, hi, hk⟩ := h.turning key s id hm ht
    exact ⟨i, k, Pool.at_start.2 (.inl hi), hk⟩

theorem Owned.start_done (h : Owned r) : Owned (r.start .done) :=
  h.start (q := (r.store, .done)) ((h.around r.calls.length).plain trivial nofun) rfl

theorem start_eq_put (r : Runtime) (c : Core) (k : Point) :
    ({ r with store := c } : Runtime).start k = (r.start .done).put r.calls.length c k := by
  simp [Pool.start, Pool.put]

theorem Turning.still (h : Turning r) (hs : Still r.store c) : Turning { r with store := c } := by
  refine ⟨fun i k key s hi hk hm => h.inside i k key s hi hk (hs.current ▸ hm),
    fun i a s hi => ?_, fun key s id hm ht => ?_⟩
  · obtain ⟨id, ht, hid⟩ := h.prompting i a s hi
    exact ⟨id, by rw [hs.turns, ht], hid⟩
  · exact h.turning key s id (hs.current ▸ hm) (hs.turns ▸ ht)

theorem turning_next (h : Turning r) (ho : Owned r) {e : Label} (hn : next o r e = some r') :
    Turning r' := by
  cases e with
  | tick n =>
    cases hn
    exact h.still ⟨rfl, rfl⟩
  | begin call =>
    cases hn
    have hi : (r.start .done).At r.calls.length .done := Pool.at_start.2 (.inr ⟨rfl, rfl⟩)
    have hq : Shift (r.start .done) r.calls.length .done (begin o r.store r.calls.length call) :=
      shift_begin call
    rw [start_eq_put]
    exact Turning.put (hq.turned h.start_done ho.start_done hi) hi
  | act i e =>
    simp only [next] at hn
    split at hn
    · rename_i k hi
      obtain ⟨q, ha, rfl⟩ := Option.map_eq_some_iff.1 hn
      exact Turning.put ((act_shift ha).turned h ho hi) hi
    · cases hn
  | exit p =>
    simp only [next] at hn
    split at hn <;> cases hn
    exact h.still (Core.still_mark _ _)

theorem turning {C : Runtime → Label → Prop} (h : (runtime o).Reach C r) : Turning r := by
  refine h.inv_using (fun s hs => ?_) fun s e s' hr hi _ hn => turning_next hi (owned hr) hn
  subst hs
  exact ⟨fun i _ _ _ hi => absurd hi.lt (Nat.not_lt_zero i),
    fun i _ _ hi => absurd hi.lt (Nat.not_lt_zero i), nofun⟩

end

end Pi
