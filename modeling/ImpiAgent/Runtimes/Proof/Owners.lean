import ImpiAgent.Runtimes.Runtime

/-!
# Who has a process

`Owned`: a registered session's process is kept under the session's id, a process being closed is
that of the one call which closes it, a memoryless call has the process it had started to itself,
and only the call inside the lock of a session id brings a process for it up. So a process has one
owner, and its permits are given back once.

A call's step changes what it owns itself. `Around` is what it has to leave alone (the sessions and
the other calls), kept by each of the operations a step is made of; `act_around` puts them together.
-/

namespace Pi

open Text (Str)

variable {o : Options} {c c' : Core} {r r' : Runtime}

/-- The process of a session, started for `agent`, belongs as `life` has it. -/
def Core.Has (c : Core) (s : Session) (agent : Str) (life : Life) : Prop :=
  ∃ pr, c.processes[s.process]? = some pr ∧ pr.agent = agent ∧
    pr.proofSessionId = s.proofSessionId ∧ pr.life = life

/-- The session id a call is bringing a process up for. -/
def Point.creates : Point → Option Str
  | .acquire a | .agentQueue a | .acquireGlobal a | .globalQueue a | .granted a
  | .spawning a _ _ => a.key
  | .closing _ _ (.create a) | .closing _ _ (.agentRoom a) | .closing _ _ (.globalRoom a) => a.key
  | _ => none

/-- What call `i` owns at a point. -/
def Point.Fits (i : Nat) (c : Core) : Point → Prop
  | .closing s agent _ => c.Has s agent (.closing i)
  | .prompting a s => a.key = none →
      c.Has s a.profile.name (.oneShot i) ∧ ∀ key, s.proofSessionId ≠ .session key
  | .spawning a id _ =>
      (∀ key, a.key = some key → id = .session key) ∧ (a.key = none → ∀ key, id ≠ .session key)
  | _ => True

/-- The processes' owners (module doc). -/
structure Owned (r : Runtime) : Prop where
  distinct : Dict.Distinct r.store.sessions
  kept : ∀ key m, (key, m) ∈ r.store.sessions →
    r.store.Has m.session m.agent (.kept key) ∧ m.session.proofSessionId = .session key
  fits : ∀ i k, r.At i k → k.Fits i r.store
  creates : ∀ i k key, r.At i k → k.creates = some key → key ∉ r.store.sessions.map Prod.fst
  apart : ∀ i j k k' key, r.At i k → r.At j k' → k.holds = some key → k'.holds = some key → i = j

/-- A call that brings a process up is inside the lock. -/
theorem Point.holds_of_creates {k : Point} {key : Str} (h : k.creates = some key) :
    k.holds = some key := by
  cases k with
  | closing s agent k =>
    cases k with
    | create a | agentRoom a | globalRoom a => exact h
    | _ => cases h
  | prompting a s => cases h
  | _ => exact h

/-! ## The operations on a process's owner -/

namespace Core

section
variable (c)

@[simp] theorem revoke_sessions (id : ProofId) : (c.revoke id).sessions = c.sessions := rfl
@[simp] theorem revoke_processes (id : ProofId) : (c.revoke id).processes = c.processes := rfl
@[simp] theorem mark_sessions (p : Nat) (l : Life) : (c.mark p l).sessions = c.sessions := rfl
@[simp] theorem setBusy_sessions (p : Nat) (b : Bool) : (c.setBusy p b).sessions = c.sessions := rfl
@[simp] theorem takeAgent_sessions (agent : Str) : (c.takeAgent agent).sessions = c.sessions := rfl
@[simp] theorem takeAgent_processes (agent : Str) : (c.takeAgent agent).processes = c.processes := rfl
@[simp] theorem takeGlobal_sessions : c.takeGlobal.sessions = c.sessions := rfl
@[simp] theorem takeGlobal_processes : c.takeGlobal.processes = c.processes := rfl

@[simp] theorem giveAgent_sessions (agent : Str) : (c.giveAgent o agent).sessions = c.sessions := by
  unfold giveAgent
  split <;> rfl

@[simp] theorem giveAgent_processes (agent : Str) :
    (c.giveAgent o agent).processes = c.processes := by
  unfold giveAgent
  split <;> rfl

@[simp] theorem releasePermits_sessions (agent : Str) :
    (c.releasePermits o agent).sessions = c.sessions := giveAgent_sessions ..

@[simp] theorem releasePermits_processes (agent : Str) :
    (c.releasePermits o agent).processes = c.processes := giveAgent_processes ..

@[simp] theorem unwind_sessions (timeout : Bool) (k : After) :
    (unwind o c timeout k).sessions = c.sessions := by
  unfold unwind
  split
  · split <;> simp
  · rfl

@[simp] theorem unwind_processes (timeout : Bool) (k : After) :
    (unwind o c timeout k).processes = c.processes := by
  unfold unwind
  split
  · split <;> simp
  · rfl

@[simp] theorem closeSession_sessions (s : Session) (agent : Str) (gone : Bool) :
    (c.closeSession o s agent gone).sessions = c.sessions := by
  simp [closeSession]

@[simp] theorem touch_processes (s : Session) : (c.touch s).processes = c.processes := rfl

theorem spawnSession_sessions (a : Attempt) : (c.spawnSession a).1.sessions = c.sessions := by
  unfold spawnSession
  split <;> rfl

theorem spawnSession_processes (a : Attempt) : (c.spawnSession a).1.processes = c.processes := by
  unfold spawnSession
  split <;> rfl

end

variable {s s' : Session} {agent agent' : Str} {life life' : Life}

theorem getElem?_mark (p q : Nat) : (c.mark p life).processes[q]? =
    if p = q then (c.processes[q]?).map ({ · with life }) else c.processes[q]? := by
  unfold mark
  rw [List.getElem?_modify]
  split <;> simp [*]

theorem getElem?_setBusy (p q : Nat) (b : Bool) : (c.setBusy p b).processes[q]? =
    if p = q then (c.processes[q]?).map ({ · with busy := b }) else c.processes[q]? := by
  unfold setBusy
  rw [List.getElem?_modify]
  split <;> simp [*]

theorem Has.congr (h : c.Has s agent life) (hp : c'.processes = c.processes) :
    c'.Has s agent life := by
  unfold Has
  rw [hp]
  exact h

theorem Has.setBusy (h : c.Has s agent life) (p : Nat) (b : Bool) :
    (c.setBusy p b).Has s agent life := by
  obtain ⟨pr, hpr, ha, hid, hl⟩ := h
  unfold Has
  rw [getElem?_setBusy]
  split
  · exact ⟨{ pr with busy := b }, by simp [hpr], ha, hid, hl⟩
  · exact ⟨pr, hpr, ha, hid, hl⟩

/-- The process changes hands. -/
theorem Has.mark (h : c.Has s agent life) (life' : Life) :
    (c.mark s.process life').Has s agent life' := by
  obtain ⟨pr, hpr, ha, hid, -⟩ := h
  unfold Has
  rw [getElem?_mark, if_pos rfl]
  exact ⟨{ pr with life := life' }, by simp [hpr], ha, hid, rfl⟩

/-- One that belongs to somebody else stays theirs. -/
theorem Has.mark_other (h : c.Has s' agent' life') (h₀ : c.Has s agent life) (hne : life' ≠ life)
    (l : Life) : (c.mark s.process l).Has s' agent' life' := by
  obtain ⟨pr, hpr, hpr'⟩ := h
  obtain ⟨pr₀, hpr₀, -, -, hl₀⟩ := h₀
  unfold Has
  rw [getElem?_mark]
  split
  · rename_i heq
    rw [← heq, hpr₀] at hpr
    cases hpr
    exact absurd (hpr'.2.2.symm.trans hl₀) hne
  · exact ⟨pr, hpr, hpr'⟩

theorem Has.append (h : c.Has s agent life) {l : List Process}
    (hp : c'.processes = c.processes ++ l) : c'.Has s agent life := by
  obtain ⟨pr, hpr, hpr'⟩ := h
  refine ⟨pr, ?_, hpr'⟩
  rw [hp, List.getElem?_append_left (List.getElem?_eq_some_iff.1 hpr).1]
  exact hpr

theorem Has.lt (h : c.Has s agent life) : s.process < c.processes.length := by
  obtain ⟨pr, hpr, -⟩ := h
  exact (List.getElem?_eq_some_iff.1 hpr).1

end Core

/-! ## What a call's step leaves alone -/

/-- What step of call `i` must leave as `Owned` has it. -/
structure Around (r : Runtime) (i : Nat) (c : Core) : Prop where
  distinct : Dict.Distinct c.sessions
  kept : ∀ key m, (key, m) ∈ c.sessions →
    c.Has m.session m.agent (.kept key) ∧ m.session.proofSessionId = .session key
  fits : ∀ j k, j ≠ i → r.At j k → k.Fits j c
  creates : ∀ j k key, j ≠ i → r.At j k → k.creates = some key → key ∉ c.sessions.map Prod.fst

namespace Around

variable {i : Nat} {s : Session} {agent key : Str} {life : Life}

theorem congr (h : Around r i c) (hs : c'.sessions = c.sessions)
    (hp : c'.processes = c.processes) : Around r i c' := by
  refine ⟨hs ▸ h.distinct, fun key m hm => ?_, fun j k hj hk => ?_, fun j k key hj hk hc => ?_⟩
  · obtain ⟨hh, hid⟩ := h.kept key m (hs ▸ hm)
    exact ⟨hh.congr hp, hid⟩
  · have hf := h.fits j k hj hk
    cases k with
    | closing s agent k => exact Core.Has.congr hf hp
    | prompting a s => exact fun ha => ⟨(hf ha).1.congr hp, (hf ha).2⟩
    | _ => exact hf
  · rw [hs]
    exact h.creates j k key hj hk hc

/-- Of the runtime it is the other calls that matter. -/
theorem of_calls (h : Around r i c) (hr : r'.calls = r.calls) : Around r' i c := by
  have at_iff (j : Nat) (k : Point) : r'.At j k ↔ r.At j k := by
    unfold Pool.At
    rw [hr]
  exact ⟨h.distinct, h.kept, fun j k hj hk => h.fits j k hj ((at_iff j k).1 hk),
    fun j k key hj hk => h.creates j k key hj ((at_iff j k).1 hk)⟩

theorem setBusy (h : Around r i c) (p : Nat) (b : Bool) : Around r i (c.setBusy p b) := by
  refine ⟨h.distinct, fun key m hm => ?_, fun j k hj hk => ?_, h.creates⟩
  · exact ⟨(h.kept key m hm).1.setBusy p b, (h.kept key m hm).2⟩
  · have hf := h.fits j k hj hk
    cases k with
    | closing s agent k => exact Core.Has.setBusy hf p b
    | prompting a s => exact fun ha => ⟨(hf ha).1.setBusy p b, (hf ha).2⟩
    | _ => exact hf

/-- Another call's process is not touched by handing on one of its own. -/
theorem fits_mark (h : Around r i c) (hh : c.Has s agent life) (l : Life)
    (hl : ∀ j, j ≠ i → life ≠ .closing j ∧ life ≠ .oneShot j) {j : Nat} {k : Point} (hj : j ≠ i)
    (hk : r.At j k) : k.Fits j (c.mark s.process l) := by
  have hf := h.fits j k hj hk
  cases k with
  | closing s' agent' k' => exact Core.Has.mark_other hf hh (hl j hj).1.symm l
  | prompting a s' => exact fun ha => ⟨(hf ha).1.mark_other hh (hl j hj).2.symm l, (hf ha).2⟩
  | _ => exact hf

/-- A process that is not a session's goes from one hand to another. -/
theorem mark (h : Around r i c) (hh : c.Has s agent life) (l : Life)
    (hl : ∀ j, j ≠ i → life ≠ .closing j ∧ life ≠ .oneShot j) (hk : ∀ key, life ≠ .kept key) :
    Around r i (c.mark s.process l) := by
  refine ⟨h.distinct, fun key m hm => ?_, fun j k hj hkj => h.fits_mark hh l hl hj hkj,
    h.creates⟩
  exact ⟨(h.kept key m hm).1.mark_other hh (hk key).symm l, (h.kept key m hm).2⟩

/-- `_drop_session`: the process is now the call's to close. -/
theorem dropSession (h : Around r i c) (hd : c.dropSession i key = some (c', s, agent)) :
    Around r i c' ∧ c'.Has s agent (.closing i) := by
  unfold Core.dropSession at hd
  rw [Option.map_eq_some_iff] at hd
  obtain ⟨m, hm, hd⟩ := hd
  cases hd
  have hmem := Dict.mem_of_lookup hm
  have hh := (h.kept key m hmem).1
  have hh' : ((({ c with sessions := Dict.remove key c.sessions } : Core)).revoke
      (.session key)).Has m.session m.agent (.kept key) := hh
  refine ⟨⟨h.distinct.remove, fun key' m' hm' => ?_, fun j k hj hk => ?_, fun j k key' hj hk hc => ?_⟩,
    hh'.mark _⟩
  · obtain ⟨hm', hne⟩ := Dict.mem_remove.1 hm'
    obtain ⟨hh₁, hid⟩ := h.kept key' m' hm'
    refine ⟨Core.Has.mark_other hh₁ hh' (fun heq => hne ?_) _, hid⟩
    cases heq
    rfl
  · exact h.fits_mark hh _ (fun _ _ => ⟨nofun, nofun⟩) hj hk
  · intro hm'
    obtain ⟨x, hx, rfl⟩ := List.mem_map.1 hm'
    exact h.creates j k _ hj hk hc (List.mem_map_of_mem (Dict.mem_remove.1 hx).1)

/-- `_close_session`: the process is nobody's any more. -/
theorem closeSession (h : Around r i c) (hh : c.Has s agent (.closing i)) (gone : Bool) :
    Around r i (c.closeSession o s agent gone) := by
  have hc : Around r i ((c.revoke s.proofSessionId).releasePermits o agent) :=
    h.congr (by simp) (by simp)
  refine hc.mark (Core.Has.congr hh (by simp)) _ (fun j hj => ⟨?_, nofun⟩) nofun
  exact fun heq => hj (by cases heq; rfl)

end Around

/-! ## A step of a call -/

/-- A step of call `i` ends in `q` as `Owned` has it. -/
structure Lands (r : Runtime) (i : Nat) (q : Core × Point) : Prop where
  around : Around r i q.1
  fits : q.2.Fits i q.1
  creates : ∀ key, q.2.creates = some key → key ∉ q.1.sessions.map Prod.fst

section

variable {i : Nat} {a : Attempt} {s : Session} {agent key : Str} {k : After} {pt : Point}

theorem Core.dropSession_sessions (h : c.dropSession i key = some (c', s, agent)) :
    c'.sessions = Dict.remove key c.sessions := by
  unfold Core.dropSession at h
  rw [Option.map_eq_some_iff] at h
  obtain ⟨m, -, h⟩ := h
  cases h
  rfl

/-- A point that owns nothing. -/
def Point.Plain : Point → Prop
  | .closing .. | .prompting .. | .spawning .. => False
  | _ => True

theorem Point.Plain.fits (h : pt.Plain) : pt.Fits i c := by
  cases pt with
  | closing | prompting | spawning => exact h.elim
  | _ => trivial

theorem Around.plain (h : Around r i c) (hp : pt.Plain)
    (hc : ∀ key, pt.creates = some key → key ∉ c.sessions.map Prod.fst) : Lands r i (c, pt) :=
  ⟨h, hp.fits, hc⟩

/-- The call closes a session, its own or one that stood in its way. -/
theorem Around.drop (h : Around r i c) (hd : c.dropSession i key = some (c', s, agent))
    (hk : ∀ key', (Point.closing s agent k).creates = some key' →
      key' = key ∨ key' ∉ c.sessions.map Prod.fst) : Lands r i (c', .closing s agent k) := by
  obtain ⟨ha, hf⟩ := h.dropSession hd
  refine ⟨ha, hf, fun key' hc hm => ?_⟩
  rw [Core.dropSession_sessions hd] at hm
  obtain ⟨x, hx, rfl⟩ := List.mem_map.1 hm
  obtain ⟨hx, hne⟩ := Dict.mem_remove.1 hx
  rcases hk _ hc with heq | hn
  · exact hne heq
  · exact hn (List.mem_map_of_mem hx)

/-- A sweep ends, or closes the next session. -/
theorem Around.sweep (h : Around r i c) : ∀ keys : List Str, Lands r i (c.sweep i keys)
  | [] => h.plain trivial nofun
  | key :: keys => by
    unfold Core.sweep
    split
    · rename_i hd
      exact h.drop hd nofun
    · exact h.sweep keys

theorem Around.dropThen (h : Around r i c) (hk : ∀ s agent, (Point.closing s agent k).creates = none)
    (hp : pt.Plain) (hc : pt.creates = none) : Lands r i (dropThen c i key k pt) := by
  unfold Pi.dropThen
  split
  · rename_i hd
    exact h.drop hd (by simp [hk])
  · exact h.plain hp (by simp [hc])

theorem afterCancel_plain {resetting : Option Str} :
    (afterCancel key resetting).Plain ∧ (afterCancel key resetting).creates = none := by
  cases resetting <;> exact ⟨trivial, rfl⟩

theorem mem_of_least {x : Nat × Str} : ∀ {l : List (Nat × Str)}, least l = some x → x ∈ l
  | [], h => nomatch h
  | y :: l, h => by
    unfold least at h
    split at h
    · cases h
      exact List.mem_cons_self
    · rename_i z hz
      split at h <;> cases h
      · exact List.mem_cons_of_mem _ (mem_of_least hz)
      · exact List.mem_cons_self

/-- `_make_room` drops a session that is idle. -/
theorem makeRoom_eq_some {agent₀ : Option Str} (h : makeRoom o r i agent₀ = some (c', s, agent)) :
    ∃ x ∈ idle r agent₀, r.store.dropSession i x.2 = some (c', s, agent) := by
  unfold makeRoom at h
  split at h
  · rw [Option.bind_eq_some_iff] at h
    obtain ⟨x, hx, hd⟩ := h
    exact ⟨x, mem_of_least hx, hd⟩
  · cases h

theorem Around.queueAgent (h : Around r i r.store)
    (ha : ∀ key, a.key = some key → key ∉ r.store.sessions.map Prod.fst) :
    Lands r i (queueAgent r a) := by
  unfold Pi.queueAgent
  split
  · exact h.plain trivial ha
  · exact Around.plain (h.congr rfl rfl) trivial ha

theorem Around.queueGlobal (h : Around r i r.store)
    (ha : ∀ key, a.key = some key → key ∉ r.store.sessions.map Prod.fst) :
    Lands r i (queueGlobal r a) := by
  unfold Pi.queueGlobal
  split
  · exact h.plain trivial ha
  · exact Around.plain (h.congr rfl rfl) trivial ha

theorem Around.acquire (h : Around r i r.store)
    (ha : ∀ key, a.key = some key → key ∉ r.store.sessions.map Prod.fst) :
    Lands r i (acquire o r i a) := by
  unfold Pi.acquire
  split
  · exact h.plain trivial ha
  · split
    · split
      · rename_i hm
        obtain ⟨x, -, hd⟩ := makeRoom_eq_some hm
        exact h.drop hd fun key' hk => .inr (ha key' hk)
      · exact h.queueAgent ha
    · exact h.queueAgent ha

theorem Around.acquireGlobal (h : Around r i r.store)
    (ha : ∀ key, a.key = some key → key ∉ r.store.sessions.map Prod.fst) :
    Lands r i (acquireGlobal o r i a) := by
  unfold Pi.acquireGlobal
  split
  · split
    · rename_i hm
      obtain ⟨x, -, hd⟩ := makeRoom_eq_some hm
      exact h.drop hd fun key' hk => .inr (ha key' hk)
    · exact h.queueGlobal ha
  · exact h.queueGlobal ha

theorem Around.turn (h : Around r i r.store) {profile : Profile} :
    Lands r i (turn r i profile key) := by
  unfold Pi.turn
  split
  · rename_i hn
    refine h.plain trivial fun key' hk => ?_
    cases hk
    exact Dict.lookup_eq_none.1 hn
  · split
    · exact ⟨h.setBusy _ _, nofun, nofun⟩
    · split
      · rename_i hd
        refine h.drop hd fun key' hk => .inl ?_
        cases hk
        rfl
      · rename_i hm _ _ hd
        rw [Core.dropSession, hm] at hd
        cases hd

/-- The process is up, and is its session's or its call's. -/
theorem Around.opened (h : Around r i c) {id : ProofId} {proof : Nat}
    (hf : (Point.spawning a id proof).Fits i c)
    (ha : ∀ key, a.key = some key → key ∉ c.sessions.map Prod.fst ∧
      ∀ j k, j ≠ i → r.At j k → k.creates ≠ some key) :
    Lands r i (c.opened i a id proof) := by
  have old {s : Session} {agent : Str} {life : Life} (hh : c.Has s agent life)
      {pr : Process} : ({ c with processes := c.processes ++ [pr] } : Core).Has s agent life :=
    hh.append rfl
  have fits (pr : Process) (l : List (Str × Managed)) (j : Nat) (k : Point) (hj : j ≠ i)
      (hk : r.At j k) :
      k.Fits j { c with processes := c.processes ++ [pr], sessions := l } := by
    have hf := h.fits j k hj hk
    cases k with
    | closing s agent k => exact old hf
    | prompting a s => exact fun ha => ⟨old (hf ha).1, (hf ha).2⟩
    | _ => exact hf
  have new (life : Life) : ({ c with processes := c.processes ++
      [⟨a.profile.name, id, proof, true, life⟩] } : Core).Has ⟨c.processes.length, id⟩
        a.profile.name life :=
    ⟨_, List.getElem?_concat_length, rfl, rfl, rfl⟩
  unfold Core.opened
  cases hkey : a.key with
  | none =>
    refine ⟨⟨h.distinct, fun key m hm => ?_, fits _ _, h.creates⟩, fun _ => ⟨new _, hf.2 hkey⟩,
      nofun⟩
    exact ⟨old (h.kept key m hm).1, (h.kept key m hm).2⟩
  | some key =>
    obtain ⟨hnew, hother⟩ := ha key hkey
    refine ⟨⟨h.distinct.assign, fun key' m hm => ?_, fits _ _, fun j k key' hj hk hc hm => ?_⟩,
      fun hn => ?_, nofun⟩
    · rcases Dict.mem_assign hm with heq | hm
      · cases heq
        exact ⟨new _, hf.1 key hkey⟩
      · exact ⟨old (h.kept key' m hm).1, (h.kept key' m hm).2⟩
    · rcases Dict.mem_keys_assign.1 hm with rfl | hm
      · exact hother j k hj hk hc
      · exact h.creates j k key' hj hk hc hm
    · rw [hkey] at hn
      cases hn

theorem Around.spawnSession (h : Around r i c)
    (ha : ∀ key, a.key = some key → key ∉ c.sessions.map Prod.fst) :
    Lands r i (c.spawnSession a) := by
  have hn : Around r i (c.spawnSession a).1 :=
    h.congr (c.spawnSession_sessions a) (c.spawnSession_processes a)
  unfold Core.spawnSession at hn ⊢
  split
  · rename_i key hkey
    refine ⟨by simpa [hkey] using hn, ⟨fun key' hk => ?_, fun hk => ?_⟩, ha⟩
    · rw [hkey] at hk
      cases hk
      rfl
    · rw [hkey] at hk
      cases hk
  · rename_i hkey
    refine ⟨by simpa [hkey] using hn, ⟨fun key' hk => ?_, fun _ => nofun⟩, ha⟩
    rw [hkey] at hk
    cases hk

/-- `last_used` is nobody's. -/
theorem Around.touch (h : Around r i c) (s : Session) : Around r i (c.touch s) := by
  have keys : (c.touch s).sessions.map Prod.fst = c.sessions.map Prod.fst := by
    simp [Core.touch]
  refine ⟨?_, fun key m hm => ?_, h.fits, fun j k key hj hk hc => ?_⟩
  · unfold Dict.Distinct
    rw [keys]
    exact h.distinct
  · obtain ⟨⟨key', m'⟩, hm', heq⟩ := List.mem_map.1 hm
    obtain ⟨hh, hid⟩ := h.kept key' m' hm'
    cases heq
    dsimp only
    split <;> exact ⟨hh, hid⟩
  · rw [keys]
    exact h.creates j k key hj hk hc

/-- The end of a prompt. -/
theorem Around.promptOver (h : Around r i c) (hf : (Point.prompting a s).Fits i c) :
    Lands r i (c.promptOver i a s) := by
  unfold Core.promptOver
  split
  · exact (h.setBusy _ _).plain trivial nofun
  · rename_i hk
    have hh := ((hf hk).1.setBusy s.process false)
    refine ⟨(h.setBusy _ _).mark hh _ (fun j hj => ⟨nofun, fun heq => hj ?_⟩) nofun,
      hh.mark _, nofun⟩
    cases heq
    rfl

theorem Around.resume (h : Around r i r.store)
    (ha : ∀ key, (Point.closing s agent k).creates = some key →
      key ∉ r.store.sessions.map Prod.fst) : Lands r i (resume r i k) := by
  cases k with
  | create a => exact h.plain trivial ha
  | agentRoom a => exact h.queueAgent ha
  | globalRoom a => exact h.queueGlobal ha
  | turnOver key => exact h.plain trivial nofun
  | forget key => exact h.plain trivial nofun
  | cancelled key resetting => exact h.plain afterCancel_plain.1 (by simp [afterCancel_plain.2])
  | sweep keys => exact h.sweep keys

theorem Lands.of_calls {q : Core × Point} (h : Lands r' i q) (hr : r'.calls = r.calls) :
    Lands r i q :=
  ⟨h.around.of_calls hr.symm, h.fits, h.creates⟩

/-- A step of a call that is where `Owned` has it. -/
theorem Around.act (h : Around r i r.store) {e : Event} {k : Point} {q : Core × Point}
    (hf : k.Fits i r.store)
    (hc : ∀ key, k.creates = some key → key ∉ r.store.sessions.map Prod.fst ∧
      ∀ j k', j ≠ i → r.At j k' → k'.creates ≠ some key)
    (ha : act o r i k e = some q) : Lands r i q := by
  have here (key : Str) (hk : k.creates = some key) := (hc key hk).1
  have ends {pt : Point} (c' : Core) (hs : c'.sessions = r.store.sessions)
      (hp : c'.processes = r.store.processes) (hpt : pt.Plain) (hcr : pt.creates = none) :
      Lands r i (c', pt) := Around.plain (h.congr hs hp) hpt (by simp [hcr])
  cases k with
  | locking profile key =>
    cases e with
    | enter =>
      simp only [Pi.act] at ha
      split at ha <;> cases ha
      exact h.turn
    | cancel gone =>
      cases ha
      exact ends _ rfl rfl trivial rfl
    | _ => cases ha
  | acquire a =>
    cases e with
    | go =>
      cases ha
      exact h.acquire here
    | _ => cases ha
  | agentQueue a =>
    cases e with
    | take =>
      simp only [Pi.act] at ha
      split at ha <;> cases ha
      exact Around.plain (h.congr rfl rfl) trivial here
    | timeout | cancel gone =>
      cases ha
      exact ends _ rfl rfl trivial rfl
    | _ => cases ha
  | acquireGlobal a =>
    cases e with
    | go =>
      cases ha
      exact h.acquireGlobal here
    | _ => cases ha
  | globalQueue a =>
    cases e with
    | take =>
      simp only [Pi.act] at ha
      split at ha <;> cases ha
      exact Around.plain (h.congr rfl rfl) trivial here
    | timeout =>
      cases ha
      exact ends _ (by simp) (by simp) trivial rfl
    | cancel gone =>
      cases ha
      exact ends _ rfl rfl trivial rfl
    | _ => cases ha
  | granted a =>
    cases e with
    | go =>
      cases ha
      exact h.spawnSession here
    | _ => cases ha
  | spawning a id proof =>
    cases e with
    | spawned =>
      cases ha
      exact h.opened hf hc
    | spawnFailed =>
      cases ha
      exact ends _ (by simp) (by simp) trivial rfl
    | cancel gone =>
      cases ha
      exact ends _ rfl rfl trivial rfl
    | _ => cases ha
  | prompting a s =>
    cases e with
    | answered =>
      cases ha
      exact (h.touch s).promptOver fun hn => ⟨(hf hn).1.congr rfl, (hf hn).2⟩
    | broken =>
      simp only [Pi.act] at ha
      split at ha <;> cases ha
      · exact (h.setBusy _ _).dropThen (fun _ _ => rfl) trivial rfl
      · exact h.promptOver hf
    | failed | cancel gone =>
      cases ha
      exact h.promptOver hf
    | _ => cases ha
  | cancelling key resetting =>
    cases e with
    | ended =>
      cases ha
      exact ends _ rfl rfl afterCancel_plain.1 afterCancel_plain.2
    | stuck =>
      cases ha
      exact h.dropThen (fun _ _ => rfl) afterCancel_plain.1 afterCancel_plain.2
    | cancel gone =>
      cases ha
      exact ends _ rfl rfl trivial rfl
    | _ => cases ha
  | resetLocking agent key =>
    cases e with
    | enter =>
      simp only [Pi.act] at ha
      split at ha <;> cases ha
      exact h.dropThen (fun _ _ => rfl) trivial rfl
    | cancel gone =>
      cases ha
      exact ends _ rfl rfl trivial rfl
    | _ => cases ha
  | closing s agent k =>
    have closed (gone : Bool) := h.closeSession (o := o) hf gone
    cases e with
    | closed =>
      cases ha
      have hcalls : (⟨r.store.closeSession o s agent true, r.calls⟩ : Runtime).calls = r.calls :=
        rfl
      have hk : ∀ key, (Point.closing s agent k).creates = some key →
          key ∉ (r.store.closeSession o s agent true).sessions.map Prod.fst :=
        fun key hk => by simpa using here key hk
      have hl := ((closed true).of_calls hcalls).resume hk
      exact hl.of_calls hcalls
    | closeRaised timeout gone =>
      cases ha
      exact Around.plain ((closed gone).congr (by simp) (by simp)) trivial nofun
    | cancel gone =>
      cases ha
      exact Around.plain ((closed gone).congr (by simp) (by simp)) trivial nofun
    | _ => cases ha
  | done => cases e <;> cases ha

end

/-! ## The lock a call is inside of -/

section

variable {i : Nat} {a : Attempt} {s : Session} {agent key : Str} {k : After} {pt : Point}

theorem holds_queueAgent : (queueAgent r a).2.holds = a.key := by
  unfold queueAgent
  split <;> rfl

theorem holds_queueGlobal : (queueGlobal r a).2.holds = a.key := by
  unfold queueGlobal
  split <;> rfl

theorem holds_acquire : (acquire o r i a).2.holds = a.key := by
  unfold acquire
  split
  · rfl
  · split
    · split
      · rfl
      · exact holds_queueAgent
    · exact holds_queueAgent

theorem holds_acquireGlobal : (acquireGlobal o r i a).2.holds = a.key := by
  unfold acquireGlobal
  split
  · split
    · rfl
    · exact holds_queueGlobal
  · exact holds_queueGlobal

theorem holds_turn {profile : Profile} : (turn r i profile key).2.holds = some key := by
  unfold turn
  split
  · rfl
  · split
    · rfl
    · split <;> rfl

theorem holds_sweep (c : Core) : ∀ keys : List Str, (c.sweep i keys).2.holds = none
  | [] => rfl
  | key :: keys => by
    unfold Core.sweep
    split
    · rfl
    · exact holds_sweep c keys

theorem holds_dropThen {l : Str} (h : (dropThen c i key k pt).2.holds = some l)
    (hp : pt.holds = none) : k.holds = some l := by
  unfold dropThen at h
  split at h
  · exact h
  · rw [hp] at h
    cases h

theorem holds_afterCancel {resetting : Option Str} : (afterCancel key resetting).holds = none := by
  cases resetting <;> rfl

theorem holds_opened {id : ProofId} {proof : Nat} : (c.opened i a id proof).2.holds = a.key := by
  unfold Core.opened
  split <;> rfl

theorem holds_spawnSession : (c.spawnSession a).2.holds = a.key := by
  unfold Core.spawnSession
  split <;> rfl

theorem holds_promptOver : (c.promptOver i a s).2.holds = none := by
  unfold Core.promptOver
  split <;> rfl

theorem holds_resume {l : Str} (h : (resume r i k).2.holds = some l) : k.holds = some l := by
  cases k with
  | create a => exact h
  | agentRoom a => exact holds_queueAgent.symm.trans h
  | globalRoom a => exact holds_queueGlobal.symm.trans h
  | turnOver key | forget key => cases h
  | cancelled key resetting => exact absurd (holds_afterCancel.symm.trans h) nofun
  | sweep keys => exact absurd ((holds_sweep _ keys).symm.trans h) nofun

/-- A call is inside the lock it was inside of before, or one nobody was. -/
theorem act_holds {e : Event} {k : Point} {q : Core × Point} (ha : act o r i k e = some q)
    (hk : q.2.holds = some key) : k.holds = some key ∨ lockHeld r key = false := by
  cases k with
  | locking profile key' =>
    cases e with
    | enter =>
      simp only [act] at ha
      split at ha <;> cases ha
      rename_i hl
      cases holds_turn.symm.trans hk
      exact .inr (Bool.eq_false_iff.2 hl)
    | cancel gone =>
      cases ha
      cases hk
    | _ => cases ha
  | acquire a =>
    cases e with
    | go =>
      cases ha
      exact .inl (holds_acquire.symm.trans hk)
    | _ => cases ha
  | agentQueue a =>
    cases e with
    | take =>
      simp only [act] at ha
      split at ha <;> cases ha
      exact .inl hk
    | timeout | cancel gone =>
      cases ha
      cases hk
    | _ => cases ha
  | acquireGlobal a =>
    cases e with
    | go =>
      cases ha
      exact .inl (holds_acquireGlobal.symm.trans hk)
    | _ => cases ha
  | globalQueue a =>
    cases e with
    | take =>
      simp only [act] at ha
      split at ha <;> cases ha
      exact .inl hk
    | timeout | cancel gone =>
      cases ha
      cases hk
    | _ => cases ha
  | granted a =>
    cases e with
    | go =>
      cases ha
      exact .inl (holds_spawnSession.symm.trans hk)
    | _ => cases ha
  | spawning a id proof =>
    cases e with
    | spawned =>
      cases ha
      exact .inl (holds_opened.symm.trans hk)
    | spawnFailed | cancel gone =>
      cases ha
      cases hk
    | _ => cases ha
  | prompting a s =>
    cases e with
    | broken =>
      simp only [act] at ha
      split at ha <;> cases ha
      · exact .inl (holds_dropThen hk rfl)
      · exact absurd (holds_promptOver.symm.trans hk) nofun
    | answered | failed | cancel gone =>
      cases ha
      exact absurd (holds_promptOver.symm.trans hk) nofun
    | _ => cases ha
  | cancelling key' resetting =>
    cases e with
    | ended =>
      cases ha
      exact absurd (holds_afterCancel.symm.trans hk) nofun
    | stuck =>
      cases ha
      exact absurd (holds_dropThen hk holds_afterCancel) nofun
    | cancel gone =>
      cases ha
      cases hk
    | _ => cases ha
  | resetLocking agent key' =>
    cases e with
    | enter =>
      simp only [act] at ha
      split at ha <;> cases ha
      rename_i hl
      cases holds_dropThen hk rfl
      exact .inr (Bool.eq_false_iff.2 hl)
    | cancel gone =>
      cases ha
      cases hk
    | _ => cases ha
  | closing s agent k =>
    cases e with
    | closed =>
      cases ha
      exact .inl (holds_resume hk)
    | closeRaised timeout gone | cancel gone =>
      cases ha
      cases hk
    | _ => cases ha
  | done => cases e <;> cases ha

end

/-! ## Every reachable state -/

theorem Owned.around (h : Owned r) (i : Nat) : Around r i r.store :=
  ⟨h.distinct, h.kept, fun j k _ hk => h.fits j k hk, fun j k key _ hk => h.creates j k key hk⟩

/-- Nobody is inside a lock that is not held. -/
theorem lockHeld_of_holds {i : Nat} {k : Point} {key : Str} (h : r.At i k)
    (hk : k.holds = some key) : lockHeld r key = true := by
  refine List.any_eq_true.2 ⟨_, h.mem, ?_⟩
  simp [hk]

theorem Owned.put (h : Owned r) {i : Nat} {k : Point} {q : Core × Point} (hi : r.At i k)
    (hl : Lands r i q)
    (hq : ∀ key, q.2.holds = some key → k.holds = some key ∨ lockHeld r key = false) :
    Owned (r.put i q.1 q.2) := by
  have alone (j : Nat) (k' : Point) (key : Str) (hj : r.At j k') (hk' : k'.holds = some key)
      (hq' : q.2.holds = some key) : i = j := by
    rcases hq key hq' with hk | hn
    · exact h.apart i j k k' key hi hj hk hk'
    · rw [lockHeld_of_holds hj hk'] at hn
      cases hn
  refine ⟨hl.around.distinct, hl.around.kept, fun j k' hj => ?_, fun j k' key hj hk' => ?_,
    fun a b x y key ha hb hx hy => ?_⟩
  · rcases (Pool.at_put hi).1 hj with ⟨rfl, rfl⟩ | ⟨hne, hj⟩
    · exact hl.fits
    · exact hl.around.fits j k' hne hj
  · rcases (Pool.at_put hi).1 hj with ⟨rfl, rfl⟩ | ⟨hne, hj⟩
    · exact hl.creates key hk'
    · exact hl.around.creates j k' key hne hj hk'
  · rcases (Pool.at_put hi).1 ha with ⟨ea, ex⟩ | ⟨hna, ha₀⟩ <;>
      rcases (Pool.at_put hi).1 hb with ⟨eb, ey⟩ | ⟨hnb, hb₀⟩
    · exact ea.trans eb.symm
    · exact ea.trans (alone b y key hb₀ hy (ex ▸ hx))
    · exact (alone a x key ha₀ hx (ey ▸ hy)).symm.trans eb.symm
    · exact h.apart a b x y key ha₀ hb₀ hx hy

theorem Owned.start (h : Owned r) {q : Core × Point} (hl : Lands r r.calls.length q)
    (hq : q.2.holds = none) : Owned (({ r with store := q.1 } : Runtime).start q.2) := by
  have old {j : Nat} {k : Point} (hj : r.At j k) : j ≠ r.calls.length := by
    have := hj.lt
    omega
  refine ⟨hl.around.distinct, hl.around.kept, fun j k' hj => ?_, fun j k' key hj hk' => ?_,
    fun a b x y key ha hb hx hy => ?_⟩
  · rcases Pool.at_start.1 hj with hj | ⟨rfl, rfl⟩
    · exact hl.around.fits j k' (old hj) hj
    · exact hl.fits
  · rcases Pool.at_start.1 hj with hj | ⟨rfl, rfl⟩
    · exact hl.around.creates j k' key (old hj) hj hk'
    · exact hl.creates key hk'
  · rcases Pool.at_start.1 ha with ha | ⟨-, rfl⟩
    · rcases Pool.at_start.1 hb with hb | ⟨-, rfl⟩
      · exact h.apart a b x y key ha hb hx hy
      · rw [hq] at hy
        cases hy
    · rw [hq] at hx
      cases hx

theorem cancelling_plain {key : Str} {resetting : Option Str} :
    (cancelling c key resetting).Plain ∧ (cancelling c key resetting).creates = none ∧
      (cancelling c key resetting).holds = none := by
  unfold cancelling
  split
  · split
    · exact ⟨trivial, rfl, rfl⟩
    · exact ⟨afterCancel_plain.1, afterCancel_plain.2, holds_afterCancel⟩
  · exact ⟨afterCancel_plain.1, afterCancel_plain.2, holds_afterCancel⟩

/-- A new call is inside of no lock. -/
theorem Around.begin {i : Nat} (h : Around r i c) (call : Call) :
    Lands r i (begin o c i call) ∧ (begin o c i call).2.holds = none := by
  have plain (key : Str) (resetting : Option Str) : Lands r i (c, cancelling c key resetting) :=
    h.plain cancelling_plain.1 (by simp [cancelling_plain.2.1])
  cases call with
  | runStateful profile key => exact ⟨h.plain trivial nofun, rfl⟩
  | runStateless profile => exact ⟨h.plain trivial nofun, rfl⟩
  | cancel key => exact ⟨plain key none, cancelling_plain.2.2⟩
  | reset agent key => exact ⟨plain key (some agent), cancelling_plain.2.2⟩
  | reap => exact ⟨h.sweep _, holds_sweep c _⟩
  | dropAgentSessions agent => exact ⟨h.sweep _, holds_sweep c _⟩
  | close => exact ⟨h.sweep _, holds_sweep c _⟩

/-- A process nobody waits for any more ends. -/
theorem Owned.exit (h : Owned r) {p : Nat} (hp : (r.store.processes[p]?).any (·.life = .left)) :
    Owned { r with store := r.store.mark p .gone } := by
  obtain ⟨pr, hpr, hl⟩ := (Option.any_eq_true _ _).1 hp
  have hh : r.store.Has ⟨p, pr.proofSessionId⟩ pr.agent .left :=
    ⟨pr, hpr, rfl, rfl, of_decide_eq_true hl⟩
  -- as if a call that is none of them did it
  have hm := (h.around r.calls.length).mark hh .gone (fun _ _ => ⟨nofun, nofun⟩) nofun
  have old {j : Nat} {k : Point} (hj : r.At j k) : j ≠ r.calls.length := by
    have := hj.lt
    omega
  exact ⟨hm.distinct, hm.kept, fun j k hj => hm.fits j k (old hj) hj, h.creates, h.apart⟩

theorem owned_next (h : Owned r) {e : Label} (hn : next o r e = some r') : Owned r' := by
  cases e with
  | tick n =>
    cases hn
    have ha : Around r r.calls.length { r.store with now := r.store.now + n } :=
      (h.around r.calls.length).congr rfl rfl
    refine ⟨ha.distinct, ha.kept, fun j k hj => ha.fits j k ?_ hj, h.creates, h.apart⟩
    have := Pool.At.lt (p := r) hj
    omega
  | begin call =>
    cases hn
    obtain ⟨hl, hq⟩ := (h.around r.calls.length).begin (o := o) call
    exact h.start hl hq
  | act i e =>
    simp only [next] at hn
    split at hn
    · rename_i k hi
      obtain ⟨q, ha, rfl⟩ := Option.map_eq_some_iff.1 hn
      refine h.put hi ((h.around i).act (h.fits i k hi) (fun key hk => ?_) ha) fun key =>
        act_holds ha
      refine ⟨h.creates i k key hi hk, fun j k' hj hk' hkey => hj ?_⟩
      exact h.apart j i k' k key hk' hi (Point.holds_of_creates hkey) (Point.holds_of_creates hk)
    · cases hn
  | exit p =>
    simp only [next] at hn
    split at hn <;> cases hn
    exact h.exit ‹_›

theorem owned {C : Runtime → Label → Prop} (h : (runtime o).Reach C r) : Owned r := by
  refine h.inv (fun s hs => ?_) fun s e s' hi _ hn => owned_next hi hn
  subst hs
  exact ⟨.nil, nofun, fun i k hk => absurd hk.lt (Nat.not_lt_zero i),
    fun i k _ hk => absurd hk.lt (Nat.not_lt_zero i),
    fun i j k k' _ hk => absurd hk.lt (Nat.not_lt_zero i)⟩

namespace Sample

def profile : Profile := ⟨Text.str "a", 0⟩

def ann : Str := Text.str "a--ann"

def bob : Str := Text.str "a--bob"

/-- Call `i` gets from its lock to its prompt, with nothing in its way. -/
def upTo (i : Nat) : List Label :=
  [.act i .go, .act i .go, .act i .go, .act i .spawned]

end Sample

end Pi
