import ImpiAgent.Runtimes.Proof.Owners

/-!
# The permits

A permit of the global semaphore, and one of the agent's own where there is one, goes from the call
that takes it in `_acquire` to the process it starts and back in `_close_session`. `Conserved` says
that as many are held as there are processes alive and spawns attempted.

It fails where an exception passes a place that gives back only on another one: `_acquire` catches
a `TimeoutError` while it holds the agent's permit, `_create_session` an `Exception`, and neither a
cancellation; and `_close_session` gives the permits back of a process it has not seen end, when the
close is cut short (`Guarded` rules these out, `permits_conserved`). The permit is then lost for as
long as the engine runs (`permit_lost`).
-/

namespace Pi

open Text (Str)

variable {o : Options} {c c' : Core} {r r' : Runtime}

/-- The global semaphore, or an agent's own. -/
inductive Bound
  | all | agent (name : Str)
  deriving DecidableEq

namespace Bound

def capacity (o : Options) : Bound → Nat
  | all => o.maxConcurrentSessions
  | agent _ => o.maxSessionsPerAgent

/-- `max_sessions_per_agent = 0` is no bound. -/
def Used (o : Options) : Bound → Prop
  | all => True
  | agent _ => o.maxSessionsPerAgent ≠ 0

/-- A process of the agent takes one of its permits. -/
def covers : Bound → Str → Bool
  | all, _ => true
  | agent name, name' => name = name'

end Bound

/-- The permits that are free. -/
def Core.value (c : Core) : Bound → Nat
  | .all => c.free
  | .agent name => c.agentFree name

/-- A process that is alive, under the bound. -/
def Process.counts (b : Bound) (pr : Process) : Bool := b.covers pr.agent && pr.life ≠ .gone

/-- The processes alive. -/
def Core.alive (c : Core) (b : Bound) : Nat := c.processes.countP (·.counts b)

/-- A call has a permit and no process yet. In `_acquire` the agent's comes first. -/
def Point.attempts (b : Bound) : Point → Bool
  | .acquireGlobal a | .globalQueue a | .closing _ _ (.globalRoom a) => b = .agent a.profile.name
  | .granted a | .spawning a _ _ => b.covers a.profile.name
  | _ => false

/-- Permits are conserved: of the global semaphore and of each agent's own. -/
structure Conserved (o : Options) (r : Runtime) : Prop where
  free : ∀ b : Bound, b.Used o → r.store.value b ≤ b.capacity o
  held : ∀ b : Bound, b.Used o →
    b.capacity o - r.store.value b = r.store.alive b + r.count (·.attempts b)
  atRest : (∀ pr ∈ r.store.processes, pr.life = .gone) → (∀ i k, r.At i k → k = .done) →
    ∀ b : Bound, b.Used o → r.store.value b = b.capacity o

/-! ## The condition -/

/-- A call has a permit which it gives back after some exceptions only: any `Exception` of the spawn,
a `TimeoutError` in `_acquire`. -/
def Point.bare (o : Options) : Point → Bool
  | .spawning .. => true
  | .globalQueue _ | .closing _ _ (.globalRoom _) => o.maxSessionsPerAgent ≠ 0
  | _ => false

/-- The await ends in a cancellation, or an exception of `session.close` that is no timeout. -/
def Event.escapes : Event → Bool
  | .cancel _ | .closeRaised false _ => true
  | _ => false

/-- A close is over before its process. -/
def Point.leaves : Point → Event → Bool
  | .closing .., .cancel gone | .closing .., .closeRaised _ gone => !gone
  | _, _ => false

/-- No call is cut off between a permit and its process, and no close before the process ended. -/
def Guarded (o : Options) (r : Runtime) : Label → Prop
  | .act i e => ∀ k, r.At i k → ¬(k.bare o ∧ e.escapes) ∧ ¬k.leaves e
  | _ => True

/-! ## The operations -/

/-- The permits free and those the processes have. -/
def Core.total (c : Core) (b : Bound) : Nat := c.value b + c.alive b

def Core.NoneLeft (c : Core) : Prop := ∀ pr ∈ c.processes, pr.life ≠ .left

/-- From a core and `n` permits in hand to a core and a point. -/
structure Even (b : Bound) (c : Core) (n : Nat) (q : Core × Point) : Prop where
  total : q.1.total b + (q.2.attempts b).toNat = c.total b + n
  left : c.NoneLeft → q.1.NoneLeft

section

variable {b : Bound} {s : Session} {agent : Str} {life : Life}

namespace Core

theorem alive_mark (h : c.Has s agent life) (hl : life ≠ .gone) (l : Life) :
    (c.mark s.process l).alive b + (b.covers agent).toNat =
      c.alive b + (b.covers agent && l ≠ .gone).toNat := by
  obtain ⟨pr, hpr, rfl, -, rfl⟩ := h
  have hm := Pool.countP_modify (·.counts b) ({ · with life := l }) hpr
  have hc : pr.counts b = b.covers pr.agent := by simp [Process.counts, hl]
  rw [hc] at hm
  exact hm

theorem alive_setBusy (p : Nat) (y : Bool) : (c.setBusy p y).alive b = c.alive b := by
  unfold alive setBusy
  cases hpr : c.processes[p]? with
  | none => rw [List.modify_eq_self (by simpa using hpr)]
  | some pr =>
    exact Nat.add_right_cancel (Pool.countP_modify (·.counts b) ({ · with busy := y }) hpr)

theorem noneLeft_mark (h : c.NoneLeft) (p : Nat) {l : Life} (hl : l ≠ .left) :
    (c.mark p l).NoneLeft := by
  intro pr hpr
  obtain ⟨q, hq⟩ := List.mem_iff_getElem?.1 hpr
  rw [getElem?_mark] at hq
  split at hq
  · obtain ⟨pr₀, -, rfl⟩ := Option.map_eq_some_iff.1 hq
    exact hl
  · exact h pr (List.mem_of_getElem? hq)

theorem noneLeft_setBusy (h : c.NoneLeft) (p : Nat) (y : Bool) : (c.setBusy p y).NoneLeft := by
  intro pr hpr
  obtain ⟨q, hq⟩ := List.mem_iff_getElem?.1 hpr
  rw [getElem?_setBusy] at hq
  split at hq
  · obtain ⟨pr₀, hpr₀, rfl⟩ := Option.map_eq_some_iff.1 hq
    exact h pr₀ (List.mem_of_getElem? hpr₀)
  · exact h pr (List.mem_of_getElem? hq)

theorem value_giveAgent (hb : b.Used o) :
    (c.giveAgent o agent).value b = c.value b + (decide (b = .agent agent)).toNat := by
  unfold giveAgent
  cases b with
  | all => split <;> rfl
  | agent name =>
    rw [if_neg hb]
    show Function.update c.agentFree agent _ name = _
    rw [Function.update_apply]
    by_cases hn : name = agent
    · subst hn
      simp [value]
    · simp [hn, value]

theorem value_takeAgent (h : c.agentFree agent ≠ 0) :
    (c.takeAgent agent).value b + (decide (b = .agent agent)).toNat = c.value b := by
  cases b with
  | all => rfl
  | agent name =>
    show Function.update c.agentFree agent _ name + _ = c.agentFree name
    rw [Function.update_apply]
    by_cases hn : name = agent
    · subst hn
      simp
      omega
    · simp [hn]

/-- A global permit on top of the agent's is what a process needs. -/
theorem value_takeGlobal (h : c.free ≠ 0) :
    c.takeGlobal.value b + (b.covers agent).toNat = c.value b + (decide (b = .agent agent)).toNat := by
  cases b with
  | all =>
    show c.free - 1 + 1 = c.free + 0
    omega
  | agent name => simp [value, takeGlobal, Bound.covers]

theorem value_releasePermits (hb : b.Used o) :
    (c.releasePermits o agent).value b = c.value b + (b.covers agent).toNat := by
  unfold releasePermits
  rw [value_giveAgent hb]
  cases b with
  | all => rfl
  | agent name => simp [value, Bound.covers]

/-- `_drop_session` leaves the permits with the process. -/
theorem total_dropSession {i : Nat} {key : Str} (h : Around r i c)
    (hd : c.dropSession i key = some (c', s, agent)) :
    c'.total b = c.total b ∧ (c.NoneLeft → c'.NoneLeft) := by
  unfold dropSession at hd
  rw [Option.map_eq_some_iff] at hd
  obtain ⟨m, hm, hd⟩ := hd
  cases hd
  have hh := (h.kept key m (Dict.mem_of_lookup hm)).1
  have ha := alive_mark (b := b) hh nofun (.closing i)
  constructor
  · show c.value b + (c.mark _ _).alive b = c.value b + c.alive b
    simp at ha
    omega
  · exact fun hn => noneLeft_mark hn _ nofun

/-- `_close_session` gives back what the process had, which has ended. -/
theorem total_closeSession {i : Nat} (hb : b.Used o) (hh : c.Has s agent (.closing i)) :
    (c.closeSession o s agent true).total b = c.total b ∧
      (c.NoneLeft → (c.closeSession o s agent true).NoneLeft) := by
  have hp : ((c.revoke s.proofSessionId).releasePermits o agent).processes = c.processes := by simp
  have ha := alive_mark (b := b) (hh.congr hp) nofun .gone
  have hv : ((c.revoke s.proofSessionId).releasePermits o agent).value b =
      (c.revoke s.proofSessionId).value b + (b.covers agent).toNat := value_releasePermits hb
  constructor
  · show ((c.revoke _).releasePermits o agent).value b + Core.alive (Core.mark _ _ .gone) b = _
    have halive : ((c.revoke s.proofSessionId).releasePermits o agent).alive b = c.alive b := by
      unfold alive
      rw [hp]
    rw [hv]
    simp at ha
    unfold total
    show c.value b + _ + _ = _
    omega
  · refine fun hn => noneLeft_mark (fun pr hpr => hn pr ?_) _ nofun
    exact hp ▸ hpr

end Core

/-! ## A step of a call -/

variable {i : Nat} {a : Attempt} {key : Str} {k : After} {pt : Point}

theorem even_refl (ha : pt.attempts b = false) : Even b c 0 (c, pt) :=
  ⟨by rw [ha]; rfl, id⟩

theorem even_drop {n : Nat} (h : Around r i c) (hd : c.dropSession i key = some (c', s, agent))
    (hn : ((Point.closing s agent k).attempts b).toNat = n) :
    Even b c n (c', .closing s agent k) := by
  obtain ⟨ht, hl⟩ := Core.total_dropSession (b := b) h hd
  exact ⟨by rw [ht, hn], hl⟩

theorem even_sweep (h : Around r i c) : ∀ keys : List Str, Even b c 0 (c.sweep i keys)
  | [] => even_refl rfl
  | key :: keys => by
    unfold Core.sweep
    split
    · rename_i hd
      exact even_drop h hd rfl
    · exact even_sweep h keys

theorem even_dropThen (h : Around r i c) (hk : ∀ s agent, (Point.closing s agent k).attempts b = false)
    (hp : pt.attempts b = false) : Even b c 0 (dropThen c i key k pt) := by
  unfold dropThen
  split
  · rename_i hd
    exact even_drop h hd (by rw [hk]; rfl)
  · exact even_refl hp

theorem even_takeAgent (h : c.agentFree a.profile.name ≠ 0) :
    Even b c 0 (c.takeAgent a.profile.name, .acquireGlobal a) := by
  refine ⟨?_, id⟩
  have hv := Core.value_takeAgent (b := b) h
  show (c.takeAgent a.profile.name).value b + c.alive b +
    (decide (b = .agent a.profile.name)).toNat = c.value b + c.alive b
  omega

theorem even_queueAgent : Even b r.store 0 (queueAgent r a) := by
  unfold queueAgent
  split
  · exact even_refl rfl
  · rename_i hl
    exact even_takeAgent fun hz => hl (by simp [agentLocked, hz])

/-- From the agent's permit to the global one too. -/
theorem even_takeGlobal (h : c.free ≠ 0) :
    Even b c (decide (b = .agent a.profile.name)).toNat (c.takeGlobal, .granted a) := by
  refine ⟨?_, id⟩
  have hv : c.takeGlobal.value b + (b.covers a.profile.name).toNat =
      c.value b + (decide (b = .agent a.profile.name)).toNat := Core.value_takeGlobal h
  show c.takeGlobal.value b + c.alive b + (b.covers a.profile.name).toNat =
    c.value b + c.alive b + _
  omega

theorem even_queueGlobal :
    Even b r.store (decide (b = .agent a.profile.name)).toNat (queueGlobal r a) := by
  unfold queueGlobal
  split
  · exact ⟨rfl, id⟩
  · rename_i hl
    exact even_takeGlobal fun hz => hl (by simp [globalLocked, hz])

theorem even_acquire (hb : b.Used o) (h : Around r i r.store) :
    Even b r.store 0 (acquire o r i a) := by
  unfold acquire
  split
  · rename_i ho
    refine even_refl ?_
    cases b with
    | all => rfl
    | agent name => exact absurd ho hb
  · split
    · split
      · rename_i hm
        obtain ⟨x, -, hd⟩ := makeRoom_eq_some hm
        exact even_drop h hd rfl
      · exact even_queueAgent
    · exact even_queueAgent

theorem even_acquireGlobal (h : Around r i r.store) :
    Even b r.store (decide (b = .agent a.profile.name)).toNat (acquireGlobal o r i a) := by
  unfold acquireGlobal
  split
  · split
    · rename_i hm
      obtain ⟨x, -, hd⟩ := makeRoom_eq_some hm
      exact even_drop h hd rfl
    · exact even_queueGlobal
  · exact even_queueGlobal

theorem even_turn {profile : Profile} (h : Around r i r.store) :
    Even b r.store 0 (turn r i profile key) := by
  unfold turn
  split
  · exact even_refl rfl
  · split
    · refine ⟨?_, fun hn => Core.noneLeft_setBusy hn _ _⟩
      show r.store.value b + (r.store.setBusy _ true).alive b = r.store.value b + r.store.alive b
      rw [Core.alive_setBusy]
    · split
      · rename_i hd
        exact even_drop h hd rfl
      · exact even_refl rfl

theorem even_spawnSession : Even b c (b.covers a.profile.name).toNat (c.spawnSession a) := by
  unfold Core.spawnSession
  split <;> exact ⟨rfl, id⟩

/-- The permits are the process's. -/
theorem even_opened {id : ProofId} {proof : Nat} :
    Even b c (b.covers a.profile.name).toNat (c.opened i a id proof) := by
  let process (life : Life) : Process := ⟨a.profile.name, id, proof, true, life⟩
  have ha (life : Life) (hl : life ≠ .gone) :
      (c.processes ++ [process life]).countP (·.counts b) =
        c.alive b + (b.covers a.profile.name).toNat := by
    rw [List.countP_append, List.countP_singleton]
    cases hc : b.covers a.profile.name <;> simp [process, hc, hl, Process.counts, Core.alive]
  have hn (life : Life) (hl : life ≠ .left) (hc : c.NoneLeft) :
      ∀ pr ∈ c.processes ++ [process life], pr.life ≠ .left := by
    intro pr hpr
    rcases List.mem_append.1 hpr with hpr | hpr
    · exact hc pr hpr
    · cases List.mem_singleton.1 hpr
      exact hl
  unfold Core.opened
  split
  · rename_i key _
    refine ⟨?_, hn (.kept key) nofun⟩
    show c.value b + List.countP _ (_ ++ [process (.kept key)]) = c.value b + c.alive b + _
    rw [ha (.kept key) nofun, Nat.add_assoc]
  · refine ⟨?_, hn (.oneShot i) nofun⟩
    show c.value b + List.countP _ (_ ++ [process (.oneShot i)]) = c.value b + c.alive b + _
    rw [ha (.oneShot i) nofun, Nat.add_assoc]

theorem even_promptOver (hf : (Point.prompting a s).Fits i c) : Even b c 0 (c.promptOver i a s) := by
  have hv : (c.setBusy s.process false).total b = c.total b := by
    show c.value b + (c.setBusy s.process false).alive b = c.value b + c.alive b
    rw [Core.alive_setBusy]
  unfold Core.promptOver
  split
  · exact ⟨hv, fun hn => Core.noneLeft_setBusy hn _ _⟩
  · rename_i hk
    have hh := (hf hk).1.setBusy s.process false
    have ha := Core.alive_mark (b := b) hh nofun (.closing i)
    refine ⟨?_, fun hn => Core.noneLeft_mark (Core.noneLeft_setBusy hn _ _) _ nofun⟩
    rw [← hv]
    show c.value b + (Core.mark _ _ _).alive b = c.value b + (c.setBusy s.process false).alive b
    simp at ha
    omega

theorem even_resume (h : Around r i r.store) :
    Even b r.store ((Point.closing s agent k).attempts b).toNat (resume r i k) := by
  cases k with
  | create a => exact even_refl rfl
  | agentRoom a => exact even_queueAgent
  | globalRoom a => exact even_queueGlobal
  | turnOver key => exact even_refl rfl
  | forget key => exact even_refl rfl
  | cancelled key resetting =>
    refine even_refl ?_
    cases resetting <;> rfl
  | sweep keys => exact even_sweep h keys

/-- A close that raised: what the call had in hand it gives back, or it had nothing. -/
theorem even_unwind (hb : b.Used o) {timeout : Bool}
    (hg : (Point.closing s agent k).bare o → timeout = true) :
    Even b c ((Point.closing s agent k).attempts b).toNat (unwind o c timeout k, .done) := by
  refine ⟨?_, fun hn pr hpr => hn pr (by simpa using hpr)⟩
  cases k with
  | globalRoom a =>
    cases timeout with
    | true =>
      show (c.giveAgent o a.profile.name).value b +
        List.countP _ (c.giveAgent o a.profile.name).processes + 0 =
        c.value b + c.alive b + (decide (b = .agent a.profile.name)).toNat
      rw [Core.value_giveAgent hb, Core.giveAgent_processes, Core.alive]
      omega
    | false =>
      have hz : o.maxSessionsPerAgent = 0 := by
        by_contra hz
        exact absurd (hg (by simpa [Point.bare] using hz)) nofun
      cases b with
      | all => rfl
      | agent name => exact absurd hz hb
  | _ => rfl

/-- `_acquire_permits` that is cut short while it waits for a global permit. -/
theorem unwind_waiting (hb : b.Used o) (a : Attempt) {timeout : Bool}
    (hg : (Point.globalQueue a).bare o → timeout = true) :
    Even b c ((Point.globalQueue a).attempts b).toNat
      (unwind o c timeout (.globalRoom a), .done) := by
  have hu : Even b c ((Point.closing ⟨0, .session []⟩ [] (.globalRoom a)).attempts b).toNat
      (unwind o c timeout (.globalRoom a), .done) := even_unwind hb hg
  exact hu

/-- A step of a call, where nothing is lost. -/
theorem even_act (hb : b.Used o) {e : Event} {k : Point} {q : Core × Point}
    (h : Around r i r.store) (hf : k.Fits i r.store)
    (hg : ¬(k.bare o ∧ e.escapes) ∧ ¬k.leaves e) (ha : act o r i k e = some q) :
    Even b r.store (k.attempts b).toNat q := by
  cases k with
  | locking profile key =>
    cases e with
    | enter =>
      simp only [act] at ha
      split at ha <;> cases ha
      exact even_turn h
    | cancel gone =>
      cases ha
      exact even_refl rfl
    | _ => cases ha
  | acquire a =>
    cases e with
    | go =>
      cases ha
      exact even_acquire hb h
    | _ => cases ha
  | agentQueue a =>
    cases e with
    | take =>
      simp only [act] at ha
      split at ha <;> cases ha
      exact even_takeAgent ‹_›
    | timeout | cancel gone =>
      cases ha
      exact even_refl rfl
    | _ => cases ha
  | acquireGlobal a =>
    cases e with
    | go =>
      cases ha
      exact even_acquireGlobal h
    | _ => cases ha
  | globalQueue a =>
    cases e with
    | take =>
      simp only [act] at ha
      split at ha <;> cases ha
      exact even_takeGlobal ‹_›
    | timeout =>
      cases ha
      exact unwind_waiting hb a fun _ => rfl
    | cancel gone =>
      cases ha
      have hu : Even b r.store ((Point.globalQueue a).attempts b).toNat
          (unwind o r.store false (.globalRoom a), .done) :=
        unwind_waiting hb a fun hz => absurd ⟨hz, rfl⟩ hg.1
      exact hu
    | _ => cases ha
  | granted a =>
    cases e with
    | go =>
      cases ha
      exact even_spawnSession
    | _ => cases ha
  | spawning a id proof =>
    cases e with
    | spawned =>
      cases ha
      exact even_opened
    | spawnFailed =>
      cases ha
      refine ⟨?_, fun hn pr hpr => hn pr (by simpa using hpr)⟩
      show (r.store.releasePermits o a.profile.name).value b +
        List.countP _ (r.store.releasePermits o a.profile.name).processes + 0 =
        r.store.value b + r.store.alive b + (b.covers a.profile.name).toNat
      rw [Core.value_releasePermits hb, Core.releasePermits_processes, Core.alive]
      omega
    | cancel gone => exact absurd ⟨rfl, rfl⟩ hg.1
    | _ => cases ha
  | prompting a s =>
    cases e with
    | answered =>
      cases ha
      have hp := even_promptOver (b := b) (c := r.store.touch s)
        fun hn => ⟨(hf hn).1.congr rfl, (hf hn).2⟩
      exact ⟨hp.total, hp.left⟩
    | broken =>
      simp only [act] at ha
      split at ha <;> cases ha
      · rename_i key _
        have hd : Even b (r.store.setBusy s.process false) 0
            (dropThen (r.store.setBusy s.process false) i key (.turnOver a.key) .done) :=
          even_dropThen (h.setBusy s.process false) (fun _ _ => rfl) rfl
        refine ⟨?_, fun hn => hd.left (Core.noneLeft_setBusy hn _ _)⟩
        rw [hd.total]
        show r.store.value b + (r.store.setBusy _ _).alive b + 0 = _
        rw [Core.alive_setBusy]
        rfl
      · exact even_promptOver hf
    | failed | cancel gone =>
      cases ha
      exact even_promptOver hf
    | _ => cases ha
  | cancelling key resetting =>
    have hc : (afterCancel key resetting).attempts b = false := by cases resetting <;> rfl
    cases e with
    | ended =>
      cases ha
      exact even_refl hc
    | stuck =>
      cases ha
      exact even_dropThen h (fun _ _ => rfl) hc
    | cancel gone =>
      cases ha
      exact even_refl rfl
    | _ => cases ha
  | resetLocking agent key =>
    cases e with
    | enter =>
      simp only [act] at ha
      split at ha <;> cases ha
      exact even_dropThen h (fun _ _ => rfl) rfl
    | cancel gone =>
      cases ha
      exact even_refl rfl
    | _ => cases ha
  | closing s agent k =>
    have ht := Core.total_closeSession (b := b) hb hf
    have hl := (h.closeSession (o := o) hf true)
    cases e with
    | closed =>
      cases ha
      have ho : Around (⟨r.store.closeSession o s agent true, r.calls⟩ : Runtime) i
          (r.store.closeSession o s agent true) := hl.of_calls rfl
      have hr : Even b (r.store.closeSession o s agent true)
          ((Point.closing s agent k).attempts b).toNat
          (resume ⟨r.store.closeSession o s agent true, r.calls⟩ i k) := even_resume ho
      exact ⟨hr.total.trans (by rw [ht.1]), fun hn => hr.left (ht.2 hn)⟩
    | closeRaised timeout gone =>
      cases ha
      cases gone with
      | false => exact absurd rfl hg.2
      | true =>
        have hlate : (Point.closing s agent k).bare o → timeout = true := fun hz => by
          cases timeout with
          | true => rfl
          | false => exact absurd ⟨hz, rfl⟩ hg.1
        have hu : Even b (r.store.closeSession o s agent true)
            ((Point.closing s agent k).attempts b).toNat
            (unwind o (r.store.closeSession o s agent true) timeout k, .done) :=
          even_unwind hb hlate
        exact ⟨hu.total.trans (by rw [ht.1]), fun hn => hu.left (ht.2 hn)⟩
    | cancel gone =>
      cases ha
      cases gone with
      | false => exact absurd rfl hg.2
      | true =>
        have hlate : (Point.closing s agent k).bare o → false = true := fun hz =>
          absurd ⟨hz, rfl⟩ hg.1
        have hu : Even b (r.store.closeSession o s agent true)
            ((Point.closing s agent k).attempts b).toNat
            (unwind o (r.store.closeSession o s agent true) false k, .done) :=
          even_unwind hb hlate
        exact ⟨hu.total.trans (by rw [ht.1]), fun hn => hu.left (ht.2 hn)⟩
    | _ => cases ha
  | done => cases e <;> cases ha

end

/-! ## Every run -/

/-- What is free, what the processes have and what calls have in hand is the capacity. -/
structure Balanced (o : Options) (r : Runtime) : Prop where
  total : ∀ b : Bound, b.Used o → r.store.total b + r.count (·.attempts b) = b.capacity o
  left : r.store.NoneLeft

theorem Balanced.put (h : Balanced o r) {i : Nat} {k : Point} {q : Core × Point} (hi : r.At i k)
    (hq : ∀ b : Bound, b.Used o → Even b r.store (k.attempts b).toNat q) :
    Balanced o (r.put i q.1 q.2) := by
  refine ⟨fun b hb => ?_, (hq .all trivial).left h.left⟩
  have hc := Pool.count_put (·.attempts b) (s := q.1) (k := q.2) hi
  have hb' := h.total b hb
  have he := (hq b hb).total
  show q.1.total b + _ = _
  omega

theorem even_begin {b : Bound} {i : Nat} (h : Around r i c) (call : Call) :
    Even b c 0 (begin o c i call) := by
  have hc (key : Str) (resetting : Option Str) : (cancelling c key resetting).attempts b = false := by
    unfold cancelling
    split
    · split
      · rfl
      · cases resetting <;> rfl
    · cases resetting <;> rfl
  cases call with
  | runStateful profile key => exact even_refl rfl
  | runStateless profile => exact even_refl rfl
  | cancel key => exact even_refl (hc key none)
  | reset agent key => exact even_refl (hc key (some agent))
  | reap => exact even_sweep h _
  | dropAgentSessions agent => exact even_sweep h _
  | close => exact even_sweep h _

theorem balanced_next (ho : Owned r) (h : Balanced o r) {e : Label} (hg : Guarded o r e)
    (hn : next o r e = some r') : Balanced o r' := by
  cases e with
  | tick n =>
    cases hn
    exact ⟨h.total, h.left⟩
  | begin call =>
    cases hn
    have he (b : Bound) := even_begin (b := b) (o := o) (ho.around r.calls.length) call
    refine ⟨fun b hb => ?_, (he .all).left h.left⟩
    have hs := Pool.count_start (σ := Core) (·.attempts b)
      (p := { r with store := (begin o r.store r.calls.length call).1 })
      (k := (begin o r.store r.calls.length call).2)
    have hb' := h.total b hb
    have ht := (he b).total
    rw [hs]
    show (begin o r.store r.calls.length call).1.total b + (r.count _ + _) = _
    omega
  | act i e =>
    simp only [next] at hn
    split at hn
    · rename_i k hi
      obtain ⟨q, ha, rfl⟩ := Option.map_eq_some_iff.1 hn
      exact h.put hi fun b hb => even_act hb (ho.around i) (ho.fits i k hi) (hg k hi) ha
    · cases hn
  | exit p =>
    simp only [next] at hn
    split at hn
    · rename_i hp
      obtain ⟨pr, hpr, hl⟩ := (Option.any_eq_true _ _).1 hp
      exact absurd (of_decide_eq_true hl) (h.left pr (List.mem_of_getElem? hpr))
    · cases hn

theorem balanced (h : (runtime o).Reach (Guarded o) r) : Balanced o r := by
  refine h.inv_using (fun s hs => ?_) fun s e s' hr hi hc hn => balanced_next (owned hr) hi hc hn
  subst hs
  refine ⟨fun b _ => ?_, nofun⟩
  cases b <;> rfl

/-- In every run where no call is cut off between a permit and its process, and no close before its
process has ended, the permits are conserved. -/
theorem permits_conserved (o : Options) (r : Runtime) (h : (runtime o).Reach (Guarded o) r) :
    Conserved o r := by
  have ht (b : Bound) (hb : b.Used o) :
      r.store.value b + r.store.alive b + r.count (·.attempts b) = b.capacity o :=
    (balanced h).total b hb
  refine ⟨fun b hb => ?_, fun b hb => ?_, fun hp hk b hb => ?_⟩
  · have := ht b hb
    omega
  · have := ht b hb
    omega
  · have ha : r.store.alive b = 0 :=
      List.countP_eq_zero.2 fun pr hpr => by simp [Process.counts, hp pr hpr]
    have hc : r.count (·.attempts b) = 0 :=
      (Pool.count_eq_zero _).2 fun i k hi => by rw [hk i k hi]; rfl
    have := ht b hb
    omega

namespace Sample

/-- One process at a time, of the engine and of each agent. -/
def options : Options := ⟨1, 1, 60, true⟩

def guarded (o : Options) (r : Runtime) : Label → Bool
  | .act i e => (r.calls[i]?).all (·.all fun k => !(k.bare o && e.escapes) && !k.leaves e)
  | _ => true

theorem guarded_of_guarded {o : Options} {r : Runtime} {e : Label} (h : guarded o r e = true) :
    Guarded o r e := by
  cases e with
  | act i e =>
    intro k hk
    unfold Pool.At at hk
    simp only [guarded, hk, Option.all_some, Bool.and_eq_true, Bool.not_eq_true',
      Bool.and_eq_false_iff] at h
    refine ⟨fun ⟨hb, he⟩ => ?_, Bool.eq_false_iff.1 h.2⟩
    rcases h.1 with hn | hn
    · exact absurd hb (Bool.eq_false_iff.1 hn)
    · exact absurd he (Bool.eq_false_iff.1 hn)
  | _ => trivial

/-- A turn of one conversation, and one of another that evicts its process. -/
def evicting : List Label :=
  [.begin (.runStateful profile ann), .act 0 .enter] ++ upTo 0 ++ [.act 0 .answered,
    .begin (.runStateful profile bob), .act 1 .enter, .act 1 .go, .act 1 .closed] ++
    [.act 1 .go, .act 1 .go, .act 1 .spawned]

/-- A memoryless run whose caller is cancelled while its process is being started. -/
def cutOff : List Label :=
  [.begin (.runStateless profile), .act 0 .go, .act 0 .go, .act 0 .go, .act 0 (.cancel false)]

end Sample

theorem permits_conserved_run : ∃ r, (runtime Sample.options).Reach (Guarded Sample.options) r ∧
    Conserved Sample.options r ∧ r.store.free = 0 ∧ r.store.processes.length = 2 := by
  have hev : ((runtime Sample.options).check (Sample.guarded Sample.options)
      ⟨Core.fresh Sample.options, []⟩ Sample.evicting).any
        (fun r => r.store.free = 0 && r.store.processes.length = 2) = true := by decide
  obtain ⟨r, hr, hobs⟩ := (Option.any_eq_true _ _).1 hev
  have hreach := Lts.reach_of_check (L := runtime Sample.options) (C := Guarded Sample.options)
    (fun _ _ => Sample.guarded_of_guarded) rfl hr
  rw [Bool.and_eq_true, decide_eq_true_eq, decide_eq_true_eq] at hobs
  exact ⟨r, hreach, permits_conserved Sample.options r hreach, hobs⟩

/-- The only permit of the engine is gone, with no process and no call to give it back. -/
theorem permit_lost : ∃ r, (runtime Sample.options).Reach Lts.Any r ∧
    ¬Conserved Sample.options r := by
  have hev : ((runtime Sample.options).check (fun _ _ => true)
      ⟨Core.fresh Sample.options, []⟩ Sample.cutOff).any
        (fun r => r.store.free = 0 && r.store.processes = [] && r.calls = [some .done]) = true := by
    decide
  obtain ⟨r, hr, hobs⟩ := (Option.any_eq_true _ _).1 hev
  have hreach := Lts.reach_of_check (L := runtime Sample.options) (C := Lts.Any)
    (fun _ _ _ => trivial) rfl hr
  simp only [Bool.and_eq_true, decide_eq_true_eq] at hobs
  obtain ⟨⟨hfree, hp⟩, hcalls⟩ := hobs
  refine ⟨r, hreach, fun h => ?_⟩
  have hdone (i : Nat) (k : Point) (hk : r.At i k) : k = .done := by
    have hm := hk.mem
    rw [hcalls] at hm
    simpa using hm
  have := h.atRest (by simp [hp]) hdone .all trivial
  rw [Core.value, hfree] at this
  cases this

end Pi
