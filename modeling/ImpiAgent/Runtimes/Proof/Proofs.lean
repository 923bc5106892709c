import ImpiAgent.Runtimes.Proof.Owners

/-!
# The proofs of the processes

`SessionProofBook` has one proof a session id, that of the last spawn. `Proven` says that the proof
of a registered process is accepted and the proof of one whose drop is over is not.

A drop revokes by session id twice, before it closes the old process and after, and between the two
a turn may bring up a new process for the session: the second revocation then takes the new one's
proof (`proof_lost`). `proofs_current` excludes a spawn for a session whose former process is still
being closed. A dropped process's proof is refused in every run (`dead_refused`).
-/

namespace Pi

open Text (Str)

variable {o : Options} {c c' c₀ : Core} {r r' : Runtime}

/-- The proofs the book accepts (module doc). -/
structure Proven (r : Runtime) : Prop where
  current : ∀ key m, (key, m) ∈ r.store.sessions → ∃ pr,
    r.store.processes[m.session.process]? = some pr ∧ r.store.verify (.session key) pr.proof = true
  dead : ∀ pr ∈ r.store.processes, pr.life = .left ∨ pr.life = .gone →
    ∀ id, r.store.verify id pr.proof = false

/-- No process is spawned for a session while an earlier one of it is being closed. -/
def Cleared (r : Runtime) : Label → Prop
  | .act i .go => ∀ a key, r.At i (.granted a) → a.key = some key →
      ∀ pr ∈ r.store.processes, ∀ j, pr.life = .closing j → pr.proofSessionId ≠ .session key
  | _ => True

/-! ## What a step does to the proofs -/

/-- A process as the proofs have it. -/
structure Owner where
  id : ProofId
  proof : Nat
  life : Life

def Process.owner (pr : Process) : Owner := ⟨pr.proofSessionId, pr.proof, pr.life⟩

namespace Core

def owners (c : Core) : List Owner := c.processes.map Process.owner

def current (c : Core) : List (Str × Session) := c.sessions.map fun x => (x.1, x.2.session)

/-- Nothing has changed for the proofs. -/
structure Same (c c' : Core) : Prop where
  owners : c'.owners = c.owners
  current : c'.current = c.current
  book : c'.book = c.book
  drawn : c'.drawn = c.drawn

theorem Same.refl : Same c c := ⟨rfl, rfl, rfl, rfl⟩

theorem Same.trans (h : Same c c₀) (h' : Same c₀ c') : Same c c' :=
  ⟨h'.owners.trans h.owners, h'.current.trans h.current, h'.book.trans h.book,
    h'.drawn.trans h.drawn⟩

theorem same_setBusy (p : Nat) (b : Bool) : Same c (c.setBusy p b) := by
  refine ⟨?_, rfl, rfl, rfl⟩
  refine List.ext_getElem? fun q => ?_
  unfold owners
  rw [List.getElem?_map, List.getElem?_map, getElem?_setBusy]
  split
  · rw [Option.map_map]
    rfl
  · rfl

theorem same_touch (s : Session) : Same c (c.touch s) := by
  refine ⟨rfl, ?_, rfl, rfl⟩
  unfold current touch
  rw [List.map_map]
  refine List.map_congr_left fun x _ => ?_
  dsimp only [Function.comp]
  split <;> rfl

theorem same_giveAgent (agent : Str) : Same c (c.giveAgent o agent) := by
  unfold giveAgent
  split
  · exact .refl
  · exact ⟨rfl, rfl, rfl, rfl⟩

theorem same_releasePermits (agent : Str) : Same c (c.releasePermits o agent) := by
  have h : Same c { c with free := c.free + 1 } := ⟨rfl, rfl, rfl, rfl⟩
  exact h.trans (same_giveAgent agent)

theorem same_unwind (timeout : Bool) (k : After) : Same c (unwind o c timeout k) := by
  unfold unwind
  split
  · split
    · exact same_giveAgent _
    · exact .refl
  · exact .refl

end Core

open Core (Same)

/-- A stretch of a call that brings nothing up: it may drop a session. -/
inductive Rests (i : Nat) (c : Core) : Core × Point → Prop
  | same {c' : Core} {pt : Point} :
      Same c c' → (∀ a id proof, pt ≠ .spawning a id proof) → Rests i c (c', pt)
  | drop {c₀ c' : Core} {s : Session} {agent key : Str} {k : After} :
      Same c c₀ → c₀.dropSession i key = some (c', s, agent) → Rests i c (c', .closing s agent k)

/-- What a step of a call does. -/
inductive Effect (o : Options) (r : Runtime) (i : Nat) : Event → Point → Core × Point → Prop
  | rests {e : Event} {k : Point} {q : Core × Point} : Rests i r.store q → Effect o r i e k q
  | closed {e : Event} {s : Session} {agent : Str} {k : After} {q : Core × Point} (gone : Bool) :
      Rests i (r.store.closeSession o s agent gone) q → Effect o r i e (.closing s agent k) q
  | ended {e : Event} {a : Attempt} {s : Session} {c : Core} : a.key = none → Same r.store c →
      Effect o r i e (.prompting a s)
        (c.mark s.process (.closing i), .closing s a.profile.name (.turnOver none))
  | spawn {a : Attempt} : Effect o r i .go (.granted a) (r.store.spawnSession a)
  | opened {a : Attempt} {id : ProofId} {proof : Nat} :
      Effect o r i .spawned (.spawning a id proof) (r.store.opened i a id proof)

section

variable {i : Nat} {a : Attempt} {s : Session} {agent key : Str} {k : After} {pt : Point}

theorem Rests.of_same {q : Core × Point} (h : Same c c₀) (hr : Rests i c₀ q) : Rests i c q := by
  cases hr with
  | same hs hp => exact .same (h.trans hs) hp
  | drop hs hd => exact .drop (h.trans hs) hd

theorem rests_sweep : ∀ keys : List Str, Rests i c (c.sweep i keys)
  | [] => .same .refl nofun
  | key :: keys => by
    unfold Core.sweep
    split
    · exact .drop .refl ‹_›
    · exact rests_sweep keys

theorem rests_dropThen (hp : ∀ a id proof, pt ≠ .spawning a id proof) :
    Rests i c (dropThen c i key k pt) := by
  unfold dropThen
  split
  · exact .drop .refl ‹_›
  · exact .same .refl hp

theorem afterCancel_ne {resetting : Option Str} (a : Attempt) (id : ProofId) (proof : Nat) :
    afterCancel key resetting ≠ .spawning a id proof := by
  cases resetting <;> nofun

theorem rests_queueAgent : Rests i r.store (queueAgent r a) := by
  unfold queueAgent
  split
  · exact .same .refl nofun
  · exact .same ⟨rfl, rfl, rfl, rfl⟩ nofun

theorem rests_queueGlobal : Rests i r.store (queueGlobal r a) := by
  unfold queueGlobal
  split
  · exact .same .refl nofun
  · exact .same ⟨rfl, rfl, rfl, rfl⟩ nofun

theorem rests_acquire : Rests i r.store (acquire o r i a) := by
  unfold acquire
  split
  · exact .same .refl nofun
  · split
    · split
      · rename_i hm
        obtain ⟨x, -, hd⟩ := makeRoom_eq_some hm
        exact .drop .refl hd
      · exact rests_queueAgent
    · exact rests_queueAgent

theorem rests_acquireGlobal : Rests i r.store (acquireGlobal o r i a) := by
  unfold acquireGlobal
  split
  · split
    · rename_i hm
      obtain ⟨x, -, hd⟩ := makeRoom_eq_some hm
      exact .drop .refl hd
    · exact rests_queueGlobal
  · exact rests_queueGlobal

theorem rests_turn {profile : Profile} : Rests i r.store (turn r i profile key) := by
  unfold turn
  split
  · exact .same .refl nofun
  · split
    · exact .same (Core.same_setBusy _ _) nofun
    · split
      · exact .drop .refl ‹_›
      · exact .same .refl nofun

theorem rests_resume : Rests i r.store (resume r i k) := by
  cases k with
  | create a => exact .same .refl nofun
  | agentRoom a => exact rests_queueAgent
  | globalRoom a => exact rests_queueGlobal
  | turnOver key => exact .same .refl nofun
  | forget key => exact .same .refl nofun
  | cancelled key resetting => exact .same .refl afterCancel_ne
  | sweep keys => exact rests_sweep keys

theorem effect_promptOver {e : Event} (h : Same r.store c) :
    Effect o r i e (.prompting a s) (c.promptOver i a s) := by
  have hb := h.trans (Core.same_setBusy s.process false)
  unfold Core.promptOver
  split
  · exact .rests (.same hb nofun)
  · exact .ended ‹_› hb

/-- What a step of a call does, point by point. -/
theorem act_effect {e : Event} {k : Point} {q : Core × Point} (ha : act o r i k e = some q) :
    Effect o r i e k q := by
  have here {c' : Core} {pt : Point} (h : Same r.store c')
      (hp : ∀ a id proof, pt ≠ .spawning a id proof) : Effect o r i e k (c', pt) :=
    .rests (.same h hp)
  cases k with
  | locking profile key =>
    cases e with
    | enter =>
      simp only [act] at ha
      split at ha <;> cases ha
      exact .rests rests_turn
    | cancel gone =>
      cases ha
      exact here .refl (by simp)
    | _ => cases ha
  | acquire a =>
    cases e with
    | go =>
      cases ha
      exact .rests rests_acquire
    | _ => cases ha
  | agentQueue a =>
    cases e with
    | take =>
      simp only [act] at ha
      split at ha <;> cases ha
      exact here ⟨rfl, rfl, rfl, rfl⟩ (by simp)
    | timeout | cancel gone =>
      cases ha
      exact here .refl (by simp)
    | _ => cases ha
  | acquireGlobal a =>
    cases e with
    | go =>
      cases ha
      exact .rests rests_acquireGlobal
    | _ => cases ha
  | globalQueue a =>
    cases e with
    | take =>
      simp only [act] at ha
      split at ha <;> cases ha
      exact here ⟨rfl, rfl, rfl, rfl⟩ (by simp)
    | timeout =>
      cases ha
      exact here (Core.same_giveAgent _) (by simp)
    | cancel gone =>
      cases ha
      exact here .refl (by simp)
    | _ => cases ha
  | granted a =>
    cases e with
    | go =>
      cases ha
      exact .spawn
    | _ => cases ha
  | spawning a id proof =>
    cases e with
    | spawned =>
      cases ha
      exact .opened
    | spawnFailed =>
      cases ha
      exact here (Core.same_releasePermits _) (by simp)
    | cancel gone =>
      cases ha
      exact here .refl (by simp)
    | _ => cases ha
  | prompting a s =>
    cases e with
    | answered =>
      cases ha
      exact effect_promptOver (Core.same_touch s)
    | broken =>
      simp only [act] at ha
      split at ha <;> cases ha
      · exact .rests (.of_same (Core.same_setBusy _ _) (rests_dropThen (by simp)))
      · exact effect_promptOver .refl
    | failed | cancel gone =>
      cases ha
      exact effect_promptOver .refl
    | _ => cases ha
  | cancelling key resetting =>
    cases e with
    | ended =>
      cases ha
      exact here .refl afterCancel_ne
    | stuck =>
      cases ha
      exact .rests (rests_dropThen afterCancel_ne)
    | cancel gone =>
      cases ha
      exact here .refl (by simp)
    | _ => cases ha
  | resetLocking agent key =>
    cases e with
    | enter =>
      simp only [act] at ha
      split at ha <;> cases ha
      exact .rests (rests_dropThen (by simp))
    | cancel gone =>
      cases ha
      exact here .refl (by simp)
    | _ => cases ha
  | closing s agent k =>
    cases e with
    | closed =>
      cases ha
      exact .closed true (rests_resume (r := ⟨r.store.closeSession o s agent true, r.calls⟩))
    | closeRaised timeout gone =>
      cases ha
      exact .closed gone (.same (Core.same_unwind _ _) (by simp))
    | cancel gone =>
      cases ha
      exact .closed gone (.same (Core.same_unwind _ _) (by simp))
    | _ => cases ha
  | done => cases e <;> cases ha

end

/-! ## Owners, and what the operations do to them -/

section

variable {i : Nat} {a : Attempt} {s : Session} {agent key : Str} {k : After} {life : Life}
  {x : Owner} {id : ProofId} {proof : Nat}

theorem Core.Has.owner (h : c.Has s agent life) :
    ∃ proof, c.owners[s.process]? = some ⟨s.proofSessionId, proof, life⟩ := by
  obtain ⟨pr, hpr, -, hid, hl⟩ := h
  refine ⟨pr.proof, ?_⟩
  rw [owners, List.getElem?_map, hpr, ← hid, ← hl]
  rfl

theorem Core.getElem?_owners_mark (p q : Nat) (l : Life) : (c.mark p l).owners[q]? =
    if p = q then (c.owners[q]?).map ({ · with life := l }) else c.owners[q]? := by
  unfold owners
  rw [List.getElem?_map, List.getElem?_map, getElem?_mark]
  split
  · rw [Option.map_map, Option.map_map]
    rfl
  · rfl

/-- A process is as it was, or the one that changes hands. -/
theorem Core.mem_owners_mark {p : Nat} {l : Life} (h : x ∈ (c.mark p l).owners) :
    x ∈ c.owners ∨ ∃ y, c.owners[p]? = some y ∧ x = { y with life := l } := by
  obtain ⟨q, hq⟩ := List.mem_iff_getElem?.1 h
  rw [getElem?_owners_mark] at hq
  split at hq
  · rename_i hpq
    subst hpq
    obtain ⟨y, hy, rfl⟩ := Option.map_eq_some_iff.1 hq
    exact .inr ⟨y, hy, rfl⟩
  · exact .inl (List.mem_of_getElem? hq)

theorem Core.dropSession_eq (h : c.dropSession i key = some (c', s, agent)) :
    ∃ m, (key, m) ∈ c.sessions ∧ m.session = s ∧ m.agent = agent ∧
      c' = (({ c with sessions := Dict.remove key c.sessions } : Core).revoke
        (.session key)).mark s.process (.closing i) := by
  unfold dropSession at h
  rw [Option.map_eq_some_iff] at h
  obtain ⟨m, hm, h⟩ := h
  cases h
  exact ⟨m, Dict.mem_of_lookup hm, rfl, rfl, rfl⟩

/-! ## A proof is drawn once -/

/-- The proof of a spawn: no process has it yet, and the book has it under no other id. -/
structure Core.Own (c : Core) (id : ProofId) (proof : Nat) : Prop where
  drawn : proof < c.drawn
  unheld : ∀ x ∈ c.owners, x.proof ≠ proof
  booked : ∀ id', c.book id' = some proof → id' = id

/-- What the book has is the proof of a spawn or of a process that is not over, under its id. -/
structure Drawn (r : Runtime) (i : Nat) (c : Core) : Prop where
  book : ∀ id proof, c.book id = some proof → proof < c.drawn
  held : ∀ x ∈ c.owners, x.proof < c.drawn ∧
    ∀ id, c.book id = some x.proof → id = x.id ∧ x.life ≠ .left ∧ x.life ≠ .gone
  spawns : ∀ j a id proof, j ≠ i → r.At j (.spawning a id proof) → c.Own id proof

theorem Core.Own.same (h : c.Own id proof) (hs : Core.Same c c') : c'.Own id proof :=
  ⟨hs.drawn ▸ h.drawn, hs.owners ▸ h.unheld, hs.book ▸ h.booked⟩

theorem Core.book_revoke {id' : ProofId} (h : (c.revoke id').book id = some proof) :
    id ≠ id' ∧ c.book id = some proof := by
  unfold revoke at h
  dsimp only at h
  rw [Function.update_apply] at h
  split at h
  · cases h
  · exact ⟨‹_›, h⟩

theorem Core.book_issue {id' : ProofId} (h : (c.issue id').book id = some proof) :
    id = id' ∧ proof = c.drawn ∨ c.book id = some proof := by
  unfold issue at h
  dsimp only at h
  rw [Function.update_apply] at h
  split at h
  · exact .inl ⟨‹_›, (Option.some.inj h).symm⟩
  · exact .inr h

theorem Core.Own.revoke (h : c.Own id proof) (id' : ProofId) : (c.revoke id').Own id proof :=
  ⟨h.drawn, h.unheld, fun id₁ hb => h.booked id₁ (book_revoke hb).2⟩

theorem Core.Own.mark (h : c.Own id proof) (p : Nat) (l : Life) : (c.mark p l).Own id proof := by
  refine ⟨h.drawn, fun x hx => ?_, h.booked⟩
  rcases mem_owners_mark hx with hx | ⟨y, hy, rfl⟩
  · exact h.unheld x hx
  · exact h.unheld y (List.mem_of_getElem? hy)

/-- What call `i` may spawn with: a proof that is its own. -/
def Point.Deals (r : Runtime) (i : Nat) (c : Core) (k : Point) : Prop :=
  ∀ a id proof, k = .spawning a id proof → c.Own id proof ∧
    ∀ j a' id' proof', j ≠ i → r.At j (.spawning a' id' proof') → proof' ≠ proof

namespace Drawn

theorem same (h : Drawn r i c) (hs : Core.Same c c') : Drawn r i c' := by
  refine ⟨?_, ?_, fun j a id proof hj hk => (h.spawns j a id proof hj hk).same hs⟩
  · rw [hs.book, hs.drawn]
    exact h.book
  · rw [hs.owners, hs.book, hs.drawn]
    exact h.held

theorem revoke (h : Drawn r i c) (id : ProofId) : Drawn r i (c.revoke id) := by
  refine ⟨fun id' proof hb => h.book id' proof (Core.book_revoke hb).2, fun x hx => ?_,
    fun j a id' proof hj hk => (h.spawns j a id' proof hj hk).revoke id⟩
  exact ⟨(h.held x hx).1, fun id' hb => (h.held x hx).2 id' (Core.book_revoke hb).2⟩

theorem mark (h : Drawn r i c) (p : Nat) {l : Life}
    (hl : (l ≠ .left ∧ l ≠ .gone) ∨ ∀ y, c.owners[p]? = some y → ∀ id, c.book id ≠ some y.proof) :
    Drawn r i (c.mark p l) := by
  refine ⟨h.book, fun x hx => ?_, fun j a id' proof hj hk => (h.spawns j a id' proof hj hk).mark p l⟩
  rcases Core.mem_owners_mark hx with hx | ⟨y, hy, rfl⟩
  · exact h.held x hx
  · have hy' := h.held y (List.mem_of_getElem? hy)
    refine ⟨hy'.1, fun id hb => ⟨(hy'.2 id hb).1, ?_⟩⟩
    rcases hl with hl | hl
    · exact hl
    · exact absurd hb (hl y hy id)

theorem drop (h : Drawn r i c) (hd : c.dropSession i key = some (c', s, agent)) :
    Drawn r i c' := by
  obtain ⟨m, -, -, -, rfl⟩ := Core.dropSession_eq hd
  have hs : Drawn r i { c with sessions := Dict.remove key c.sessions } :=
    ⟨h.book, h.held, fun j a id proof hj hk =>
      ⟨(h.spawns j a id proof hj hk).drawn, (h.spawns j a id proof hj hk).unheld,
        (h.spawns j a id proof hj hk).booked⟩⟩
  exact (hs.revoke _).mark _ (.inl ⟨nofun, nofun⟩)

/-- Once a process is closed its proof is in no book. -/
theorem closeSession (h : Drawn r i c) (hh : c.Has s agent life) (gone : Bool) :
    Drawn r i (c.closeSession o s agent gone) := by
  have hr := (h.revoke s.proofSessionId).same (Core.same_releasePermits (o := o) agent)
  refine hr.mark s.process (.inr fun y hy id hb => ?_)
  have hsame := Core.same_releasePermits (o := o) (c := c.revoke s.proofSessionId) agent
  rw [hsame.owners] at hy
  rw [hsame.book] at hb
  obtain ⟨proof, hp⟩ := hh.owner
  have hy' : y = ⟨s.proofSessionId, proof, life⟩ := Option.some.inj (hy.symm.trans hp)
  subst hy'
  obtain ⟨hne, hb⟩ := Core.book_revoke hb
  exact hne ((h.held _ (List.mem_of_getElem? hp)).2 id hb).1

/-- The new proof is nobody's. -/
theorem issue (h : Drawn r i c) (id : ProofId) :
    Drawn r i (c.issue id) ∧ (c.issue id).Own id c.drawn := by
  refine ⟨⟨fun id' proof hb => ?_, fun x hx => ⟨?_, fun id' hb => ?_⟩, fun j a id' proof hj hk =>
    ⟨?_, (h.spawns j a id' proof hj hk).unheld, fun id₁ hb => ?_⟩⟩, Nat.lt_succ_self _,
    fun x hx => ?_, fun id' hb => ?_⟩
  · rcases Core.book_issue hb with ⟨-, rfl⟩ | hb
    · exact Nat.lt_succ_self _
    · exact Nat.lt_succ_of_lt (h.book id' proof hb)
  · exact Nat.lt_succ_of_lt (h.held x hx).1
  · rcases Core.book_issue hb with ⟨-, heq⟩ | hb
    · exact absurd (h.held x hx).1 (by omega)
    · exact (h.held x hx).2 id' hb
  · exact Nat.lt_succ_of_lt (h.spawns j a id' proof hj hk).drawn
  · rcases Core.book_issue hb with ⟨-, rfl⟩ | hb
    · exact absurd (h.spawns j a id' _ hj hk).drawn (by omega)
    · exact (h.spawns j a id' proof hj hk).booked id₁ hb
  · exact Nat.ne_of_lt (h.held x hx).1
  · rcases Core.book_issue hb with ⟨heq, -⟩ | hb
    · exact heq
    · exact absurd (h.book id' _ hb) (by omega)

/-- More numbers are drawn. -/
theorem draw (h : Drawn r i c) : Drawn r i { c with drawn := c.drawn + 1 } :=
  ⟨fun id proof hb => Nat.lt_succ_of_lt (h.book id proof hb),
    fun x hx => ⟨Nat.lt_succ_of_lt (h.held x hx).1, (h.held x hx).2⟩,
    fun j a id proof hj hk => ⟨Nat.lt_succ_of_lt (h.spawns j a id proof hj hk).drawn,
      (h.spawns j a id proof hj hk).unheld, (h.spawns j a id proof hj hk).booked⟩⟩

/-- The proof of the spawn is that of the process now. -/
theorem opened (h : Drawn r i c) (ho : c.Own id proof)
    (hne : ∀ j a' id' proof', j ≠ i → r.At j (.spawning a' id' proof') → proof' ≠ proof) :
    Drawn r i (c.opened i a id proof).1 := by
  have new (life : Life) (hl : life ≠ .left ∧ life ≠ .gone) (l : List (Str × Managed)) :
      Drawn r i { c with
        processes := c.processes ++ [⟨a.profile.name, id, proof, true, life⟩], sessions := l } := by
    have hmem {x : Owner} (hx : x ∈ List.map Process.owner
        (c.processes ++ [⟨a.profile.name, id, proof, true, life⟩])) :
        x ∈ c.owners ∨ x = ⟨id, proof, life⟩ := by
      rw [List.map_append, List.mem_append, List.map_singleton, List.mem_singleton] at hx
      exact hx
    refine ⟨h.book, fun x hx => ?_, fun j a' id' proof' hj hk => ?_⟩
    · rcases hmem hx with hx | rfl
      · exact h.held x hx
      · exact ⟨ho.drawn, fun id' hb => ⟨ho.booked id' hb, hl⟩⟩
    · have hs := h.spawns j a' id' proof' hj hk
      refine ⟨hs.drawn, fun x hx => ?_, hs.booked⟩
      rcases hmem hx with hx | rfl
      · exact hs.unheld x hx
      · exact (hne j a' id' proof' hj hk).symm
  unfold Core.opened
  split
  · exact new (.kept ‹_›) ⟨nofun, nofun⟩ _
  · exact new (.oneShot i) ⟨nofun, nofun⟩ c.sessions

theorem rests (h : Drawn r i c) {q : Core × Point} (hq : Rests i c q) :
    Drawn r i q.1 ∧ ∀ a id proof, q.2 ≠ .spawning a id proof := by
  cases hq with
  | same hs hp => exact ⟨h.same hs, hp⟩
  | drop hs hd => exact ⟨(h.same hs).drop hd, nofun⟩

theorem spawnSession (h : Drawn r i c) :
    Drawn r i (c.spawnSession a).1 ∧ (c.spawnSession a).2.Deals r i (c.spawnSession a).1 := by
  unfold Core.spawnSession
  split
  · obtain ⟨hd, ho⟩ := h.issue (.session ‹_›)
    refine ⟨hd, fun a' id proof heq => ?_⟩
    cases heq
    exact ⟨ho, fun j a' id' proof' hj hk => Nat.ne_of_lt (h.spawns j a' id' proof' hj hk).drawn⟩
  · obtain ⟨hd, ho⟩ := h.draw.issue (.oneShot a.profile.name c.drawn)
    refine ⟨hd, fun a' id proof heq => ?_⟩
    cases heq
    exact ⟨ho, fun j a' id' proof' hj hk =>
      Nat.ne_of_lt (h.draw.spawns j a' id' proof' hj hk).drawn⟩

theorem effect (h : Drawn r i r.store) {e : Event} {k : Point} {q : Core × Point}
    (hk : k.Deals r i r.store) (hf : k.Fits i r.store) (he : Effect o r i e k q) :
    Drawn r i q.1 ∧ q.2.Deals r i q.1 := by
  have none {q : Core × Point} (hq : Drawn r i q.1 ∧ ∀ a id proof, q.2 ≠ .spawning a id proof) :
      Drawn r i q.1 ∧ q.2.Deals r i q.1 :=
    ⟨hq.1, fun a id proof heq => absurd heq (hq.2 a id proof)⟩
  cases he with
  | rests hq => exact none (h.rests hq)
  | closed gone hq => exact none ((h.closeSession hf gone).rests hq)
  | ended _ hs => exact none ⟨(h.same hs).mark _ (.inl ⟨nofun, nofun⟩), nofun⟩
  | spawn => exact h.spawnSession
  | @opened a id proof =>
    obtain ⟨ho, hne⟩ := hk a id proof rfl
    refine none ⟨h.opened ho hne, ?_⟩
    unfold Core.opened
    split <;> nofun

end Drawn

/-! ## The proof of a registered process -/

/-- No process of the session is being closed. -/
def Core.Clear (c : Core) (key : Str) : Prop :=
  ∀ x ∈ c.owners, ∀ j, x.life = .closing j → x.id ≠ .session key

/-- The book has the proof of the session's process. -/
def Core.Serves (c : Core) (key : Str) (s : Session) : Prop :=
  ∃ x, c.owners[s.process]? = some x ∧ c.book (.session key) = some x.proof

/-- A registered process's proof is the book's, as is that of a spawn for a session, and of neither
session is a process being closed. -/
structure Current (r : Runtime) (i : Nat) (c : Core) : Prop where
  registered : ∀ key s, (key, s) ∈ c.current → c.Serves key s ∧ c.Clear key
  spawns : ∀ j a id proof key, j ≠ i → r.At j (.spawning a id proof) → a.key = some key →
    c.book (.session key) = some proof ∧ c.Clear key

/-- The same of the call's own spawn. -/
def Point.Books (c : Core) (k : Point) : Prop :=
  ∀ a id proof key, k = .spawning a id proof → a.key = some key →
    c.book (.session key) = some proof ∧ c.Clear key

/-- The session has no process and, but for call `i`, is given none. -/
def Unserved (r : Runtime) (i : Nat) (c : Core) (key : Str) : Prop :=
  key ∉ c.current.map Prod.fst ∧
    ∀ j a id proof, j ≠ i → r.At j (.spawning a id proof) → a.key ≠ some key

theorem Core.keys_current (c : Core) : c.current.map Prod.fst = c.sessions.map Prod.fst := by
  simp [current]

/-- What the sessions have to do with the processes and the other calls. -/
structure Placed (r : Runtime) (i : Nat) (c : Core) : Prop where
  kept : ∀ key s, (key, s) ∈ c.current →
    ∃ x, c.owners[s.process]? = some x ∧ x.id = .session key
  spawns : ∀ j a id proof key, j ≠ i → r.At j (.spawning a id proof) → a.key = some key →
    key ∉ c.current.map Prod.fst

theorem Placed.same (h : Placed r i c) (hs : Core.Same c c') : Placed r i c' := by
  refine ⟨?_, ?_⟩
  · rw [hs.current, hs.owners]
    exact h.kept
  · rw [hs.current]
    exact h.spawns

theorem Around.placed (h : Around r i c) : Placed r i c := by
  refine ⟨fun key s hm => ?_, fun j a id proof key hj hk ha => ?_⟩
  · obtain ⟨x, hx, heq⟩ := List.mem_map.1 hm
    cases heq
    obtain ⟨hh, hid⟩ := h.kept x.1 x.2 hx
    obtain ⟨proof, hp⟩ := hh.owner
    exact ⟨_, hp, hid⟩
  · rw [Core.keys_current]
    exact h.creates j _ key hj hk ha

theorem Core.Clear.mark (h : c.Clear key) (p : Nat) {l : Life}
    (hl : (∀ j, l ≠ .closing j) ∨ ∀ y, c.owners[p]? = some y → y.id ≠ .session key) :
    (c.mark p l).Clear key := by
  intro x hx j hj
  rcases mem_owners_mark hx with hx | ⟨y, hy, rfl⟩
  · exact h x hx j hj
  · rcases hl with hl | hl
    · exact absurd hj (hl j)
    · exact hl y hy

theorem Core.Serves.mark (h : c.Serves key s) (p : Nat) (l : Life) : (c.mark p l).Serves key s := by
  obtain ⟨x, hx, hb⟩ := h
  unfold Serves
  rw [getElem?_owners_mark]
  split
  · exact ⟨{ x with life := l }, by rw [hx]; rfl, hb⟩
  · exact ⟨x, hx, hb⟩

theorem Core.book_revoke_ne (hb : c.book (.session key) = some proof) (hne : id ≠ .session key) :
    (c.revoke id).book (.session key) = some proof := by
  show Function.update c.book id none (.session key) = _
  rw [Function.update_of_ne hne.symm]
  exact hb

theorem Core.book_issue_ne (hb : c.book (.session key) = some proof) (hne : id ≠ .session key) :
    (c.issue id).book (.session key) = some proof := by
  show Function.update c.book id (some c.drawn) (.session key) = _
  rw [Function.update_of_ne hne.symm]
  exact hb

theorem Core.mem_keys_current (h : (key, s) ∈ c.current) : key ∈ c.current.map Prod.fst :=
  List.mem_map_of_mem (f := Prod.fst) h

namespace Current

theorem same (h : Current r i c) (hs : Core.Same c c') : Current r i c' := by
  have hc (key : Str) (hk : c.Clear key) : c'.Clear key := by
    unfold Core.Clear
    rw [hs.owners]
    exact hk
  refine ⟨fun key s hm => ?_, fun j a id proof key hj hk ha => ?_⟩
  · obtain ⟨hv, hk⟩ := h.registered key s (hs.current ▸ hm)
    refine ⟨?_, hc key hk⟩
    unfold Core.Serves
    rw [hs.owners, hs.book]
    exact hv
  · obtain ⟨hb, hk⟩ := h.spawns j a id proof key hj hk ha
    exact ⟨hs.book ▸ hb, hc key hk⟩

theorem revoke (h : Current r i c) (hid : ∀ key, id = .session key → Unserved r i c key) :
    Current r i (c.revoke id) := by
  refine ⟨fun key s hm => ?_, fun j a id' proof key hj hk ha => ?_⟩
  · obtain ⟨⟨x, hx, hb⟩, hc⟩ := h.registered key s hm
    have hne : id ≠ .session key := fun heq => (hid key heq).1 (Core.mem_keys_current hm)
    exact ⟨⟨x, hx, Core.book_revoke_ne hb hne⟩, hc⟩
  · obtain ⟨hb, hc⟩ := h.spawns j a id' proof key hj hk ha
    have hne : id ≠ .session key := fun heq => (hid key heq).2 j a id' proof hj hk ha
    exact ⟨Core.book_revoke_ne hb hne, hc⟩

theorem mark (h : Current r i c) (p : Nat) {l : Life}
    (hl : (∀ j, l ≠ .closing j) ∨
      ∀ y, c.owners[p]? = some y → ∀ key, y.id = .session key → Unserved r i c key) :
    Current r i (c.mark p l) := by
  refine ⟨fun key s hm => ?_, fun j a id proof key hj hk ha => ?_⟩
  · obtain ⟨hv, hc⟩ := h.registered key s hm
    refine ⟨hv.mark p l, hc.mark p (hl.imp_right fun hu y hy heq => ?_)⟩
    exact (hu y hy key heq).1 (Core.mem_keys_current hm)
  · obtain ⟨hb, hc⟩ := h.spawns j a id proof key hj hk ha
    refine ⟨hb, hc.mark p (hl.imp_right fun hu y hy heq => ?_)⟩
    exact (hu y hy key heq).2 j a id proof hj hk ha

/-- A dropped session has no process and is given none but by a later call. -/
theorem drop (h : Current r i c) (hp : Placed r i c)
    (hd : c.dropSession i key = some (c', s, agent)) : Current r i c' := by
  obtain ⟨m, hm, rfl, rfl, rfl⟩ := Core.dropSession_eq hd
  have hcur : (key, m.session) ∈ c.current := List.mem_map_of_mem (f := fun x => (x.1, x.2.session)) hm
  have hu : Unserved r i { c with sessions := Dict.remove key c.sessions } key := by
    constructor
    · rw [Core.keys_current]
      intro hk
      obtain ⟨x, hx, heq⟩ := List.mem_map.1 hk
      exact (Dict.mem_remove.1 hx).2 heq
    · intro j a id proof hj hk hkey
      exact hp.spawns j a id proof key hj hk hkey (Core.mem_keys_current hcur)
  have hs : Current r i { c with sessions := Dict.remove key c.sessions } := by
    refine ⟨fun key' s' hm' => h.registered key' s' ?_, h.spawns⟩
    obtain ⟨x, hx, heq⟩ := List.mem_map.1 hm'
    exact List.mem_map.2 ⟨x, (Dict.mem_remove.1 hx).1, heq⟩
  refine (hs.revoke fun key' heq => ?_).mark _ (.inr fun y hy key' heq => ?_)
  · cases heq
    exact hu
  · obtain ⟨x, hx, hid⟩ := hp.kept key m.session hcur
    cases Option.some.inj (hy.symm.trans hx)
    cases hid.symm.trans heq
    exact hu

/-- The second revocation takes nobody's proof. -/
theorem closeSession (h : Current r i c) (hh : c.Has s agent (.closing i)) (gone : Bool) :
    Current r i (c.closeSession o s agent gone) := by
  obtain ⟨proof, hp⟩ := hh.owner
  have hx := List.mem_of_getElem? hp
  have hr : Current r i (c.revoke s.proofSessionId) := by
    refine h.revoke fun key heq => ⟨fun hm => ?_, fun j a id proof hj hk hkey => ?_⟩
    · obtain ⟨⟨key', s'⟩, hm', hkey⟩ := List.mem_map.1 hm
      cases hkey
      exact (h.registered key' s' hm').2 _ hx i rfl heq
    · exact (h.spawns j a id proof key hj hk hkey).2 _ hx i rfl heq
  exact (hr.same (Core.same_releasePermits agent)).mark _
    (.inl fun j heq => by cases gone <;> cases heq)

theorem rests (h : Current r i c) (hp : Placed r i c) {q : Core × Point} (hq : Rests i c q) :
    Current r i q.1 ∧ q.2.Books q.1 := by
  cases hq with
  | same hs hn => exact ⟨h.same hs, fun a id proof key heq => absurd heq (hn a id proof)⟩
  | drop hs hd => exact ⟨(h.same hs).drop (hp.same hs) hd, nofun⟩

/-- A proof issued for a session that has no process replaces none. -/
theorem issue (h : Current r i c) (hu : ∀ key, id = .session key → Unserved r i c key) :
    Current r i (c.issue id) := by
  refine ⟨fun key s hm => ?_, fun j a id' proof key hj hk ha => ?_⟩
  · obtain ⟨⟨x, hx, hb⟩, hc⟩ := h.registered key s hm
    have hne : id ≠ .session key := fun heq => (hu key heq).1 (Core.mem_keys_current hm)
    exact ⟨⟨x, hx, Core.book_issue_ne hb hne⟩, hc⟩
  · obtain ⟨hb, hc⟩ := h.spawns j a id' proof key hj hk ha
    have hne : id ≠ .session key := fun heq => (hu key heq).2 j a id' proof hj hk ha
    exact ⟨Core.book_issue_ne hb hne, hc⟩

theorem spawnSession (h : Current r i c) (hu : ∀ key, a.key = some key → Unserved r i c key)
    (hc : ∀ key, a.key = some key → c.Clear key) :
    Current r i (c.spawnSession a).1 ∧ (c.spawnSession a).2.Books (c.spawnSession a).1 := by
  unfold Core.spawnSession
  split
  · rename_i key hkey
    refine ⟨h.issue fun key' heq => ?_, fun a' id proof key' heq hkey' => ?_⟩
    · cases heq
      exact hu key hkey
    · cases heq
      cases hkey.symm.trans hkey'
      exact ⟨Function.update_self .., hc key hkey⟩
  · rename_i hkey
    have hd : Current r i { c with drawn := c.drawn + 1 } := ⟨h.registered, h.spawns⟩
    refine ⟨hd.issue nofun, fun a' id proof key' heq hkey' => ?_⟩
    cases heq
    cases hkey.symm.trans hkey'

/-- The process that is registered is the one spawned last. -/
theorem opened (h : Current r i c) (hb : (Point.spawning a id proof).Books c) :
    Current r i (c.opened i a id proof).1 := by
  have clear (life : Life) (hl : ∀ j, life ≠ .closing j) (l : List (Str × Managed)) (key : Str)
      (hc : c.Clear key) : Core.Clear { c with
        processes := c.processes ++ [⟨a.profile.name, id, proof, true, life⟩], sessions := l } key := by
    intro x hx j hj
    rw [Core.owners, List.map_append, List.mem_append, List.map_singleton,
      List.mem_singleton] at hx
    rcases hx with hx | rfl
    · exact hc x hx j hj
    · exact absurd hj (hl j)
  have serves (pr : Process) (l : List (Str × Managed)) (key : Str) (s : Session)
      (hv : c.Serves key s) :
      Core.Serves { c with processes := c.processes ++ [pr], sessions := l } key s := by
    obtain ⟨x, hx, hb⟩ := hv
    refine ⟨x, ?_, hb⟩
    rw [Core.owners, List.map_append, List.getElem?_append_left]
    · exact hx
    · exact (List.getElem?_eq_some_iff.1 hx).1
  unfold Core.opened
  split
  · rename_i key hkey
    obtain ⟨hbook, hclear⟩ := hb a id proof key rfl hkey
    refine ⟨fun key' s hm => ?_, fun j a' id' proof' key' hj hk ha => ?_⟩
    · obtain ⟨⟨key₁, m⟩, hm₁, heq⟩ := List.mem_map.1 hm
      cases heq
      rcases Dict.mem_assign hm₁ with heq | hm₁
      · cases heq
        refine ⟨⟨⟨id, proof, .kept key⟩, ?_, hbook⟩, clear (.kept key) nofun _ _ hclear⟩
        rw [Core.owners, List.map_append]
        exact (List.getElem?_append_right (by simp)).trans (by simp [Process.owner])
      · obtain ⟨hv, hc⟩ := h.registered key₁ m.session
          (List.mem_map_of_mem (f := fun x => (x.1, x.2.session)) hm₁)
        exact ⟨serves _ _ _ _ hv, clear (.kept key) nofun _ _ hc⟩
    · obtain ⟨hb', hc⟩ := h.spawns j a' id' proof' key' hj hk ha
      exact ⟨hb', clear (.kept key) nofun _ _ hc⟩
  · refine ⟨fun key' s hm => ?_, fun j a' id' proof' key' hj hk ha => ?_⟩
    · obtain ⟨hv, hc⟩ := h.registered key' s hm
      exact ⟨serves _ c.sessions _ _ hv, clear (.oneShot i) nofun c.sessions _ hc⟩
    · obtain ⟨hb', hc⟩ := h.spawns j a' id' proof' key' hj hk ha
      exact ⟨hb', clear (.oneShot i) nofun c.sessions _ hc⟩

theorem effect (h : Current r i r.store) {e : Event} {k : Point} {q : Core × Point}
    (ha : Around r i r.store) (hb : k.Books r.store) (hf : k.Fits i r.store)
    (hu : ∀ key, k.creates = some key → Unserved r i r.store key)
    (hc : ∀ a key, e = .go → k = .granted a → a.key = some key → r.store.Clear key)
    (he : Effect o r i e k q) : Current r i q.1 ∧ q.2.Books q.1 := by
  cases he with
  | rests hq => exact h.rests ha.placed hq
  | closed gone hq =>
    exact (h.closeSession hf gone).rests (ha.closeSession hf gone).placed hq
  | @ended e a s c hk hs =>
    refine ⟨(h.same hs).mark _ (.inr fun y hy key heq => ?_), nofun⟩
    obtain ⟨hh, hne⟩ := hf hk
    obtain ⟨proof, hp⟩ := hh.owner
    rw [hs.owners] at hy
    cases Option.some.inj (hy.symm.trans hp)
    exact absurd heq (hne key)
  | @spawn a => exact h.spawnSession hu fun key hkey => hc a key rfl rfl hkey
  | @opened a id proof =>
    refine ⟨h.opened hb, fun a' id' proof' key heq => ?_⟩
    unfold Core.opened at heq
    split at heq <;> cases heq

end Current

end

/-! ## Every run -/

theorem rests_begin {i : Nat} (call : Call) : Rests i c (begin o c i call) := by
  have hc (key : Str) (resetting : Option Str) (a : Attempt) (id : ProofId) (proof : Nat) :
      cancelling c key resetting ≠ .spawning a id proof := by
    unfold cancelling
    split
    · split
      · nofun
      · exact afterCancel_ne a id proof
    · exact afterCancel_ne a id proof
  cases call with
  | runStateful profile key => exact .same .refl nofun
  | runStateless profile => exact .same .refl nofun
  | cancel key => exact .same .refl (hc key none)
  | reset agent key => exact .same .refl (hc key (some agent))
  | reap => exact rests_sweep _
  | dropAgentSessions agent => exact rests_sweep _
  | close => exact rests_sweep _

/-- Every proof drawn is one spawn's, then one process's. No call has the number `calls.length`. -/
structure Dealt (r : Runtime) : Prop where
  drawn : Drawn r r.calls.length r.store
  apart : ∀ i j a a' id id' proof proof', i ≠ j → r.At i (.spawning a id proof) →
    r.At j (.spawning a' id' proof') → proof' ≠ proof

theorem Dealt.deals (h : Dealt r) {i : Nat} {k : Point} (hi : r.At i k) :
    Drawn r i r.store ∧ k.Deals r i r.store := by
  have old {j : Nat} {k : Point} (hj : r.At j k) : j ≠ r.calls.length := by
    have := hj.lt
    omega
  refine ⟨⟨h.drawn.book, h.drawn.held, fun j a id proof _ hj =>
    h.drawn.spawns j a id proof (old hj) hj⟩, fun a id proof heq => ?_⟩
  subst heq
  exact ⟨h.drawn.spawns i a id proof (old hi) hi, fun j a' id' proof' hj hk =>
    h.apart i j a a' id id' proof proof' hj.symm hi hk⟩

theorem Dealt.put (h : Dealt r) {i : Nat} {k : Point} {q : Core × Point} (hi : r.At i k)
    (hd : Drawn r i q.1) (hq : q.2.Deals r i q.1) : Dealt (r.put i q.1 q.2) := by
  refine ⟨⟨hd.book, hd.held, fun j a id proof _ hj => ?_⟩,
    fun x y a a' id id' proof proof' hne hx hy => ?_⟩
  · rcases (Pool.at_put hi).1 hj with ⟨rfl, heq⟩ | ⟨hne, hj⟩
    · exact (hq a id proof heq.symm).1
    · exact hd.spawns j a id proof hne hj
  · rcases (Pool.at_put hi).1 hx with ⟨ex, hx⟩ | ⟨hnx, hx⟩ <;>
      rcases (Pool.at_put hi).1 hy with ⟨ey, hy⟩ | ⟨hny, hy⟩
    · exact absurd (ex.trans ey.symm) hne
    · exact (hq a id proof hx.symm).2 y a' id' proof' hny hy
    · exact ((hq a' id' proof' hy.symm).2 x a id proof hnx hx).symm
    · exact h.apart x y a a' id id' proof proof' hne hx hy

theorem dealt_next (ho : Owned r) (h : Dealt r) {e : Label} (hn : next o r e = some r') :
    Dealt r' := by
  cases e with
  | tick n =>
    cases hn
    have hd : Core.Same r.store { r.store with now := r.store.now + n } := ⟨rfl, rfl, rfl, rfl⟩
    have hs := h.drawn.same hd
    exact ⟨⟨hs.book, hs.held, hs.spawns⟩, h.apart⟩
  | begin call =>
    cases hn
    obtain ⟨hd, hq⟩ := h.drawn.rests (rests_begin (o := o) (i := r.calls.length) call)
    refine ⟨⟨hd.book, hd.held, fun j a id proof _ hj => ?_⟩,
      fun x y a a' id id' proof proof' hne hx hy => ?_⟩
    · rcases Pool.at_start.1 hj with hj | ⟨-, heq⟩
      · exact hd.spawns j a id proof (Nat.ne_of_lt hj.lt) hj
      · exact absurd heq.symm (hq a id proof)
    · rcases Pool.at_start.1 hx with hx | ⟨-, heq⟩
      · rcases Pool.at_start.1 hy with hy | ⟨-, heq⟩
        · exact h.apart x y a a' id id' proof proof' hne hx hy
        · exact absurd heq.symm (hq a' id' proof')
      · exact absurd heq.symm (hq a id proof)
  | act i e =>
    simp only [next] at hn
    split at hn
    · rename_i k hi
      obtain ⟨q, ha, rfl⟩ := Option.map_eq_some_iff.1 hn
      obtain ⟨hd, hk⟩ := h.deals hi
      obtain ⟨hd', hq⟩ := hd.effect hk (ho.fits i k hi) (act_effect ha)
      exact h.put hi hd' hq
    · cases hn
  | exit p =>
    simp only [next] at hn
    split at hn <;> cases hn
    rename_i hp
    obtain ⟨pr, hpr, hl⟩ := (Option.any_eq_true _ _).1 hp
    have hm := h.drawn.mark p (l := .gone) (.inr fun y hy id hb => ?_)
    · exact ⟨⟨hm.book, hm.held, hm.spawns⟩, h.apart⟩
    · have hy' : y = pr.owner := by
        rw [Core.owners, List.getElem?_map, hpr] at hy
        exact (Option.some.inj hy).symm
      subst hy'
      exact ((h.drawn.held _ (List.mem_of_getElem? hy)).2 id hb).2.1 (of_decide_eq_true hl)

theorem dealt {C : Runtime → Label → Prop} (h : (runtime o).Reach C r) : Dealt r := by
  refine h.inv_using (fun s hs => ?_) fun s e s' hr hi _ hn => dealt_next (owned hr) hi hn
  subst hs
  exact ⟨⟨nofun, nofun, fun i _ _ _ _ hk => absurd hk.lt (Nat.not_lt_zero i)⟩,
    fun i _ _ _ _ _ _ _ _ hk => absurd hk.lt (Nat.not_lt_zero i)⟩

/-- The proof of a process whose drop is over is refused under every id, in every run. -/
theorem dead_refused {C : Runtime → Label → Prop} (h : (runtime o).Reach C r) :
    ∀ pr ∈ r.store.processes, pr.life = .left ∨ pr.life = .gone →
      ∀ id, r.store.verify id pr.proof = false := by
  intro pr hpr hl id
  refine decide_eq_false fun hb => ?_
  have hx : pr.owner ∈ r.store.owners := List.mem_map_of_mem hpr
  obtain ⟨-, hleft, hgone⟩ := ((dealt h).drawn.held _ hx).2 id hb
  rcases hl with hl | hl
  · exact hleft hl
  · exact hgone hl

theorem Current.books (h : Current r r.calls.length r.store) {i : Nat} {k : Point}
    (hi : r.At i k) : Current r i r.store ∧ k.Books r.store := by
  have old {j : Nat} {k : Point} (hj : r.At j k) : j ≠ r.calls.length := by
    have := hj.lt
    omega
  refine ⟨⟨h.registered, fun j a id proof key _ hj => h.spawns j a id proof key (old hj) hj⟩,
    fun a id proof key heq => ?_⟩
  subst heq
  exact h.spawns i a id proof key (old hi) hi

theorem current_next (ho : Owned r) (h : Current r r.calls.length r.store) {e : Label}
    (hc : Cleared r e) (hn : next o r e = some r') : Current r' r'.calls.length r'.store := by
  cases e with
  | tick n =>
    cases hn
    have hd : Core.Same r.store { r.store with now := r.store.now + n } := ⟨rfl, rfl, rfl, rfl⟩
    have hs := h.same hd
    exact ⟨hs.registered, hs.spawns⟩
  | begin call =>
    cases hn
    obtain ⟨hd, hq⟩ := h.rests (ho.around _).placed
      (rests_begin (o := o) (i := r.calls.length) call)
    refine ⟨hd.registered, fun j a id proof key _ hj hkey => ?_⟩
    rcases Pool.at_start.1 hj with hj | ⟨-, heq⟩
    · exact hd.spawns j a id proof key (Nat.ne_of_lt hj.lt) hj hkey
    · exact hq a id proof key heq.symm hkey
  | act i e =>
    simp only [next] at hn
    split at hn
    · rename_i k hi
      obtain ⟨q, ha, rfl⟩ := Option.map_eq_some_iff.1 hn
      obtain ⟨hcur, hb⟩ := h.books hi
      have hu (key : Str) (hk : k.creates = some key) : Unserved r i r.store key := by
        refine ⟨?_, fun j a id proof hj hj' hkey => hj ?_⟩
        · rw [Core.keys_current]
          exact ho.creates i k key hi hk
        · exact ho.apart j i _ k key hj' hi hkey (Point.holds_of_creates hk)
      have hclear (a : Attempt) (key : Str) (he : e = .go) (hk : k = .granted a)
          (hkey : a.key = some key) : r.store.Clear key := by
        subst he hk
        intro x hx j hl
        obtain ⟨pr, hpr, rfl⟩ := List.mem_map.1 hx
        exact hc a key hi hkey pr hpr j hl
      obtain ⟨hd, hq⟩ := hcur.effect (ho.around i) hb (ho.fits i k hi) hu hclear (act_effect ha)
      refine ⟨hd.registered, fun j a id proof key _ hj hkey => ?_⟩
      rcases (Pool.at_put hi).1 hj with ⟨rfl, heq⟩ | ⟨hne, hj⟩
      · exact hq a id proof key heq.symm hkey
      · exact hd.spawns j a id proof key hne hj hkey
    · cases hn
  | exit p =>
    simp only [next] at hn
    split at hn <;> cases hn
    have hm := h.mark p (l := .gone) (.inl (by simp))
    exact ⟨hm.registered, hm.spawns⟩

theorem current (h : (runtime o).Reach Cleared r) : Current r r.calls.length r.store := by
  refine h.inv_using (fun s hs => ?_) fun s e s' hr hi hc hn => current_next (owned hr) hi hc hn
  subst hs
  exact ⟨nofun, fun i _ _ _ _ _ hk => absurd hk.lt (Nat.not_lt_zero i)⟩

/-- In every run where no process is spawned for a session while an earlier one of it is being
closed, the proofs accepted are those of the registered processes, and none of a dead one. -/
theorem proofs_current (o : Options) (r : Runtime) (h : (runtime o).Reach Cleared r) :
    Proven r := by
  refine ⟨fun key m hm => ?_, dead_refused h⟩
  have hcur : (key, m.session) ∈ r.store.current :=
    List.mem_map_of_mem (f := fun x => (x.1, x.2.session)) hm
  obtain ⟨⟨x, hx, hb⟩, -⟩ := (current h).registered key m.session hcur
  rw [Core.owners, List.getElem?_map] at hx
  obtain ⟨pr, hpr, rfl⟩ := Option.map_eq_some_iff.1 hx
  exact ⟨pr, hpr, decide_eq_true hb⟩

namespace Sample

/-- Room for two processes. -/
def roomy : Options := ⟨2, 0, 60, true⟩

def isClosing : Life → Bool
  | .closing _ => true
  | _ => false

def cleared (r : Runtime) : Label → Bool
  | .act i .go =>
    match r.calls[i]? with
    | some (some (.granted a)) => a.key.all fun key => r.store.processes.all fun pr =>
        !isClosing pr.life || pr.proofSessionId ≠ .session key
    | _ => true
  | _ => true

theorem cleared_of_cleared {r : Runtime} {e : Label} (h : cleared r e = true) : Cleared r e := by
  cases e with
  | act i e =>
    cases e with
    | go =>
      intro a key hk hkey pr hpr j hl
      unfold Pool.At at hk
      simp only [cleared, hk, hkey, Option.all_some, List.all_eq_true] at h
      simpa [hl, isClosing] using h pr hpr
    | _ => trivial
  | _ => trivial

/-- A turn whose session is reaped, and the next turn of the conversation. -/
def reaped : List Label :=
  [.begin (.runStateful profile ann), .act 0 .enter] ++ upTo 0 ++
    [.act 0 .answered, .tick 61, .begin .reap, .begin (.runStateful profile ann), .act 2 .enter]

end Sample

theorem proofs_current_run : ∃ r, (runtime Sample.roomy).Reach Cleared r ∧ Proven r ∧
    r.store.sessions.length = 1 ∧ r.store.processes.length = 2 := by
  have hev : ((runtime Sample.roomy).check Sample.cleared ⟨Core.fresh Sample.roomy, []⟩
      (Sample.reaped ++ [.act 1 .closed] ++ Sample.upTo 2)).any
        (fun r => r.store.sessions.length = 1 && r.store.processes.length = 2) = true := by decide
  obtain ⟨r, hr, hobs⟩ := (Option.any_eq_true _ _).1 hev
  have hreach := Lts.reach_of_check (L := runtime Sample.roomy) (C := Cleared)
    (fun _ _ => Sample.cleared_of_cleared) rfl hr
  rw [Bool.and_eq_true, decide_eq_true_eq, decide_eq_true_eq] at hobs
  exact ⟨r, hreach, proofs_current Sample.roomy r hreach, hobs⟩

/-- The new process of a conversation is refused once the close of the old one is over. -/
theorem proof_lost : ∃ r, (runtime Sample.roomy).Reach Lts.Any r ∧ ¬Proven r := by
  have hev : ((runtime Sample.roomy).check (fun _ _ => true) ⟨Core.fresh Sample.roomy, []⟩
      (Sample.reaped ++ Sample.upTo 2 ++ [.act 1 .closed])).any
        (fun r => r.store.sessions.map Prod.fst = [Sample.ann] &&
          r.store.book (.session Sample.ann) = none) = true := by decide
  obtain ⟨r, hr, hobs⟩ := (Option.any_eq_true _ _).1 hev
  have hreach := Lts.reach_of_check (L := runtime Sample.roomy) (C := Lts.Any)
    (fun _ _ _ => trivial) rfl hr
  rw [Bool.and_eq_true, decide_eq_true_eq, decide_eq_true_eq] at hobs
  refine ⟨r, hreach, fun h => ?_⟩
  have hm : Sample.ann ∈ r.store.sessions.map Prod.fst := by
    rw [hobs.1]
    exact List.mem_singleton_self _
  obtain ⟨⟨key, m⟩, hm, rfl⟩ := List.mem_map.1 hm
  obtain ⟨pr, -, hv⟩ := h.current _ m hm
  rw [Core.verify, hobs.2] at hv
  cases hv

end Pi
