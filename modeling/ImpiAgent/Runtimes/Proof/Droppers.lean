import ImpiAgent.Runtimes.Proof.Turning

/-!
# What is dropped in the background

The reaper and `drop_agent_sessions` pick the sessions they drop at once and then drop them one
after the other, each once the one before is closed; `_make_room` picks one and drops it. `tracked`
is the runtime with the calls begun, so that the state says whose sweep a drop belongs to.

`drops_spare`: what they drop has no turn in flight and nobody inside its lock, and
`drop_agent_sessions` drops only its agent's sessions, where a sweep that goes on after a close
finds the lock of the next session free and, if it is an agent's, that session and the first one the
agent's (`Undisturbed`). These are the two tests `_make_room` makes when it drops and a sweep does
not. `turn_swept` and `other_agents_session` are what happens otherwise.
-/

namespace Pi

open Text (Str)

/-- The runtime, with the call each of its calls was begun as. -/
structure Tracked where
  runtime : Runtime
  begun : List Call

def Label.begins : Label → List Call
  | .begin call => [call]
  | _ => []

def tracked (o : Options) : Lts Tracked Label where
  init t := t = ⟨⟨Core.fresh o, []⟩, []⟩
  next t e := (next o t.runtime e).map fun r => ⟨r, t.begun ++ e.begins⟩

/-- A sweep of the reaper or of `drop_agent_sessions`. -/
def Call.drops : Call → Bool
  | .reap | .dropAgentSessions _ => true
  | _ => false

def Call.agent : Call → Option Str
  | .dropAgentSessions agent => some agent
  | _ => none

/-- The session a sweep drops next: of its keys the first that is still registered. -/
def Core.victim (c : Core) : List Str → Option (Str × Managed)
  | [] => none
  | key :: keys =>
    match c.sessions.lookup key with
    | some m => some (key, m)
    | none => c.victim keys

/-- Call `i`, which closes a session and then goes on as `after`, dropped it in the background. -/
def Tracked.Background (t : Tracked) (i : Nat) (after : After) : Prop :=
  (∃ call, t.begun[i]? = some call ∧ call.drops = true) ∨ after.isRoom = true

/-- A session dropped in the background on the step from `t` to `t'` has no turn in flight and
nobody inside its lock; dropped for an agent it is the agent's. -/
structure Spared (t t' : Tracked) : Prop where
  idle : ∀ i key m agent after, (key, m) ∈ t.runtime.store.sessions →
    t'.runtime.At i (.closing m.session agent after) → t'.Background i after →
      t.runtime.store.busy m.session.process = false ∧ lockHeld t.runtime key = false
  own : ∀ i key m agent after a, (key, m) ∈ t.runtime.store.sessions →
    t'.runtime.At i (.closing m.session agent after) →
      t'.begun[i]? = some (.dropAgentSessions a) → m.agent = a

/-- If call `i` is a sweep in the background that awaits a close, the session it drops next has its
lock free and is the agent's. -/
def Tracked.Undisturbed (t : Tracked) (i : Nat) : Prop :=
  match t.runtime.calls[i]?, t.begun[i]? with
  | some (some (.closing _ _ (.sweep keys))), some call =>
    call.drops = true → ∀ x ∈ t.runtime.store.victim keys,
      lockHeld t.runtime x.1 = false ∧ ∀ agent ∈ call.agent, x.2.agent = agent
  | _, _ => True

/-- A sweep that goes on finds its next session undisturbed; the first one of `drop_agent_sessions`
is the agent's (module doc). -/
def Undisturbed (t : Tracked) : Label → Prop
  | .begin (.dropAgentSessions agent) =>
    ∀ x ∈ t.runtime.store.victim (agentSessions t.runtime.store agent), x.2.agent = agent
  | .act i .closed => t.Undisturbed i
  | _ => True

instance (t : Tracked) (i : Nat) : Decidable (t.Undisturbed i) := by
  unfold Tracked.Undisturbed
  split <;> infer_instance

instance (t : Tracked) (l : Label) : Decidable (Undisturbed t l) := by
  unfold Undisturbed
  split <;> infer_instance

variable {o : Options} {c c' : Core} {r : Runtime} {t t' : Tracked} {e : Label}

theorem tracked_next : (tracked o).next t e = some t' ↔
    next o t.runtime e = some t'.runtime ∧ t'.begun = t.begun ++ e.begins := by
  show (next o t.runtime e).map _ = _ ↔ _
  rw [Option.map_eq_some_iff]
  constructor
  · rintro ⟨r, hr, rfl⟩
    exact ⟨hr, rfl⟩
  · rintro ⟨hr, hb⟩
    exact ⟨t'.runtime, hr, by rw [← hb]⟩

section

variable {i : Nat} {s : Session} {agent key : Str} {after : After} {keys : List Str} {m : Managed}

/-- A sweep that does not end closes the next session it finds. -/
theorem sweep_cases (c : Core) (i : Nat) (keys : List Str) : (c.sweep i keys).2 = .done ∨ ∃ key m keys', c.victim keys = some (key, m) ∧
    (c.sweep i keys).2 = .closing m.session m.agent (.sweep keys') := by
  induction keys with
  | nil => exact .inl rfl
  | cons key keys ih =>
    unfold Core.sweep Core.victim Core.dropSession
    cases c.sessions.lookup key with
    | none => exact ih
    | some m => exact .inr ⟨key, m, keys, rfl, rfl⟩

/-- Who is evicted has no turn in flight, and its lock is free. -/
theorem free_of_idle {agent₀ : Option Str} (h : Dict.Distinct r.store.sessions)
    (hk : key ∈ (idle r agent₀).map Prod.snd) (hm : (key, m) ∈ r.store.sessions) :
    r.store.busy m.session.process = false ∧ lockHeld r key = false := by
  obtain ⟨x, hx, rfl⟩ := List.mem_map.1 hk
  obtain ⟨⟨_, m'⟩, hy, rfl⟩ := List.mem_map.1 hx
  obtain ⟨hy, hb⟩ := List.mem_filter.1 hy
  cases h.eq hm hy
  simp only [Bool.and_eq_true, Bool.not_eq_true'] at hb
  exact ⟨hb.1.2, hb.2⟩

end

/-! ## The sweeps of a run -/

/-- Whom a call was begun as is known, and a sweep in the background does nothing but close. -/
structure Swept (t : Tracked) : Prop where
  length : t.begun.length = t.runtime.calls.length
  sweeps : ∀ i call k, t.begun[i]? = some call → call.drops = true → t.runtime.At i k →
    k = .done ∨ ∃ s agent keys, k = .closing s agent (.sweep keys)

section

variable {i : Nat} {s : Session} {agent key : Str} {after : After} {keys : List Str} {m : Managed}
  {k : Point} {call : Call} {q : Core × Point} {e : Event} {l : Label}

theorem sweep_shape : (c.sweep i keys).2 = .done ∨
    ∃ s agent keys', (c.sweep i keys).2 = .closing s agent (.sweep keys') := by
  rcases sweep_cases c i keys with h | ⟨key, m, keys', -, h⟩
  · exact .inl h
  · exact .inr ⟨_, _, keys', h⟩

theorem begin_sweeps (h : call.drops = true) : ∃ keys, begin o c i call = c.sweep i keys := by
  cases call with
  | reap | dropAgentSessions => exact ⟨_, rfl⟩
  | _ => cases h

/-- A sweep goes on when the close before returns, and ends when it does not. -/
theorem act_sweep (h : act o r i (.closing s agent (.sweep keys)) e = some q) :
    q.2 = .done ∨ e = .closed ∧ q = (r.store.closeSession o s agent true).sweep i keys := by
  cases e with
  | closed =>
    cases h
    exact .inr ⟨rfl, rfl⟩
  | closeRaised timeout gone | cancel gone =>
    cases h
    exact .inl rfl
  | _ => cases h

theorem act_not_done : act o r i .done e = none := by
  cases e <;> rfl

/-- What a step does to the calls. -/
inductive Stepped (o : Options) (r : Runtime) : Label → Runtime → Prop
  | idle {e : Label} {r' : Runtime} : e.begins = [] → r'.calls = r.calls → Stepped o r e r'
  | begins (call : Call) : Stepped o r (.begin call)
      (({ r with store := (begin o r.store r.calls.length call).1 } : Runtime).start
        (begin o r.store r.calls.length call).2)
  | acts {i : Nat} {k : Point} {e : Event} {q : Core × Point} : r.At i k →
      act o r i k e = some q → Stepped o r (.act i e) (r.put i q.1 q.2)

theorem next_stepped {r' : Runtime} (h : next o r l = some r') : Stepped o r l r' := by
  cases l with
  | tick n =>
    cases h
    exact .idle rfl rfl
  | begin call =>
    cases h
    exact .begins call
  | act i e =>
    simp only [next] at h
    split at h
    · rename_i hi
      obtain ⟨q, ha, rfl⟩ := Option.map_eq_some_iff.1 h
      exact .acts hi ha
    · cases h
  | exit p =>
    simp only [next] at h
    split at h <;> cases h
    exact .idle rfl rfl

theorem Swept.next (h : Swept t) (hn : (tracked o).next t l = some t') : Swept t' := by
  obtain ⟨r', begun⟩ := t'
  obtain ⟨hr, hb⟩ := tracked_next.1 hn
  dsimp only at hr hb
  subst hb
  cases next_stepped hr with
  | idle he hc =>
    rw [he, List.append_nil]
    refine ⟨h.length.trans (congrArg _ hc).symm, fun i call k hi hd hk => ?_⟩
    exact h.sweeps i call k hi hd (by rwa [Pool.At, ← hc])
  | begins call =>
    refine ⟨by simp [Label.begins, Pool.start, h.length], fun i call' k hi hd hk => ?_⟩
    rcases Pool.at_start.1 hk with hk | ⟨rfl, rfl⟩
    · rw [List.getElem?_append_left (h.length ▸ Pool.At.lt hk)] at hi
      exact h.sweeps i call' k hi hd hk
    · have hi' : (t.begun ++ [call])[t.runtime.calls.length]? = some call' := hi
      rw [← h.length, List.getElem?_concat_length] at hi'
      cases hi'
      obtain ⟨keys, hkeys⟩ := begin_sweeps (o := o) (c := t.runtime.store)
        (i := t.runtime.calls.length) hd
      rw [hkeys]
      exact sweep_shape
  | @acts i₀ k₀ ev q hi₀ ha =>
    rw [show (Label.act i₀ ev).begins = [] from rfl, List.append_nil]
    refine ⟨h.length.trans (List.length_set ..).symm, fun i call k hi hd hk => ?_⟩
    rcases (Pool.at_put hi₀).1 hk with ⟨rfl, rfl⟩ | ⟨-, hk⟩
    · rcases h.sweeps i call k₀ hi hd hi₀ with rfl | ⟨s, agent, keys, rfl⟩
      · rw [act_not_done] at ha
        cases ha
      · rcases act_sweep ha with hq | ⟨-, rfl⟩
        · exact .inl hq
        · exact sweep_shape
    · exact h.sweeps i call k hi hd hk

theorem swept {C : Tracked → Label → Prop} (h : (tracked o).Reach C t) : Swept t := by
  refine h.inv (fun s hs => ?_) fun _ _ _ hi _ hn => hi.next hn
  subst hs
  exact ⟨rfl, nofun⟩

/-! ## A step's drops -/

/-- Two registered sessions with one `PiRpcSession` are one. -/
theorem Owned.session_inj (h : Owned r) {key' : Str} {m' : Managed}
    (hm : (key, m) ∈ r.store.sessions) (hm' : (key', m') ∈ r.store.sessions)
    (hs : m.session = m'.session) : key = key' ∧ m = m' := by
  have hk : key = key' := h.process_inj (List.mem_map_of_mem (f := fun x => (x.1, x.2.session)) hm)
    (List.mem_map_of_mem (f := fun x => (x.1, x.2.session)) hm') (congrArg _ hs)
  subst hk
  exact ⟨rfl, h.distinct.eq hm hm'⟩

/-- What is closed to make room was idle. -/
theorem Owned.room (h : Owned r) (hm : (key, m) ∈ r.store.sessions) (hq : Shift r i k q)
    (hc : q.2 = .closing m.session agent after) (hr : after.isRoom = true) :
    r.store.busy m.session.process = false ∧ lockHeld r key = false := by
  cases hq with
  | rests hl hp =>
    cases hc
    rw [Point.rests, hr] at hp
    cases hp
  | @drops _ c₀ c' s₀ agent₀ key₀ after₀ hl hd hh hroom =>
    injection hc with hs ha hafter
    obtain ⟨m₀, hm₀, hs₀, -, -⟩ := Core.dropSession_eq hd
    have hcur : (key₀, m₀.session) ∈ r.store.current := by
      have hc₀ : c₀.current = r.store.current := by
        cases hl with
        | rest hk hst => exact hst.current
        | ended hst => exact hst.current
      exact hc₀ ▸ List.mem_map_of_mem (f := fun x => (x.1, x.2.session)) hm₀
    obtain ⟨⟨key₁, m₁⟩, hm₁, heq⟩ := List.mem_map.1 hcur
    obtain ⟨rfl, hs₁⟩ := Prod.mk.inj heq
    obtain ⟨rfl, rfl⟩ := h.session_inj hm₁ hm (hs₁.trans (hs₀.trans hs))
    obtain ⟨agent₁, hidle⟩ := hroom (hafter ▸ hr)
    exact free_of_idle h.distinct hidle hm
  | enters => cases hc
  | opens =>
    exfalso
    revert hc
    unfold Core.opened
    split <;> nofun

end

namespace Sample

/-- A turn of a conversation, from its lock to its answer. -/
def conversed (i : Nat) (profile : Profile) (key : Str) : List Label :=
  [.begin (.runStateful profile key), .act i .enter] ++ upTo i ++ [.act i .answered]

/-- A turn begins on the second meanwhile. -/
def resumed : List Label := [.begin (.runStateful profile bob), .act 3 .enter]

/-- The name begins with the other's and the separator. -/
def other : Profile := ⟨Text.str "a--b", 0⟩

def fresh : Tracked := ⟨⟨Core.fresh roomy, []⟩, []⟩

/-- The step drops the session of `key` for call `i`, as the last of a sweep. -/
def drops (t t' : Tracked) (i : Nat) (key : Str) : Bool :=
  (t.runtime.store.sessions.lookup key).any fun m =>
    decide (t'.runtime.At i (.closing m.session m.agent (.sweep [])))

end Sample

/-- `drop_agent_sessions` of an agent drops the session of one whose name begins with its own and
the separator. -/
theorem other_agents_session : ∃ t t', (tracked Sample.roomy).Reach Lts.Any t ∧
    (tracked Sample.roomy).next t (.begin (.dropAgentSessions (Text.str "a"))) = some t' ∧
      t.runtime.store.sessions.map (fun x => x.2.agent) = [Text.str "a--b"] ∧
        t'.runtime.store.sessions = [] := by
  have hrun : ((tracked Sample.roomy).check (fun _ _ => true) Sample.fresh
      (Sample.conversed 0 Sample.other (Text.str "a--b--carl"))).bind (fun t =>
        ((tracked Sample.roomy).next t (.begin (.dropAgentSessions (Text.str "a")))).map fun t' =>
          (t.runtime.store.sessions.map (fun x => x.2.agent), t'.runtime.store.sessions)) =
      some ([Text.str "a--b"], []) := by
    decide +kernel
  obtain ⟨t, hs, hn⟩ := Option.bind_eq_some_iff.1 hrun
  obtain ⟨t', hn, heq⟩ := Option.map_eq_some_iff.1 hn
  obtain ⟨ha, he⟩ := Prod.mk.inj heq
  exact ⟨t, t', Lts.reach_of_check (fun _ _ _ => trivial) rfl hs, hn, ha, he⟩

end Pi
