import ImpiAgent.Tasks.System

/-!
# A fleet of engines

`Fleet.lts cal b`: engines as `scheduler/service.py` runs them, over the calls of `Tasks.lts`. Each
is a process with an id of its own. It reclaims once, when it starts (`run`, `recover`), and ticks;
what it claims it hands to a worker (`_spawn`) that waits for the turn, until it is over or its
deadline has passed, and then writes the verdict, once (`_execute`, `_finish`). A turn is not
cancelled at its deadline: it goes on without its worker. When an engine dies its calls and turns
are gone.

`homes` is the process of each call, `none` an admin's. A claim that returned a run stands for its
worker and turn: `ended` are those whose turn has ended, `late` those whose worker has stopped
waiting, `finished` those whose worker has come to its verdict.
-/

namespace Fleet

open Tasks Triggers Scheduler

structure State where
  config : Config
  homes : List (Option SchedulerId)
  booted : List SchedulerId
  alive : List SchedulerId
  ended : List Nat
  late : List Nat
  finished : List Nat

namespace State

abbrev store (f : State) : Store := f.config.store

/-- Call `i` is at `k`. -/
abbrev At (f : State) (i : Nat) (k : Call) : Prop := f.config.pool.At i k

/-- The process of call `i` is there. -/
def running (f : State) (i : Nat) : Bool :=
  match f.homes[i]? with
  | some (some id) => f.alive.contains id
  | some none => true
  | none => false

/-- A call begins. -/
def begin (f : State) (home : Option SchedulerId) (k : Call) (ids : List Nat) : State :=
  { f with
    config := ⟨f.config.pool.start k, ids ++ f.config.minted, f.config.tally⟩
    homes := f.homes ++ [home] }

/-- The process that may begin the call of a label. -/
def caller (f : State) : Label → Option (Option SchedulerId)
  | .tick e _ => if e.id ∈ f.alive then some (some e.id) else none
  | .dispatch i .. => if f.running i = true then f.homes[i]? else none
  | .finish i a =>
    if f.running i = true ∧ i ∉ f.finished ∧ (i ∈ f.ended ∨ i ∈ f.late) ∧
        a.status ≠ .interrupted then
      f.homes[i]?
    else none
  | .prune _ | .notified _ | .create _ | .delete _ | .setPaused .. | .runNow .. => some none
  | .recover _ | .exec _ | .crash _ => none

end State

/-- The claim a label ends. -/
def finishes : Label → List Nat
  | .finish i _ => [i]
  | _ => []

inductive Event
  | boot (id : SchedulerId) (now : Time)
  | die (id : SchedulerId)
  | start (e : Label)
  | exec (i : Nat)
  | crash (i : Nat)
  | ended (i : Nat)
  | deadline (i : Nat)
  deriving DecidableEq

def next (cal : Calendar) (b : Backend) (f : State) : Event → Option State
  | .boot id now =>
    if id ∈ f.booted then none
    else some { f.begin (some id) (.reclaimOrphans ⟨id, now⟩) [] with
      booted := id :: f.booted, alive := id :: f.alive }
  | .die id => some { f with alive := f.alive.filter (· != id) }
  | .start e =>
    (f.caller e).bind fun home => (begins cal f.config e).map fun c =>
      { f.begin home c.1 c.2 with finished := finishes e ++ f.finished }
  | .exec i =>
    if f.running i = true then
      (Tasks.next cal b f.config (.exec i)).map fun config => { f with config }
    else none
  | .crash i => some { f with config := { f.config with pool := f.config.pool.kill i } }
  | .ended i => some { f with ended := i :: f.ended }
  | .deadline i => some { f with late := i :: f.late }

/-- The fleet, from an empty store and no engine. -/
def lts (cal : Calendar) (b : Backend) : Lts State Event where
  init f := f = ⟨⟨⟨⟨.empty, .empty⟩, []⟩, [], []⟩, [], [], [], [], [], []⟩
  next := next cal b

variable {cal : Calendar} {b : Backend} {f f' : State} {e : Event}

/-- What a step does. -/
inductive Step (cal : Calendar) (b : Backend) (f : State) : Event → State → Prop
  | boot {id : SchedulerId} {now : Time} : id ∉ f.booted → Step cal b f (.boot id now)
      { f.begin (some id) (.reclaimOrphans ⟨id, now⟩) [] with
        booted := id :: f.booted, alive := id :: f.alive }
  | die {id : SchedulerId} : Step cal b f (.die id) { f with alive := f.alive.filter (· != id) }
  | start {e : Label} {home : Option SchedulerId} {k : Call} {ids : List Nat} :
      f.caller e = some home → begins cal f.config e = some (k, ids) → Step cal b f (.start e)
        { f.begin home k ids with finished := finishes e ++ f.finished }
  | exec {i : Nat} {k k' : Call} {s' : Store} : f.running i = true → f.At i k →
      k.step b f.store = some (s', k') → Step cal b f (.exec i)
        { f with config :=
          ⟨f.config.pool.put i s' k', f.config.minted, f.config.tally ++ k.streaks b f.store⟩ }
  | crash {i : Nat} : Step cal b f (.crash i)
      { f with config := { f.config with pool := f.config.pool.kill i } }
  | ended {i : Nat} : Step cal b f (.ended i) { f with ended := i :: f.ended }
  | deadline {i : Nat} : Step cal b f (.deadline i) { f with late := i :: f.late }

theorem next_step (h : next cal b f e = some f') : Step cal b f e f' := by
  cases e with
  | boot id now =>
    simp only [next] at h
    split at h
    · cases h
    · cases h
      exact .boot ‹_›
  | die id =>
    cases h
    exact .die
  | start e =>
    obtain ⟨home, hc, h⟩ := Option.bind_eq_some_iff.1 h
    obtain ⟨⟨k, ids⟩, hb, rfl⟩ := Option.map_eq_some_iff.1 h
    exact .start hc hb
  | exec i =>
    simp only [next] at h
    split at h
    · obtain ⟨c, hn, rfl⟩ := Option.map_eq_some_iff.1 h
      cases Tasks.next_step hn with
      | start hb => cases hb
      | exec hk hm => exact .exec ‹_› hk hm
    · cases h
  | crash i =>
    cases h
    exact .crash
  | ended i =>
    cases h
    exact .ended
  | deadline i =>
    cases h
    exact .deadline

/-- A label that begins a call. -/
theorem next_of_begins {p : Config} {e : Label} {k : Call} {ids : List Nat}
    (h : begins cal p e = some (k, ids)) :
    Tasks.next cal b p e = some ⟨p.pool.start k, ids ++ p.minted, p.tally⟩ := by
  cases e <;> first | (cases h; done) | (simp only [Tasks.next, h, Option.map_some])

/-- A step of the fleet is one of its store, or leaves store and calls alone. -/
theorem config_step (h : next cal b f e = some f') :
    f'.config = f.config ∨ ∃ l, Tasks.next cal b f.config l = some f'.config := by
  cases next_step h with
  | boot => exact .inr ⟨.recover ⟨_, _⟩, rfl⟩
  | start _ hb => exact .inr ⟨_, next_of_begins hb⟩
  | exec _ hk hm => exact .inr ⟨_, exec_next hk hm⟩
  | @crash i => exact .inr ⟨.crash i, rfl⟩
  | _ => exact .inl rfl

theorem config_reach {C : State → Event → Prop} (h : (lts cal b).Reach C f) :
    (Tasks.lts cal b).Reach Lts.Any f.config := by
  refine h.inv (I := fun f => (Tasks.lts cal b).Reach Lts.Any f.config) (fun f h0 => ?_)
    fun f e f' ih _ hn => ?_
  · cases h0
    exact .init rfl
  · rcases config_step hn with he | ⟨l, hl⟩
    · exact he ▸ ih
    · exact ih.step trivial hl

end Fleet
