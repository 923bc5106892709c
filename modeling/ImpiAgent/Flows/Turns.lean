import ImpiAgent.Lib.Lts
import Mathlib.Data.List.Pairwise
import Mathlib.Logic.Function.Basic

/-!
# Which turn a session runs

`TurnRegistry`: the scope, the place and the listener of the turn that runs on a session, bound for
the length of a `bind` block. A block restores on its way out what was bound when it was entered.

`Turns.lts`: blocks entered and left in any order. Blocks that are left last in, first out keep the
current binding that of an open block (`Nested`); one that is left while a later one is open leaves
behind a binding that the later one will restore (`Doomed`).
-/

namespace Turns

variable {σ π ε : Type}

/-- What a block binds. Two blocks bind different tuples, whatever is in them: `token` tells them
apart. -/
structure Binding (σ π ε : Type) where
  token : Nat
  scope : Option σ
  place : Option π
  events : Option ε
  deriving DecidableEq

/-- A `bind` block that was entered and not left. -/
structure Block (σ π ε : Type) where
  session : String
  binding : Binding σ π ε
  previous : Option (Binding σ π ε)
  deriving DecidableEq

/-- The registry and the open blocks, the newest first. `entered` counts the blocks so far. -/
structure State (σ π ε : Type) where
  bySession : String → Option (Binding σ π ε)
  blocks : List (Block σ π ε)
  entered : Nat

namespace State

variable (s : State σ π ε) (session : String)

def current : Option σ := (s.bySession session).bind Binding.scope

def place : Option π := (s.bySession session).bind Binding.place

def turnToken : Option (Binding σ π ε) := s.bySession session

/-- Who `feed` hands an event to. -/
def fed : Option ε := (s.bySession session).bind Binding.events

/-- The open blocks on a session. -/
def openOn : List (Block σ π ε) := s.blocks.filter (·.session = session)

end State

inductive Event (σ π ε : Type)
  | enter (session : String) (scope : Option σ) (place : Option π) (events : Option ε)
  | leave (token : Nat)

/-- `bind`, up to its `yield`. -/
def enter (s : State σ π ε) (session : String) (scope : Option σ) (place : Option π)
    (events : Option ε) : State σ π ε where
  bySession := Function.update s.bySession session (some ⟨s.entered, scope, place, events⟩)
  blocks := ⟨session, ⟨s.entered, scope, place, events⟩, s.bySession session⟩ :: s.blocks
  entered := s.entered + 1

/-- The `finally` of `bind`. -/
def leave (s : State σ π ε) (b : Block σ π ε) : State σ π ε where
  bySession := Function.update s.bySession b.session b.previous
  blocks := s.blocks.filter fun c => c.binding.token ≠ b.binding.token
  entered := s.entered

def next (s : State σ π ε) : Event σ π ε → Option (State σ π ε)
  | .enter session scope place events => some (enter s session scope place events)
  | .leave token => (s.blocks.find? fun b => b.binding.token = token).map (leave s)

def lts (σ π ε : Type) : Lts (State σ π ε) (Event σ π ε) where
  init s := s = ⟨fun _ => none, [], 0⟩
  next := next

/-- What the registry answers is what an open block bound, and nothing where no block is open. -/
structure Bound (s : State σ π ε) (session : String) : Prop where
  running : s.openOn session ≠ [] →
    ∃ b ∈ s.openOn session, s.turnToken session = some b.binding
  ended : s.openOn session = [] →
    s.current session = none ∧ s.place session = none ∧ s.turnToken session = none

/-- A block is left before those that were entered before it on its session. -/
def Lifo (s : State σ π ε) : Event σ π ε → Prop
  | .enter .. => True
  | .leave token => ∀ b ∈ s.blocks, b.binding.token = token →
      (s.openOn b.session).head? = some b

instance [DecidableEq σ] [DecidableEq π] [DecidableEq ε] (s : State σ π ε) (e : Event σ π ε) :
    Decidable (Lifo s e) :=
  match e with
  | .enter .. => inferInstanceAs (Decidable True)
  | .leave _ => inferInstanceAs (Decidable (∀ b ∈ s.blocks, _ → _))

/-! ## Steps -/

/-- No two blocks bound the same tuple, the next will bind another, and a block restores an older
one. -/
structure Apart (s : State σ π ε) : Prop where
  distinct : s.blocks.Pairwise fun b c => b.binding.token ≠ c.binding.token
  fresh : ∀ b ∈ s.blocks, b.binding.token < s.entered
  older : ∀ b ∈ s.blocks, ∀ p, b.previous = some p → p.token < b.binding.token
  bound : ∀ k p, s.bySession k = some p → p.token < s.entered

theorem Apart.eq {s : State σ π ε} (h : Apart s) {b c : Block σ π ε} (hb : b ∈ s.blocks)
    (hc : c ∈ s.blocks) (heq : b.binding.token = c.binding.token) : b = c := by
  apply Classical.byContradiction
  intro hne
  have hsymm : Std.Symm fun b c : Block σ π ε => b.binding.token ≠ c.binding.token :=
    ⟨fun _ _ h => Ne.symm h⟩
  exact h.distinct.forall hb hc hne heq

/-- What a step does: a block is entered, or an open one is left. -/
inductive Does (s : State σ π ε) : Event σ π ε → State σ π ε → Prop
  | enter (session scope place events) :
      Does s (.enter session scope place events) (enter s session scope place events)
  | leave {b : Block σ π ε} : b ∈ s.blocks → Does s (.leave b.binding.token) (leave s b)

theorem does_of_next {s s' : State σ π ε} {e : Event σ π ε} (h : next s e = some s') :
    Does s e s' := by
  cases e with
  | enter session scope place events =>
    cases h
    exact .enter ..
  | leave token =>
    obtain ⟨b, hb, rfl⟩ := Option.map_eq_some_iff.1 h
    have ht : b.binding.token = token := by simpa using List.find?_some hb
    exact ht ▸ .leave (List.mem_of_find?_eq_some hb)

/-- What is bound after a step was bound before it, or is the new block's or the restored one. -/
theorem update_some {f : String → Option (Binding σ π ε)} {session k : String}
    {v : Option (Binding σ π ε)} {p : Binding σ π ε}
    (h : Function.update f session v k = some p) : v = some p ∨ f k = some p := by
  by_cases hk : k = session
  · subst hk
    rw [Function.update_self] at h
    exact .inl h
  · rw [Function.update_of_ne hk] at h
    exact .inr h

theorem Apart.enter {s : State σ π ε} (hI : Apart s) (session : String) (scope : Option σ)
    (place : Option π) (events : Option ε) : Apart (enter s session scope place events) where
  distinct := by
    refine List.pairwise_cons.2 ⟨fun c hc => ?_, hI.distinct⟩
    have := hI.fresh c hc
    show s.entered ≠ c.binding.token
    omega
  fresh c hc := by
    show c.binding.token < s.entered + 1
    rcases List.mem_cons.1 hc with rfl | hc
    · exact Nat.lt_succ_self _
    · exact Nat.lt_succ_of_lt (hI.fresh c hc)
  older c hc p hp := by
    rcases List.mem_cons.1 hc with rfl | hc
    · exact hI.bound session p hp
    · exact hI.older c hc p hp
  bound k p hp := by
    show p.token < s.entered + 1
    rcases update_some hp with heq | hp
    · cases heq
      exact Nat.lt_succ_self _
    · exact Nat.lt_succ_of_lt (hI.bound k p hp)

theorem Apart.leave {s : State σ π ε} (hI : Apart s) {b : Block σ π ε} (hb : b ∈ s.blocks) :
    Apart (leave s b) where
  distinct := hI.distinct.filter _
  fresh c hc := hI.fresh c (List.mem_filter.1 hc).1
  older c hc := hI.older c (List.mem_filter.1 hc).1
  bound k p hp := by
    show p.token < s.entered
    rcases update_some hp with heq | hp
    · exact Nat.lt_trans (hI.older b hb p heq) (hI.fresh b hb)
    · exact hI.bound k p hp

theorem Apart.init {s : State σ π ε} (h : (lts σ π ε).init s) : Apart s := by
  cases h
  exact ⟨.nil, fun _ hb => (nomatch hb), fun _ hb => (nomatch hb), fun _ _ hp => (nomatch hp)⟩

theorem Apart.step {s s' : State σ π ε} {e : Event σ π ε} (hI : Apart s)
    (h : next s e = some s') : Apart s' := by
  cases does_of_next h with
  | enter session scope place events => exact hI.enter session scope place events
  | leave hb => exact hI.leave hb

theorem Apart.reach {C : State σ π ε → Event σ π ε → Prop} {s : State σ π ε}
    (h : (lts σ π ε).Reach C s) : Apart s :=
  h.inv (fun _ => Apart.init) fun _ _ _ hI _ hn => hI.step hn

theorem openOn_enter (s : State σ π ε) (k session : String) (scope : Option σ)
    (place : Option π) (events : Option ε) :
    (enter s session scope place events).openOn k =
      if session = k then
        ⟨session, ⟨s.entered, scope, place, events⟩, s.bySession session⟩ :: s.openOn k
      else s.openOn k := by
  unfold State.openOn enter
  rw [List.filter_cons]
  simp

theorem openOn_leave (s : State σ π ε) (b : Block σ π ε) (k : String) :
    (leave s b).openOn k =
      (s.openOn k).filter fun c => c.binding.token ≠ b.binding.token := by
  unfold State.openOn leave
  rw [List.filter_filter, List.filter_filter]
  exact List.filter_congr fun c _ => Bool.and_comm _ _

theorem mem_openOn {s : State σ π ε} {k : String} {b : Block σ π ε} :
    b ∈ s.openOn k ↔ b ∈ s.blocks ∧ b.session = k := by
  simp [State.openOn, List.mem_filter]

/-- Leaving a block of another session does nothing to this one. -/
theorem openOn_leave_ne {s : State σ π ε} (hI : Apart s) {b : Block σ π ε} (hb : b ∈ s.blocks)
    {k : String} (hne : b.session ≠ k) : (leave s b).openOn k = s.openOn k := by
  rw [openOn_leave]
  refine List.filter_eq_self.2 fun c hc => ?_
  obtain ⟨hc, hk⟩ := mem_openOn.1 hc
  have : c.binding.token ≠ b.binding.token := fun heq => hne (hI.eq hc hb heq ▸ hk)
  simpa using this

/-! ## Nested blocks -/

/-- Of the blocks `bs`, the newest first, each was entered when the one after it was current. -/
def Nested (bound : Option (Binding σ π ε)) : List (Block σ π ε) → Prop
  | [] => bound = none
  | b :: bs => bound = some b.binding ∧ Nested b.previous bs

/-- Every session's blocks are nested. -/
def AllNested (s : State σ π ε) : Prop := ∀ k, Nested (s.bySession k) (s.openOn k)

theorem AllNested.bound {s : State σ π ε} (h : AllNested s) (k : String) : Bound s k := by
  have hk := h k
  cases ho : s.openOn k with
  | nil =>
    rw [ho] at hk
    have hn : s.bySession k = none := hk
    exact ⟨fun hne => absurd ho hne, fun _ => by
      simp [State.current, State.place, State.turnToken, hn]⟩
  | cons b bs =>
    rw [ho] at hk
    exact ⟨fun _ => ⟨b, by rw [ho]; exact List.mem_cons_self, hk.1⟩,
      fun hn => nomatch ho.symm.trans hn⟩

/-- The block that is left is the newest of its session. -/
theorem AllNested.leave {s : State σ π ε} (h : AllNested s) (hI : Apart s) {b : Block σ π ε}
    (hb : b ∈ s.blocks) (hlast : (s.openOn b.session).head? = some b) :
    AllNested (leave s b) := by
  intro k
  by_cases hk : b.session = k
  · subst hk
    have hn := h b.session
    obtain ⟨bs, hbs⟩ : ∃ bs, s.openOn b.session = b :: bs := by
      cases ho : s.openOn b.session with
      | nil => simp [ho] at hlast
      | cons c cs =>
        rw [ho] at hlast
        cases hlast
        exact ⟨cs, rfl⟩
    -- the others have tokens of their own, so that exactly the newest goes
    have hrest : (Turns.leave s b).openOn b.session = bs := by
      have hd : (s.openOn b.session).Pairwise fun c d => c.binding.token ≠ d.binding.token :=
        hI.distinct.filter _
      rw [openOn_leave]
      rw [hbs] at hd ⊢
      rw [List.filter_cons_of_neg (by simp)]
      refine List.filter_eq_self.2 fun c hc => ?_
      simpa using ((List.pairwise_cons.1 hd).1 c hc).symm
    rw [hbs] at hn
    rw [hrest]
    show Nested (Function.update s.bySession b.session b.previous b.session) bs
    rw [Function.update_self]
    exact hn.2
  · rw [openOn_leave_ne hI hb hk]
    show Nested (Function.update s.bySession b.session b.previous k) _
    rw [Function.update_of_ne (Ne.symm hk)]
    exact h k

theorem AllNested.enter {s : State σ π ε} (h : AllNested s) (session : String)
    (scope : Option σ) (place : Option π) (events : Option ε) :
    AllNested (enter s session scope place events) := by
  intro k
  rw [openOn_enter]
  show Nested (Function.update s.bySession session _ k) _
  by_cases hk : session = k
  · subst hk
    rw [if_pos rfl, Function.update_self]
    exact ⟨rfl, h session⟩
  · rw [if_neg hk, Function.update_of_ne (Ne.symm hk)]
    exact h k

theorem AllNested.step {s s' : State σ π ε} {e : Event σ π ε} (hN : AllNested s) (hI : Apart s)
    (hc : Lifo s e) (h : next s e = some s') : AllNested s' := by
  cases does_of_next h with
  | enter session scope place events => exact hN.enter session scope place events
  | leave hb => exact hN.leave hI hb (hc _ hb rfl)

theorem AllNested.init {s : State σ π ε} (h : (lts σ π ε).init s) : AllNested s := by
  cases h
  exact fun _ => rfl

theorem AllNested.reach {s : State σ π ε} (h : (lts σ π ε).Reach Lifo s) : AllNested s :=
  h.inv_using (fun _ => AllNested.init) fun _ _ _ hr hN hc hn =>
    hN.step (Apart.reach hr) hc hn

/-! ## Out of order -/

/-- An open block that will restore what no open block bound. -/
def Doomed (s : State σ π ε) : Prop :=
  ∃ b ∈ s.blocks, ∃ p, b.previous = some p ∧ p.token < s.entered ∧
    ∀ c ∈ s.blocks, c.binding.token ≠ p.token

/-- Of nested blocks, one that is not the newest is the previous one of some other. -/
theorem Nested.above {bs : List (Block σ π ε)} {bound : Option (Binding σ π ε)}
    (h : Nested bound bs) {b : Block σ π ε} (hb : b ∈ bs) (hlast : bs.head? ≠ some b) :
    ∃ c ∈ bs, c.previous = some b.binding := by
  induction bs generalizing bound with
  | nil => exact nomatch hb
  | cons d ds ih =>
    have hds : b ∈ ds := by
      rcases List.mem_cons.1 hb with rfl | hb
      · exact absurd rfl hlast
      · exact hb
    cases ds with
    | nil => exact nomatch hds
    | cons e es =>
      by_cases he : e = b
      · subst he
        exact ⟨d, List.mem_cons_self, h.2.1⟩
      · obtain ⟨c, hc, hp⟩ := ih h.2 hds fun heq => he (Option.some.inj heq)
        exact ⟨c, List.mem_cons_of_mem _ hc, hp⟩

/-- A block left while a later one is open. -/
theorem AllNested.doomed {s : State σ π ε} (hN : AllNested s) (hI : Apart s) {b : Block σ π ε}
    (hb : b ∈ s.blocks) (hlast : (s.openOn b.session).head? ≠ some b) :
    Doomed (Turns.leave s b) := by
  obtain ⟨c, hc, hp⟩ := (hN b.session).above (mem_openOn.2 ⟨hb, rfl⟩) hlast
  have hlt := hI.older c (mem_openOn.1 hc).1 b.binding hp
  have hne : c.binding.token ≠ b.binding.token := by omega
  refine ⟨c, List.mem_filter.2 ⟨(mem_openOn.1 hc).1, by simpa using hne⟩, b.binding, hp,
    hI.fresh b hb, fun d hd => ?_⟩
  simpa using (List.mem_filter.1 hd).2

/-- A binding of no open block is not what the registry answers. -/
theorem Bound.not_ended {s : State σ π ε} {k : String} (h : Bound s k) {p : Binding σ π ε}
    (hk : s.bySession k = some p) (hp : ∀ c ∈ s.blocks, c.binding.token ≠ p.token) : False := by
  by_cases ho : s.openOn k = []
  · exact nomatch hk.symm.trans (h.ended ho).2.2
  · obtain ⟨c, hc, heq⟩ := h.running ho
    have : p = c.binding := Option.some.inj (hk.symm.trans heq)
    exact hp c (mem_openOn.1 hc).1 (congrArg Binding.token this.symm)

/-- The step leads to a state in which every session is bound as it should be. -/
def Then (s : State σ π ε) (e : Event σ π ε) : Prop :=
  ∀ s', next s e = some s' → ∀ k, Bound s' k

theorem Doomed.step {s s' : State σ π ε} {e : Event σ π ε} (h : Doomed s) (hI : Apart s)
    (hn : next s e = some s') (hB : ∀ k, Bound s' k) : Doomed s' := by
  obtain ⟨b, hb, p, hp, hlt, hends⟩ := h
  cases does_of_next hn with
  | enter session scope place events =>
    refine ⟨b, List.mem_cons_of_mem _ hb, p, hp, Nat.lt_succ_of_lt hlt, fun c hc => ?_⟩
    rcases List.mem_cons.1 hc with rfl | hc
    · show s.entered ≠ p.token
      omega
    · exact hends c hc
  | @leave d hd =>
    have hends' : ∀ c ∈ (leave s d).blocks, c.binding.token ≠ p.token :=
      fun c hc => hends c (List.mem_filter.1 hc).1
    by_cases heq : b.binding.token = d.binding.token
    · obtain rfl := hI.eq hb hd heq
      have hk : (leave s b).bySession b.session = some p := by
        show Function.update s.bySession b.session b.previous b.session = some p
        rw [Function.update_self, hp]
      exact ((hB b.session).not_ended hk hends').elim
    · exact ⟨b, List.mem_filter.2 ⟨hb, by simpa using heq⟩, p, hp, hlt, hends'⟩

theorem Doomed.run {s s' : State σ π ε} {es : List (Event σ π ε)} (h : Doomed s) (hI : Apart s)
    (hr : (lts σ π ε).Run Then s es s') : Doomed s' := by
  induction hr with
  | nil => exact h
  | cons hc hn _ ih => exact ih (h.step hI hn (hc _ hn)) (hI.step hn)

/-- Not last in, first out: some open block is left while it is not the newest of its session. -/
theorem not_lifo {s s' : State σ π ε} {e : Event σ π ε} (hI : Apart s) (hn : next s e = some s')
    (h : ¬Lifo s e) :
    ∃ b ∈ s.blocks, s' = leave s b ∧ (s.openOn b.session).head? ≠ some b := by
  cases does_of_next hn with
  | enter => exact absurd trivial h
  | @leave b hb =>
    refine ⟨b, hb, rfl, fun hlast => h fun c hc heq => ?_⟩
    rw [hI.eq hc hb heq]
    exact hlast

/-- From nested blocks, a run that ends with none open and binds every session as it should leaves
its blocks last in, first out. -/
theorem lifo_of_bound {s s' : State σ π ε} {es : List (Event σ π ε)} (hN : AllNested s)
    (hI : Apart s) (hr : (lts σ π ε).Run Then s es s') (hends : s'.blocks = []) :
    (lts σ π ε).Run Lifo s es s' := by
  induction hr with
  | nil => exact .nil
  | @cons s s₁ _ e _ hc hn hr ih =>
    by_cases hl : Lifo s e
    · exact .cons hl hn (ih (hN.step hI hl hn) (hI.step hn) hends)
    · obtain ⟨b, hb, rfl, hlast⟩ := not_lifo hI hn hl
      obtain ⟨c, hc', _⟩ := (hN.doomed hI hb hlast).run (hI.step hn) hr
      exact nomatch hends ▸ hc'

theorem bound_of_lifo {s s' : State σ π ε} {es : List (Event σ π ε)} (hN : AllNested s)
    (hI : Apart s) (hr : (lts σ π ε).Run Lifo s es s') : (lts σ π ε).Run Then s es s' := by
  induction hr with
  | nil => exact .nil
  | cons hc hn _ ih =>
    have hN' := hN.step hI hc hn
    refine .cons (fun s' h => ?_) hn (ih hN' (hI.step hn))
    cases hn.symm.trans h
    exact hN'.bound

/-- Blocks left last in, first out: a session's binding is that of a block still open, and there is
none once all were left. A run that leaves all its blocks binds its sessions so all along exactly if
it leaves them in that order. -/
theorem bound_iff_lifo :
    (∀ s, (lts σ π ε).Reach Lifo s → ∀ session, Bound s session) ∧
      ∀ s₀ es s, (lts σ π ε).init s₀ → (lts σ π ε).Run Lts.Any s₀ es s → s.blocks = [] →
        ((lts σ π ε).Run Then s₀ es s ↔ (lts σ π ε).Run Lifo s₀ es s) := by
  refine ⟨fun s h => (AllNested.reach h).bound, fun s₀ es s h0 _ hends => ?_⟩
  have hN := AllNested.init h0
  have hI := Apart.init h0
  exact ⟨fun hr => lifo_of_bound hN hI hr hends, bound_of_lifo hN hI⟩

namespace Sample

def start : State String String Unit := ⟨fun _ => none, [], 0⟩

/-- A turn that is still finishing while the next has started. -/
def finishing : List (Event String String Unit) :=
  [.enter "s" (some "secrets of a") (some "a") none, .enter "s" none (some "b") none]

/-- The later turn ends first. -/
def lifo : List (Event String String Unit) := [.leave 1, .leave 0]

/-- The earlier turn ends first. -/
def fifo : List (Event String String Unit) := [.leave 0, .leave 1]

end Sample

/-- Two turns on one session, the later within the earlier. -/
theorem bound_iff_lifo_run : ∃ s : State String String Unit,
    (lts String String Unit).Run Lifo Sample.start (Sample.finishing ++ Sample.lifo) s ∧
      (lts String String Unit).Run Then Sample.start (Sample.finishing ++ Sample.lifo) s ∧
      Bound s "s" := by
  have h : ((lts String String Unit).check (fun s e => decide (Lifo s e)) Sample.start
      (Sample.finishing ++ Sample.lifo)).any (fun s => decide (s.blocks = [])) = true := by decide
  obtain ⟨s, hs, hends⟩ := (Option.any_eq_true _ _).1 h
  have hr : (lts String String Unit).Run Lifo Sample.start (Sample.finishing ++ Sample.lifo) s :=
    Lts.run_of_check (fun _ _ h => of_decide_eq_true h) hs
  have hiff := bound_iff_lifo.2 Sample.start _ s rfl hr.any (of_decide_eq_true hends)
  exact ⟨s, hr, hiff.2 hr, bound_iff_lifo.1 s ((Lts.Reach.init rfl).run hr) "s"⟩

/-- The earlier turn ends first: the later one is not bound any more, and when it has ended too the
first turn's scope is current. -/
theorem ended_turn_bound :
    (∃ s, (lts String String Unit).Reach Lts.Any s ∧ s.openOn "s" ≠ [] ∧ s.turnToken "s" = none) ∧
      ∃ s, (lts String String Unit).Reach Lts.Any s ∧ s.openOn "s" = [] ∧
        s.current "s" = some "secrets of a" ∧ ¬Bound s "s" := by
  have h : ((lts String String Unit).check (fun _ _ => true) Sample.start
      (Sample.finishing ++ [.leave 0])).any (fun s =>
        decide (s.openOn "s" ≠ [] ∧ s.turnToken "s" = none)) = true := by decide
  have h' : ((lts String String Unit).check (fun _ _ => true) Sample.start
      (Sample.finishing ++ Sample.fifo)).any (fun s =>
        decide (s.openOn "s" = [] ∧ s.current "s" = some "secrets of a")) = true := by decide
  obtain ⟨s, hs, hq⟩ := (Option.any_eq_true _ _).1 h
  obtain ⟨s', hs', hq'⟩ := (Option.any_eq_true _ _).1 h'
  obtain ⟨ho, hcur⟩ := of_decide_eq_true hq'
  refine ⟨⟨s, Lts.reach_of_check (fun _ _ _ => trivial) rfl hs, of_decide_eq_true hq⟩,
    s', Lts.reach_of_check (fun _ _ _ => trivial) rfl hs', ho, hcur, fun hB => ?_⟩
  exact nomatch hcur.symm.trans (hB.ended ho).1

end Turns
