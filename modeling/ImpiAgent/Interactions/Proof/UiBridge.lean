import ImpiAgent.Interactions.UiBridge

/-!
# A question has one outcome

`Kept`: a request with a token against the registry and the clicks taken on the token. Its future is
settled by at most one of them, it is out of the registry once it is settled so, and what it ended
with is what the future was settled with. Every clean step keeps it for every request (`Sound`,
`sound_next`), and a request that keeps it has one outcome (`one_outcome`).
-/

namespace UiBridge

variable {s s' : State} {i : Nat} {r r' : Request} {t token value : String} {l : Label}
  {reg : Bool} {vs : List String} {cs : List Click}

/-- The values of the clicks taken on a token. -/
def taken (cs : List Click) (t : String) : List String :=
  (cs.filter fun c => c.token = t ∧ c.taken).map Click.value

def State.registered (s : State) (t : String) : Bool := (s.byToken.lookup t).isSome

theorem taken_append {ds : List Click} : taken (cs ++ ds) t = taken cs t ++ taken ds t := by
  rw [taken, List.filter_append, List.map_append]
  rfl

theorem taken_eq_nil : taken cs t = [] ↔ ∀ c ∈ cs, c.token = t → ¬c.taken := by
  simp [taken, List.filter_eq_nil_iff]

theorem mem_taken {c : Click} (hc : c ∈ cs) (h : c.taken) : c.value ∈ taken cs c.token :=
  List.mem_map_of_mem (List.mem_filter.2 ⟨hc, by simp [h]⟩)

theorem exists_of_mem_taken (h : value ∈ taken cs t) :
    ∃ c ∈ cs, c.token = t ∧ c.taken ∧ c.value = value := by
  obtain ⟨c, hc, rfl⟩ := List.mem_map.1 h
  obtain ⟨hm, hp⟩ := List.mem_filter.1 hc
  obtain ⟨ht, htaken⟩ := of_decide_eq_true hp
  exact ⟨c, hm, ht, htaken, rfl⟩

/-! ## The invariant of a request -/

/-- The future of a request, where the token is in the registry (`reg`) and the clicks `vs` on it
were taken. -/
def FutureKept (r : Request) (reg : Bool) (vs : List String) : Prop :=
  match r.future with
  | .pending => vs = []
  | .cancelled => vs = [] ∧ (r.timedOut ∨ r.cancelled)
  | .result o =>
    reg = false ∧ (vs = [] ∧ o = declined ∨ ∃ v, vs = [v] ∧ o = answer r.req.method v)

def StageKept (r : Request) (reg : Bool) (vs : List String) : Prop :=
  match r.stage with
  | .reading => False
  | .posting => r.shown = false ∧ r.timedOut = false
  | .waiting => r.shown = true
  | .retracting o _ => reg = false ∧ vs = [] ∧ o = declined
  | .ended o => reg = false ∧
      (vs = [] ∧ (o = none ∨ o = some declined) ∧ (r.shown → r.retracted ≠ none) ∨
        ∃ v, vs = [v] ∧ o = some (answer r.req.method v))

structure Kept (r : Request) (reg : Bool) (vs : List String) : Prop where
  future : FutureKept r reg vs
  stage : StageKept r reg vs

/-- A request with no token yet, or that ended without one. -/
structure Bare (r : Request) : Prop where
  future : r.future = .pending
  shown : r.shown = false
  timedOut : r.timedOut = false
  stage : r.stage = .reading ∨ r.stage = .ended none ∨ r.stage = .ended (some declined)

/-- What is kept of a registered token is kept once it is discarded. -/
theorem Kept.discard (h : Kept r reg vs) : Kept r false vs := by
  obtain ⟨hf, hst⟩ := h
  refine ⟨?_, ?_⟩
  · unfold FutureKept at hf ⊢
    cases hr : r.future with
    | result o =>
      simp only [hr] at hf
      exact ⟨rfl, hf.2⟩
    | _ => simpa only [hr] using hf
  · unfold StageKept at hst ⊢
    cases hr : r.stage with
    | retracting o text =>
      simp only [hr] at hst
      exact ⟨rfl, hst.2⟩
    | ended o =>
      simp only [hr] at hst
      exact ⟨rfl, hst.2⟩
    | reading =>
      simp only [hr] at hst
    | _ => simpa only [hr] using hst

/-- A request whose token is registered is being asked. -/
theorem Kept.asked (h : Kept r true vs) :
    r.stage = .posting ∧ r.shown = false ∨ r.stage = .waiting ∧ r.shown = true := by
  have hst := h.stage
  unfold StageKept at hst
  cases hr : r.stage <;> simp_all

theorem Kept.unanswered (h : Kept r reg vs) (hp : r.future = .pending) : vs = [] := by
  have hf := h.future
  rw [FutureKept, hp] at hf
  exact hf

/-- At most one click was taken. -/
theorem Kept.once (h : Kept r reg vs) : vs.length ≤ 1 := by
  have hf := h.future
  unfold FutureKept at hf
  split at hf
  · simp [hf]
  · simp [hf.1]
  · rcases hf.2 with ⟨rfl, -⟩ | ⟨v, rfl, -⟩ <;> simp

structure Sound (s : State) : Prop where
  own : ∀ t p, s.byToken.lookup t = some p →
    ∃ r, s.reqs[p.request]? = some r ∧ r.token = some t ∧ p.method = r.req.method
  apart : ∀ (i j : Nat) (r r' : Request) t, s.reqs[i]? = some r → s.reqs[j]? = some r' →
    r.token = some t → r'.token = some t → i = j
  kept : ∀ (i : Nat) (r : Request) t, s.reqs[i]? = some r → r.token = some t →
    Kept r (s.registered t) (taken s.clicks t)
  bare : ∀ (i : Nat) (r : Request), s.reqs[i]? = some r → r.token = none → Bare r
  minted : ∀ c ∈ s.clicks, c.taken →
    ∃ (i : Nat) (r : Request), s.reqs[i]? = some r ∧ r.token = some c.token
  intime : ∀ c ∈ s.clicks, c.taken → ¬c.late

theorem sound_init : Sound {} where
  own := fun _ _ h => by cases h
  apart := fun _ _ _ _ _ h => by simp at h
  kept := fun _ _ _ h => by simp at h
  bare := fun _ _ h => by simp at h
  minted := fun _ h => by simp at h
  intime := fun _ h => by simp at h

theorem sound_discard (hs : Sound s) : Sound (s.discard token) where
  own := fun t p h => by
    simp only [State.discard, Dict.lookup_remove] at h
    split at h
    · cases h
    · exact hs.own t p h
  apart := hs.apart
  kept := fun i r t hr ht => by
    have h := hs.kept i r t hr ht
    by_cases htt : t = token
    · have : (s.discard token).registered t = false := by
        simp [State.registered, State.discard, Dict.lookup_remove, htt]
      rw [this]
      exact h.discard
    · have : (s.discard token).registered t = s.registered t := by
        simp [State.registered, State.discard, Dict.lookup_remove, htt]
      rw [this]
      exact h
  bare := hs.bare
  minted := hs.minted
  intime := hs.intime

/-- A request moves on, and clicks on its token are taken. -/
theorem Sound.update (hs : Sound s) (hr : s.reqs[i]? = some r) (ht : r'.token = r.token)
    (hq : r'.req = r.req) (hcs : ∀ c ∈ cs, c.taken → r.token = some c.token ∧ ¬c.late)
    (hk : ∀ t, r.token = some t → Kept r' (s.registered t) (taken s.clicks t ++ taken cs t))
    (hb : r.token = none → Bare r') :
    Sound { s.put i r' with clicks := s.clicks ++ cs } := by
  have hi : i < s.reqs.length := (List.getElem?_eq_some_iff.1 hr).1
  have old : ∀ {j : Nat} {x : Request}, (s.reqs.set i r')[j]? = some x →
      j = i ∧ x = r' ∨ j ≠ i ∧ s.reqs[j]? = some x := by
    intro j x h
    by_cases hj : j = i
    · subst hj
      rw [List.getElem?_set_self hi] at h
      exact .inl ⟨rfl, (Option.some.inj h).symm⟩
    · rw [List.getElem?_set_ne (Ne.symm hj)] at h
      exact .inr ⟨hj, h⟩
  have back : ∀ {j : Nat} {x : Request}, s.reqs[j]? = some x →
      ∃ y, (s.reqs.set i r')[j]? = some y ∧ y.token = x.token ∧ y.req = x.req := by
    intro j x h
    by_cases hj : j = i
    · subst hj
      rw [hr] at h
      cases h
      exact ⟨r', List.getElem?_set_self hi, ht, hq⟩
    · exact ⟨x, by rw [List.getElem?_set_ne (Ne.symm hj), h], rfl, rfl⟩
  have token : ∀ {j : Nat} {x : Request}, (s.reqs.set i r')[j]? = some x →
      ∃ y, s.reqs[j]? = some y ∧ y.token = x.token := by
    intro j x h
    rcases old h with ⟨rfl, rfl⟩ | ⟨-, h⟩
    · exact ⟨r, hr, ht.symm⟩
    · exact ⟨x, h, rfl⟩
  refine ⟨fun t p h => ?_, fun j k x y t hx hy htx hty => ?_, fun j x t hx htx => ?_,
    fun j x hx htx => ?_, fun c hc htaken => ?_, fun c hc htaken => ?_⟩
  · obtain ⟨x, hx, htx, hm⟩ := hs.own t p h
    obtain ⟨y, hy, hyt, hyq⟩ := back hx
    exact ⟨y, hy, hyt.trans htx, by rw [hyq, hm]⟩
  · obtain ⟨x₀, hx₀, hxt⟩ := token hx
    obtain ⟨y₀, hy₀, hyt⟩ := token hy
    exact hs.apart j k x₀ y₀ t hx₀ hy₀ (hxt.trans htx) (hyt.trans hty)
  · rw [taken_append]
    rcases old hx with ⟨rfl, rfl⟩ | ⟨hj, hx⟩
    · exact hk t (ht.symm.trans htx)
    · have hnil : taken cs t = [] := taken_eq_nil.2 fun c hc hct htaken =>
        hj (hs.apart j i x r t hx hr htx (hct ▸ (hcs c hc htaken).1))
      rw [hnil, List.append_nil]
      exact hs.kept j x t hx htx
  · rcases old hx with ⟨rfl, rfl⟩ | ⟨-, hx⟩
    · exact hb (ht.symm.trans htx)
    · exact hs.bare j x hx htx
  · have : ∃ (j : Nat) (x : Request), s.reqs[j]? = some x ∧ x.token = some c.token := by
      rcases List.mem_append.1 hc with hc | hc
      · exact hs.minted c hc htaken
      · exact ⟨i, r, hr, (hcs c hc htaken).1⟩
    obtain ⟨j, x, hx, hxt⟩ := this
    obtain ⟨y, hy, hyt, -⟩ := back hx
    exact ⟨j, y, hy, hyt.trans hxt⟩
  · rcases List.mem_append.1 hc with hc | hc
    · exact hs.intime c hc htaken
    · exact (hcs c hc htaken).2

/-- A request moves on. -/
theorem Sound.put (hs : Sound s) (hr : s.reqs[i]? = some r) (ht : r'.token = r.token)
    (hq : r'.req = r.req) (hk : ∀ t, r.token = some t → Kept r' (s.registered t) (taken s.clicks t))
    (hb : r.token = none → Bare r') : Sound (s.put i r') := by
  have h := hs.update hr ht hq (fun c (h : c ∈ ([] : List Click)) => by simp at h)
    (fun t htok => by simpa [taken] using hk t htok) hb
  simpa [State.put] using h

/-- A click that is not taken. -/
theorem Sound.ignore {c : Click} (hs : Sound s) (hc : ¬c.taken) :
    Sound { s with clicks := s.clicks ++ [c] } where
  own := hs.own
  apart := hs.apart
  kept := fun i r t hr ht => by
    have hnil : taken [c] t = [] := taken_eq_nil.2 fun d hd _ => by
      rw [List.mem_singleton.1 hd]
      exact hc
    rw [taken_append, hnil, List.append_nil]
    exact hs.kept i r t hr ht
  bare := hs.bare
  minted := fun d hd htaken => by
    rcases List.mem_append.1 hd with hd | hd
    · exact hs.minted d hd htaken
    · exact absurd (List.mem_singleton.1 hd ▸ htaken) hc
  intime := fun d hd htaken => by
    rcases List.mem_append.1 hd with hd | hd
    · exact hs.intime d hd htaken
    · exact absurd (List.mem_singleton.1 hd ▸ htaken) hc

/-! ## Settling a future -/

variable {outcome : Pending → UiOutcome} {p : Pending}

/-- What taking a token out does. -/
inductive Settled (s : State) (token : String) (outcome : Pending → UiOutcome) :
    State × Bool → Prop
  | absent : Settled s token outcome (s, false)
  | done : Settled s token outcome (s.discard token, false)
  | now {p : Pending} {r : Request} : s.byToken.lookup token = some p →
      s.reqs[p.request]? = some r → r.future = .pending →
      Settled s token outcome
        ((s.discard token).put p.request { r with future := .result (outcome p) }, true)

theorem settled (s : State) (token : String) (outcome : Pending → UiOutcome) :
    Settled s token outcome (s.settle token outcome) := by
  unfold State.settle
  split
  · exact .absent
  · rename_i p hp
    split
    · exact .done
    · rename_i r hr
      split
      · exact .now hp hr ‹_›
      · exact .done

theorem registered_discard : (s.discard token).registered token = false := by
  simp [State.registered, State.discard, Dict.lookup_remove]

/-- A request whose future is settled as its token is taken out. -/
theorem Kept.settled {o : UiOutcome} {ws : List String} (h : Kept r true vs)
    (ho : ws = [] ∧ o = declined ∨ ∃ v, ws = [v] ∧ o = answer r.req.method v) :
    Kept { r with future := .result o } false ws := by
  refine ⟨⟨rfl, ho⟩, ?_⟩
  unfold StageKept
  have hstage := h.stage
  unfold StageKept at hstage
  rcases h.asked with ⟨hst, -⟩ | ⟨hst, -⟩ <;> simpa only [hst] using hstage

/-- The request a registered token is of. -/
theorem Sound.asked (hs : Sound s) (hp : s.byToken.lookup t = some p) :
    ∃ r, s.reqs[p.request]? = some r ∧ r.token = some t ∧ p.method = r.req.method ∧
      Kept r true (taken s.clicks t) := by
  obtain ⟨r, hr, ht, hm⟩ := hs.own t p hp
  have hk := hs.kept _ r t hr ht
  rw [State.registered, hp] at hk
  exact ⟨r, hr, ht, hm, hk⟩

theorem sound_decline (hs : Sound s) : Sound (s.settle token fun _ => declined).1 := by
  have h := settled s token fun _ => declined
  generalize s.settle token (fun _ => declined) = x at h
  cases h with
  | absent => exact hs
  | done => exact sound_discard hs
  | now hp hr hpend =>
    obtain ⟨x, hx, ht, -, hk⟩ := hs.asked hp
    rw [hr] at hx
    cases hx
    refine (sound_discard hs).put hr rfl rfl (fun t htok => ?_) fun hnone => by
      rw [ht] at hnone
      cases hnone
    obtain rfl : token = t := Option.some.inj (ht.symm.trans htok)
    rw [registered_discard]
    exact hk.settled (.inl ⟨hk.unanswered hpend, rfl⟩)

theorem sound_cancelForConversation {agent conversationId : String} (hs : Sound s) :
    Sound (s.cancelForConversation agent conversationId) := by
  unfold State.cancelForConversation
  generalize s.hit agent conversationId = tokens
  induction tokens generalizing s with
  | nil => exact hs
  | cons token tokens ih => exact ih (sound_decline hs)

/-- A request that is being asked has not ended, so that a click on it is in time. -/
theorem Sound.intime_of (hs : Sound s) (hp : s.byToken.lookup token = some p) :
    (s.reqs.any fun r => decide (r.token = some token) && r.isEnded) = false := by
  rw [List.any_eq_false]
  intro x hx h
  obtain ⟨htok, hended⟩ := (Bool.and_eq_true _ _).mp h
  obtain ⟨j, hj⟩ := List.mem_iff_getElem?.1 hx
  have hk := hs.kept j x token hj (of_decide_eq_true htok)
  rw [State.registered, hp] at hk
  unfold Request.isEnded at hended
  rcases hk.asked with ⟨hst, -⟩ | ⟨hst, -⟩ <;> simp [hst] at hended

theorem sound_clicked (hs : Sound s) : Sound (s.clicked token value) := by
  have h := settled s token fun p => answer p.method value
  unfold State.clicked State.resolve
  generalize s.settle token (fun p => answer p.method value) = x at h
  cases h with
  | absent => exact hs.ignore (by simp)
  | done => exact (sound_discard hs).ignore (by simp)
  | now hp hr hpend =>
    obtain ⟨y, hy, ht, hm, hk⟩ := hs.asked hp
    rw [hr] at hy
    cases hy
    refine (sound_discard hs).update hr rfl rfl (fun c hc _ => ?_) (fun t htok => ?_)
      fun hnone => by
        rw [ht] at hnone
        cases hnone
    · rw [List.mem_singleton.1 hc]
      exact ⟨ht, by simpa using hs.intime_of hp⟩
    · obtain rfl : token = t := Option.some.inj (ht.symm.trans htok)
      rw [registered_discard]
      refine hk.settled (.inr ⟨value, ?_, by rw [hm]⟩)
      show taken s.clicks token ++ _ = _
      rw [hk.unanswered hpend]
      simp [taken]

/-! ## The steps of a request -/

/-- No click on the request was taken. -/
def State.unanswered (s : State) (r : Request) : Bool :=
  r.token.all fun t => s.clicks.all fun c => !(c.token = t ∧ c.taken)

/-- A request that is cancelled while its message is posted was given up by then, and the message is
not shown; a message that is refused is not shown, and no click on it was taken. A request that goes
on after its wait was not cancelled, and no click was taken before it timed out. A message that is
to lose its buttons does. -/
def Clean (s : State) : Label → Prop
  | .posted i ok shown => (s.reqs[i]?).all fun r =>
    if r.cancelled then !shown && s.unanswered r && r.token.all fun t => !s.registered t
    else ok || !shown && s.unanswered r
  | .wake i => (s.reqs[i]?).all fun r => !r.cancelled && (!r.timedOut || s.unanswered r)
  | .retracted _ ok => ok
  | _ => True

instance (s : State) (l : Label) : Decidable (Clean s l) := by
  unfold Clean
  split <;> infer_instance

theorem unanswered_iff (ht : r.token = some t) : s.unanswered r ↔ taken s.clicks t = [] := by
  rw [taken_eq_nil]
  simp [State.unanswered, ht, or_iff_not_imp_left]

theorem sound_request {req : UiRequest} (hs : Sound s) :
    Sound { s with reqs := s.reqs ++ [{ req := req }] } := by
  have old : ∀ {j : Nat} {x : Request}, (s.reqs ++ [({ req := req } : Request)])[j]? = some x →
      s.reqs[j]? = some x ∨ x = { req := req } := by
    intro j x h
    rw [List.getElem?_append] at h
    split at h
    · exact .inl h
    · exact .inr (by simpa using List.mem_of_getElem? h)
  have back : ∀ {j : Nat} {x : Request}, s.reqs[j]? = some x →
      (s.reqs ++ [({ req := req } : Request)])[j]? = some x := by
    intro j x h
    rw [List.getElem?_append_left (List.getElem?_eq_some_iff.1 h).1, h]
  refine ⟨fun t p h => ?_, fun j k x y t hx hy htx hty => ?_, fun j x t hx htx => ?_,
    fun j x hx htx => ?_, fun c hc htaken => ?_, hs.intime⟩
  · obtain ⟨x, hx, hr⟩ := hs.own t p h
    exact ⟨x, back hx, hr⟩
  · rcases old hx with hx | rfl
    · rcases old hy with hy | rfl
      · exact hs.apart j k x y t hx hy htx hty
      · cases hty
    · cases htx
  · rcases old hx with hx | rfl
    · exact hs.kept j x t hx htx
    · cases htx
  · rcases old hx with hx | rfl
    · exact hs.bare j x hx htx
    · exact ⟨rfl, rfl, rfl, .inl rfl⟩
  · obtain ⟨j, x, hx, hxt⟩ := hs.minted c hc htaken
    exact ⟨j, x, back hx, hxt⟩

/-- A request that is reading ends without a token. -/
theorem sound_end (hs : Sound s) (hr : s.reqs[i]? = some r) (hst : r.stage = .reading)
    {o : Option UiOutcome} (ho : o = none ∨ o = some declined) :
    Sound (s.put i { r with stage := .ended o }) := by
  refine hs.put hr rfl rfl (fun t ht => ?_) fun hnone => ?_
  · have hk := (hs.kept i r t hr ht).stage
    rw [StageKept, hst] at hk
    exact hk.elim
  · have hb := hs.bare i r hr hnone
    refine ⟨hb.future, hb.shown, hb.timedOut, ?_⟩
    rcases ho with rfl | rfl
    · exact .inr (.inl rfl)
    · exact .inr (.inr rfl)

/-- A request that found its conversation and a poster is registered under its new token. -/
theorem sound_register {agent conversationId : String} (hs : Sound s) (hr : s.reqs[i]? = some r)
    (hst : r.stage = .reading) (hfresh : ∀ x ∈ s.reqs, x.token ≠ some token) :
    Sound { s.put i { r with stage := .posting, token := some token } with
      byToken := Dict.assign token ⟨i, r.req.method, agent, conversationId⟩ s.byToken } := by
  have hi : i < s.reqs.length := (List.getElem?_eq_some_iff.1 hr).1
  have hnone : r.token = none := by
    cases ht : r.token with
    | none => rfl
    | some t =>
      have hk := (hs.kept i r t hr ht).stage
      rw [StageKept, hst] at hk
      exact hk.elim
  have hb := hs.bare i r hr hnone
  have fresh : ∀ {j : Nat} {x : Request}, s.reqs[j]? = some x → x.token ≠ some token :=
    fun h => hfresh _ (List.mem_of_getElem? h)
  have old : ∀ {j : Nat} {x : Request},
      (s.reqs.set i { r with stage := .posting, token := some token })[j]? = some x →
      j = i ∧ x = { r with stage := .posting, token := some token } ∨
        j ≠ i ∧ s.reqs[j]? = some x := by
    intro j x h
    by_cases hj : j = i
    · subst hj
      rw [List.getElem?_set_self hi] at h
      exact .inl ⟨rfl, (Option.some.inj h).symm⟩
    · rw [List.getElem?_set_ne (Ne.symm hj)] at h
      exact .inr ⟨hj, h⟩
  have back : ∀ {j : Nat} {x : Request} {t : String}, s.reqs[j]? = some x → x.token = some t →
      (s.reqs.set i { r with stage := .posting, token := some token })[j]? = some x := by
    intro j x t h htx
    have hj : j ≠ i := by
      rintro rfl
      rw [hr] at h
      cases h
      rw [hnone] at htx
      cases htx
    rw [List.getElem?_set_ne (Ne.symm hj), h]
  refine ⟨fun t p h => ?_, fun j k x y t hx hy htx hty => ?_, fun j x t hx htx => ?_,
    fun j x hx htx => ?_, fun c hc htaken => ?_, hs.intime⟩
  · rw [Dict.lookup_assign] at h
    split at h
    · rename_i htt
      cases h
      exact ⟨_, List.getElem?_set_self hi, by rw [htt], rfl⟩
    · obtain ⟨x, hx, htx, hm⟩ := hs.own t p h
      exact ⟨x, back hx htx, htx, hm⟩
  · rcases old hx with ⟨rfl, rfl⟩ | ⟨-, hx'⟩ <;> rcases old hy with ⟨rfl, rfl⟩ | ⟨-, hy'⟩
    · rfl
    · exact absurd (hty.trans htx.symm) (fresh hy')
    · exact absurd (htx.trans hty.symm) (fresh hx')
    · exact hs.apart j k x y t hx' hy' htx hty
  · rcases old hx with ⟨rfl, rfl⟩ | ⟨-, hx⟩
    · cases htx
      have hnil : taken s.clicks token = [] := taken_eq_nil.2 fun c hc hct htaken => by
        obtain ⟨k, y, hy, hyt⟩ := hs.minted c hc htaken
        exact fresh hy (hct ▸ hyt)
      have hto : r.timedOut = false := hb.timedOut
      refine ⟨?_, hb.shown, hto⟩
      show FutureKept _ _ (taken s.clicks token)
      rw [hnil, FutureKept, show _ = Future.pending from hb.future]
    · have htt : t ≠ token := fun h => fresh hx (h ▸ htx)
      have hreg : (Dict.assign token ⟨i, r.req.method, agent, conversationId⟩ s.byToken).lookup t =
          s.byToken.lookup t := by rw [Dict.lookup_assign, if_neg htt]
      have hk := hs.kept j x t hx htx
      unfold State.registered at hk ⊢
      rw [hreg]
      exact hk
  · rcases old hx with ⟨rfl, rfl⟩ | ⟨-, hx⟩
    · cases htx
    · exact hs.bare j x hx htx
  · obtain ⟨j, x, hx, htx⟩ := hs.minted c hc htaken
    exact ⟨j, x, back hx htx, htx⟩

theorem sound_find {place : Option (String × String)} (hs : Sound s) (hr : s.reqs[i]? = some r)
    (hst : r.stage = .reading) (hn : s.find i r place token = some s') : Sound s' := by
  unfold State.find at hn
  split at hn
  · cases hn
    exact sound_end hs hr hst (.inl rfl)
  · cases place with
    | none =>
      cases hn
      exact sound_end hs hr hst (.inr rfl)
    | some p =>
      dsimp only at hn
      split at hn
      · cases hn
        exact sound_end hs hr hst (.inr rfl)
      · split at hn
        · cases hn
        · rename_i hfresh
          cases hn
          exact sound_register hs hr hst fun x hx ht =>
            hfresh (List.any_eq_true.2 ⟨x, hx, by simp [ht]⟩)

/-- A request that is being asked has a token. -/
theorem Sound.known (hs : Sound s) (hr : s.reqs[i]? = some r) (hst : r.stage ≠ .reading)
    (hend : ∀ o, r.stage ≠ .ended o) :
    ∃ t, r.token = some t ∧ Kept r (s.registered t) (taken s.clicks t) := by
  cases ht : r.token with
  | some t => exact ⟨t, rfl, hs.kept i r t hr ht⟩
  | none =>
    rcases (hs.bare i r hr ht).stage with h | h | h
    · exact absurd h hst
    · exact absurd h (hend _)
    · exact absurd h (hend _)

theorem conclude_token : r.conclude.token = r.token := by
  unfold Request.conclude
  split
  · rfl
  · rfl
  · split <;> rfl

theorem conclude_req : r.conclude.req = r.req := by
  unfold Request.conclude
  split
  · rfl
  · rfl
  · split <;> rfl

theorem interrupt_token : r.interrupt.token = r.token := by
  unfold Request.interrupt
  split <;> rfl

theorem interrupt_req : r.interrupt.req = r.req := by
  unfold Request.interrupt
  split <;> rfl

/-- What `wait_for` returns, or that it waits, where neither the timer nor a cancellation came. -/
theorem Kept.conclude (h : FutureKept r reg vs) (hsh : r.shown = true) (hto : r.timedOut = false)
    (hc : r.cancelled = false) : Kept r.conclude reg vs := by
  have hfut := h
  unfold FutureKept at hfut
  cases hr : r.future with
  | pending =>
    have heq : r.conclude = { r with stage := .waiting } := by rw [Request.conclude, hr]
    rw [heq]
    exact ⟨h, hsh⟩
  | cancelled =>
    simp only [hr] at hfut
    simp [hto, hc] at hfut
  | result o =>
    simp only [hr] at hfut
    obtain ⟨hreg, ⟨hvs, rfl⟩ | ⟨v, hvs, rfl⟩⟩ := hfut
    · have heq : r.conclude = { r with stage := .retracting declined cancelledMessage } := by
        rw [Request.conclude, hr]
        rfl
      rw [heq]
      exact ⟨h, hreg, hvs, rfl⟩
    · have hno : (answer r.req.method v).cancelled = false := by
        unfold answer
        split <;> rfl
      have heq : r.conclude = { r with stage := .ended (some (answer r.req.method v)) } := by
        simp [Request.conclude, hr, hno]
      rw [heq]
      exact ⟨h, hreg, .inr ⟨v, hvs, rfl⟩⟩

/-- The timer or a cancellation reaches a request. -/
theorem Kept.interrupt {a b : Bool} (h : Kept r reg vs) (hab : a ∨ b)
    (hst : r.stage = .posting → a = false) :
    Kept { r.interrupt with timedOut := a, cancelled := b } reg vs := by
  obtain ⟨hf, hs⟩ := h
  unfold Request.interrupt
  split
  · rename_i hw
    rw [FutureKept, hw.2] at hf
    rw [StageKept, hw.1] at hs
    exact ⟨⟨hf, hab⟩, by rw [StageKept]; simpa only [hw.1] using hs⟩
  · refine ⟨?_, ?_⟩
    · unfold FutureKept at hf ⊢
      cases hr : r.future with
      | cancelled =>
        simp only [hr] at hf ⊢
        exact ⟨hf.1, hab⟩
      | _ => simpa only [hr] using hf
    · unfold StageKept at hs ⊢
      cases hr : r.stage with
      | posting =>
        simp only [hr] at hs ⊢
        exact ⟨hs.1, hst hr⟩
      | reading => simp only [hr] at hs
      | _ => simpa only [hr] using hs

theorem drop_of (ht : r.token = some t) : s.drop r = s.discard t := by
  rw [State.drop, ht]
  rfl

theorem sound_post {ok shown : Bool} (hs : Sound s) (hr : s.reqs[i]? = some r)
    (hst : r.stage = .posting) (hok : ok → shown) (hc : Clean s (.posted i ok shown)) :
    Sound (s.post i r ok shown) := by
  obtain ⟨t, ht, hk⟩ := hs.known hr (by simp [hst]) (by simp [hst])
  have hsome : ∀ {P : Prop}, r.token = none → P := fun h => by
    rw [ht] at h
    cases h
  have hposting := hk.stage
  rw [StageKept, hst] at hposting
  simp only [Clean, hr, Option.all_some] at hc
  unfold State.post
  dsimp only
  split
  · rename_i hcanc
    rw [if_pos hcanc] at hc
    simp only [Bool.and_eq_true, Bool.not_eq_true', ht, Option.all_some, unanswered_iff ht] at hc
    obtain ⟨⟨rfl, hnil⟩, hreg⟩ := hc
    refine hs.put hr rfl rfl (fun u hu => ?_) hsome
    obtain rfl : t = u := Option.some.inj (ht.symm.trans hu)
    exact ⟨hk.future, hreg, .inl ⟨hnil, .inl rfl, nofun⟩⟩
  · rename_i hcanc
    rw [if_neg hcanc] at hc
    split
    · rename_i hyes
      refine hs.put hr conclude_token conclude_req (fun u hu => ?_) hsome
      obtain rfl : t = u := Option.some.inj (ht.symm.trans hu)
      exact Kept.conclude hk.future (hok hyes) hposting.2 (by simpa using hcanc)
    · rename_i hno
      simp only [hno, Bool.false_or, Bool.and_eq_true, Bool.not_eq_true', unanswered_iff ht] at hc
      obtain ⟨rfl, hnil⟩ := hc
      rw [drop_of (r := { r with shown := false }) ht]
      refine (sound_discard hs).put hr rfl rfl (fun u hu => ?_) hsome
      obtain rfl : t = u := Option.some.inj (ht.symm.trans hu)
      rw [registered_discard]
      exact ⟨hk.discard.future, rfl, .inl ⟨hnil, .inr rfl, nofun⟩⟩

theorem sound_wake (hs : Sound s) (hr : s.reqs[i]? = some r) (hst : r.stage = .waiting)
    (hc : Clean s (.wake i)) : Sound (s.wake i r) := by
  obtain ⟨t, ht, hk⟩ := hs.known hr (by simp [hst]) (by simp [hst])
  have hsome : ∀ {P : Prop}, r.token = none → P := fun h => by
    rw [ht] at h
    cases h
  have hwaiting := hk.stage
  rw [StageKept, hst] at hwaiting
  simp only [Clean, hr, Option.all_some, Bool.and_eq_true, Bool.not_eq_true', Bool.or_eq_true,
    unanswered_iff ht] at hc
  obtain ⟨hcanc, hlost⟩ := hc
  rw [State.wake, if_neg (by simp [hcanc])]
  split
  · rename_i hto
    have hnil := hlost.resolve_left (by simp [hto])
    rw [drop_of ht]
    refine (sound_discard hs).put hr rfl rfl (fun u hu => ?_) hsome
    obtain rfl : t = u := Option.some.inj (ht.symm.trans hu)
    rw [registered_discard]
    exact ⟨hk.discard.future, rfl, hnil, rfl⟩
  · rename_i hto
    refine hs.put hr conclude_token conclude_req (fun u hu => ?_) hsome
    obtain rfl : t = u := Option.some.inj (ht.symm.trans hu)
    exact Kept.conclude hk.future hwaiting (by simpa using hto) hcanc

theorem sound_retracted {o : UiOutcome} {text : String} (hs : Sound s) (hr : s.reqs[i]? = some r)
    (hst : r.stage = .retracting o text) :
    Sound (s.put i { r with
      stage := .ended (if r.cancelled then none else some o), retracted := some text }) := by
  obtain ⟨t, ht, hk⟩ := hs.known hr (by simp [hst]) (by simp [hst])
  have hretracting := hk.stage
  rw [StageKept, hst] at hretracting
  obtain ⟨hreg, hnil, rfl⟩ := hretracting
  refine hs.put hr rfl rfl (fun u hu => ?_) fun h => by
    rw [ht] at h
    cases h
  obtain rfl : t = u := Option.some.inj (ht.symm.trans hu)
  refine ⟨hk.future, hreg, .inl ⟨hnil, ?_, fun _ => by simp⟩⟩
  cases r.cancelled with
  | true => exact .inl rfl
  | false => exact .inr rfl

theorem sound_timeout (hs : Sound s) (hr : s.reqs[i]? = some r) (hst : r.stage = .waiting) :
    Sound (s.put i { r.interrupt with timedOut := true }) := by
  obtain ⟨t, ht, -⟩ := hs.known hr (by simp [hst]) (by simp [hst])
  refine hs.put hr interrupt_token interrupt_req (fun u hu => ?_) fun h => by
    rw [ht] at h
    cases h
  have h := (hs.kept i r u hr hu).interrupt (a := true) (b := r.cancelled) (.inl rfl)
    (fun h => by rw [hst] at h; cases h)
  have hcanc : r.interrupt.cancelled = r.cancelled := by
    unfold Request.interrupt
    split <;> rfl
  rwa [← hcanc] at h

theorem sound_cancel (hs : Sound s) (hr : s.reqs[i]? = some r) (hend : r.isEnded = false) :
    Sound (s.put i { r.interrupt with cancelled := true }) := by
  have hto : r.interrupt.timedOut = r.timedOut := by
    unfold Request.interrupt
    split <;> rfl
  refine hs.put hr interrupt_token interrupt_req (fun u hu => ?_) fun hnone => ?_
  · have hk := hs.kept i r u hr hu
    have h := hk.interrupt (a := r.timedOut) (b := true) (.inr rfl) fun h => by
      have hst := hk.stage
      rw [StageKept, h] at hst
      exact hst.2
    rwa [← hto] at h
  · have hb := hs.bare i r hr hnone
    have hst : r.stage = .reading := by
      rcases hb.stage with h | h | h
      · exact h
      · simp [Request.isEnded, h] at hend
      · simp [Request.isEnded, h] at hend
    have heq : r.interrupt = r := by
      rw [Request.interrupt, if_neg (by simp [hst])]
    rw [heq]
    exact ⟨hb.future, hb.shown, hb.timedOut, .inl hst⟩

theorem sound_next (hs : Sound s) (hc : Clean s l) (hn : system.next s l = some s') : Sound s' := by
  cases l with
  | request req =>
    cases hn
    exact sound_request hs
  | click token value =>
    cases hn
    exact sound_clicked hs
  | typed agent conversationId =>
    cases hn
    exact sound_cancelForConversation hs
  | found i place token =>
    obtain ⟨r, hr, hn⟩ := Option.bind_eq_some_iff.1 hn
    split at hn
    · exact sound_find hs hr ‹_› hn
    · cases hn
  | unread i =>
    obtain ⟨r, hr, hn⟩ := Option.bind_eq_some_iff.1 hn
    split at hn
    · cases hn
      exact sound_end hs hr ‹_› (.inl rfl)
    · cases hn
  | posted i ok shown =>
    obtain ⟨r, hr, hn⟩ := Option.bind_eq_some_iff.1 hn
    split at hn
    · rename_i h
      cases hn
      exact sound_post hs hr h.1 h.2 hc
    · cases hn
  | timeout i =>
    obtain ⟨r, hr, hn⟩ := Option.bind_eq_some_iff.1 hn
    split at hn
    · cases hn
      exact sound_timeout hs hr ‹_›
    · cases hn
  | cancel i =>
    obtain ⟨r, hr, hn⟩ := Option.bind_eq_some_iff.1 hn
    split at hn
    · rename_i h
      cases hn
      exact sound_cancel hs hr (by simpa using h)
    · cases hn
  | wake i =>
    obtain ⟨r, hr, hn⟩ := Option.bind_eq_some_iff.1 hn
    split at hn
    · rename_i h
      cases hn
      exact sound_wake hs hr h.1 hc
    · cases hn
  | retracted i ok =>
    obtain ⟨r, hr, hn⟩ := Option.bind_eq_some_iff.1 hn
    split at hn
    · rename_i hst
      cases hn
      rw [show ok = true from hc]
      exact sound_retracted hs hr hst
    · cases hn

/-! ## One outcome -/

/-- The outcome of a request is told to both sides. -/
structure OneOutcome (s : State) (r : Request) : Prop where
  told : ∀ o, r.stage = .ended (some o) → o.confirmed ≠ none ∨ o.value ≠ none →
    ∃ c ∈ s.clicks, r.token = some c.token ∧ c.taken ∧ o = answer r.req.method c.value
  given : ∀ o, r.stage = .ended o → ∀ c ∈ s.clicks, r.token = some c.token → c.taken →
    o = some (answer r.req.method c.value)
  gone : r.isEnded → ∀ t, r.token = some t → s.byToken.lookup t = none
  cleared : r.isEnded → r.shown → (∀ c ∈ s.clicks, r.token = some c.token → ¬c.taken) →
    r.retracted ≠ none

structure Settles (s : State) : Prop where
  one : ∀ r ∈ s.reqs, OneOutcome s r
  once : ∀ t, (taken s.clicks t).length ≤ 1
  intime : ∀ c ∈ s.clicks, c.taken → ¬c.late

theorem isEnded_iff : r.isEnded ↔ ∃ o, r.stage = .ended o := by
  unfold Request.isEnded
  cases r.stage <;> simp

/-- What is kept of a request that ended. -/
theorem Kept.ended {o : Option UiOutcome} (h : Kept r reg vs) (hst : r.stage = .ended o) :
    reg = false ∧ (vs = [] ∧ (o = none ∨ o = some declined) ∧ (r.shown → r.retracted ≠ none) ∨
      ∃ v, vs = [v] ∧ o = some (answer r.req.method v)) := by
  have := h.stage
  rwa [StageKept, hst] at this

theorem Sound.one (hs : Sound s) (hr : r ∈ s.reqs) : OneOutcome s r := by
  obtain ⟨i, hi⟩ := List.mem_iff_getElem?.1 hr
  cases ht : r.token with
  | none =>
    have hb := hs.bare i r hi ht
    refine ⟨fun o hst hans => ?_, fun o _ c _ hct => ?_, fun _ t hct => ?_, fun _ hsh => ?_⟩
    · rcases hb.stage with h | h | h <;> rw [hst] at h <;> cases h
      exact absurd hans (by simp [declined])
    · rw [ht] at hct
      cases hct
    · rw [ht] at hct
      cases hct
    · rw [hb.shown] at hsh
      cases hsh
  | some t =>
    have hk := hs.kept i r t hi ht
    refine ⟨fun o hst hans => ?_, fun o hst c hc hct htaken => ?_, fun hend u hu => ?_,
      fun hend hsh hno => ?_⟩
    · rcases (hk.ended hst).2 with ⟨-, h | h, -⟩ | ⟨v, hv, h⟩
      · cases h
      · cases h
        exact absurd hans (by simp [declined])
      · obtain ⟨c, hc, hct, htaken, hval⟩ :=
          exists_of_mem_taken (hv ▸ List.mem_singleton_self v)
        cases h
        exact ⟨c, hc, by rw [ht, hct], htaken, by rw [hval]⟩
    · have hm := mem_taken hc htaken
      rw [← Option.some.inj (ht.symm.trans hct)] at hm
      rcases (hk.ended hst).2 with ⟨hnil, -⟩ | ⟨v, hv, rfl⟩
      · rw [hnil] at hm
        cases hm
      · rw [hv] at hm
        rw [List.mem_singleton.1 hm]
    · obtain ⟨o, hst⟩ := isEnded_iff.1 hend
      obtain rfl : t = u := Option.some.inj (ht.symm.trans hu)
      simpa [State.registered] using (hk.ended hst).1
    · obtain ⟨o, hst⟩ := isEnded_iff.1 hend
      rcases (hk.ended hst).2 with ⟨-, -, h⟩ | ⟨v, hv, -⟩
      · exact h hsh
      · obtain ⟨c, hc, hct, htaken, -⟩ := exists_of_mem_taken (hv ▸ List.mem_singleton_self v)
        exact absurd htaken (hno c hc (by rw [ht, hct]))

theorem Sound.once (hs : Sound s) (t : String) : (taken s.clicks t).length ≤ 1 := by
  cases h : taken s.clicks t with
  | nil => exact Nat.zero_le _
  | cons v vs =>
    obtain ⟨c, hc, hct, htaken, -⟩ := exists_of_mem_taken (h ▸ List.mem_cons_self (a := v))
    obtain ⟨i, r, hr, hrt⟩ := hs.minted c hc htaken
    rw [← h]
    exact (hs.kept i r t hr (hct ▸ hrt)).once

/-- Every question has one outcome where its request moves on cleanly. -/
theorem one_outcome (h : system.Reach Clean s) : Settles s := by
  have hs : Sound s := h.inv (fun _ h0 => h0 ▸ sound_init) fun _ _ _ => sound_next
  exact ⟨fun _ => hs.one, hs.once, hs.intime⟩

namespace Sample

def confirm : UiRequest := ⟨"confirm", []⟩

def place : Option (String × String) := some ("impi", "c1")

/-- A question answered by a click, one that timed out, and one that was answered by typing. -/
def asked : List Label :=
  [.request confirm, .found 0 place "t1", .posted 0 true true, .click "t1" "Allow",
    .click "t1" "Block", .wake 0,
    .request confirm, .found 1 place "t2", .posted 1 true true, .timeout 1, .click "t2" "Allow",
    .wake 1, .retracted 1 true,
    .request confirm, .found 2 place "t3", .posted 2 true true, .typed "impi" "c1", .wake 2,
    .retracted 2 true]

/-- The timer fires between a click and the turn that waits for it. -/
def late : List Label :=
  [.request confirm, .found 0 place "t1", .posted 0 true true, .click "t1" "Allow", .timeout 0,
    .wake 0, .retracted 0 true]

end Sample

/-- Three questions, each with the outcome its conversation was told. -/
theorem one_outcome_asked : ∃ s, system.Reach Clean s ∧
    s.reqs.map (·.stage) = [.ended (some { confirmed := some true }), .ended (some declined),
      .ended (some declined)] ∧ Settles s := by
  have hrun : (system.check (fun s l => decide (Clean s l)) {} Sample.asked).any (fun s =>
      decide (s.reqs.map (·.stage) = [.ended (some { confirmed := some true }),
        .ended (some declined), .ended (some declined)])) = true := by
    decide +kernel
  obtain ⟨s, hs, hd⟩ := (Option.any_eq_true ..).1 hrun
  have h : system.Reach Clean s := Lts.reach_of_check (fun _ _ => of_decide_eq_true) rfl hs
  exact ⟨s, h, of_decide_eq_true hd, one_outcome h⟩

/-- A click is taken, and the turn is told that nobody answered. -/
theorem lost_choice : ¬∀ s : State, system.Reach Lts.Any s → Settles s := by
  intro hall
  have hrun : (system.check (fun _ _ => true) {} Sample.late).any (fun s =>
      (s.reqs[0]?).any (fun r => decide (r.stage = .ended (some declined) ∧ r.token = some "t1")) &&
        (s.clicks[0]?).any fun c => decide (c.token = "t1") && c.taken) = true := by
    decide +kernel
  obtain ⟨s, hs, hd⟩ := (Option.any_eq_true ..).1 hrun
  obtain ⟨hreq, hclick⟩ := (Bool.and_eq_true _ _).mp hd
  obtain ⟨r, hr, hdr⟩ := (Option.any_eq_true ..).1 hreq
  obtain ⟨c, hc, hdc⟩ := (Option.any_eq_true ..).1 hclick
  obtain ⟨hst, hrt⟩ := of_decide_eq_true hdr
  obtain ⟨hct, htaken⟩ := (Bool.and_eq_true _ _).mp hdc
  have h : system.Reach Lts.Any s := Lts.reach_of_check (fun _ _ _ => trivial) rfl hs
  have hone := ((hall s h).one r (List.mem_of_getElem? hr)).given _ hst c
    (List.mem_of_getElem? hc) (by rw [hrt, of_decide_eq_true hct]) htaken
  unfold answer at hone
  split at hone <;> cases hone

end UiBridge
