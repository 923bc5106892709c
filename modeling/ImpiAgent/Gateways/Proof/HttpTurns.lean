import ImpiAgent.Gateways.HttpTurns

/-!
# The indexes of the HTTP gateway's turns

Most events change a turn but no index (`Quiet`); three do: a start that creates a turn, a finish, a
sweep (`Kind`). `Indexed` holds after each. A message's place in the memory is told by how many
turns were started since: a memory of `remembered` entries still has it after fewer starts than that
(`Recalled`), if it was new to the memory when its turn was started.
-/

namespace HttpTurns

variable {S : Settings} {s s' : State}

/-- What the indexes depend on in a turn. -/
def Turn.sig (x : Turn) : String × String × Option Moment :=
  (x.conversation, x.clientMessageId, x.journal.finishedAt)

/-! ## What a step does to the indexes -/

/-- No index changes, and no turn in what they depend on. -/
structure Quiet (s s' : State) : Prop where
  turns : s'.turns.map Turn.sig = s.turns.map Turn.sig
  first : s'.first = s.first
  byId : s'.byId = s.byId
  active : s'.active = s.active
  idle : s'.idle = s.idle
  byMessage : s'.byMessage = s.byMessage

theorem Quiet.refl (s : State) : Quiet s s := ⟨rfl, rfl, rfl, rfl, rfl, rfl⟩

theorem Quiet.modify (t : Nat) {f : Turn → Turn} (hf : ∀ x, (f x).sig = x.sig) :
    Quiet s (s.modify t f) := by
  refine ⟨List.ext_getElem? fun i => ?_, rfl, rfl, rfl, rfl, rfl⟩
  simp only [State.modify, List.getElem?_map, List.getElem?_modify]
  cases s.turns[i]? with
  | none => rfl
  | some x =>
    by_cases hi : t = i
    · simp [hi, hf]
    · simp [hi]

theorem Quiet.onActive (c : String) {f : Turn → Turn} (hf : ∀ x, (f x).sig = x.sig) :
    Quiet s (onActive s c f) := by
  unfold HttpTurns.onActive
  split
  · exact .modify _ hf
  · exact .refl s

theorem Quiet.onPost (post : String) {f : Turn → Turn} (hf : ∀ x, (f x).sig = x.sig) :
    Quiet s (onPost s post f) := by
  unfold HttpTurns.onPost
  split
  · exact .modify _ hf
  · exact .refl s

theorem Quiet.onReader {r : Nat} {f : Reader → TurnJournal → Option Reader}
    (h : onReader s r f = some s') : Quiet s s' := by
  simp only [HttpTurns.onReader, Option.bind_eq_bind, Option.bind_eq_some_iff] at h
  obtain ⟨x, -, turn, -, x', -, h⟩ := h
  cases h
  exact ⟨rfl, rfl, rfl, rfl, rfl, rfl⟩

section
variable (x : Turn) (post : String) (answers : List String)

@[simp] theorem sig_emit (type : EventType) : (x.emit type).sig = x.sig := rfl

@[simp] theorem sig_setStatus (status : Status) : (x.setStatus status).sig = x.sig := by
  unfold Turn.setStatus TurnJournal.setStatus Turn.sig
  split <;> rfl

@[simp] theorem sig_block : (x.block post).sig = x.sig := rfl

@[simp] theorem sig_unblock : (x.unblock post).sig = x.sig := rfl

@[simp] theorem sig_resume : x.resume.sig = x.sig := by
  unfold Turn.resume
  split <;> simp

@[simp] theorem sig_settle : (x.settle post answers).sig = x.sig := by
  unfold Turn.settle
  dsimp only
  split <;> simp <;> rfl

@[simp] theorem sig_confirm (type : EventType) : (x.confirm type post answers).sig = x.sig := by
  simp [Turn.confirm]

@[simp] theorem sig_postActions : (x.postActions post answers).sig = x.sig := by
  unfold Turn.postActions
  simp
  rfl

@[simp] theorem sig_retire : (x.retire post).sig = x.sig := by
  unfold Turn.retire
  simp
  rfl

@[simp] theorem sig_cards : (x.cards post answers).sig = x.sig := rfl

end

/-- What a step does to the indexes. -/
inductive Kind (S : Settings) (s : State) : State → Prop
  | quiet {s' : State} : Quiet s s' → Kind S s s'
  | create {conversation message} : known s conversation message = none →
      s.active.lookup conversation = none → Kind S s (create S s conversation message)
  | finish {t x} (outcome now) : s.turns[t]? = some x → Kind S s (finish s t x outcome now)
  | sweep (now) : Kind S s (sweep S s now)

theorem kind_of_next {e : Event} (h : next S s e = some s') : Kind S s s' := by
  cases e with
  | start c m =>
    cases h
    unfold start
    cases hk : known s c m with
    | some t => exact .quiet (.refl s)
    | none =>
      cases ha : s.active.lookup c with
      | some t => exact .quiet (.refl s)
      | none => exact .create hk ha
  | finish t o now =>
    obtain ⟨x, hx, rfl⟩ := Option.map_eq_some_iff.1 h
    exact .finish o now hx
  | abandon t now =>
    obtain ⟨x, hx, rfl⟩ := Option.map_eq_some_iff.1 h
    exact .finish .error now hx
  | sweep now => cases h; exact .sweep now
  | begin c => cases h; exact .quiet (.onActive c fun _ => rfl)
  | traced t ev =>
    simp only [next, Option.bind_eq_bind, Option.bind_eq_some_iff] at h
    obtain ⟨x, -, h⟩ := h
    split at h
    · cases h
      split
      · exact .quiet (.modify t fun _ => rfl)
      · exact .quiet (.refl s)
    · cases h
  | post c type =>
    simp only [next] at h
    split at h
    · cases h
      exact .quiet (.onActive c fun _ => rfl)
    · cases h
  | postActions c p a => cases h; exact .quiet (.onActive c fun x => sig_postActions x p a)
  | postConfirmation c p a => cases h; exact .quiet (.onActive c fun x => sig_confirm x p a _)
  | updateConfirmation p a => cases h; exact .quiet (.onPost p fun x => sig_confirm x p a _)
  | retract p => cases h; exact .quiet (.onPost p fun x => sig_retire x p)
  | postCards c p a => cases h; exact .quiet (.onActive c fun x => sig_cards x p a)
  | updateCards p a => cases h; exact .quiet (.onPost p fun x => sig_cards x p a)
  | click t p c =>
    simp only [next, Option.bind_eq_bind, Option.bind_eq_some_iff] at h
    obtain ⟨x, -, h⟩ := h
    split at h
    · cases h
      exact .quiet (.modify t fun _ => rfl)
    · cases h
  | answered t p r =>
    simp only [next, Option.bind_eq_bind, Option.bind_eq_some_iff] at h
    obtain ⟨x, -, h⟩ := h
    split at h
    · cases h
      refine .quiet (.modify t fun y => ?_)
      split
      · rw [sig_retire]
        rfl
      · rfl
    · cases h
  | read t =>
    simp only [next] at h
    split at h
    · cases h
      exact .quiet ⟨rfl, rfl, rfl, rfl, rfl, rfl⟩
    · cases h
  | poll r w =>
    simp only [next] at h
    exact .quiet (.onReader h)
  | woken r =>
    simp only [next] at h
    exact .quiet (.onReader h)
  | timedOut r =>
    simp only [next] at h
    exact .quiet (.onReader h)

/-! ## The invariant -/

/-- A turn the memory still has: its entry, and no more after it than turns were started since. -/
def Recalled (s : State) (t : Nat) (key : String × String) : Prop :=
  ∃ l l', s.byMessage = l ++ (key, t) :: l' ∧ key ∉ l.map Prod.fst ∧
    l'.length ≤ s.turns.length - (t + 1)

/-- What holds of the indexes. -/
structure Indexed (S : Settings) (s : State) : Prop where
  distinct : Dict.Distinct s.active
  sound : ∀ c t, (c, t) ∈ s.active → ∃ m, (s.turns.map Turn.sig)[t]? = some (c, m, none)
  full : ∀ t c m, (s.turns.map Turn.sig)[t]? = some (c, m, none) → (c, t) ∈ s.active ∧ t ∈ s.byId
  bound : ∀ t ∈ s.byId, t < s.turns.length
  lengths : s.first.length = s.turns.length
  idle : s.idle = true ↔ s.active = []
  recalled : ∀ t c m f, (s.turns.map Turn.sig)[t]? = some (c, m, f) → t ∈ s.byId →
    s.first[t]? = some true → s.turns.length - (t + 1) < S.remembered → Recalled s t (c, m)

theorem Quiet.length (h : Quiet s s') : s'.turns.length = s.turns.length := by
  have := congrArg List.length h.turns
  simpa using this

theorem Indexed.quiet (hI : Indexed S s) (h : Quiet s s') : Indexed S s' := by
  have hlen := h.length
  constructor
  · rw [h.active]
    exact hI.distinct
  · rw [h.active, h.turns]
    exact hI.sound
  · rw [h.active, h.turns, h.byId]
    exact hI.full
  · rw [h.byId, hlen]
    exact hI.bound
  · rw [h.first, hlen]
    exact hI.lengths
  · rw [h.idle, h.active]
    exact hI.idle
  · intro t c m f ht hb hf hlt
    rw [h.turns] at ht
    rw [h.byId] at hb
    rw [h.first] at hf
    rw [hlen] at hlt
    unfold Recalled
    rw [h.byMessage, hlen]
    exact hI.recalled t c m f ht hb hf hlt

theorem Indexed.sweep (hI : Indexed S s) (now : Moment) : Indexed S (sweep S s now) where
  distinct := hI.distinct
  sound := hI.sound
  full t c m ht := by
    obtain ⟨ha, hb⟩ := hI.full t c m ht
    -- a journal that is still going is not stale
    refine ⟨ha, List.mem_filter.2 ⟨hb, ?_⟩⟩
    have ht : (s.turns.map Turn.sig)[t]? = some (c, m, none) := ht
    rw [List.getElem?_map] at ht
    obtain ⟨x, hx, hsig⟩ := Option.map_eq_some_iff.1 ht
    have hf : x.journal.finishedAt = none := congrArg (·.2.2) hsig
    simp [stale, hx, hf]
  bound t ht := hI.bound t (List.mem_filter.1 ht).1
  lengths := hI.lengths
  idle := hI.idle
  recalled t c m f ht hb := hI.recalled t c m f ht (List.mem_filter.1 hb).1

/-- The turns after a finish: `t` has finished, and the others are as before. -/
theorem sigs_finish {t i : Nat} {x : Turn} {outcome : Delegation.TurnOutcome} {now : Moment}
    {v : String × String × Option Moment} (hx : s.turns[t]? = some x)
    (h : ((finish s t x outcome now).turns.map Turn.sig)[i]? = some v) :
    i = t ∧ v = (x.conversation, x.clientMessageId, some now) ∨
      i ≠ t ∧ (s.turns.map Turn.sig)[i]? = some v := by
  simp only [finish, State.modify, List.getElem?_map, List.getElem?_modify] at h ⊢
  by_cases hi : t = i
  · subst hi
    rw [hx] at h
    simp only [if_pos, Option.map_eq_map, Option.map_some, Option.some.injEq] at h
    exact .inl ⟨rfl, h.symm⟩
  · refine .inr ⟨Ne.symm hi, ?_⟩
    rw [← h]
    simp [hi]

theorem finish_lengths {t : Nat} {x : Turn} {outcome : Delegation.TurnOutcome} {now : Moment} :
    (finish s t x outcome now).turns.length = s.turns.length := by
  simp [finish, State.modify]

/-- The running turns after a finish are those before it but for the one that finished. -/
theorem Indexed.mem_leave (hI : Indexed S s) {t t' : Nat} {x : Turn} {c : String}
    (hx : s.turns[t]? = some x) :
    (c, t') ∈ leave s t x.conversation ↔ (c, t') ∈ s.active ∧ t' ≠ t := by
  have hown : (c, t) ∈ s.active → c = x.conversation := by
    intro ha
    obtain ⟨m, hm⟩ := hI.sound c t ha
    rw [List.getElem?_map, hx] at hm
    exact (congrArg Prod.fst (Option.some.inj hm)).symm
  unfold leave
  split
  · rename_i hl
    rw [Dict.mem_remove]
    refine and_congr_right fun ha => ⟨fun hne => ?_, fun hne hc => ?_⟩
    · rintro rfl
      exact hne (hown ha)
    · have hc : c = x.conversation := hc
      subst hc
      exact hne (hI.distinct.eq ha (Dict.mem_of_lookup hl))
  · rename_i hl
    refine ⟨fun ha => ⟨ha, ?_⟩, And.left⟩
    rintro rfl
    obtain rfl := hown ha
    exact hl (hI.distinct.lookup ha)

theorem Indexed.finish (hI : Indexed S s) {t : Nat} {x : Turn} (hx : s.turns[t]? = some x)
    (outcome : Delegation.TurnOutcome) (now : Moment) :
    Indexed S (finish s t x outcome now) where
  distinct := by
    show Dict.Distinct (leave s t x.conversation)
    unfold leave
    split
    · exact hI.distinct.remove
    · exact hI.distinct
  sound c t' ha := by
    obtain ⟨ha, hne⟩ := (hI.mem_leave hx).1 ha
    obtain ⟨m, hm⟩ := hI.sound c t' ha
    refine ⟨m, ?_⟩
    rw [← hm]
    simp [HttpTurns.finish, State.modify, Ne.symm hne]
  full t' c m ht := by
    rcases sigs_finish hx ht with ⟨-, heq⟩ | ⟨hne, ht⟩
    · exact nomatch heq
    · obtain ⟨ha, hb⟩ := hI.full t' c m ht
      exact ⟨(hI.mem_leave hx).2 ⟨ha, hne⟩, hb⟩
  bound t' hb := Nat.lt_of_lt_of_eq (hI.bound t' hb) finish_lengths.symm
  lengths := hI.lengths.trans finish_lengths.symm
  idle := by
    show (if leave s t x.conversation = [] then true else s.idle) = true ↔
      leave s t x.conversation = []
    split
    · simp [*]
    · rename_i hl
      simp only [hl, iff_false]
      intro hi
      have hnil : s.active = [] := hI.idle.1 hi
      refine hl ?_
      unfold leave
      simp [hnil]
  recalled t' c m f ht hb hf hlt := by
    have hold : ∃ f', (s.turns.map Turn.sig)[t']? = some (c, m, f') := by
      rcases sigs_finish hx ht with ⟨rfl, heq⟩ | ⟨-, ht⟩
      · cases heq
        exact ⟨x.journal.finishedAt, by rw [List.getElem?_map, hx]; rfl⟩
      · exact ⟨f, ht⟩
    obtain ⟨f', hf'⟩ := hold
    rw [finish_lengths] at hlt
    unfold Recalled
    rw [finish_lengths]
    exact hI.recalled t' c m f' hf' hb hf hlt

/-- A message whose turn the memory still has. -/
theorem Recalled.lookup {t : Nat} {key : String × String} (h : Recalled s t key) :
    s.byMessage.lookup key = some t := by
  obtain ⟨l, l', hm, hl, -⟩ := h
  refine List.lookup_eq_some_iff.2 ⟨l, l', hm, fun p hp => ?_⟩
  exact bne_iff_ne.2 fun heq => hl (heq ▸ List.mem_map_of_mem hp)

/-- The memory after a start, as long as it is large enough for `t`. -/
theorem Recalled.create {t : Nat} {key new : String × String} {n : Nat} (h : Recalled s t key)
    (hlt : t < s.turns.length) (hne : key ≠ new)
    (hroom : s.turns.length + 1 - (t + 1) < S.remembered) :
    ∃ l l', evict S (Dict.assign new n s.byMessage) = l ++ (key, t) :: l' ∧
      key ∉ l.map Prod.fst ∧ l'.length ≤ s.turns.length + 1 - (t + 1) := by
  obtain ⟨l, l', hm, hl, hlen⟩ := h
  -- the entries before it and after it, once the new one is there
  have hassign : ∃ d d', Dict.assign new n s.byMessage = d ++ (key, t) :: d' ∧
      key ∉ d.map Prod.fst ∧ d'.length ≤ l'.length + 1 := by
    rw [hm]
    by_cases hin : new ∈ l.map Prod.fst
    · refine ⟨Dict.assign new n l, l', Dict.assign_append hin, fun hk => ?_, Nat.le_succ _⟩
      rcases Dict.mem_keys_assign.1 hk with heq | hk
      · exact hne heq
      · exact hl hk
    · refine ⟨l, Dict.assign new n l', ?_, hl, ?_⟩
      · rw [Dict.assign_append_right hin, Dict.assign, if_neg hne]
      · rw [Dict.length_assign]
        split <;> omega
  obtain ⟨d, d', heq, hd, hlen'⟩ := hassign
  have hdrop : (d ++ (key, t) :: d').length - S.remembered ≤ d.length := by
    rw [List.length_append, List.length_cons]
    omega
  refine ⟨d.drop ((d ++ (key, t) :: d').length - S.remembered), d', ?_, fun hk => ?_, by omega⟩
  · rw [evict, heq, List.drop_append_of_le_length hdrop]
  · exact hd (List.map_subset _ (List.drop_subset _ _) hk)

theorem Indexed.create (hI : Indexed S s) {conversation message : String}
    (hk : known s conversation message = none) (ha : s.active.lookup conversation = none) :
    Indexed S (HttpTurns.create S s conversation message) := by
  have hnew : conversation ∉ s.active.map Prod.fst := Dict.lookup_eq_none.1 ha
  have hact : (HttpTurns.create S s conversation message).active =
      s.active ++ [(conversation, s.turns.length)] := Dict.assign_new hnew
  have hsig : (HttpTurns.create S s conversation message).turns.map Turn.sig =
      s.turns.map Turn.sig ++ [(conversation, message, none)] := by
    simp [HttpTurns.create]
    rfl
  have hlen : (HttpTurns.create S s conversation message).turns.length = s.turns.length + 1 := by
    simp [HttpTurns.create]
  have hcases : ∀ {i : Nat} {v},
      ((HttpTurns.create S s conversation message).turns.map Turn.sig)[i]? = some v →
        (s.turns.map Turn.sig)[i]? = some v ∨
          i = s.turns.length ∧ v = (conversation, message, none) := by
    intro i v h
    rw [hsig, List.getElem?_append] at h
    split at h
    · exact .inl h
    · rename_i hi
      obtain ⟨hi', rfl⟩ := List.getElem?_eq_some_iff.1 h
      have hi' : i - (s.turns.map Turn.sig).length < 1 := hi'
      rw [List.length_map] at hi hi'
      exact .inr ⟨by omega, by simp⟩
  constructor
  · exact hI.distinct.assign
  · intro c t h
    rw [hact] at h
    rw [hsig]
    rcases List.mem_append.1 h with h | h
    · obtain ⟨m, hm⟩ := hI.sound c t h
      exact ⟨m, (List.getElem?_append_left (List.getElem?_eq_some_iff.1 hm).1).trans hm⟩
    · cases List.mem_singleton.1 h
      refine ⟨message, ?_⟩
      have : (s.turns.map Turn.sig).length = s.turns.length := List.length_map _
      rw [← this]
      exact List.getElem?_concat_length
  · intro t c m h
    rw [hact]
    rcases hcases h with h | ⟨rfl, heq⟩
    · obtain ⟨ha, hb⟩ := hI.full t c m h
      exact ⟨List.mem_append_left _ ha, List.mem_append_left _ hb⟩
    · cases heq
      exact ⟨List.mem_append_right _ (List.mem_singleton.2 rfl),
        List.mem_append_right _ (List.mem_singleton.2 rfl)⟩
  · intro t hb
    rw [hlen]
    rcases List.mem_append.1 hb with hb | hb
    · exact Nat.lt_succ_of_lt (hI.bound t hb)
    · rw [List.mem_singleton.1 hb]
      exact Nat.lt_succ_self _
  · have := hI.lengths
    simp [HttpTurns.create, this]
  · rw [hact]
    simp [HttpTurns.create]
  · intro t c m f ht hb hf hlt
    rw [hlen] at hlt
    unfold Recalled
    rw [hlen]
    rcases hcases ht with ht | ⟨rfl, heq⟩
    · have htlt : t < s.turns.length := by
        have := (List.getElem?_eq_some_iff.1 ht).1
        rwa [List.length_map] at this
      have hb : t ∈ s.byId := by
        rcases List.mem_append.1 hb with hb | hb
        · exact hb
        · have := List.mem_singleton.1 hb
          omega
      have hf : s.first[t]? = some true := by
        rw [← hf]
        exact (List.getElem?_append_left (by rw [hI.lengths]; exact htlt)).symm
      have hr := hI.recalled t c m f ht hb hf (by omega)
      refine hr.create htlt ?_ hlt
      -- the memory still has it, so that its own message would have been recognised
      intro heq
      cases heq
      simp [known, hr.lookup, hb] at hk
    · cases heq
      -- the new entry is the last one
      have hfirst : s.byMessage.lookup (conversation, message) = none := by
        have hidx : (HttpTurns.create S s conversation message).first[s.turns.length]? =
            some (s.byMessage.lookup (conversation, message)).isNone := by
          show (s.first ++ [_])[s.turns.length]? = _
          rw [← hI.lengths]
          exact List.getElem?_concat_length
        rw [hidx] at hf
        simpa using hf
      have hmem := Dict.lookup_eq_none.1 hfirst
      refine ⟨s.byMessage.drop (s.byMessage.length + 1 - S.remembered), [], ?_, ?_, by simp⟩
      · show evict S (Dict.assign _ _ _) = _
        rw [Dict.assign_new hmem, evict, List.length_append, List.length_singleton,
          List.drop_append_of_le_length (by omega)]
      · exact fun hk => hmem (List.map_subset _ (List.drop_subset _ _) hk)

theorem Indexed.step {e : Event} (hI : Indexed S s) (h : next S s e = some s') :
    Indexed S s' := by
  cases kind_of_next h with
  | quiet hq => exact hI.quiet hq
  | create hk ha => exact hI.create hk ha
  | finish o now hx => exact hI.finish hx o now
  | sweep now => exact hI.sweep now

theorem Indexed.reach {C : State → Event → Prop} (h : (lts S).Reach C s) : Indexed S s := by
  refine h.inv (fun s h0 => ?_) fun _ _ _ hI _ hn => hI.step hn
  cases h0
  exact ⟨.nil, nofun, nofun, nofun, rfl, by simp, nofun⟩

/-- What the indexes promise. `t` is active in its conversation exactly while its journal is going,
and then it is found by its id; a message is answered with the turn it started as long as that turn
is held and fewer than `remembered` turns were started since. -/
structure Consistent (S : Settings) (s : State) : Prop where
  one : ∀ c t t', (c, t) ∈ s.active → (c, t') ∈ s.active → t = t'
  idle : s.idle = true ↔ s.active = []
  active : ∀ (t : Nat) (x : Turn), s.turns[t]? = some x →
    ((x.conversation, t) ∈ s.active ↔ x.journal.finished = false)
  found : ∀ c t, (c, t) ∈ s.active →
    t ∈ s.byId ∧ ∃ x, s.turns[t]? = some x ∧ x.conversation = c
  retried : ∀ (t : Nat) (x : Turn), s.turns[t]? = some x → t ∈ s.byId →
    s.first[t]? = some true → s.turns.length - (t + 1) < S.remembered →
    start S s x.conversation x.clientMessageId = (.ok (t, false), s)

/-- The indexes are consistent after any starts, finishes, abandons and sweeps. -/
theorem indexes_consistent (h : (lts S).Reach Lts.Any s) : Consistent S s := by
  have hI := Indexed.reach h
  have hsig : ∀ {t : Nat} {x : Turn}, s.turns[t]? = some x →
      (s.turns.map Turn.sig)[t]? = some x.sig := by
    intro t x hx
    rw [List.getElem?_map, hx]
    rfl
  have hfound : ∀ c t, (c, t) ∈ s.active →
      ∃ x, s.turns[t]? = some x ∧ x.conversation = c ∧ x.journal.finishedAt = none := by
    intro c t ha
    obtain ⟨m, hm⟩ := hI.sound c t ha
    rw [List.getElem?_map] at hm
    obtain ⟨x, hx, hv⟩ := Option.map_eq_some_iff.1 hm
    exact ⟨x, hx, congrArg Prod.fst hv, congrArg (·.2.2) hv⟩
  refine ⟨fun c t t' ha ha' => hI.distinct.eq ha ha', hI.idle, fun t x hx => ⟨fun ha => ?_,
    fun hf => ?_⟩, fun c t ha => ?_, fun t x hx hb hf hlt => ?_⟩
  · obtain ⟨y, hy, -, hf⟩ := hfound _ t ha
    cases hx.symm.trans hy
    simp [TurnJournal.finished, hf]
  · have hf : x.journal.finishedAt = none := by simpa [TurnJournal.finished] using hf
    have hx' := hsig hx
    rw [Turn.sig, hf] at hx'
    exact (hI.full t _ _ hx').1
  · obtain ⟨x, hx, hc, hf⟩ := hfound c t ha
    have hx' := hsig hx
    rw [Turn.sig, hf] at hx'
    exact ⟨(hI.full t _ _ hx').2, x, hx, hc⟩
  · have hl := (hI.recalled t _ _ _ (hsig hx) hb hf hlt).lookup
    have hl : s.byMessage.lookup (x.conversation, x.clientMessageId) = some t := hl
    have hk : known s x.conversation x.clientMessageId = some t := by
      unfold known
      rw [hl]
      simp [hb]
    unfold start
    rw [hk]

namespace Sample

/-- A gateway that remembers one message. -/
def forgetful : Settings := ⟨600, 1⟩

def empty : State := ⟨[], [], [], [], true, [], []⟩

/-- A turn is started, another conversation's message comes, and the first one's turn ends. -/
def crowded : List Event :=
  [.start "a" "1", .start "b" "2", .finish 0 .replied 10]

end Sample

/-- A retry after one start, with room for two. -/
theorem indexes_consistent_run : ∃ s : State, (lts ⟨600, 2⟩).Reach Lts.Any s ∧
    Consistent ⟨600, 2⟩ s ∧ start ⟨600, 2⟩ s "a" "1" = (.ok (0, false), s) := by
  have h : ((lts ⟨600, 2⟩).check (fun _ _ => true) Sample.empty Sample.crowded).any (fun s =>
      decide (s.turns.length = 2 ∧ s.first[0]? = some true ∧ 0 ∈ s.byId ∧
        s.turns[0]?.map (fun x => (x.conversation, x.clientMessageId)) = some ("a", "1"))) =
      true := by decide
  obtain ⟨s, hs, hq⟩ := (Option.any_eq_true _ _).1 h
  obtain ⟨hlen, hf, hb, hx⟩ := of_decide_eq_true hq
  obtain ⟨x, hx, heq⟩ := Option.map_eq_some_iff.1 hx
  obtain ⟨hconv, hmsg⟩ := Prod.mk.inj heq
  have hr : (lts ⟨600, 2⟩).Reach Lts.Any s := Lts.reach_of_check (fun _ _ _ => trivial) rfl hs
  have hc := indexes_consistent hr
  have hretry := hc.retried 0 x hx hb hf (by rw [hlen]; decide)
  rw [hconv, hmsg] at hretry
  exact ⟨s, hr, hc, hretry⟩

/-- A message whose turn is still held is a second turn, or refused, after others were started. -/
theorem retry_forgotten :
    (∃ s, (lts Sample.forgetful).Reach Lts.Any s ∧ 0 ∈ s.byId ∧
      (start Sample.forgetful s "a" "1").1 = .error 0) ∧
    ∃ s, (lts Sample.forgetful).Reach Lts.Any s ∧ 0 ∈ s.byId ∧
      (start Sample.forgetful s "a" "1").1 = .ok (2, true) := by
  have h : ((lts Sample.forgetful).check (fun _ _ => true) Sample.empty
      [.start "a" "1", .start "b" "2"]).any (fun s =>
        decide (0 ∈ s.byId ∧ (start Sample.forgetful s "a" "1").1 = .error 0)) = true := by decide
  have h' : ((lts Sample.forgetful).check (fun _ _ => true) Sample.empty Sample.crowded).any
      (fun s => decide (0 ∈ s.byId ∧ (start Sample.forgetful s "a" "1").1 = .ok (2, true))) =
        true := by decide
  obtain ⟨s, hs, hq⟩ := (Option.any_eq_true _ _).1 h
  obtain ⟨s', hs', hq'⟩ := (Option.any_eq_true _ _).1 h'
  exact ⟨⟨s, Lts.reach_of_check (fun _ _ _ => trivial) rfl hs, of_decide_eq_true hq⟩,
    s', Lts.reach_of_check (fun _ _ _ => trivial) rfl hs', of_decide_eq_true hq'⟩

end HttpTurns
