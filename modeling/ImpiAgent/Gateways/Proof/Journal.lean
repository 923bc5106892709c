import ImpiAgent.Gateways.Proof.HttpTurns

/-!
# The journal of one turn

`Journaled` holds of every turn whatever is written to it: its events are numbered from 1, and while
it goes its status is `awaiting_input` exactly while a post it is blocked on is up. `Contract` adds
what its readers get and that `turn.finished` is its last event. That last part needs that nothing
is written after it (`Timely`): what goes through `active` or a running turn's posts is not, but a
flow keeps its `_Trace`, and a click that waited takes its card down, whether the turn still runs or
not.
-/

namespace HttpTurns

variable {S : Settings} {s s' : State} {e : Event}

/-! ## Numbers -/

/-- Events numbered from 1 without gaps. -/
def Numbered (l : List TurnEvent) : Prop := l.map TurnEvent.seq = List.range' 1 l.length

theorem Numbered.cursor {j : TurnJournal} (h : Numbered j.events) : j.cursor = j.events.length := by
  have hl : j.events.getLast?.map TurnEvent.seq = (List.range' 1 j.events.length).getLast? := by
    rw [← List.getLast?_map, h]
  unfold TurnJournal.cursor
  rw [hl, List.getLast?_range']
  split <;> simp_all

theorem Numbered.emit {j : TurnJournal} (h : Numbered j.events) (type : EventType) :
    Numbered (j.emit type).events := by
  have he : (j.emit type).events = j.events ++ [⟨j.events.length + 1, type⟩] := by
    rw [← h.cursor]
    rfl
  unfold Numbered
  rw [he, List.map_append, h, List.length_append, List.length_singleton, List.range'_concat]
  simp [Nat.add_comm]

theorem filter_numbered {after k : Nat} {l : List TurnEvent}
    (h : l.map TurnEvent.seq = List.range' (k + 1) l.length) :
    l.filter (after < ·.seq) = l.drop (after - k) := by
  induction l generalizing k with
  | nil => simp
  | cons x l ih =>
    rw [List.map_cons, List.length_cons, List.range'_succ] at h
    obtain ⟨hx, hl⟩ := List.cons.inj h
    have ih := ih hl
    by_cases hk : after < k + 1
    · have h0 : after - k = 0 := by omega
      have h1 : after - (k + 1) = 0 := by omega
      rw [h1] at ih
      rw [h0, List.drop_zero, List.filter_cons_of_pos (by simpa [hx] using hk), ih, List.drop_zero]
    · have h1 : after - k = after - (k + 1) + 1 := by omega
      rw [List.filter_cons_of_neg (by simpa [hx] using hk), ih, h1, List.drop_succ_cons]

/-- What a cursor has not seen. -/
theorem Numbered.since {j : TurnJournal} (h : Numbered j.events) (after : Nat) :
    j.since after = j.events.drop after :=
  filter_numbered (k := 0) h

/-! ## What is written to a turn -/

/-- What holds of a turn whatever is written to it. -/
structure Journaled (x : Turn) : Prop where
  numbered : Numbered x.journal.events
  status : x.journal.finished = false → (x.journal.status = .awaitingInput ↔ x.blocking ≠ [])
  known : ∀ p ∈ x.blocking, p ∈ x.posted.map Prod.fst

/-- One event more, which is not the last one of a turn. -/
structure Written (x x' : Turn) : Prop where
  events : ∃ type, type ≠ .turnFinished ∧
    x'.journal.events = x.journal.events ++ [⟨x.journal.cursor + 1, type⟩]
  finishedAt : x'.journal.finishedAt = x.journal.finishedAt
  keeps : Journaled x → Journaled x'

section
variable (x : Turn) (post : String) (answers : List String)

theorem setStatus_events (status : Status) : (x.setStatus status).journal.events =
    x.journal.events := by
  unfold Turn.setStatus TurnJournal.setStatus
  split <;> rfl

theorem setStatus_status {status : Status} (h : x.journal.finished = false) :
    (x.setStatus status).journal.status = status := by
  unfold Turn.setStatus TurnJournal.setStatus
  simp [h]

theorem resume_events : x.resume.journal.events = x.journal.events := by
  unfold Turn.resume
  split
  · exact setStatus_events x _
  · rfl

theorem finishedAt_of_sig {x x' : Turn} (h : x'.sig = x.sig) :
    x'.journal.finishedAt = x.journal.finishedAt := congrArg (·.2.2) h

theorem finished_of_sig {x x' : Turn} (h : x'.sig = x.sig) :
    x'.journal.finished = x.journal.finished := by
  unfold TurnJournal.finished
  rw [finishedAt_of_sig h]

/-- A status that says what is blocked. -/
theorem Journaled.of_status {x : Turn} {status : Status} (hn : Numbered x.journal.events)
    (hk : ∀ p ∈ x.blocking, p ∈ x.posted.map Prod.fst)
    (hs : status = .awaitingInput ↔ x.blocking ≠ []) : Journaled (x.setStatus status) where
  numbered := by
    rw [setStatus_events]
    exact hn
  status hf := by
    rw [finished_of_sig (sig_setStatus x status)] at hf
    rw [setStatus_status x hf]
    exact hs
  known := hk

/-- With one thing less to wait for, the turn goes on or waits as before. -/
theorem Journaled.resume {x : Turn} (hn : Numbered x.journal.events)
    (hk : ∀ p ∈ x.blocking, p ∈ x.posted.map Prod.fst)
    (hs : x.journal.finished = false → x.blocking ≠ [] → x.journal.status = .awaitingInput) :
    Journaled x.resume := by
  unfold Turn.resume
  split
  · rename_i hb
    exact .of_status hn hk (by simp [hb])
  · rename_i hb
    exact ⟨hn, fun hf => ⟨fun _ => hb, hs hf⟩, hk⟩

theorem mem_block {p : String} : p ∈ (x.block post).blocking ↔ p ∈ x.blocking ∨ p = post := by
  unfold Turn.block
  split
  · rename_i h
    show p ∈ x.blocking ↔ _
    refine ⟨.inl, ?_⟩
    rintro (h' | rfl)
    · exact h'
    · exact h
  · show p ∈ x.blocking ++ [post] ↔ _
    simp

theorem block_ne_nil : (x.block post).blocking ≠ [] :=
  List.ne_nil_of_mem ((mem_block x post).2 (.inr rfl))

theorem mem_unblock {p : String} : p ∈ (x.unblock post).blocking ↔ p ∈ x.blocking ∧ p ≠ post := by
  simp [Turn.unblock, List.mem_filter]

theorem settle_events : (x.settle post answers).journal.events = x.journal.events := by
  unfold Turn.settle
  split
  · rw [resume_events]
    rfl
  · rw [setStatus_events]
    rfl

/-- A card that asks blocks the turn, one that does not lets go of it. -/
theorem Journaled.settle {x : Turn} (h : Journaled x) : Journaled (x.settle post answers) := by
  unfold Turn.settle
  split
  · refine .resume h.numbered (fun p hp => ?_) fun hf hb => ?_
    · have hp := (mem_unblock _ post).1 hp
      exact Dict.mem_keys_assign.2 (.inr (h.known p hp.1))
    · refine (h.status hf).2 fun hnil => hb ?_
      show x.blocking.filter _ = []
      rw [hnil]
      rfl
  · refine .of_status h.numbered (fun p hp => ?_) (by simp [block_ne_nil])
    rcases (mem_block _ post).1 hp with hp | rfl
    · exact Dict.mem_keys_assign.2 (.inr (h.known p hp))
    · exact Dict.mem_keys_assign.2 (.inl rfl)

theorem written_emit {type : EventType} (ht : type ≠ .turnFinished) : Written x (x.emit type) where
  events := ⟨type, ht, rfl⟩
  finishedAt := rfl
  keeps h := ⟨h.numbered.emit type, h.status, h.known⟩

theorem written_confirm {type : EventType} (ht : type ≠ .turnFinished) :
    Written x (x.confirm type post answers) where
  events := ⟨type, ht, settle_events _ post answers⟩
  finishedAt := finishedAt_of_sig (sig_confirm x post answers type)
  keeps h := ((written_emit x ht).keeps h).settle post answers

theorem written_postActions : Written x (x.postActions post answers) where
  events := ⟨.actions, by decide, setStatus_events _ _⟩
  finishedAt := finishedAt_of_sig (sig_postActions x post answers)
  keeps h := by
    refine .of_status (h.numbered.emit .actions) (fun p hp => ?_) ?_
    swap
    · simp [Turn.emit, block_ne_nil]
    rcases (mem_block _ post).1 hp with hp | rfl
    · exact Dict.mem_keys_assign.2 (.inr (h.known p hp))
    · exact Dict.mem_keys_assign.2 (.inl rfl)

theorem written_retire : Written x (x.retire post) where
  events := ⟨.actionsRetired, by decide, resume_events _⟩
  finishedAt := finishedAt_of_sig (sig_retire x post)
  keeps h := by
    refine .resume (h.numbered.emit .actionsRetired) (fun p hp => ?_) fun hf hb => ?_
    · obtain ⟨hp, hne⟩ := (mem_unblock _ post).1 hp
      obtain ⟨y, hy, rfl⟩ := List.mem_map.1 (h.known p hp)
      exact List.mem_map_of_mem (Dict.mem_remove.2 ⟨hy, hne⟩)
    · refine (h.status hf).2 fun hnil => hb ?_
      show x.blocking.filter _ = []
      rw [hnil]
      rfl

theorem written_cards : Written x (x.cards post answers) where
  events := ⟨.cards, by decide, rfl⟩
  finishedAt := rfl
  keeps h :=
    ⟨h.numbered.emit .cards, h.status, fun p hp => Dict.mem_keys_assign.2 (.inr (h.known p hp))⟩

theorem finish_journaled {x : Turn} (h : Journaled x) (outcome : Delegation.TurnOutcome)
    (now : Moment) : Journaled (x.finish outcome now) where
  numbered := h.numbered.emit .turnFinished
  status hf := nomatch hf
  known := nofun

end

/-! ## Steps -/

/-- The event ends turn `t`. -/
def Event.finishes (t : Nat) : Event → Prop
  | .finish t' .. | .abandon t' _ => t' = t
  | _ => False

/-- The event writes to turn `t` whether it runs or not. -/
def Event.late (t : Nat) : Event → Prop
  | .traced t' event => t' = t ∧ event.emits ≠ none
  | .answered t' _ retires => t' = t ∧ retires = true
  | _ => False

/-- What ends turn `t`, or writes to it whether it runs or not, does so while it runs. -/
def Timely (t : Nat) (s : State) (e : Event) : Prop :=
  e.finishes t ∨ e.late t → s.running t = true

/-- What a step does to turn `t`. -/
inductive Move (e : Event) (t : Nat) (x : Turn) : Turn → Prop
  | same {x' : Turn} : x'.journal = x.journal → x'.posted = x.posted → x'.blocking = x.blocking →
      Move e t x x'
  | written {x' : Turn} : x.journal.finished = false ∨ e.late t → Written x x' → Move e t x x'
  | finished (outcome now) : e.finishes t → Move e t x (x.finish outcome now)

theorem Move.refl (e : Event) (t : Nat) (x : Turn) : Move e t x x := .same rfl rfl rfl

theorem modify_cases {i t : Nat} {f : Turn → Turn} {x' : Turn}
    (h : (s.modify i f).turns[t]? = some x') :
    ∃ x, s.turns[t]? = some x ∧ (i = t ∧ x' = f x ∨ i ≠ t ∧ x' = x) := by
  simp only [State.modify, List.getElem?_modify] at h
  obtain ⟨x, hx, rfl⟩ := Option.map_eq_some_iff.1 h
  refine ⟨x, hx, ?_⟩
  by_cases hi : i = t
  · exact .inl ⟨hi, if_pos hi⟩
  · exact .inr ⟨hi, if_neg hi⟩

section
variable {t : Nat} {f : Turn → Turn} {x' : Turn}

theorem move_modify {i : Nat} (hf : ∀ x, s.turns[t]? = some x → i = t → Move e t x (f x))
    (h : (s.modify i f).turns[t]? = some x') : ∃ x, s.turns[t]? = some x ∧ Move e t x x' := by
  obtain ⟨x, hx, ⟨hi, rfl⟩ | ⟨-, rfl⟩⟩ := modify_cases h
  · exact ⟨x, hx, hf x hx hi⟩
  · exact ⟨x', hx, .refl e t x'⟩

/-- An active turn is still going. -/
theorem Indexed.going (hI : Indexed S s) {c : String} (ha : (c, t) ∈ s.active) {x : Turn}
    (hx : s.turns[t]? = some x) : x.journal.finished = false := by
  obtain ⟨m, hm⟩ := hI.sound c t ha
  rw [List.getElem?_map, hx] at hm
  have hf : x.journal.finishedAt = none := congrArg (·.2.2) (Option.some.inj hm)
  simp [TurnJournal.finished, hf]

theorem move_active (hI : Indexed S s) {c : String} (hf : ∀ x, Written x (f x))
    (h : (onActive s c f).turns[t]? = some x') : ∃ x, s.turns[t]? = some x ∧ Move e t x x' := by
  unfold onActive at h
  split at h
  · rename_i i hi
    refine move_modify (fun x hx heq => ?_) h
    subst heq
    exact .written (.inl (hI.going (Dict.mem_of_lookup hi) hx)) (hf x)
  · exact ⟨x', h, .refl e t x'⟩

theorem move_post (hI : Indexed S s) {post : String} (hf : ∀ x, Written x (f x))
    (h : (onPost s post f).turns[t]? = some x') : ∃ x, s.turns[t]? = some x ∧ Move e t x x' := by
  unfold onPost at h
  split at h
  · rename_i i hi
    refine move_modify (fun x hx heq => ?_) h
    subst heq
    obtain ⟨⟨c, t'⟩, ha, heq⟩ := List.mem_map.1 (List.mem_of_find?_eq_some hi)
    have heq : t' = i := heq
    subst heq
    exact .written (.inl (hI.going ha hx)) (hf x)
  · exact ⟨x', h, .refl e t x'⟩

theorem move_finish {i : Nat} {x : Turn} {outcome : Delegation.TurnOutcome} {now : Moment}
    (he : i = t → e.finishes t) (h : (finish s i x outcome now).turns[t]? = some x') :
    ∃ x, s.turns[t]? = some x ∧ Move e t x x' :=
  move_modify (s := s) (fun _ _ heq => .finished outcome now (he heq)) h

theorem turns_onReader {r : Nat} {g : Reader → TurnJournal → Option Reader}
    (h : onReader s r g = some s') : s'.turns = s.turns := by
  simp only [onReader, Option.bind_eq_bind, Option.bind_eq_some_iff] at h
  obtain ⟨x, -, turn, -, x', -, h⟩ := h
  cases h
  rfl

/-- A turn after a step was there before and has moved, or is new. -/
theorem turn_step (hI : Indexed S s) (h : next S s e = some s') (hx' : s'.turns[t]? = some x') :
    (∃ x, s.turns[t]? = some x ∧ Move e t x x') ∨
      s.turns[t]? = none ∧ ∃ c m, x' = newTurn c m := by
  have hsame : s'.turns = s.turns → ∃ x, s.turns[t]? = some x ∧ Move e t x x' :=
    fun heq => ⟨x', heq ▸ hx', .refl e t x'⟩
  cases e with
  | start c m =>
    cases h
    rw [start] at hx' hsame
    split at hx'
    · exact .inl ⟨x', hx', .refl _ t x'⟩
    · split at hx'
      · exact .inl ⟨x', hx', .refl _ t x'⟩
      · have hx' : (s.turns ++ [newTurn c m])[t]? = some x' := hx'
        rw [List.getElem?_append] at hx'
        split at hx'
        · exact .inl ⟨x', hx', .refl _ t x'⟩
        · rename_i hlt
          obtain ⟨hi, rfl⟩ := List.getElem?_eq_some_iff.1 hx'
          exact .inr ⟨List.getElem?_eq_none (by omega), c, m, by simp⟩
  | finish i o now =>
    obtain ⟨x, hx, rfl⟩ := Option.map_eq_some_iff.1 h
    exact .inl (move_finish id hx')
  | abandon i now =>
    obtain ⟨x, hx, rfl⟩ := Option.map_eq_some_iff.1 h
    exact .inl (move_finish id hx')
  | sweep now => cases h; exact .inl (hsame rfl)
  | begin c =>
    cases h
    unfold onActive at hx'
    split at hx'
    · refine .inl (move_modify (fun x _ _ => ?_) hx')
      exact .same rfl rfl rfl
    · exact .inl ⟨x', hx', .refl _ t x'⟩
  | traced i ev =>
    simp only [next, Option.bind_eq_bind, Option.bind_eq_some_iff] at h
    obtain ⟨y, -, h⟩ := h
    split at h
    · cases h
      split at hx'
      · rename_i type hev
        refine .inl (move_modify (fun x _ heq => .written (.inr ⟨heq, by simp [hev]⟩) ?_) hx')
        refine written_emit x ?_
        cases ev with
        | callAwaiting news =>
          cases news with
          | true => cases hev; decide
          | false => cases hev
        | _ => cases hev; decide
      · exact .inl ⟨x', hx', .refl _ t x'⟩
    · cases h
  | post c type =>
    simp only [next] at h
    split at h
    · rename_i ht
      cases h
      refine .inl (move_active hI (fun x => written_emit x ?_) hx')
      rintro rfl
      cases ht
    · cases h
  | postActions c p a => cases h; exact .inl (move_active hI (written_postActions · p a) hx')
  | postConfirmation c p a =>
    cases h
    exact .inl (move_active hI (written_confirm · p a (by decide)) hx')
  | updateConfirmation p a =>
    cases h
    exact .inl (move_post hI (written_confirm · p a (by decide)) hx')
  | retract p => cases h; exact .inl (move_post hI (written_retire · p) hx')
  | postCards c p a => cases h; exact .inl (move_active hI (written_cards · p a) hx')
  | updateCards p a => cases h; exact .inl (move_post hI (written_cards · p a) hx')
  | click i p c =>
    simp only [next, Option.bind_eq_bind, Option.bind_eq_some_iff] at h
    obtain ⟨y, -, h⟩ := h
    split at h
    · cases h
      refine .inl (move_modify (fun x _ _ => ?_) hx')
      exact .same rfl rfl rfl
    · cases h
  | answered i p r =>
    simp only [next, Option.bind_eq_bind, Option.bind_eq_some_iff] at h
    obtain ⟨y, -, h⟩ := h
    split at h
    · cases h
      refine .inl (move_modify (fun x _ heq => ?_) hx')
      cases r with
      | false => exact .same rfl rfl rfl
      | true =>
        have hw := written_retire { x with clicks := x.clicks.erase p } p
        exact .written (.inr ⟨heq, rfl⟩)
          ⟨hw.events, hw.finishedAt, fun h => hw.keeps ⟨h.numbered, h.status, h.known⟩⟩
    · cases h
  | read i =>
    simp only [next] at h
    split at h
    · cases h
      exact .inl (hsame rfl)
    · cases h
  | poll r w =>
    simp only [next] at h
    exact .inl (hsame (turns_onReader h))
  | woken r =>
    simp only [next] at h
    exact .inl (hsame (turns_onReader h))
  | timedOut r =>
    simp only [next] at h
    exact .inl (hsame (turns_onReader h))

end

theorem new_journaled (c m : String) : Journaled (newTurn c m) where
  numbered := rfl
  status _ := ⟨nofun, fun h => absurd rfl h⟩
  known := nofun

theorem Move.journaled {t : Nat} {x x' : Turn} (h : Move e t x x') (hJ : Journaled x) :
    Journaled x' := by
  cases h with
  | same hj hp hb =>
    refine ⟨?_, ?_, ?_⟩
    · rw [hj]
      exact hJ.numbered
    · rw [hj, hb]
      exact hJ.status
    · rw [hp, hb]
      exact hJ.known
  | written _ hw => exact hw.keeps hJ
  | finished o now _ => exact finish_journaled hJ o now

/-- Every turn's journal is in order, in every run. -/
theorem Journaled.reach {C : State → Event → Prop} (h : (lts S).Reach C s) :
    ∀ (t : Nat) x, s.turns[t]? = some x → Journaled x := by
  refine h.inv_using (I := fun s => ∀ (t : Nat) x, s.turns[t]? = some x → Journaled x)
    (fun s h0 => ?_) fun s e s' hr hJ _ hn t x' hx' => ?_
  · cases h0
    exact nofun
  · rcases turn_step (Indexed.reach hr) hn hx' with ⟨x, hx, hm⟩ | ⟨-, c, m, rfl⟩
    · exact hm.journaled (hJ t x hx)
    · exact new_journaled c m

/-! ## Readers -/

/-- What a reader has is what the journal said up to its cursor. -/
structure Follows (r : Reader) (j : TurnJournal) : Prop where
  got : r.got = j.events.take r.cursor
  cursor : r.cursor ≤ j.events.length

theorem Follows.grow {r : Reader} {j j' : TurnJournal} (h : Follows r j)
    (hj : j.events <+: j'.events) : Follows r j' where
  got := by
    obtain ⟨l, hl⟩ := hj
    rw [h.got, ← hl, List.take_append_of_le_length h.cursor]
  cursor := Nat.le_trans h.cursor hj.length_le

/-- A reader that is answered has everything the journal said, and nothing twice. -/
theorem answer_all {r : Reader} {j : TurnJournal} (h : Follows r j) (hn : Numbered j.events) :
    (r.answer (j.since r.cursor)).got = j.events ∧
      (r.answer (j.since r.cursor)).cursor = j.events.length := by
  rw [hn.since]
  refine ⟨?_, ?_⟩
  · show r.got ++ _ = _
    rw [h.got, List.take_append_drop]
  · show ((j.events.drop r.cursor).getLast?.map TurnEvent.seq).getD r.cursor = _
    have hc := hn.cursor
    unfold TurnJournal.cursor at hc
    have hle := h.cursor
    by_cases heq : r.cursor = j.events.length
    · rw [heq, List.drop_length]
      rfl
    · rw [List.getLast?_drop, if_neg (by omega)]
      cases hl : j.events.getLast? with
      | none =>
        rw [hl] at hc
        simp only [Option.map_none, Option.getD_none] at hc
        omega
      | some x =>
        rw [hl] at hc
        exact hc

theorem Follows.answer {r : Reader} {j : TurnJournal} (h : Follows r j)
    (hn : Numbered j.events) : Follows (r.answer (j.since r.cursor)) j := by
  obtain ⟨hgot, hcur⟩ := answer_all h hn
  refine ⟨?_, Nat.le_of_eq hcur⟩
  rw [hgot, hcur, List.take_length]

theorem Follows.timedOut {r : Reader} {j : TurnJournal} (h : Follows r j) :
    Follows (r.answer []) j where
  got := by
    show r.got ++ [] = _
    rw [List.append_nil]
    exact h.got
  cursor := h.cursor

theorem Follows.poll {r : Reader} {j : TurnJournal} (h : Follows r j) (hn : Numbered j.events)
    (wait : Bool) : Follows (r.poll j wait) j := by
  unfold Reader.poll
  split
  · exact h.answer hn
  · exact ⟨h.got, h.cursor⟩

theorem Reader.poll_turn (r : Reader) (j : TurnJournal) (wait : Bool) :
    (r.poll j wait).turn = r.turn := by
  unfold Reader.poll
  split <;> rfl

/-- What a turn's journal said stays said. -/
theorem Move.grows {t : Nat} {x x' : Turn} (h : Move e t x x') :
    x.journal.events <+: x'.journal.events := by
  cases h with
  | same hj => exact ⟨[], by rw [hj, List.append_nil]⟩
  | written _ hw =>
    obtain ⟨type, -, he⟩ := hw.events
    exact ⟨_, he.symm⟩
  | finished => exact ⟨_, rfl⟩

/-- Every reader follows the journal of its turn. -/
def AllFollow (s : State) : Prop :=
  ∀ r ∈ s.readers, ∃ x, s.turns[r.turn]? = some x ∧ Follows r x.journal

theorem AllFollow.onReader (h : AllFollow s) {r : Nat}
    {g : Reader → TurnJournal → Option Reader} (hn : onReader s r g = some s')
    (hg : ∀ x x' (turn : Turn), s.turns[x.turn]? = some turn → g x turn.journal = some x' →
      Follows x turn.journal → x'.turn = x.turn ∧ Follows x' turn.journal) : AllFollow s' := by
  simp only [HttpTurns.onReader, Option.bind_eq_bind, Option.bind_eq_some_iff] at hn
  obtain ⟨x, hx, turn, ht, x', hx', hn⟩ := hn
  cases hn
  intro y hy
  rcases List.mem_or_eq_of_mem_set hy with hy | rfl
  · exact h y hy
  · obtain ⟨turn', ht', hf⟩ := h x (List.mem_of_getElem? hx)
    cases ht.symm.trans ht'
    obtain ⟨heq, hf⟩ := hg x y turn ht hx' hf
    exact ⟨turn, heq ▸ ht, hf⟩

/-- A step that leaves the readers alone. -/
theorem AllFollow.turns (h : AllFollow s) (hI : Indexed S s) (hn : next S s e = some s')
    (hr : s'.readers = s.readers) (hlen : s.turns.length ≤ s'.turns.length) : AllFollow s' := by
  rw [AllFollow, hr]
  intro r hm
  obtain ⟨x, hx, hf⟩ := h r hm
  have hlt : r.turn < s'.turns.length :=
    Nat.lt_of_lt_of_le (List.getElem?_eq_some_iff.1 hx).1 hlen
  refine ⟨s'.turns[r.turn], List.getElem?_eq_getElem hlt, ?_⟩
  rcases turn_step hI hn (List.getElem?_eq_getElem hlt) with ⟨y, hy, hm⟩ | ⟨hnone, -⟩
  · cases hx.symm.trans hy
    exact hf.grow hm.grows
  · exact nomatch hx.symm.trans hnone

theorem length_step (h : next S s e = some s') : s.turns.length ≤ s'.turns.length := by
  cases kind_of_next h with
  | quiet hq => exact Nat.le_of_eq hq.length.symm
  | create => simp [create]
  | finish => exact Nat.le_of_eq finish_lengths.symm
  | sweep => exact Nat.le_refl _

theorem readers_onActive (c : String) (f : Turn → Turn) :
    (onActive s c f).readers = s.readers := by
  unfold onActive
  split <;> rfl

theorem readers_onPost (post : String) (f : Turn → Turn) :
    (onPost s post f).readers = s.readers := by
  unfold onPost
  split <;> rfl

theorem AllFollow.step (h : AllFollow s) (hI : Indexed S s)
    (hJ : ∀ (t : Nat) x, s.turns[t]? = some x → Journaled x) (hn : next S s e = some s') :
    AllFollow s' := by
  have hquiet : s'.readers = s.readers → AllFollow s' := fun hr =>
    h.turns hI hn hr (length_step hn)
  cases e with
  | start c m =>
    refine hquiet ?_
    cases hn
    unfold start
    split
    · rfl
    · split <;> rfl
  | finish i o now =>
    obtain ⟨x, -, heq⟩ := Option.map_eq_some_iff.1 hn
    exact hquiet (heq ▸ rfl)
  | abandon i now =>
    obtain ⟨x, -, heq⟩ := Option.map_eq_some_iff.1 hn
    exact hquiet (heq ▸ rfl)
  | sweep now => exact hquiet (Option.some.inj hn ▸ rfl)
  | begin c => exact hquiet (Option.some.inj hn ▸ readers_onActive c _)
  | postActions c p a => exact hquiet (Option.some.inj hn ▸ readers_onActive c _)
  | postConfirmation c p a => exact hquiet (Option.some.inj hn ▸ readers_onActive c _)
  | updateConfirmation p a => exact hquiet (Option.some.inj hn ▸ readers_onPost p _)
  | retract p => exact hquiet (Option.some.inj hn ▸ readers_onPost p _)
  | postCards c p a => exact hquiet (Option.some.inj hn ▸ readers_onActive c _)
  | updateCards p a => exact hquiet (Option.some.inj hn ▸ readers_onPost p _)
  | traced i ev =>
    refine hquiet ?_
    simp only [next, Option.bind_eq_bind, Option.bind_eq_some_iff] at hn
    obtain ⟨y, -, hn⟩ := hn
    split at hn
    · cases hn
      split <;> rfl
    · cases hn
  | post c type =>
    refine hquiet ?_
    simp only [next] at hn
    split at hn
    · cases hn
      exact readers_onActive c _
    · cases hn
  | click i p c =>
    refine hquiet ?_
    simp only [next, Option.bind_eq_bind, Option.bind_eq_some_iff] at hn
    obtain ⟨y, -, hn⟩ := hn
    split at hn
    · cases hn
      rfl
    · cases hn
  | answered i p r =>
    refine hquiet ?_
    simp only [next, Option.bind_eq_bind, Option.bind_eq_some_iff] at hn
    obtain ⟨y, -, hn⟩ := hn
    split at hn
    · cases hn
      rfl
    · cases hn
  | read i =>
    simp only [next] at hn
    split at hn
    · rename_i hb
      cases hn
      intro r hr
      rcases List.mem_append.1 hr with hr | hr
      · exact h r hr
      · cases List.mem_singleton.1 hr
        obtain ⟨t, ht⟩ : ∃ t, s.turns[i]? = some t := ⟨_, List.getElem?_eq_getElem (hI.bound i hb)⟩
        exact ⟨t, ht, rfl, Nat.zero_le _⟩
    · cases hn
  | poll r w =>
    simp only [next] at hn
    refine h.onReader hn fun x x' turn ht hx' hf => ?_
    split at hx'
    · cases hx'
      exact ⟨x.poll_turn _ w, hf.poll (hJ _ _ ht).numbered w⟩
    · cases hx'
  | woken r =>
    simp only [next] at hn
    refine h.onReader hn fun x x' turn ht hx' hf => ?_
    split at hx'
    · cases hx'
      exact ⟨rfl, hf.answer (hJ _ _ ht).numbered⟩
    · cases hx'
  | timedOut r =>
    simp only [next] at hn
    refine h.onReader hn fun x x' turn ht hx' hf => ?_
    split at hx'
    · cases hx'
      exact ⟨rfl, hf.timedOut⟩
    · cases hx'

theorem AllFollow.reach {C : State → Event → Prop} (h : (lts S).Reach C s) : AllFollow s := by
  refine h.inv_using (fun s h0 => ?_) fun s e s' hr hF _ hn =>
    hF.step (Indexed.reach hr) (Journaled.reach hr) hn
  cases h0
  exact nofun

/-! ## The contract -/

/-- `turn.finished` is the last event of a turn that has finished, and of no other. -/
def Ended (x : Turn) : Prop :=
  if x.journal.finished then
    ∃ l y, x.journal.events = l ++ [y] ∧ y.type = .turnFinished ∧ ∀ z ∈ l, z.type ≠ .turnFinished
  else ∀ z ∈ x.journal.events, z.type ≠ .turnFinished

/-- The contract of turn `t`'s journal: its numbers, what its readers have and what a poll now would
bring them to, its last event, and its status while it goes. -/
structure Contract (t : Nat) (s : State) : Prop where
  numbered : ∀ x, s.turns[t]? = some x → x.journal.events.map TurnEvent.seq =
    List.range' 1 x.journal.events.length
  read : ∀ x, s.turns[t]? = some x → ∀ r ∈ s.readers, r.turn = t →
    r.got = x.journal.events.take r.cursor ∧ (r.poll x.journal false).got = x.journal.events
  ended : ∀ x, s.turns[t]? = some x → Ended x
  status : ∀ x, s.turns[t]? = some x → x.journal.finished = false →
    (x.journal.status = .awaitingInput ↔
      ∃ post ∈ x.blocking, post ∈ x.posted.map Prod.fst)

theorem Contract.of_ended {C : State → Event → Prop} (h : (lts S).Reach C s) {t : Nat}
    (hE : ∀ x, s.turns[t]? = some x → Ended x) : Contract t s where
  numbered x hx := (Journaled.reach h t x hx).numbered
  read x hx r hr ht := by
    obtain ⟨y, hy, hf⟩ := AllFollow.reach h r hr
    rw [ht] at hy
    cases hx.symm.trans hy
    refine ⟨hf.got, ?_⟩
    have hp : r.poll x.journal false = r.answer (x.journal.since r.cursor) := by
      unfold Reader.poll
      simp
    rw [hp]
    exact (answer_all hf (Journaled.reach h t x hx).numbered).1
  ended := hE
  status x hx hf := by
    have hJ := Journaled.reach h t x hx
    rw [hJ.status hf]
    constructor
    · intro hb
      obtain ⟨p, l, hp⟩ := List.exists_cons_of_ne_nil hb
      have hm : p ∈ x.blocking := hp ▸ List.mem_cons_self
      exact ⟨p, hm, hJ.known p hm⟩
    · rintro ⟨p, hp, -⟩
      exact List.ne_nil_of_mem hp

/-- A turn that goes on, or ends while it goes, keeps its last event last. -/
theorem Move.ended {t : Nat} {x x' : Turn} (h : Move e t x x') (hE : Ended x)
    (hg : e.finishes t ∨ e.late t → x.journal.finished = false) : Ended x' := by
  cases h with
  | same hj =>
    unfold Ended
    rw [hj]
    exact hE
  | written hl hw =>
    have hf : x.journal.finished = false := hl.elim id fun hl => hg (.inr hl)
    obtain ⟨type, ht, he⟩ := hw.events
    have hf' : x'.journal.finished = false := by
      unfold TurnJournal.finished at hf ⊢
      rw [hw.finishedAt]
      exact hf
    unfold Ended at hE ⊢
    rw [if_neg (by simp [hf])] at hE
    rw [if_neg (by simp [hf']), he]
    intro z hz
    rcases List.mem_append.1 hz with hz | hz
    · exact hE z hz
    · rw [List.mem_singleton.1 hz]
      exact ht
  | finished o now hfin =>
    have hf := hg (.inl hfin)
    unfold Ended at hE
    rw [if_neg (by simp [hf])] at hE
    exact ⟨x.journal.events, ⟨x.journal.cursor + 1, .turnFinished⟩, rfl, rfl, hE⟩

/-- What is written to a turn that has finished, or ends it once more, comes after its last
event. -/
theorem Move.not_ended {t : Nat} {x x' : Turn} (h : Move e t x x') (hE : Ended x)
    (hf : x.journal.finished = true) (hne : x'.journal.events ≠ x.journal.events) :
    ¬Ended x' := by
  unfold Ended at hE
  rw [if_pos hf] at hE
  obtain ⟨l, y, hl, hy, -⟩ := hE
  have hlast : ∃ z, x'.journal.events = l ++ [y] ++ [z] ∧ x'.journal.finished = true := by
    cases h with
    | same hj => exact absurd (congrArg TurnJournal.events hj) hne
    | written _ hw =>
      obtain ⟨type, -, he⟩ := hw.events
      refine ⟨_, hl ▸ he, ?_⟩
      unfold TurnJournal.finished at hf ⊢
      rw [hw.finishedAt]
      exact hf
    | finished o now => exact ⟨⟨x.journal.cursor + 1, .turnFinished⟩, hl ▸ rfl, rfl⟩
  obtain ⟨z, he, hf'⟩ := hlast
  unfold Ended
  rw [if_pos hf']
  rintro ⟨l', y', he', -, hno⟩
  rw [he] at he'
  obtain ⟨rfl, -⟩ := List.append_inj' he' rfl
  exact hno y (List.mem_append_right _ (List.mem_singleton.2 rfl)) hy

theorem running_iff {t : Nat} {x : Turn} (hx : s.turns[t]? = some x) :
    s.running t = true ↔ x.journal.finished = false := by
  unfold State.running
  rw [hx]
  simp

theorem new_ended (c m : String) : Ended (newTurn c m) := by
  show ∀ z ∈ _, _
  intro z hz
  cases List.mem_singleton.1 hz
  exact nofun

theorem ended_step {t : Nat} (hI : Indexed S s) (hc : Timely t s e) (hn : next S s e = some s')
    (hE : ∀ x, s.turns[t]? = some x → Ended x) : ∀ x', s'.turns[t]? = some x' → Ended x' := by
  intro x' hx'
  rcases turn_step hI hn hx' with ⟨x, hx, hm⟩ | ⟨-, c, m, rfl⟩
  · exact hm.ended (hE x hx) fun hl => (running_iff hx).1 (hc hl)
  · exact new_ended c m

theorem ended_reach {t : Nat} (h : (lts S).Reach (Timely t) s) :
    ∀ x, s.turns[t]? = some x → Ended x := by
  refine h.inv_using (I := fun s => ∀ x, s.turns[t]? = some x → Ended x) (fun s h0 => ?_)
    fun s e s' hr hE hc hn => ended_step (Indexed.reach hr) hc hn hE
  cases h0
  exact nofun

theorem modify_self {t : Nat} {f : Turn → Turn} {x : Turn} (hx : s.turns[t]? = some x) :
    (s.modify t f).turns[t]? = some (f x) := by
  simp [State.modify, hx]

/-- What ends a turn or writes to it whether it runs or not adds to its journal. -/
theorem adds {t : Nat} (h : next S s e = some s') (hl : e.finishes t ∨ e.late t) :
    ∃ x x', s.turns[t]? = some x ∧ s'.turns[t]? = some x' ∧
      x'.journal.events ≠ x.journal.events := by
  have hadd : ∀ (l : List TurnEvent) y, l ++ [y] ≠ l := fun l y => by simp
  cases e with
  | finish i o now =>
    obtain rfl : i = t := hl.resolve_right id
    obtain ⟨x, hx, rfl⟩ := Option.map_eq_some_iff.1 h
    exact ⟨x, _, hx, modify_self hx, hadd _ _⟩
  | abandon i now =>
    obtain rfl : i = t := hl.resolve_right id
    obtain ⟨x, hx, rfl⟩ := Option.map_eq_some_iff.1 h
    exact ⟨x, _, hx, modify_self hx, hadd _ _⟩
  | traced i ev =>
    obtain ⟨rfl, hev⟩ := hl.resolve_left id
    simp only [next, Option.bind_eq_bind, Option.bind_eq_some_iff] at h
    obtain ⟨x, hx, h⟩ := h
    split at h
    · cases h
      cases he : ev.emits with
      | none => exact absurd he hev
      | some type => exact ⟨x, _, hx, modify_self hx, hadd _ _⟩
    · cases h
  | answered i p r =>
    obtain ⟨rfl, rfl⟩ := hl.resolve_left id
    simp only [next, Option.bind_eq_bind, Option.bind_eq_some_iff] at h
    obtain ⟨x, hx, h⟩ := h
    split at h
    · cases h
      refine ⟨x, _, hx, modify_self hx, ?_⟩
      obtain ⟨type, -, he⟩ := (written_retire { x with clicks := x.clicks.erase p } p).events
      exact fun heq => hadd _ _ (he.symm.trans heq)
    · cases h
  | _ => exact hl.elim False.elim False.elim

/-- The contract of turn `t`'s journal holds in a run in which what ends the turn, and what writes
to it without asking whether it runs, comes while it runs. Where it holds, such a step keeps it and
any other breaks it. -/
theorem journal_contract (t : Nat) :
    (∀ s, (lts S).Reach (Timely t) s → Contract t s) ∧
      ∀ s e s', (lts S).Reach Lts.Any s → Contract t s → next S s e = some s' →
        (Contract t s' ↔ Timely t s e) := by
  refine ⟨fun s h => .of_ended h (ended_reach h), fun s e s' h hC hn => ⟨fun hC' hl => ?_,
    fun hc => .of_ended (h.step trivial hn) (ended_step (Indexed.reach h) hc hn hC.ended)⟩⟩
  obtain ⟨x, x', hx, hx', hne⟩ := adds hn hl
  rw [running_iff hx]
  cases hf : x.journal.finished with
  | false => rfl
  | true =>
    rcases turn_step (Indexed.reach h) hn hx' with ⟨y, hy, hm⟩ | ⟨hnone, -⟩
    · cases hx.symm.trans hy
      exact absurd (hC'.ended x' hx') (hm.not_ended (hC.ended x hx) hf hne)
    · exact nomatch hx.symm.trans hnone

namespace Sample

/-- A turn that asks, is answered and ends, with a client that polls it. -/
def asked : List Event :=
  [.start "a" "1", .read 0, .begin "a", .traced 0 .toolStarted, .poll 0 true,
    .postActions "a" "p" ["yes", "no"], .click 0 "p" "yes", .poll 0 true, .answered 0 "p" true,
    .post "a" .message, .finish 0 .replied 10, .poll 0 true]

/-- A click whose answer comes from another replica, after the turn was stopped. -/
def lateClick : List Event :=
  [.start "a" "1", .postActions "a" "p" ["yes", "no"], .click 0 "p" "yes", .finish 0 .stopped 10,
    .answered 0 "p" true]

/-- A flow that goes on after its turn was abandoned. -/
def lateTrace : List Event :=
  [.start "a" "1", .begin "a", .abandon 0 10, .traced 0 .toolStarted]

end Sample

/-- The client of a turn that asked has its whole journal. -/
theorem journal_contract_run : ∃ s : State, (lts Sample.forgetful).Reach (Timely 0) s ∧
    Contract 0 s ∧ s.readers.map (fun r => (r.cursor, r.got.length)) = [(6, 6)] := by
  have h : ((lts Sample.forgetful).check
      (fun s e => match e with
        | .traced .. | .answered .. | .finish .. => s.running 0
        | .abandon .. => false
        | _ => true) Sample.empty Sample.asked).any (fun s =>
        decide (s.readers.map (fun r => (r.cursor, r.got.length)) = [(6, 6)])) = true := by decide
  obtain ⟨s, hs, hq⟩ := (Option.any_eq_true _ _).1 h
  have hr : (lts Sample.forgetful).Reach (Timely 0) s := by
    refine Lts.reach_of_check (fun s e hc hl => ?_) rfl hs
    cases e with
    | traced => exact hc
    | answered => exact hc
    | finish => exact hc
    | abandon => exact nomatch hc
    | _ => exact hl.elim False.elim False.elim
  exact ⟨s, hr, (journal_contract 0).1 s hr, of_decide_eq_true hq⟩

/-- After `turn.finished` the journal goes on: with a click that had waited for its answer, and with
what the runtime reports to a flow that still runs. -/
theorem finished_not_last :
    (∃ s, (lts Sample.forgetful).Reach Lts.Any s ∧ s.turns.map (fun x =>
      x.journal.events.map TurnEvent.type) = [[.turnStarted, .actions, .turnFinished,
        .actionsRetired]]) ∧
    ∃ s, (lts Sample.forgetful).Reach Lts.Any s ∧ s.turns.map (fun x =>
      x.journal.events.map TurnEvent.type) = [[.turnStarted, .turnFinished, .toolStarted]] := by
  have h : ((lts Sample.forgetful).check (fun _ _ => true) Sample.empty Sample.lateClick).any
      (fun s => decide (s.turns.map (fun x => x.journal.events.map TurnEvent.type) =
        [[.turnStarted, .actions, .turnFinished, .actionsRetired]])) = true := by decide
  have h' : ((lts Sample.forgetful).check (fun _ _ => true) Sample.empty Sample.lateTrace).any
      (fun s => decide (s.turns.map (fun x => x.journal.events.map TurnEvent.type) =
        [[.turnStarted, .turnFinished, .toolStarted]])) = true := by decide
  obtain ⟨s, hs, hq⟩ := (Option.any_eq_true _ _).1 h
  obtain ⟨s', hs', hq'⟩ := (Option.any_eq_true _ _).1 h'
  exact ⟨⟨s, Lts.reach_of_check (fun _ _ _ => trivial) rfl hs, of_decide_eq_true hq⟩,
    s', Lts.reach_of_check (fun _ _ _ => trivial) rfl hs', of_decide_eq_true hq'⟩

end HttpTurns
