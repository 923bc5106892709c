import ImpiAgent.Runtimes.Session

/-!
# An answer belongs to its own turn

`Returned.Own`: what a prompt is answered with comes from the lines its turn was told, and each of
these that is of a run is of the run the prompt started.

A turn that ends with an answer ends on the last line of its run (`Process.Sound.last`), and one
that times out, stalls, overspends or fails takes the session with it. A call that is cancelled, or
left by an exception that is no `PiError`, does neither: its run may go on, and a later prompt sent
to the process is then answered with what that run says (`others_answer`). `answers_own` excludes a
prompt sent while the run of such a call has not been read to its end.
-/

namespace PiRpc

open Text (Str)

variable {s s' : State} {t : Turn} {p p' : Process} {l : Line} {n m : Nat}

/-- What a turn is after what it was told. -/
def Turn.play (t : Turn) (inputs : List Input) : Turn := inputs.foldl Turn.tell t

/-- The answer is made of what the turn was told, and that of its own run. -/
structure Returned.Own (x : Returned) : Prop where
  made : ((Turn.fresh x.prompt).play x.inputs).future = .result x.result
  own : ∀ l, .line l ∈ x.inputs → l.event.ofRun = true → l.run = x.prompt

/-- The run of a prompt is not over, or not read to its end. -/
def Process.Going (p : Process) (n : Nat) : Prop :=
  p.phase n = .written ∨ p.phase n = .accepted ∨ p.phase n = .begun ∨
    ∃ l ∈ p.out, l.run = n ∧ l.event.ofRun = true

/-- No prompt is sent to a process on which the run of a call that was cut off is going. -/
def Cleared (s : State) : Label → Prop
  | .begin => s.registered = true → s.poisoned = false → ∀ n ∈ s.cut, ¬s.process.Going n
  | _ => True

/-! ## A turn -/

namespace Turn

theorem settle_commandId (f : Future) : (t.settle f).commandId = t.commandId := by
  unfold settle
  split <;> rfl

theorem complete_commandId (e : Option (List Message)) :
    (t.complete e).commandId = t.commandId := by
  cases e with
  | none => exact settle_commandId _
  | some messages =>
    unfold complete
    dsimp only
    generalize (if strip t.textParts.flatten = [] then _ else _) = text
    split <;> exact settle_commandId _

theorem dispatch_commandId (e : PiEvent) : (t.dispatch e).commandId = t.commandId := by
  cases e with
  | response id success handled =>
    simp only [dispatch]
    split
    · exact settle_commandId _
    · split
      · exact complete_commandId _
      · rfl
  | toolExecutionStart tool =>
    have hr : (if t.textParts = [] then t else t.remark).commandId = t.commandId := by
      split <;> rfl
    cases tool with
    | none => exact hr
    | some name =>
      simp only [dispatch]
      split <;> exact hr
  | agentEnd messages willRetry => cases willRetry <;> rfl
  | agentSettled =>
    simp only [dispatch]
    split
    · exact settle_commandId _
    · exact complete_commandId _
  | _ => rfl

theorem endOrFail_commandId : t.endOrFail.commandId = t.commandId := by
  unfold endOrFail
  split
  · exact complete_commandId _
  · exact settle_commandId _

theorem tell_commandId (i : Input) : (t.tell i).commandId = t.commandId := by
  cases i with
  | line l => exact dispatch_commandId _
  | abort => rfl
  | eof => exact endOrFail_commandId
  | failed => exact settle_commandId _

/-- A failure is no answer. -/
theorem fail_result {r : PiResult} (h : t.fail.future = .result r) : t.future = .result r := by
  unfold fail settle at h
  split at h
  · cases h
  · exact h

/-- A line answers the turn only where its run is over or an extension took the prompt. -/
theorem dispatch_result {e : PiEvent} {r : PiResult} (h : (t.dispatch e).future = .result r) :
    t.future = .result r ∨ e = .agentSettled ∨ ∃ ok, e = .response t.commandId ok true := by
  cases e with
  | response id success handled =>
    simp only [dispatch] at h
    split at h
    · exact .inl (fail_result h)
    · split at h
      · rename_i hid
        exact .inr (.inr ⟨success, by rw [← hid.1, hid.2]⟩)
      · exact .inl h
  | toolExecutionStart tool =>
    have hr : (if t.textParts = [] then t else t.remark).future = t.future := by
      split <;> rfl
    cases tool with
    | none => exact .inl (hr.symm.trans h)
    | some name =>
      simp only [dispatch] at h
      split at h <;> exact .inl (hr.symm.trans h)
  | agentEnd messages willRetry => cases willRetry <;> exact .inl h
  | agentSettled => exact .inr (.inl rfl)
  | _ => exact .inl h

end Turn

/-! ## The process -/

namespace Process

/-- What a process has written of each prompt, by what has become of it. -/
structure Sound (p : Process) : Prop where
  lines : ∀ l ∈ p.out, l.event.ofRun = true → p.phase l.run = .begun ∨ p.phase l.run = .settled
  responses : ∀ k n ok h, ⟨k, .response n ok h⟩ ∈ p.out →
    p.phase n ≠ .unsent ∧ p.phase n ≠ .written ∧ (h = true → p.phase n = .handled)
  running : ∀ n, p.running = some n ↔ p.phase n = .begun
  last : ∀ n l₁ l₂, p.out = l₁ ++ ⟨n, .agentSettled⟩ :: l₂ →
    p.phase n = .settled ∧ ∀ l ∈ l₂, l.event.ofRun = true → l.run ≠ n

theorem fresh_sound : fresh.Sound :=
  ⟨nofun, nofun, fun _ => ⟨nofun, nofun⟩, fun _ l₁ _ h => by cases l₁ <;> cases h⟩

/-- Where a list that grew by one splits. -/
theorem append_singleton_split {α : Type} {l l₁ l₂ : List α} {a b : α}
    (h : l ++ [a] = l₁ ++ b :: l₂) :
    l₂ = [] ∧ b = a ∨ ∃ l₃, l₂ = l₃ ++ [a] ∧ l = l₁ ++ b :: l₃ := by
  rcases List.eq_nil_or_concat l₂ with rfl | ⟨l₃, c, rfl⟩
  · have := List.append_inj_right' h rfl
    cases this
    exact .inl ⟨rfl, rfl⟩
  · rw [List.concat_eq_append, ← List.cons_append, ← List.append_assoc] at h
    have hr := List.append_inj_right' h rfl
    cases hr
    exact .inr ⟨l₃, List.concat_eq_append, List.append_inj_left' h rfl⟩

variable {x : Phase}

theorem phase_mark : (p.mark n x).phase m = if m = n then x else p.phase m := by
  show Function.update p.phase n x m = _
  rw [Function.update_apply]

/-- Another prompt, as its phase is another. -/
theorem phase_mark_other {y : Phase} (hn : p.phase n = y) (hm : p.phase m ≠ y) :
    (p.mark n x).phase m = p.phase m := by
  rw [phase_mark, if_neg]
  rintro rfl
  exact hm hn

/-- The process answers a prompt it was sent. -/
theorem Sound.answer (h : p.Sound) (hn : p.phase n = .written) (ok hd : Bool)
    (hx : x ≠ .unsent ∧ x ≠ .written ∧ x ≠ .begun) (hh : hd = true → x = .handled) :
    ((p.mark n x).put n (.response n ok hd)).Sound := by
  have other {m : Nat} (hm : p.phase m ≠ .written) : (p.mark n x).phase m = p.phase m :=
    phase_mark_other hn hm
  refine ⟨fun l hl ho => ?_, fun k m ok' h' hl => ?_, fun m => ?_, fun m l₁ l₂ heq => ?_⟩
  · rcases List.mem_append.1 hl with hl | hl
    · have hp := h.lines l hl ho
      show (p.mark n x).phase l.run = _ ∨ (p.mark n x).phase l.run = _
      rw [other (by rcases hp with hp | hp <;> rw [hp] <;> nofun)]
      exact hp
    · cases List.mem_singleton.1 hl
      cases ho
  · show (p.mark n x).phase m ≠ _ ∧ (p.mark n x).phase m ≠ _ ∧ (_ → (p.mark n x).phase m = _)
    rcases List.mem_append.1 hl with hl | hl
    · have hp := h.responses k m ok' h' hl
      rw [other hp.2.1]
      exact hp
    · cases List.mem_singleton.1 hl
      rw [phase_mark, if_pos rfl]
      exact ⟨hx.1, hx.2.1, hh⟩
  · show p.running = some m ↔ (p.mark n x).phase m = .begun
    rw [phase_mark, h.running]
    by_cases hm : m = n
    · subst hm
      rw [if_pos rfl, hn]
      exact ⟨nofun, fun hb => absurd hb hx.2.2⟩
    · rw [if_neg hm]
  · rcases append_singleton_split heq with ⟨-, hb⟩ | ⟨l₃, rfl, hout⟩
    · cases hb
    · obtain ⟨hp, hl⟩ := h.last m l₁ l₃ hout
      refine ⟨?_, fun l hm ho => ?_⟩
      · show (p.mark n x).phase m = _
        rw [other (by rw [hp]; nofun), hp]
      · rcases List.mem_append.1 hm with hm | hm
        · exact hl l hm ho
        · cases List.mem_singleton.1 hm
          cases ho

theorem Sound.start (h : p.Sound) (hn : p.phase n = .accepted) (hr : p.running = none) :
    Sound { p.mark n .begun with running := some n } := by
  have other {m : Nat} (hm : p.phase m ≠ .accepted) : (p.mark n .begun).phase m = p.phase m :=
    phase_mark_other hn hm
  refine ⟨fun l hl ho => ?_, fun k m ok' h' hl => ?_, fun m => ?_, fun m l₁ l₂ heq => ?_⟩
  · have hp := h.lines l hl ho
    show (p.mark n .begun).phase l.run = _ ∨ (p.mark n .begun).phase l.run = _
    rw [other (by rcases hp with hp | hp <;> rw [hp] <;> nofun)]
    exact hp
  · have hp := h.responses k m ok' h' hl
    show (p.mark n .begun).phase m ≠ _ ∧ (p.mark n .begun).phase m ≠ _ ∧
      (_ → (p.mark n .begun).phase m = _)
    rw [phase_mark]
    split
    · rename_i hm
      refine ⟨nofun, nofun, fun hh => ?_⟩
      rw [hm, hn] at hp
      exact absurd (hp.2.2 hh) nofun
    · exact hp
  · show some n = some m ↔ (p.mark n .begun).phase m = .begun
    rw [phase_mark]
    split
    · rename_i hm
      simp [hm]
    · rename_i hm
      rw [← h.running, hr]
      exact ⟨fun heq => absurd (Option.some.inj heq).symm hm, nofun⟩
  · obtain ⟨hp, hl⟩ := h.last m l₁ l₂ heq
    refine ⟨?_, hl⟩
    show (p.mark n .begun).phase m = _
    rw [other (by rw [hp]; nofun), hp]

theorem Sound.emit (h : p.Sound) (hr : p.running = some n) {e : PiEvent} (he : e.ofRun = true)
    (hs : e ≠ .agentSettled) : (p.put n e).Sound := by
  have hn := (h.running n).1 hr
  refine ⟨fun l hl ho => ?_, fun k m ok' h' hl => ?_, h.running, fun m l₁ l₂ heq => ?_⟩
  · rcases List.mem_append.1 hl with hl | hl
    · exact h.lines l hl ho
    · cases List.mem_singleton.1 hl
      exact .inl hn
  · rcases List.mem_append.1 hl with hl | hl
    · exact h.responses k m ok' h' hl
    · cases List.mem_singleton.1 hl
      cases he
  · rcases append_singleton_split heq with ⟨-, hb⟩ | ⟨l₃, rfl, hout⟩
    · cases hb
      exact absurd rfl hs
    · obtain ⟨hp, hl⟩ := h.last m l₁ l₃ hout
      refine ⟨hp, fun l hm ho => ?_⟩
      rcases List.mem_append.1 hm with hm | hm
      · exact hl l hm ho
      · cases List.mem_singleton.1 hm
        rintro rfl
        rw [hn] at hp
        cases hp

theorem Sound.settle (h : p.Sound) (hr : p.running = some n) :
    Sound { (p.mark n .settled).put n .agentSettled with running := none } := by
  have hn := (h.running n).1 hr
  have other {m : Nat} (hm : p.phase m ≠ .begun) : (p.mark n .settled).phase m = p.phase m :=
    phase_mark_other hn hm
  have self : (p.mark n .settled).phase n = .settled := by
    rw [phase_mark, if_pos rfl]
  refine ⟨fun l hl ho => ?_, fun k m ok' h' hl => ?_, fun m => ?_, fun m l₁ l₂ heq => ?_⟩
  · show (p.mark n .settled).phase l.run = _ ∨ (p.mark n .settled).phase l.run = _
    rcases List.mem_append.1 hl with hl | hl
    · by_cases hm : l.run = n
      · rw [hm]
        exact .inr self
      · rw [phase_mark, if_neg hm]
        exact h.lines l hl ho
    · cases List.mem_singleton.1 hl
      exact .inr self
  · show (p.mark n .settled).phase m ≠ _ ∧ (p.mark n .settled).phase m ≠ _ ∧
      (_ → (p.mark n .settled).phase m = _)
    rcases List.mem_append.1 hl with hl | hl
    · have hp := h.responses k m ok' h' hl
      rw [phase_mark]
      split
      · rename_i hm
        refine ⟨nofun, nofun, fun hh => ?_⟩
        rw [hm, hn] at hp
        exact absurd (hp.2.2 hh) nofun
      · exact hp
    · cases List.mem_singleton.1 hl
  · show none = some m ↔ (p.mark n .settled).phase m = .begun
    rw [phase_mark]
    split
    · exact ⟨nofun, nofun⟩
    · rename_i hm
      rw [← h.running, hr]
      exact ⟨nofun, fun heq => absurd (Option.some.inj heq).symm hm⟩
  · show (p.mark n .settled).phase m = _ ∧ _
    rcases append_singleton_split heq with ⟨rfl, hb⟩ | ⟨l₃, rfl, hout⟩
    · cases hb
      exact ⟨self, nofun⟩
    · obtain ⟨hp, hl⟩ := h.last m l₁ l₃ hout
      refine ⟨by rw [other (by rw [hp]; nofun), hp], fun l hm ho => ?_⟩
      rcases List.mem_append.1 hm with hm | hm
      · exact hl l hm ho
      · cases List.mem_singleton.1 hm
        rintro rfl
        rw [hn] at hp
        cases hp

theorem Sound.move (h : p.Sound) {m : Move} (hm : p.move m = some p') : p'.Sound := by
  cases m with
  | accept n =>
    simp only [Process.move] at hm
    split at hm <;> cases hm
    exact h.answer ‹_› true false ⟨nofun, nofun, nofun⟩ nofun
  | refuse n =>
    simp only [Process.move] at hm
    split at hm <;> cases hm
    exact h.answer ‹_› false false ⟨nofun, nofun, nofun⟩ nofun
  | handle n =>
    simp only [Process.move] at hm
    split at hm <;> cases hm
    exact h.answer ‹_› true true ⟨nofun, nofun, nofun⟩ fun _ => rfl
  | start n =>
    simp only [Process.move] at hm
    split at hm <;> cases hm
    rename_i hn
    exact h.start hn.1 hn.2
  | emit e =>
    simp only [Process.move] at hm
    split at hm
    · split at hm <;> cases hm
      rename_i hr he
      exact h.emit hr he.1 he.2
    · cases hm
  | settle =>
    simp only [Process.move] at hm
    split at hm <;> cases hm
    exact h.settle ‹_›

/-- A line is read. -/
theorem Sound.read (h : p.Sound) {out : List Line} (ho : p.out = l :: out) :
    Sound { p with out } := by
  refine ⟨fun l' hl => h.lines l' ?_, fun k n ok hd hl => h.responses k n ok hd ?_, h.running,
    fun n l₁ l₂ heq => h.last n (l :: l₁) l₂ ?_⟩
  · exact ho ▸ List.mem_cons_of_mem _ hl
  · exact ho ▸ List.mem_cons_of_mem _ hl
  · rw [ho, List.cons_append, ← heq]

/-- A prompt is written. -/
theorem Sound.write (h : p.Sound) (hn : p.phase n = .unsent) : (p.mark n .written).Sound := by
  have other {m : Nat} (hm : p.phase m ≠ .unsent) : (p.mark n .written).phase m = p.phase m :=
    phase_mark_other hn hm
  refine ⟨fun l hl ho => ?_, fun k m ok hd hl => ?_, fun m => ?_, fun m l₁ l₂ heq => ?_⟩
  · have hp := h.lines l hl ho
    rw [other (by rcases hp with hp | hp <;> rw [hp] <;> nofun)]
    exact hp
  · have hp := h.responses k m ok hd hl
    rw [other hp.1]
    exact hp
  · show p.running = some m ↔ _
    rw [phase_mark, h.running]
    by_cases hm : m = n
    · subst hm
      rw [if_pos rfl, hn]
      exact ⟨nofun, nofun⟩
    · rw [if_neg hm]
  · obtain ⟨hp, hl⟩ := h.last m l₁ l₂ heq
    exact ⟨by rw [other (by rw [hp]; nofun), hp], hl⟩

/-- The process has nothing to do with a prompt it was not sent. -/
theorem Sound.unsent (hs : p.Sound) {mv : Move} (hm : p.move mv = some p')
    (h : p.phase n = .unsent) : p'.phase n = .unsent := by
  have other {k : Nat} {x y : Phase} (hk : p.phase k = y) (hy : y ≠ .unsent) :
      (p.mark k x).phase n = .unsent :=
    (phase_mark_other hk (h ▸ hy.symm)).trans h
  cases mv with
  | accept k | refuse k | handle k =>
    simp only [Process.move] at hm
    split at hm <;> cases hm
    rename_i hk
    exact other hk (by simp)
  | start k =>
    simp only [Process.move] at hm
    split at hm <;> cases hm
    rename_i hk
    exact other hk.1 (by simp)
  | emit e =>
    simp only [Process.move] at hm
    split at hm
    · split at hm <;> cases hm
      exact h
    · cases hm
  | settle =>
    simp only [Process.move] at hm
    split at hm <;> cases hm
    exact other ((hs.running _).1 ‹_›) (by simp)

/-- A run that is over stays so. -/
theorem Going.of_move (hs : p.Sound) {mv : Move} (hm : p.move mv = some p') (h : p'.Going n) :
    p.Going n := by
  have answered {k : Nat} {x : Phase} {e : PiEvent} (hk : p.phase k = .written)
      (he : e.ofRun = false) (h : ((p.mark k x).put k e).Going n) : p.Going n := by
    unfold Going at h
    by_cases hn : n = k
    · exact .inl (hn ▸ hk)
    · have hp : ((p.mark k x).put k e).phase n = p.phase n := (phase_mark).trans (if_neg hn)
      rw [hp] at h
      refine h.imp_right (.imp_right (.imp_right ?_))
      rintro ⟨l, hl, hrun, ho⟩
      rcases List.mem_append.1 hl with hl | hl
      · exact ⟨l, hl, hrun, ho⟩
      · cases List.mem_singleton.1 hl
        rw [he] at ho
        cases ho
  cases mv with
  | accept k | refuse k | handle k =>
    simp only [Process.move] at hm
    split at hm <;> cases hm
    exact answered ‹_› rfl h
  | start k =>
    simp only [Process.move] at hm
    split at hm <;> cases hm
    rename_i hk
    by_cases hn : n = k
    · exact .inr (.inl (hn ▸ hk.1))
    · unfold Going at h
      have hp : (p.mark k .begun).phase n = p.phase n := (phase_mark).trans (if_neg hn)
      simp only [hp] at h
      exact h
  | emit e =>
    simp only [Process.move] at hm
    split at hm
    · rename_i k hk
      split at hm <;> cases hm
      refine h.imp_right (.imp_right ?_)
      rintro (hb | ⟨l, hl, hrun, ho⟩)
      · exact .inl hb
      · rcases List.mem_append.1 hl with hl | hl
        · exact .inr ⟨l, hl, hrun, ho⟩
        · cases List.mem_singleton.1 hl
          exact .inl (hrun ▸ (hs.running k).1 hk)
    · cases hm
  | settle =>
    simp only [Process.move] at hm
    split at hm <;> cases hm
    rename_i k hk
    have hb := (hs.running k).1 hk
    by_cases hn : n = k
    · exact .inr (.inr (.inl (hn ▸ hb)))
    · unfold Going at h
      have hp : (p.mark k .settled).phase n = p.phase n := (phase_mark).trans (if_neg hn)
      have h' : p.phase n = .written ∨ p.phase n = .accepted ∨ p.phase n = .begun ∨
          ∃ l ∈ p.out ++ [⟨k, .agentSettled⟩], l.run = n ∧ l.event.ofRun = true := by
        rw [← hp]
        exact h
      refine h'.imp_right (.imp_right (.imp_right ?_))
      rintro ⟨l, hl, hrun, ho⟩
      rcases List.mem_append.1 hl with hl | hl
      · exact ⟨l, hl, hrun, ho⟩
      · cases List.mem_singleton.1 hl
        exact absurd hrun.symm hn

theorem Going.of_read {out : List Line} (ho : p.out = l :: out)
    (h : Process.Going { p with out } n) : p.Going n := by
  refine h.imp_right (.imp_right (.imp_right ?_))
  rintro ⟨l', hl, hl'⟩
  exact ⟨l', ho ▸ List.mem_cons_of_mem _ hl, hl'⟩

theorem not_going (hp : p.phase n = .settled ∨ p.phase n = .handled)
    (hl : ∀ l ∈ p.out, l.event.ofRun = true → l.run ≠ n) : ¬p.Going n := by
  rintro (hg | hg | hg | ⟨l, hm, hrun, ho⟩)
  · rcases hp with hp | hp <;> cases hp.symm.trans hg
  · rcases hp with hp | hp <;> cases hp.symm.trans hg
  · rcases hp with hp | hp <;> cases hp.symm.trans hg
  · exact hl l hm ho hrun

end Process

/-! ## The invariant -/

/-- A turn in flight: its own run is all there is to read, and an answer ends it. -/
structure InFlight (s : State) (t : Turn) : Prop where
  drawn : t.commandId < s.drawn
  made : t = (Turn.fresh t.commandId).play s.inputs
  own : ∀ l, .line l ∈ s.inputs → l.event.ofRun = true → l.run = t.commandId
  alone : s.reading = true → ∀ n, s.process.Going n → n = t.commandId
  sending : s.point = .sending → s.process.phase t.commandId = .unsent ∧ t.lastAgentEnd = none ∧
    ∀ r, t.future ≠ .result r
  ended : ∀ r, t.future = .result r → s.reading = true → ¬s.process.Going t.commandId

/-- The call is inside `_run_turn`. -/
def Point.inTurn : Point → Bool
  | .sending | .waiting | .aborting => true
  | .idle | .dropping => false

structure Inv (s : State) : Prop where
  sound : s.process.Sound
  point : s.turn.isSome = s.point.inTurn
  unsent : ∀ n, s.drawn ≤ n → s.process.phase n = .unsent
  idle : s.turn = none → s.registered = true → s.poisoned = false → s.reading = true →
    ∀ n, s.process.Going n → n ∈ s.cut
  turn : ∀ t, s.turn = some t → InFlight s t
  returned : ∀ x ∈ s.returned, x.Own

theorem Turn.play_snoc (inputs : List Input) (i : Input) :
    t.play (inputs ++ [i]) = (t.play inputs).tell i := by
  simp [play]

theorem dispatch_other {id : Nat} {ok hd : Bool} (h : id ≠ t.commandId) :
    t.dispatch (.response id ok hd) = t := by
  simp [Turn.dispatch, h]

theorem InFlight.line (h : InFlight s t) (hs : s.process.Sound) {out : List Line}
    (ho : s.process.out = l :: out) (hr : s.reading = true) :
    InFlight ({ s with process := { s.process with out } }.tell (.line l)) (t.dispatch l.event) := by
  have hl : l ∈ s.process.out := ho ▸ List.mem_cons_self
  have hown (hf : l.event.ofRun = true) : l.run = t.commandId :=
    h.alone hr _ (.inr (.inr (.inr ⟨l, hl, rfl, hf⟩)))
  have hid := t.dispatch_commandId l.event
  have going (n : Nat) (hg : Process.Going { s.process with out } n) : s.process.Going n :=
    hg.of_read ho
  refine ⟨hid ▸ h.drawn, ?_, fun l' hl' hf => ?_, fun hr n hg => ?_, fun hp => ?_,
    fun r hres _ hg => ?_⟩
  · show _ = (Turn.fresh _).play (s.inputs ++ [.line l])
    rw [hid, Turn.play_snoc, ← h.made]
    rfl
  · rw [hid]
    rcases List.mem_append.1 hl' with hl' | hl'
    · exact h.own l' hl' hf
    · cases List.mem_singleton.1 hl'
      exact hown hf
  · rw [hid]
    exact h.alone hr n (going n hg)
  · obtain ⟨hu, hend, hres⟩ := h.sending hp
    have same : t.dispatch l.event = t := by
      cases he : l.event with
      | response id ok hd =>
        refine dispatch_other fun heq => ?_
        obtain ⟨run, event⟩ := l
        cases he
        exact (hs.responses run id ok hd hl).1 (heq ▸ hu)
      | _ =>
        have hf : l.event.ofRun = true := by rw [he]; rfl
        have hph := hs.lines l hl hf
        rw [hown hf, hu] at hph
        rcases hph with hph | hph <;> cases hph
    rw [same]
    exact ⟨hu, hend, hres⟩
  · rw [hid] at hg
    rcases Turn.dispatch_result hres with hres | hset | ⟨ok, hresp⟩
    · exact h.ended r hres hr (going _ hg)
    · -- the last line of the run
      have hf : l.event.ofRun = true := by rw [hset]; rfl
      have hline : l = ⟨t.commandId, .agentSettled⟩ := by
        rw [← hown hf, ← hset]
      obtain ⟨hph, hrest⟩ := hs.last t.commandId [] out (by rw [ho, hline]; rfl)
      exact Process.not_going (p := { s.process with out }) (.inl hph) hrest hg
    · obtain ⟨run, event⟩ := l
      cases hresp
      have hph := (hs.responses run _ ok true hl).2.2 rfl
      refine Process.not_going (p := { s.process with out }) (.inr hph) (fun l' hl' hf hrun => ?_) hg
      have hbegun := hs.lines l' (ho ▸ List.mem_cons_of_mem _ hl') hf
      rw [hrun, hph] at hbegun
      rcases hbegun with hb | hb <;> cases hb

theorem Turn.tell_result {i : Input} {r : PiResult} (hi : ∀ l, i ≠ .line l) (he : i ≠ .eof)
    (h : (t.tell i).future = .result r) : t.future = .result r := by
  cases i with
  | line l => exact absurd rfl (hi l)
  | abort => exact h
  | eof => exact absurd rfl he
  | failed => exact fail_result h

/-- A turn with no run behind it is not answered by an end of the output. -/
theorem Turn.tell_unanswered {i : Input} (hi : ∀ l, i ≠ .line l) (hend : t.lastAgentEnd = none)
    (hres : ∀ r, t.future ≠ .result r) :
    (t.tell i).lastAgentEnd = none ∧ ∀ r, (t.tell i).future ≠ .result r := by
  have failed : t.fail.lastAgentEnd = none ∧ ∀ r, t.fail.future ≠ .result r := by
    refine ⟨?_, fun r h => hres r (fail_result h)⟩
    unfold fail settle
    split <;> exact hend
  cases i with
  | line l => exact absurd rfl (hi l)
  | abort => exact ⟨hend, hres⟩
  | eof =>
    simp only [tell, endOrFail, hend]
    exact failed
  | failed => exact failed

theorem InFlight.note (h : InFlight s t) {i : Input} (hi : ∀ l, i ≠ .line l) (rd : Bool)
    (hrd : rd = true → s.reading = true ∧ i ≠ .eof) :
    InFlight { s.tell i with reading := rd } (t.tell i) := by
  have hid := Turn.tell_commandId (t := t) i
  refine ⟨hid ▸ h.drawn, ?_, fun l hl hf => ?_, fun hr n hg => ?_, fun hp => ?_,
    fun r hres hr => ?_⟩
  · show _ = (Turn.fresh _).play (s.inputs ++ [i])
    rw [hid, Turn.play_snoc, ← h.made]
  · rw [hid]
    rcases List.mem_append.1 hl with hl | hl
    · exact h.own l hl hf
    · exact absurd (List.mem_singleton.1 hl).symm (hi l)
  · rw [hid]
    exact h.alone (hrd hr).1 n hg
  · obtain ⟨hu, hend, hres⟩ := h.sending hp
    rw [hid]
    exact ⟨hu, Turn.tell_unanswered hi hend hres⟩
  · rw [hid]
    exact h.ended r (Turn.tell_result hi (hrd hr).2 hres) (hrd hr).1

/-- A turn that begins where nothing is left to read. -/
theorem inFlight_runTurn (hu : s.process.phase s.drawn = .unsent)
    (hg : s.reading = true → ∀ n, ¬s.process.Going n) :
    InFlight s.runTurn (Turn.fresh s.drawn) :=
  ⟨Nat.lt_succ_self _, rfl, nofun, fun hr n h => absurd h (hg hr n), fun _ => ⟨hu, rfl, nofun⟩,
    nofun⟩

namespace Inv

/-- Nothing but the turn is told. -/
theorem note (h : Inv s) {i : Input} (hi : ∀ l, i ≠ .line l) (rd : Bool)
    (hrd : rd = true → s.reading = true ∧ i ≠ .eof) : Inv { s.tell i with reading := rd } := by
  refine ⟨h.sound, ?_, h.unsent, fun ht hr hp hread => ?_, fun t ht => ?_, h.returned⟩
  · show (s.turn.map _).isSome = _
    rw [Option.isSome_map]
    exact h.point
  · exact h.idle (Option.map_eq_none_iff.1 ht) hr hp (hrd hread).1
  · obtain ⟨t₀, ht₀, rfl⟩ := Option.map_eq_some_iff.1 ht
    exact (h.turn t₀ ht₀).note hi rd hrd

/-- The process goes on, and nothing that was over is going again. -/
theorem process (h : Inv s) (hs : p.Sound) (hg : ∀ n, p.Going n → s.process.Going n)
    (hu : ∀ n, s.process.phase n = .unsent → p.phase n = .unsent) :
    Inv { s with process := p } := by
  refine ⟨hs, h.point, fun n hn => hu n (h.unsent n hn),
    fun ht hr hp hread n hn => h.idle ht hr hp hread n (hg n hn), fun t ht => ?_, h.returned⟩
  have hf := h.turn t ht
  exact ⟨hf.drawn, hf.made, hf.own, fun hr n hn => hf.alone hr n (hg n hn),
    fun hp => ⟨hu _ (hf.sending hp).1, (hf.sending hp).2⟩,
    fun r hres hr hn => hf.ended r hres hr (hg _ hn)⟩

/-- The call leaves, and the session with it. -/
theorem raise (h : Inv s) : Inv s.raise := by
  refine ⟨h.sound, ?_, h.unsent, nofun, nofun, h.returned⟩
  show false = (if s.registered then Point.dropping else .idle).inTurn
  split <;> rfl

/-- The call leaves, and the session stays: its run may go on. -/
theorem cutOff (h : Inv s) : Inv s.cutOff := by
  refine ⟨h.sound, rfl, h.unsent, fun _ hr hp hread n hn => List.mem_append.2 ?_, nofun, h.returned⟩
  cases ht : s.turn with
  | none => exact .inl (h.idle ht hr hp hread n hn)
  | some t =>
    refine .inr ?_
    rw [(h.turn t ht).alone hread n hn]
    exact List.mem_singleton_self _

theorem runTurn (h : Inv s) (hg : s.reading = true → ∀ n, ¬s.process.Going n) :
    Inv s.runTurn := by
  refine ⟨h.sound, rfl, fun n hn => h.unsent n (Nat.le_of_succ_le hn), nofun, fun t ht => ?_,
    h.returned⟩
  cases ht
  exact inFlight_runTurn (h.unsent _ (Nat.le_refl _)) hg

theorem fresh_not_going : ¬Process.fresh.Going n := by
  rintro (h | h | h | ⟨l, hl, -⟩)
  · cases h
  · cases h
  · cases h
  · exact absurd hl List.not_mem_nil

theorem respawn (h : Inv s) (hp : s.turn.isSome = false) : Inv s.respawn :=
  ⟨Process.fresh_sound, hp.symm.trans h.point, fun _ _ => rfl,
    fun _ _ _ _ _ hn => absurd hn fresh_not_going, nofun, h.returned⟩

/-- The prompt is written. -/
theorem write (h : Inv s) (ht : s.turn = some t) (hp : s.point = .sending) :
    Inv { s with process := s.process.mark t.commandId .written, point := .waiting } := by
  have hf := h.turn t ht
  obtain ⟨hu, -, hres⟩ := hf.sending hp
  have going (n : Nat) (hn : (s.process.mark t.commandId .written).Going n) :
      n = t.commandId ∨ s.process.Going n := by
    by_cases hne : n = t.commandId
    · exact .inl hne
    · unfold Process.Going at hn
      rw [Process.phase_mark, if_neg hne] at hn
      exact .inr hn
  refine ⟨h.sound.write hu, ?_, fun n hn => ?_, fun hn => ?_, fun t' ht' => ?_, h.returned⟩
  · show s.turn.isSome = true
    rw [ht]
    rfl
  · have hd : s.drawn ≤ n := hn
    have := hf.drawn
    rw [Process.phase_mark, if_neg (by omega)]
    exact h.unsent n hd
  · cases hn.symm.trans ht
  · cases ht'.symm.trans ht
    exact ⟨hf.drawn, hf.made, hf.own, fun hr n hn => (going n hn).elim id (hf.alone hr n),
      nofun, fun r hr => absurd hr (hres r)⟩

/-- The turn is over with an answer, and so is its run. -/
theorem answered (h : Inv s) (ht : s.turn = some t) {r : PiResult} (hr : t.future = .result r) :
    Inv { s with
      turn := none, point := .idle, returned := s.returned ++ [⟨t.commandId, r, s.inputs⟩] } := by
  have hf := h.turn t ht
  refine ⟨h.sound, rfl, h.unsent, fun _ _ _ hread n hn => ?_, nofun, fun x hx => ?_⟩
  · have heq := hf.alone hread n hn
    exact absurd (heq ▸ hn) (hf.ended r hr hread)
  · rcases List.mem_append.1 hx with hx | hx
    · exact h.returned x hx
    · cases List.mem_singleton.1 hx
      exact ⟨hf.made ▸ hr, hf.own⟩

theorem read (h : Inv s) {out : List Line} (ho : s.process.out = l :: out) (hr : s.reading = true) :
    Inv ({ s with process := { s.process with out } }.tell (.line l)) := by
  refine ⟨h.sound.read ho, ?_, h.unsent, fun ht hreg hp hread n hn => ?_, fun t ht => ?_, h.returned⟩
  · show (s.turn.map _).isSome = _
    rw [Option.isSome_map]
    exact h.point
  · exact h.idle (Option.map_eq_none_iff.1 ht) hreg hp hread n (Process.Going.of_read ho hn)
  · obtain ⟨t₀, ht₀, rfl⟩ := Option.map_eq_some_iff.1 ht
    exact (h.turn t₀ ht₀).line h.sound ho hr

theorem next (h : Inv s) {e : Label} (hc : Cleared s e) (hn : PiRpc.next s e = some s') : Inv s' := by
  have untold {i : Input} (hi : ∀ l, i ≠ .line l) (he : i ≠ .eof) : Inv (s.tell i) :=
    h.note hi s.reading fun hr => ⟨hr, he⟩
  cases e with
  | begin =>
    simp only [PiRpc.next] at hn
    split at hn
    · rename_i hp
      have hturn : s.turn.isSome = false := h.point.trans (by rw [hp]; rfl)
      split at hn
      · rename_i hreg
        split at hn <;> cases hn
        · exact h.raise
        · rename_i hno
          have hpois : s.poisoned = false := Bool.eq_false_iff.2 fun hb => hno (.inr hb)
          refine h.runTurn fun hread n hg => hc hreg hpois n ?_ hg
          exact h.idle (Option.isNone_iff_eq_none.1 (by simpa using hturn)) hreg hpois hread n hg
      · cases hn
        exact (h.respawn hturn).runTurn fun _ _ => fresh_not_going
    · cases hn
  | write =>
    simp only [PiRpc.next] at hn
    split at hn <;> cases hn
    exact h.write ‹_› ‹_›
  | sendRaised =>
    simp only [PiRpc.next] at hn
    split at hn <;> cases hn
    exact h.cutOff
  | ended =>
    simp only [PiRpc.next] at hn
    split at hn
    · split at hn <;> cases hn
      · exact h.answered ‹_› ‹_›
      · exact h.raise
    · cases hn
  | expire =>
    simp only [PiRpc.next] at hn
    split at hn
    · split at hn <;> cases hn
      have hi : Inv (s.tell .abort) := untold nofun nofun
      rename_i t ht _
      refine ⟨hi.sound, ?_, hi.unsent, fun hnone => ?_, fun t' ht' => ?_, hi.returned⟩
      · show (s.turn.map _).isSome = true
        rw [ht]
        rfl
      · cases (Option.map_eq_none_iff.1 hnone).symm.trans ht
      · have hf := hi.turn t' ht'
        exact ⟨hf.drawn, hf.made, hf.own, hf.alone, nofun, hf.ended⟩
    · cases hn
  | aborted =>
    simp only [PiRpc.next] at hn
    split at hn <;> cases hn
    exact h.raise
  | cancelled =>
    simp only [PiRpc.next] at hn
    split at hn <;> cases hn
    exact h.cutOff
  | dropped =>
    simp only [PiRpc.next] at hn
    split at hn <;> cases hn
    rename_i hp
    have hturn : s.turn.isSome = false := h.point.trans (by rw [hp]; rfl)
    refine ⟨h.sound, hturn, h.unsent, h.idle, fun t ht => ?_, h.returned⟩
    rw [show s.turn = some t from ht] at hturn
    cases hturn
  | abort =>
    simp only [PiRpc.next] at hn
    split at hn <;> cases hn
    exact untold nofun nofun
  | drop =>
    simp only [PiRpc.next] at hn
    split at hn <;> cases hn
    refine ⟨h.sound, h.point, h.unsent, nofun, fun t ht => ?_, h.returned⟩
    have hf := h.turn t ht
    exact ⟨hf.drawn, hf.made, hf.own, hf.alone, hf.sending, hf.ended⟩
  | closed =>
    simp only [PiRpc.next] at hn
    split at hn <;> cases hn
    exact h.note (i := .eof) nofun false nofun
  | read =>
    simp only [PiRpc.next] at hn
    split at hn
    · split at hn <;> cases hn
      exact h.read ‹_› ‹_›
    · cases hn
  | eof =>
    simp only [PiRpc.next] at hn
    split at hn <;> cases hn
    exact h.note (i := .eof) nofun false nofun
  | stale =>
    simp only [PiRpc.next] at hn
    split at hn <;> cases hn
    exact untold nofun nofun
  | process m =>
    simp only [PiRpc.next] at hn
    obtain ⟨p, hm, rfl⟩ := Option.map_eq_some_iff.1 hn
    exact h.process (h.sound.move hm) (fun n hg => Process.Going.of_move h.sound hm hg)
      fun n hu => h.sound.unsent hm hu

end Inv

theorem inv (h : session.Reach Cleared s) : Inv s := by
  refine h.inv (fun s hs => ?_) fun s e s' hi hc hn => hi.next hc hn
  subst hs
  exact ⟨Process.fresh_sound, rfl, fun _ _ => rfl, nofun, nofun, nofun⟩

/-- In every run where no prompt is sent to a process on which the run of a call that was cut off is
going, every answer is made of its own run. -/
theorem answers_own (s : State) (h : session.Reach Cleared s) : ∀ x ∈ s.returned, x.Own :=
  (inv h).returned

namespace Sample

/-- A call with its prompt `n` written, taken and begun. -/
def ask (n : Nat) : List Label :=
  [.begin, .write, .process (.accept n), .process (.start n)]

/-- The run writes a text and ends. -/
def say (text : Str) : List Label :=
  [.process (.emit (.messageUpdate (some text))), .process (.emit (.agentEnd [] false)),
    .process .settle]

def answer (x : Returned) : Nat × Str := (x.prompt, x.result.text)

/-- The conversation goes on after a cancelled call whose run was read to its end. -/
def waited : List Label :=
  ask 0 ++ [.cancelled] ++ say (Text.str "one") ++ [.read, .read, .read, .read] ++ ask 1 ++
    say (Text.str "two") ++ [.read, .read, .read, .read, .ended]

/-- It goes on at once. -/
def hurried : List Label :=
  ask 0 ++ [.cancelled, .begin, .write, .process (.accept 1)] ++ say (Text.str "one") ++
    [.read, .read, .read, .read, .read, .ended]

def cleared (s : State) : Label → Bool
  | .begin => !s.registered || s.poisoned || s.cut.all fun n =>
      s.process.phase n ≠ .written && s.process.phase n ≠ .accepted && s.process.phase n ≠ .begun &&
        s.process.out.all fun l => l.run ≠ n || !l.event.ofRun
  | _ => true

theorem cleared_of_cleared {e : Label} (h : cleared s e = true) : Cleared s e := by
  cases e with
  | begin =>
    intro hr hp n hn
    simp only [cleared, hr, hp, Bool.not_true, Bool.false_or, List.all_eq_true, Bool.and_eq_true,
      decide_eq_true_eq] at h
    obtain ⟨⟨⟨hw, ha⟩, hb⟩, hl⟩ := h n hn
    rintro (hg | hg | hg | ⟨l, hm, hrun, ho⟩)
    · exact hw hg
    · exact ha hg
    · exact hb hg
    · simpa [hrun, ho] using hl l hm
  | _ => trivial

end Sample

theorem answers_own_run : ∃ s, session.Reach Cleared s ∧ (∀ x ∈ s.returned, x.Own) ∧
    s.returned.map Sample.answer = [(1, Text.str "two")] := by
  have hev : (session.check Sample.cleared State.start Sample.waited).any
      (fun s => s.returned.map Sample.answer = [(1, Text.str "two")]) = true := by decide
  obtain ⟨s, hs, hobs⟩ := (Option.any_eq_true _ _).1 hev
  have hreach := Lts.reach_of_check (L := session) (C := Cleared)
    (fun _ _ => Sample.cleared_of_cleared) rfl hs
  exact ⟨s, hreach, answers_own s hreach, of_decide_eq_true hobs⟩

/-- The second prompt is answered with what the first one's run says. -/
theorem others_answer : ∃ s, session.Reach Lts.Any s ∧
    s.returned.map Sample.answer = [(1, Text.str "one")] ∧ ¬∀ x ∈ s.returned, x.Own := by
  have hev : (session.check (fun _ _ => true) State.start Sample.hurried).any
      (fun s => s.returned.map Sample.answer = [(1, Text.str "one")] &&
        s.returned.all fun x => x.inputs.contains (.line ⟨0, .agentSettled⟩)) = true := by decide
  obtain ⟨s, hs, hobs⟩ := (Option.any_eq_true _ _).1 hev
  have hreach := Lts.reach_of_check (L := session) (C := Lts.Any) (fun _ _ _ => trivial) rfl hs
  rw [Bool.and_eq_true, decide_eq_true_eq, List.all_eq_true] at hobs
  refine ⟨s, hreach, hobs.1, fun h => ?_⟩
  have hm : (1, Text.str "one") ∈ s.returned.map Sample.answer := by
    rw [hobs.1]
    exact List.mem_singleton_self _
  obtain ⟨x, hx, hans⟩ := List.mem_map.1 hm
  have hprompt : x.prompt = 1 := congrArg Prod.fst hans
  have hrun := (h x hx).own _ (List.contains_iff_mem.1 (hobs.2 x hx)) rfl
  rw [hprompt] at hrun
  cases hrun

end PiRpc
