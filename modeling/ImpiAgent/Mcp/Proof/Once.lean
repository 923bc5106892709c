import ImpiAgent.Mcp.Proof.Careful

/-!
# A call runs at most once

A line cut short is one its process was not handed all of: such a request never runs (`World.Dead`),
and once it is dead it stays so (`World.Grows.dead`). In every run in which no input closes on a line
it has taken all of, while that line's writer still waits (`Kept`), what the monitor knows of a task
is true of the world (`Tracks`), so only the last of its requests may have run (`runs_once`). Where an
input does close so, the writer is told its line was lost, and the call is sent again (`ran_twice`).
-/

namespace Mcp

open Prog

/-! ## One process -/

namespace Process

variable {p p' : Process}

/-- The lines a process has not been handed all of. -/
def pending (p : Process) : List Nat := p.buffer.map Prod.fst

/-- Lines are numbered as they are written, and a closed input holds nothing. -/
structure Sound (p : Process) : Prop where
  pending : ∀ l ∈ p.pending, l < p.lines
  taken : ∀ l ∈ p.taken, l < p.lines
  draining : ∀ l ∈ p.draining, l < p.lines
  woken : ∀ x ∈ p.woken, x.1 < p.lines
  closed : p.lost = true → p.buffer = []

/-- A process is handed what it was still to be handed, or what is newly written. -/
structure Grows (p p' : Process) : Prop where
  lines : p.lines ≤ p'.lines
  taken : ∀ l ∈ p'.taken, l ∈ p.taken ∨ l ∈ p.pending ∨ p.lines ≤ l
  pending : ∀ l ∈ p'.pending, l ∈ p.pending ∨ p.lines ≤ l

theorem Grows.refl (p : Process) : p.Grows p := ⟨le_rfl, fun _ => .inl, fun _ => .inl⟩

/-- No writer is told anew that its line was lost. -/
def Spares (p p' : Process) : Prop := ∀ l, (l, false) ∈ p'.woken → (l, false) ∈ p.woken

theorem sound_start : start.Sound :=
  ⟨nofun, nofun, nofun, nofun, nofun⟩

/-- A line is new, and is taken, or waits to be. -/
structure Wrote (p p' : Process) (line : Nat) : Prop where
  line : line = p.lines
  lines : p'.lines = p.lines + 1
  lost : p.lost = false ∧ p'.lost = false
  woken : p'.woken = p.woken
  taken : ∀ l ∈ p'.taken, l ∈ p.taken ∨ l = p.lines
  pending : ∀ l ∈ p'.pending, l ∈ p.pending ∨ l = p.lines
  draining : ∀ l ∈ p'.draining, l ∈ p.draining ∨ l = p.lines

theorem write_cases {size now : Nat} {written : Written} (h : p.write size now = some (p', written)) :
    (p' = p ∧ written = .lost) ∨
      ∃ line, p.Wrote p' line ∧ (written = .passed line ∨ written = .waits line) := by
  unfold write at h
  split at h
  · cases h
    exact .inl ⟨rfl, rfl⟩
  next hlost =>
  have hlost : p.lost = false := by simpa using hlost
  split at h
  · cases h
  dsimp only at h
  have hpending : ∀ l ∈ (p.buffer ++ [(p.lines, size - now)]).map Prod.fst,
      l ∈ p.pending ∨ l = p.lines := by
    intro l hl
    rw [List.map_append] at hl
    exact (List.mem_append.1 hl).imp_right List.mem_singleton.1
  split at h
  · cases h
    exact .inr ⟨_, ⟨rfl, rfl, ⟨hlost, hlost⟩, rfl, fun l hl => (List.mem_cons.1 hl).symm,
      fun _ => .inl, fun _ => .inl⟩, .inl rfl⟩
  split at h
  · cases h
    exact .inr ⟨_, ⟨rfl, rfl, ⟨hlost, hlost⟩, rfl, fun _ => .inl, hpending,
      fun l hl => (List.mem_append.1 hl).imp_right List.mem_singleton.1⟩, .inr rfl⟩
  · cases h
    exact .inr ⟨_, ⟨rfl, rfl, ⟨hlost, hlost⟩, rfl, fun _ => .inl, hpending, fun _ => .inl⟩,
      .inl rfl⟩

theorem Wrote.grows {line : Nat} (h : p.Wrote p' line) : p.Grows p' := by
  refine ⟨by rw [h.lines]; exact Nat.le_succ _, fun l hl => ?_, fun l hl => ?_⟩
  · exact (h.taken l hl).imp_right fun he => .inr he.ge
  · exact (h.pending l hl).imp_right Eq.ge

theorem Wrote.sound {line : Nat} (h : p.Wrote p' line) (hs : p.Sound) : p'.Sound := by
  have hbound : ∀ {l : Nat}, l < p.lines ∨ l = p.lines → l < p'.lines := by
    rw [h.lines]
    omega
  refine ⟨fun l hl => hbound ((h.pending l hl).imp_left (hs.pending l)),
    fun l hl => hbound ((h.taken l hl).imp_left (hs.taken l)),
    fun l hl => hbound ((h.draining l hl).imp_left (hs.draining l)),
    fun x hx => hbound (.inl (hs.woken x (h.woken ▸ hx))), fun hl => ?_⟩
  rw [h.lost.2] at hl
  cases hl

theorem mem_takeBytes (buffer : List (Nat × Nat)) (n : Nat) :
    (∀ l ∈ (takeBytes n buffer).1, l ∈ buffer.map Prod.fst) ∧
      ∀ l ∈ (takeBytes n buffer).2.map Prod.fst, l ∈ buffer.map Prod.fst := by
  induction buffer generalizing n with
  | nil => exact ⟨nofun, nofun⟩
  | cons q buffer ih =>
    obtain ⟨line, size⟩ := q
    unfold takeBytes
    split
    · exact ⟨nofun, fun l hl => hl⟩
    · obtain ⟨hended, hleft⟩ := ih (n - size)
      exact ⟨fun l hl => (List.mem_cons.1 hl).elim (fun h => h ▸ List.mem_cons_self)
        fun h => List.mem_cons_of_mem _ (hended l h), fun l hl => List.mem_cons_of_mem _ (hleft l hl)⟩

theorem accept_grows (n : Nat) : p.Grows (p.accept n) ∧ p.Spares (p.accept n) ∧
    (p.accept n).lines = p.lines ∧ (p.Sound → (p.accept n).Sound) := by
  obtain ⟨hended, hleft⟩ := mem_takeBytes p.buffer n
  have htaken : ∀ l ∈ (takeBytes n p.buffer).1 ++ p.taken, l ∈ p.taken ∨ l ∈ p.pending := fun l hl =>
    (List.mem_append.1 hl).symm.imp_right (hended l)
  have hclosed : p.Sound → p.lost = true → (takeBytes n p.buffer).2 = [] := fun hs hl => by
    rw [hs.closed hl]
    rfl
  unfold accept
  dsimp only
  split
  · refine ⟨⟨le_rfl, fun l hl => (htaken l hl).imp_right .inl, fun l hl => .inl (hleft l hl)⟩,
      fun l hl => ?_, rfl, fun hs => ⟨fun l hl => hs.pending l (hleft l hl),
        fun l hl => (htaken l hl).elim (hs.taken l) (hs.pending l), nofun, fun x hx => ?_,
        hclosed hs⟩⟩
    · refine (List.mem_append.1 hl).elim id fun hl => ?_
      obtain ⟨_, _, he⟩ := List.mem_map.1 hl
      cases he
    · rcases List.mem_append.1 hx with hx | hx
      · exact hs.woken x hx
      · obtain ⟨l, hl, rfl⟩ := List.mem_map.1 hx
        exact hs.draining l hl
  · exact ⟨⟨le_rfl, fun l hl => (htaken l hl).imp_right .inl, fun l hl => .inl (hleft l hl)⟩,
      fun l => id, rfl, fun hs => ⟨fun l hl => hs.pending l (hleft l hl),
        fun l hl => (htaken l hl).elim (hs.taken l) (hs.pending l), hs.draining, hs.woken,
        hclosed hs⟩⟩

/-- A line of old that is neither handed over nor to be is not handed over later. -/
theorem Grows.spared {l : Nat} (h : p.Grows p') (hl : l < p.lines)
    (hs : l ∉ p.taken ∧ l ∉ p.pending) : l ∉ p'.taken ∧ l ∉ p'.pending := by
  refine ⟨fun hm => ?_, fun hm => ?_⟩
  · rcases h.taken l hm with hm | hm | hm
    · exact hs.1 hm
    · exact hs.2 hm
    · exact absurd hl (Nat.not_lt.2 hm)
  · rcases h.pending l hm with hm | hm
    · exact hs.2 hm
    · exact absurd hl (Nat.not_lt.2 hm)

theorem lose_grows : p.Grows p.lose := ⟨le_rfl, fun _ => .inl, nofun⟩

theorem lose_sound (hs : p.Sound) : p.lose.Sound := by
  refine ⟨nofun, hs.taken, nofun, fun x hx => ?_, fun _ => rfl⟩
  rcases List.mem_append.1 hx with hx | hx
  · exact hs.woken x hx
  · obtain ⟨l, hl, rfl⟩ := List.mem_map.1 hx
    exact hs.draining l hl

/-- Only waiting writers are told that their lines were lost. -/
theorem mem_lose {l : Nat} (h : (l, false) ∈ p.lose.woken) :
    (l, false) ∈ p.woken ∨ l ∈ p.draining := by
  refine (List.mem_append.1 h).imp_right fun h => ?_
  obtain ⟨_, hl, he⟩ := List.mem_map.1 h
  cases he
  exact hl

end Process

/-! ## The world -/

namespace World

variable {w w' : World} {r : Sent}

/-- The request was sent. -/
def Knows (w : World) : Sent → Prop
  | .line pid line => ∃ p, w.processes[pid]? = some p ∧ line < p.lines
  | .post n => n < w.posts

/-- No server was handed all of the request, nor is one still to be. -/
def Spared (w : World) : Sent → Prop
  | .line pid line => ∀ p, w.processes[pid]? = some p → line ∉ p.taken ∧ line ∉ p.pending
  | .post n => n ∉ w.delivered

/-- The request was sent, and does not run. -/
structure Dead (w : World) (r : Sent) : Prop where
  knows : w.Knows r
  spared : r ∈ w.refused ∨ w.Spared r

/-- What is added by a step is of requests that were not sent before. -/
structure Grows (w w' : World) : Prop where
  processes : ∀ (pid : Nat) (p : Process), w.processes[pid]? = some p →
    ∃ p', w'.processes[pid]? = some p' ∧ p.Grows p'
  posts : w.posts ≤ w'.posts
  delivered : ∀ n ∈ w'.delivered, n ∈ w.delivered ∨ w.posts ≤ n
  refused : w.refused ⊆ w'.refused

theorem Dead.not_run (h : w.Dead r) : w.mayHaveRun r = false := by
  unfold mayHaveRun
  rcases h.spared with hr | hs
  · simp [hr]
  · cases r with
    | line pid line =>
      have hreached : w.reached (.line pid line) = false := by
        cases hp : w.processes[pid]? with
        | none => simp [reached, hp]
        | some p => simpa [reached, hp] using (hs p hp).1
      rw [hreached, Bool.false_and]
    | post n =>
      have hreached : w.reached (.post n) = false := decide_eq_false hs
      rw [hreached, Bool.false_and]

theorem Grows.knows (h : w.Grows w') (hr : w.Knows r) : w'.Knows r := by
  cases r with
  | line pid line =>
    obtain ⟨p, hp, hl⟩ := hr
    obtain ⟨p', hp', hg⟩ := h.processes pid p hp
    exact ⟨p', hp', lt_of_lt_of_le hl hg.lines⟩
  | post n => exact lt_of_lt_of_le hr h.posts

theorem Grows.dead (h : w.Grows w') (hr : w.Dead r) : w'.Dead r := by
  refine ⟨h.knows hr.knows, hr.spared.imp (fun hm => h.refused hm) fun hs => ?_⟩
  have hk := hr.knows
  cases r with
  | line pid line =>
    obtain ⟨p, hp, hl⟩ := hk
    obtain ⟨p', hp', hg⟩ := h.processes pid p hp
    intro q hq
    obtain rfl := Option.some.inj (hp'.symm.trans hq)
    exact hg.spared hl (hs p hp)
  | post n =>
    intro hm
    rcases h.delivered n hm with hm | hm
    · exact hs hm
    · exact absurd hk (Nat.not_lt.2 hm)

/-- Nothing of what the requests depend on has changed. -/
def Same (w w' : World) : Prop :=
  w'.processes = w.processes ∧ w'.posts = w.posts ∧ w'.delivered = w.delivered ∧
    w'.refused = w.refused

theorem Same.grows (h : w.Same w') : w.Grows w' := by
  obtain ⟨hp, hposts, hd, hr⟩ := h
  exact ⟨fun pid p h => ⟨p, by rw [hp, h], .refl p⟩, hposts.ge, fun n hn => .inl (hd ▸ hn),
    hr ▸ fun _ => id⟩

theorem grows_setProcess {pid : Nat} {p p' : Process} (hp : w.processes[pid]? = some p)
    (h : p.Grows p') : w.Grows (w.setProcess pid p') := by
  refine ⟨fun i q hq => ?_, le_rfl, fun _ => .inl, fun _ => id⟩
  by_cases hi : i = pid
  · subst hi
    obtain rfl := Option.some.inj (hp.symm.trans hq)
    exact ⟨p', List.getElem?_set_self (List.getElem?_eq_some_iff.1 hp).1, h⟩
  · exact ⟨q, (List.getElem?_set_ne (Ne.symm hi)).trans hq, .refl q⟩

/-- What a command comes to, as far as requests depend on it. -/
inductive Served (w : World) : (c : Cmd) → Except Raised c.Answer → World → Prop
  | same {c : Cmd} {x : Except Raised c.Answer} {w' : World} : w.Same w' →
      (∀ m, watch.seen m c x = m) → c.sent w x = [] → Served w c x w'
  | spawn {c : Nat} {x : Except Raised (Option Nat)} {w' : World} :
      w'.processes = w.processes ++ [Process.start] → w'.posts = w.posts →
      w'.delivered = w.delivered → w'.refused = w.refused → Served w (.spawn c) x w'
  | post {c : Nat} {m : Method} {x : Except Raised Posted} (reached refused : Bool) :
      (x = .ok .connectFailed → reached = false) →
      (∀ r, x = .ok (.response r) → refused = r.didNotRun) →
      Served w (.post c m) x (w.posted reached refused)
  | write {pid : Nat} {m : Method} {size now : Nat} {p p' : Process} {written : Written} :
      w.processes[pid]? = some p → p.write size now = some (p', written) →
      Served w (.write pid m) (.ok written) (w.setProcess pid p')
  | drain {pid line : Nat} {p : Process} {ok : Bool} : w.processes[pid]? = some p →
      (line, ok) ∈ p.woken → Served w (.drain pid line) (.ok ok) w
  | answer {pid line : Nat} {m : Json.PyValue} :
      Served w (.answer pid line) (.ok (.message m)) (w.refuse (.line pid line) (isUnsupported m))

theorem served {c : Cmd} {choice : Choice} {x : Except Raised c.Answer}
    (h : w.serve c choice = some (w', x)) : w.Served c x w' := by
  have hsame : w.Same w := ⟨rfl, rfl, rfl, rfl⟩
  unfold serve at h
  split at h
  -- the clients
  · split at h <;> cases h <;> exact .same ⟨rfl, rfl, rfl, rfl⟩ (fun _ => rfl) rfl
  · cases h
    exact .same ⟨rfl, rfl, rfl, rfl⟩ (fun _ => rfl) rfl
  · cases h
    exact .same ⟨rfl, rfl, rfl, rfl⟩ (fun _ => rfl) rfl
  · obtain ⟨_, _, he⟩ := Option.map_eq_some_iff.1 h
    cases he
    exact .same hsame (fun _ => rfl) rfl
  · cases h
    exact .same ⟨rfl, rfl, rfl, rfl⟩ (fun _ => rfl) rfl
  · cases h
    exact .same ⟨rfl, rfl, rfl, rfl⟩ (fun _ => rfl) rfl
  · cases h
    exact .same ⟨rfl, rfl, rfl, rfl⟩ (fun _ => rfl) rfl
  -- a POST
  · cases h
    exact .post _ _ (fun _ => rfl) fun _ hr => by cases hr
  · cases h
    exact .post _ _ (fun hr => by cases hr) fun _ hr => by cases hr
  · cases h
    exact .post _ _ (fun hr => by cases hr) fun r hr => by cases hr; rfl
  -- a process
  · obtain ⟨_, _, he⟩ := Option.map_eq_some_iff.1 h
    cases he
    exact .same hsame (fun _ => rfl) rfl
  · cases h
    exact .spawn rfl rfl rfl rfl
  · cases h
    exact .same hsame (fun _ => rfl) rfl
  · obtain ⟨p, hp, h⟩ := Option.bind_eq_some_iff.1 h
    obtain ⟨⟨p', written⟩, hw, h⟩ := Option.bind_eq_some_iff.1 h
    cases h
    exact .write hp hw
  · obtain ⟨p, hp, h⟩ := Option.bind_eq_some_iff.1 h
    obtain ⟨ok, hok, h⟩ := Option.bind_eq_some_iff.1 h
    cases h
    exact .drain hp (Dict.mem_of_lookup hok)
  · cases h
    exact .answer
  · cases h
    exact .same hsame (fun _ => rfl) rfl
  · cases h
    exact .same hsame (fun _ => rfl) rfl
  · cases h
    exact .same ⟨rfl, rfl, rfl, rfl⟩ (fun _ => rfl) rfl
  -- what is raised
  · cases h
    exact .post _ _ (fun hr => by cases hr) fun _ hr => by cases hr
  · cases h
    exact .same hsame (fun _ => rfl) rfl
  · cases h
    exact .same hsame (fun _ => rfl) rfl
  · cases h
    exact .same hsame (fun _ => rfl) rfl
  · cases h
    exact .same ⟨rfl, rfl, rfl, rfl⟩ (fun _ => rfl) rfl
  · cases h

@[simp] theorem refuse_processes (r : Sent) (did : Bool) :
    (w.refuse r did).processes = w.processes := by
  cases did <;> rfl

@[simp] theorem refuse_posts (r : Sent) (did : Bool) : (w.refuse r did).posts = w.posts := by
  cases did <;> rfl

@[simp] theorem refuse_delivered (r : Sent) (did : Bool) :
    (w.refuse r did).delivered = w.delivered := by
  cases did <;> rfl

@[simp] theorem posted_processes (a b : Bool) : (w.posted a b).processes = w.processes := by
  cases b <;> rfl

@[simp] theorem posted_posts (a b : Bool) : (w.posted a b).posts = w.posts + 1 := by
  cases b <;> rfl

theorem posted_delivered (a b : Bool) :
    (w.posted a b).delivered = if a then w.posts :: w.delivered else w.delivered := by
  cases b <;> rfl

theorem posted_refused (a b : Bool) :
    (w.posted a b).refused = if b then .post w.posts :: w.refused else w.refused := by
  cases b <;> rfl

theorem grows_refuse (r : Sent) (did : Bool) : w.Grows (w.refuse r did) := by
  cases did with
  | false => exact Same.grows ⟨rfl, rfl, rfl, rfl⟩
  | true =>
    exact ⟨fun _ p h => ⟨p, h, .refl p⟩, le_rfl, fun _ => .inl, fun _ => List.mem_cons_of_mem _⟩

theorem Served.grows {c : Cmd} {x : Except Raised c.Answer} (h : w.Served c x w') :
    w.Grows w' := by
  cases h with
  | same h => exact h.grows
  | spawn hp hposts hd hr =>
    refine ⟨fun pid p h => ⟨p, ?_, .refl p⟩, hposts.ge, fun n hn => .inl (hd ▸ hn),
      hr ▸ fun _ => id⟩
    rw [hp, List.getElem?_append_left (List.getElem?_eq_some_iff.1 h).1, h]
  | post reached refused =>
    refine ⟨fun pid p h => ⟨p, by rwa [posted_processes], .refl p⟩,
      by rw [posted_posts]; exact Nat.le_succ _, fun n hn => ?_, fun r hr => ?_⟩
    · rw [posted_delivered] at hn
      split at hn
      · exact (List.mem_cons.1 hn).symm.imp_right Eq.ge
      · exact .inl hn
    · rw [posted_refused]
      split
      · exact List.mem_cons_of_mem _ hr
      · exact hr
  | write hp hw =>
    rcases Process.write_cases hw with ⟨rfl, -⟩ | ⟨line, hwrote, -⟩
    · exact grows_setProcess hp (.refl _)
    · exact grows_setProcess hp hwrote.grows
  | drain => exact Same.grows ⟨rfl, rfl, rfl, rfl⟩
  | answer => exact grows_refuse _ _

/-- A process after a command was there before it, or is new, or was written a line. -/
theorem Served.process {c : Cmd} {x : Except Raised c.Answer} (h : w.Served c x w') {pid : Nat}
    {p' : Process} (hp' : w'.processes[pid]? = some p') :
    w.processes[pid]? = some p' ∨ p' = .start ∨
      ∃ p line, w.processes[pid]? = some p ∧ p.Wrote p' line := by
  cases h with
  | same h => exact .inl (h.1 ▸ hp')
  | spawn hp =>
    rw [hp, List.getElem?_append] at hp'
    split at hp'
    · exact .inl hp'
    · exact .inr (.inl (List.mem_singleton.1 (List.mem_of_getElem? hp')))
  | post => exact .inl (by rwa [posted_processes] at hp')
  | @write pid₀ _ _ _ p p₁ _ hp hw =>
    by_cases hi : pid = pid₀
    · subst hi
      have hset := List.getElem?_set_self (a := p₁) (List.getElem?_eq_some_iff.1 hp).1
      obtain rfl := Option.some.inj (hset.symm.trans hp')
      rcases Process.write_cases hw with ⟨rfl, -⟩ | ⟨line, hwrote, -⟩
      · exact .inl hp
      · exact .inr (.inr ⟨p, line, hp, hwrote⟩)
    · exact .inl ((List.getElem?_set_ne (Ne.symm hi)).symm.trans hp')
  | drain => exact .inl hp'
  | answer => exact .inl (by rwa [refuse_processes] at hp')

/-- What holds of a world whatever its tasks have sent. -/
structure Sound (w : World) : Prop where
  processes : ∀ (pid : Nat) (p : Process), w.processes[pid]? = some p → p.Sound
  delivered : ∀ n ∈ w.delivered, n < w.posts

theorem Served.sound {c : Cmd} {x : Except Raised c.Answer} (h : w.Served c x w')
    (hs : w.Sound) : w'.Sound := by
  refine ⟨fun pid p' hp' => ?_, fun n hn => ?_⟩
  · rcases h.process hp' with hp | rfl | ⟨p, line, hp, hwrote⟩
    · exact hs.processes pid p' hp
    · exact Process.sound_start
    · exact hwrote.sound (hs.processes pid p hp)
  · cases h with
    | same h => exact h.2.1 ▸ hs.delivered n (h.2.2.1 ▸ hn)
    | spawn _ hposts hd => exact hposts ▸ hs.delivered n (hd ▸ hn)
    | post =>
      rw [posted_posts]
      rw [posted_delivered] at hn
      split at hn
      · rcases List.mem_cons.1 hn with rfl | hn
        · exact Nat.lt_succ_self _
        · exact Nat.lt_succ_of_lt (hs.delivered n hn)
      · exact Nat.lt_succ_of_lt (hs.delivered n hn)
    | write | drain => exact hs.delivered n hn
    | answer =>
      rw [refuse_posts]
      exact hs.delivered n (by rwa [refuse_delivered] at hn)

/-- A line whose writer was told it was lost was not handed over, and will not be. -/
def Cut (w : World) (sent : List Sent) : Prop :=
  ∀ (pid : Nat) (p : Process), w.processes[pid]? = some p → ∀ l, (l, false) ∈ p.woken →
    .line pid l ∈ sent → l ∉ p.taken ∧ l ∉ p.pending

/-- What is sent now is new to the writers that were told of their lines. -/
theorem Served.cut {c : Cmd} {x : Except Raised c.Answer} {sent sent' : List Sent}
    (h : w.Served c x w') (hs : w.Sound) (hc : w.Cut sent)
    (hnew : ∀ r ∈ sent', r ∈ sent ∨ ¬w.Knows r) : w'.Cut sent' := by
  intro pid p' hp' l hl hmem
  rcases h.process hp' with hp | rfl | ⟨p, line, hp, hwrote⟩
  · have hlt : l < p'.lines := (hs.processes pid p' hp).woken _ hl
    exact hc pid p' hp l hl ((hnew _ hmem).resolve_right (not_not.2 ⟨p', hp, hlt⟩))
  · exact nomatch hl
  · rw [hwrote.woken] at hl
    have hlt : l < p.lines := (hs.processes pid p hp).woken _ hl
    exact hwrote.grows.spared hlt
      (hc pid p hp l hl ((hnew _ hmem).resolve_right (not_not.2 ⟨p, hp, hlt⟩)))

end World

/-! ## What the monitor knows -/

/-- What the monitor knows of the requests a task has sent is true of the world. -/
def Tracks (w : World) (sent : List Sent) : Watch → Prop
  | .clear => ∀ r ∈ sent, w.Dead r
  | .live line => ∃ earlier last, sent = earlier ++ [last] ∧ (∀ r ∈ earlier, w.Dead r) ∧
      w.Knows last ∧ ∀ q, line = some q → last = .line q.1 q.2

variable {w w' : World} {sent : List Sent} {m : Watch}

theorem Tracks.mono (h : Tracks w sent m) (hg : w.Grows w') : Tracks w' sent m := by
  cases m with
  | clear => exact fun r hr => hg.dead (h r hr)
  | live line =>
    obtain ⟨earlier, last, he, hdead, hk, hl⟩ := h
    exact ⟨earlier, last, he, fun r hr => hg.dead (hdead r hr), hg.knows hk, hl⟩

theorem Tracks.knows (h : Tracks w sent m) : ∀ r ∈ sent, w.Knows r := by
  cases m with
  | clear => exact fun r hr => (h r hr).knows
  | live line =>
    obtain ⟨earlier, last, rfl, hdead, hk, -⟩ := h
    intro r hr
    rcases List.mem_append.1 hr with hr | hr
    · exact (hdead r hr).knows
    · exact List.mem_singleton.1 hr ▸ hk

/-- Only the last request may have run. -/
theorem Tracks.pairwise (h : Tracks w sent m) :
    sent.Pairwise fun r _ => w.mayHaveRun r = false := by
  have hall : ∀ l : List Sent, (∀ r ∈ l, w.Dead r) →
      l.Pairwise fun r _ => w.mayHaveRun r = false := by
    intro l hl
    induction l with
    | nil => exact .nil
    | cons r l ih =>
      exact .cons (fun _ _ => (hl r List.mem_cons_self).not_run)
        (ih fun r hr => hl r (List.mem_cons_of_mem _ hr))
  cases m with
  | clear => exact hall sent h
  | live line =>
    obtain ⟨earlier, last, rfl, hdead, -, -⟩ := h
    exact List.pairwise_append.2 ⟨hall earlier hdead, List.pairwise_singleton ..,
      fun r hr _ _ => (hdead r hr).not_run⟩

/-- A request is sent where none may have run. -/
theorem Tracks.live (h : Tracks w sent .clear) (hg : w.Grows w') {r : Sent} (hr : w'.Knows r)
    {line : Option (Nat × Nat)} (hl : ∀ q, line = some q → r = .line q.1 q.2) :
    Tracks w' (sent ++ [r]) (.live line) :=
  ⟨sent, r, rfl, fun r hr => hg.dead (h r hr), hr, hl⟩

theorem Tracks.dead (h : Tracks w sent .clear) (hg : w.Grows w') {r : Sent} (hr : w'.Dead r) :
    Tracks w' (sent ++ [r]) .clear :=
  List.forall_mem_append.2 ⟨fun r hr => hg.dead (h r hr), List.forall_mem_singleton.2 hr⟩

/-- A line turns out not to run. -/
theorem Tracks.settle (h : Tracks w sent m) {pid line : Nat}
    (hd : .line pid line ∈ sent → w.Dead (.line pid line)) : Tracks w sent (m.settle pid line) := by
  unfold Watch.settle
  split
  · next pid' line' =>
    split
    · next he =>
      obtain ⟨rfl, rfl⟩ := he
      obtain ⟨earlier, last, rfl, hdead, -, hl⟩ := h
      obtain rfl := hl _ rfl
      exact List.forall_mem_append.2 ⟨hdead, List.forall_mem_singleton.2 (hd (by simp))⟩
    · exact h
  · exact h

theorem sent_post {m : Method} (hm : m ≠ .call) (c : Nat) (x : Except Raised Posted) :
    Cmd.sent w (.post c m) x = [] := by
  cases m <;> first | rfl | exact absurd rfl hm

theorem sent_write {m : Method} (hm : m ≠ .call) (pid : Nat) (x : Except Raised Written) :
    Cmd.sent w (.write pid m) x = [] := by
  cases m <;> first | rfl | exact absurd rfl hm

/-- A command that sends no such request and of which the monitor takes no notice. -/
theorem Tracks.quiet (h : Tracks w sent m) (hg : w.Grows w') {new : List Sent} {m' : Watch}
    (hm : m' = m) (hn : new = []) : Tracks w' (sent ++ new) m' := by
  subst hm hn
  rw [List.append_nil]
  exact h.mono hg

theorem Tracks.post {c : Nat} {method : Method} {x : Except Raised Posted} {reached refused : Bool}
    (h : Tracks w sent m) (hs : w.Sound) (hg : w.Grows (w.posted reached refused))
    (hmay : watch.may m (.post c method)) (hfailed : x = .ok .connectFailed → reached = false)
    (hdid : ∀ r, x = .ok (.response r) → refused = r.didNotRun) :
    Tracks (w.posted reached refused) (sent ++ Cmd.sent w (.post c method) x)
      (watch.seen m (.post c method) x) := by
  by_cases hm : method = .call
  swap
  · exact h.quiet hg (seen_post hm c x) (sent_post hm c x)
  subst hm
  obtain rfl : m = .clear := hmay
  have hknows : (w.posted reached refused).Knows (.post w.posts) := by
    change w.posts < (w.posted reached refused).posts
    rw [World.posted_posts]
    exact Nat.lt_succ_self _
  have hlive : Tracks (w.posted reached refused) (sent ++ [.post w.posts]) (.live none) :=
    h.live hg hknows nofun
  match x with
  | .error e => exact hlive
  | .ok .failed => exact hlive
  | .ok .connectFailed =>
    refine h.dead hg ⟨hknows, .inr fun hn => ?_⟩
    rw [World.posted_delivered, hfailed rfl] at hn
    exact absurd (hs.delivered _ hn) (Nat.lt_irrefl _)
  | .ok (.response r) =>
    change Tracks _ (sent ++ [.post w.posts]) (if r.didNotRun then .clear else .live none)
    split
    · next hr =>
      refine h.dead hg ⟨hknows, .inl ?_⟩
      rw [World.posted_refused, hdid r rfl, if_pos hr]
      exact List.mem_cons_self
    · exact hlive

theorem Tracks.write {pid size now : Nat} {method : Method} {p p' : Process} {written : Written}
    (h : Tracks w sent m) (hg : w.Grows (w.setProcess pid p'))
    (hmay : watch.may m (.write pid method)) (hp : w.processes[pid]? = some p)
    (hw : p.write size now = some (p', written)) :
    Tracks (w.setProcess pid p') (sent ++ Cmd.sent w (.write pid method) (.ok written))
      (watch.seen m (.write pid method) (.ok written)) := by
  by_cases hm : method = .call
  swap
  · exact h.quiet hg (seen_write hm pid _) (sent_write hm pid _)
  subst hm
  obtain rfl : m = .clear := hmay
  rcases Process.write_cases hw with ⟨rfl, rfl⟩ | ⟨line, hwrote, hwritten⟩
  · exact h.quiet hg rfl rfl
  · have hknows : (w.setProcess pid p').Knows (.line pid line) := by
      refine ⟨p', List.getElem?_set_self (List.getElem?_eq_some_iff.1 hp).1, ?_⟩
      rw [hwrote.line, hwrote.lines]
      exact Nat.lt_succ_self _
    have hlive : Tracks (w.setProcess pid p') (sent ++ [.line pid line])
        (.live (some (pid, line))) := h.live hg hknows fun q hq => by
      cases hq
      rfl
    rcases hwritten with rfl | rfl <;> exact hlive

/-- The monitor stays right about a task that is answered. -/
theorem Tracks.served {c : Cmd} {x : Except Raised c.Answer} (h : Tracks w sent m)
    (hx : w.Served c x w') (hs : w.Sound) (hc : w.Cut sent) (hmay : watch.may m c) :
    Tracks w' (sent ++ c.sent w x) (watch.seen m c x) := by
  have hg := hx.grows
  cases hx with
  | same hsame hseen hsent => exact h.quiet hg (hseen m) hsent
  | spawn => exact h.quiet hg rfl rfl
  | post reached refused hfailed hdid => exact h.post hs hg hmay hfailed hdid
  | write hp hw => exact h.write hg hmay hp hw
  | @drain pid line p ok hp hok =>
    cases ok with
    | true => exact h.quiet hg rfl rfl
    | false =>
      have hsettled : Tracks w sent (m.settle pid line) := by
        refine h.settle fun hmem => ⟨h.knows _ hmem, .inr fun q hq => ?_⟩
        obtain rfl := Option.some.inj (hp.symm.trans hq)
        exact hc pid p hp line hok hmem
      exact hsettled.quiet hg rfl rfl
  | @answer pid line message =>
    by_cases hu : isUnsupported message = true
    · have hsettled : Tracks (w.refuse (.line pid line) (isUnsupported message)) sent
          (m.settle pid line) := by
        refine (h.mono hg).settle fun hmem => ⟨hg.knows (h.knows _ hmem), .inl ?_⟩
        rw [hu]
        exact List.mem_cons_self
      exact hsettled.quiet (World.Same.grows ⟨rfl, rfl, rfl, rfl⟩) (if_pos hu) rfl
    · exact h.quiet hg (if_neg hu) rfl

/-! ## Runs -/

/-- What every step keeps. -/
structure Sound (s : State) : Prop where
  world : s.world.Sound
  cut : ∀ t ∈ s.tasks, s.world.Cut t.sent
  tasks : ∀ t ∈ s.tasks, ∃ m, Safe watch t.rest m Ends Ends ∧ Tracks s.world t.sent m

/-- Each request `tools/call` of a task but the last was not handed to a server, or was refused. -/
def Once (s : State) : Prop :=
  ∀ t ∈ s.tasks, t.sent.Pairwise fun r _ => s.world.mayHaveRun r = false

theorem Sound.once {s : State} (h : Sound s) : Once s := fun t ht => by
  obtain ⟨m, -, htracks⟩ := h.tasks t ht
  exact htracks.pairwise

variable {s s' : State}

theorem Sound.start (h : Sound s) {p : Routine Unit} (hp : Safe watch p .clear Ends Ends) :
    Sound (s.start p) := by
  have hnew : ∀ t ∈ s.tasks ++ [⟨p, []⟩], t ∈ s.tasks ∨ t = ⟨p, []⟩ := fun t ht =>
    (List.mem_append.1 ht).imp_right List.mem_singleton.1
  refine ⟨h.world, fun t ht => ?_, fun t ht => ?_⟩
  · rcases hnew t ht with ht | rfl
    · exact h.cut t ht
    · exact fun _ _ _ _ _ hm => nomatch hm
  · rcases hnew t ht with ht | rfl
    · exact h.tasks t ht
    · exact ⟨.clear, hp, nofun⟩

/-- No await ends in a failure of the client's own. -/
theorem serve_error {c : Cmd} {choice : Choice} {e : Raised}
    (h : w.serve c choice = some (w', .error e)) : ∃ b, e = World.raised b := by
  unfold World.serve at h
  split at h
  case h_1 => split at h <;> cases h
  case h_4 | h_11 =>
    obtain ⟨_, -, he⟩ := Option.map_eq_some_iff.1 h
    cases he
  case h_14 | h_15 =>
    obtain ⟨_, -, h⟩ := Option.bind_eq_some_iff.1 h
    obtain ⟨_, -, h⟩ := Option.bind_eq_some_iff.1 h
    cases h
  all_goals first
    | (cases h; done)
    | (cases h; exact ⟨_, rfl⟩)

theorem answers_of_serve {c : Cmd} {choice : Choice} {x : Except Raised c.Answer}
    (h : w.serve c choice = some (w', x)) : watch.answers c x := by
  cases x with
  | ok a => exact trivial
  | error e =>
    obtain ⟨b, rfl⟩ := serve_error h
    cases b <;> exact trivial

/-- A request that is sent was not sent before. -/
theorem World.Served.new {c : Cmd} {x : Except Raised c.Answer} (h : w.Served c x w') :
    ∀ r ∈ c.sent w x, ¬w.Knows r := by
  intro r hr
  cases h with
  | same _ _ hsent =>
    rw [hsent] at hr
    cases hr
  | spawn => cases hr
  | @post _ method =>
    cases method with
    | call =>
      obtain rfl := List.mem_singleton.1 hr
      exact Nat.lt_irrefl _
    | _ => cases hr
  | @write pid method _ _ p _ written hp hw =>
    by_cases hm : method = .call
    · subst hm
      rcases Process.write_cases hw with ⟨-, rfl⟩ | ⟨line, hwrote, hwritten⟩
      · cases hr
      · have hline : r = .line pid line := by
          rcases hwritten with rfl | rfl <;> exact List.mem_singleton.1 hr
        subst hline
        rintro ⟨q, hq, hlt⟩
        obtain rfl := Option.some.inj (hp.symm.trans hq)
        exact absurd hwrote.line hlt.ne
    · exact absurd (sent_write (w := w) hm pid (.ok written) ▸ hr) List.not_mem_nil
  | drain => cases hr
  | answer => cases hr

theorem Sound.act (h : Sound s) {i : Nat} {choice : Choice} (hn : s.act i choice = some s') :
    Sound s' := by
  unfold State.act at hn
  split at hn
  swap
  · cases hn
  next c k sent hi =>
  obtain ⟨⟨w', x⟩, hserve, rfl⟩ := Option.map_eq_some_iff.1 hn
  have hx := World.served hserve
  have ht := List.mem_of_getElem? hi
  have htasks : ∀ t ∈ s.tasks.set i ⟨k x, sent ++ c.sent s.world x⟩,
      t ∈ s.tasks ∨ t = ⟨k x, sent ++ c.sent s.world x⟩ := fun t ht =>
    List.mem_or_eq_of_mem_set ht
  refine ⟨hx.sound h.world, fun t hmem => ?_, fun t hmem => ?_⟩
  · rcases htasks t hmem with hmem | rfl
    · exact hx.cut h.world (h.cut t hmem) fun _ => .inl
    · exact hx.cut h.world (h.cut _ ht) fun r hr =>
        (List.mem_append.1 hr).imp_right (hx.new r)
  · rcases htasks t hmem with hmem | rfl
    · obtain ⟨m, hsafe, htracks⟩ := h.tasks t hmem
      exact ⟨m, hsafe, htracks.mono hx.grows⟩
    · obtain ⟨m, ⟨hmay, hk⟩, htracks⟩ := h.tasks _ ht
      exact ⟨_, hk x (answers_of_serve hserve),
        htracks.served hx h.world (h.cut _ ht) hmay⟩

/-- Something happens to a process: the writers told that their lines were lost are told the truth. -/
theorem Sound.happen (h : Sound s) {pid : Nat} {p p' : Process}
    (hp : s.world.processes[pid]? = some p) (hg : p.Grows p') (hs : p.Sound → p'.Sound)
    (hcut : ∀ l, (l, false) ∈ p'.woken → (l, false) ∈ p.woken ∨
      ∀ t ∈ s.tasks, .line pid l ∈ t.sent → l ∉ p'.taken ∧ l ∉ p'.pending) :
    Sound { s with world := s.world.setProcess pid p' } := by
  have hgrows := World.grows_setProcess hp hg
  have hcases : ∀ i q, (s.world.setProcess pid p').processes[i]? = some q →
      i = pid ∧ q = p' ∨ s.world.processes[i]? = some q := by
    intro i q hq
    by_cases hi : i = pid
    · subst hi
      have hset := List.getElem?_set_self (a := p') (List.getElem?_eq_some_iff.1 hp).1
      exact .inl ⟨rfl, (Option.some.inj (hset.symm.trans hq)).symm⟩
    · exact .inr ((List.getElem?_set_ne (Ne.symm hi)).symm.trans hq)
  refine ⟨⟨fun i q hq => ?_, h.world.delivered⟩, fun t ht i q hq l hl hm => ?_, fun t ht => ?_⟩
  · rcases hcases i q hq with ⟨-, rfl⟩ | hq
    · exact hs (h.world.processes pid p hp)
    · exact h.world.processes i q hq
  · rcases hcases i q hq with ⟨rfl, rfl⟩ | hq
    · rcases hcut l hl with hl | hsp
      · exact hg.spared ((h.world.processes i p hp).woken _ hl) (h.cut t ht i p hp l hl hm)
      · exact hsp t ht hm
    · exact h.cut t ht i q hq l hl hm
  · obtain ⟨m, hsafe, htracks⟩ := h.tasks t ht
    exact ⟨m, hsafe, htracks.mono hgrows⟩

theorem Sound.next (h : Sound s) {e : Label} (hk : Kept s e) (hn : next s e = some s') :
    Sound s' := by
  cases e with
  | call server headers =>
    cases hn
    exact h.start (Safe.bind ((call_careful server headers).mono (fun _ _ _ => trivial)
      fun _ _ _ => trivial))
  | listing server =>
    cases hn
    exact h.start (listing_careful server)
  | reply pid =>
    cases hn
    exact h.start (Safe.bind ((reply_careful pid).mono (fun _ _ _ => trivial) fun _ _ _ => trivial))
  | act i choice => exact h.act hn
  | accept pid n =>
    obtain ⟨p, hp, rfl⟩ := Option.map_eq_some_iff.1 hn
    obtain ⟨hg, hspares, -, hs⟩ := p.accept_grows n
    exact h.happen hp hg hs fun l hl => .inl (hspares l hl)
  | lose pid =>
    obtain ⟨p, hp, rfl⟩ := Option.map_eq_some_iff.1 hn
    refine h.happen hp Process.lose_grows Process.lose_sound fun l hl => ?_
    exact (Process.mem_lose hl).imp_right fun hd t ht hm => ⟨hk p hp t ht l hd hm, nofun⟩
  | exit pid =>
    obtain ⟨p, hp, rfl⟩ := Option.map_eq_some_iff.1 hn
    exact h.happen hp ⟨le_rfl, fun _ => .inl, fun _ => .inl⟩
      (fun hs => ⟨hs.pending, hs.taken, hs.draining, hs.woken, hs.closed⟩) fun _ => .inl

/-- In every run in which no input closes on a line it has taken all of, while its writer waits. -/
theorem runs_once (h : lts.Reach Kept s) : Once s := by
  have hsound : Sound s := h.inv (fun s h0 => ?_) fun _ _ _ hs hk hn => hs.next hk hn
  · exact hsound.once
  · obtain ⟨_, _, hprocesses, _, hdelivered, _, htasks⟩ := h0
    refine ⟨⟨fun pid p hp => ?_, fun n hn => ?_⟩, fun t ht => ?_, fun t ht => ?_⟩
    · rw [hprocesses] at hp
      cases hp
    · rw [hdelivered] at hn
      cases hn
    · rw [htasks] at ht
      cases ht
    · rw [htasks] at ht
      cases ht

/-- An input closes. -/
def Label.loses : Label → Bool
  | .lose _ => true
  | _ => false

theorem kept_of_not_loses {e : Label} (h : (!e.loses) = true) : Kept s e := by
  cases e with
  | lose pid => cases h
  | _ => exact trivial

namespace Sample

/-- Servers nothing has been said to. -/
def fresh (http : Bool) : State := ⟨⟨fun _ => http, [], [], [], 0, [], []⟩, []⟩

/-- A response or a line that answers a request with an empty object. -/
def answer : Json.PyValue := .dict [(.str "result", .dict [])]

def answered : Choice := .response ⟨200, 2, false, some answer, none⟩

def bare (status : Nat) : Choice := .response ⟨status, 0, false, none, none⟩

/-- Task `i` is answered so, one after the other. -/
def acts (i : Nat) (choices : List Choice) : List Label := choices.map (.act i)

/-- A call of a legacy server over HTTP: it refuses the modern request, and is called again in a
session. -/
def legacy : List Label :=
  .call "s" false :: acts 0 [.auto, .auto, .auto, bare 400, .auto, .auto, .auto, .auto, .auto, answered,
    .auto, bare 202, .auto, .auto, answered]

/-- The first request to a process, `server/discover`, and its answer. -/
def discovered : List Choice :=
  [.auto, .auto, .auto, .auto, .auto, .bytes 100 100, .message answer, .auto, .auto, .auto]

/-- Two calls of a stdio server. It takes the first line and not the second, and closes its input; the
writer of the first is told that it was lost, and calls a new process. -/
def crossed : List Label :=
  [.call "s" false, .call "s" false] ++
    acts 0 (.auto :: discovered ++ [.auto, .auto, .bytes 200000 65536]) ++
    acts 1 [.auto, .auto, .auto, .auto, .bytes 100000 0] ++ [.accept 0 134464, .lose 0] ++
    acts 0 ([.auto, .auto, .auto, .auto] ++ discovered ++ [.auto, .auto, .bytes 200000 200000])

end Sample

/-- Sent again after a refusal, the call runs once. -/
theorem runs_once_refused : ∃ s, lts.Reach Kept s ∧
    s.tasks.map Running.sent = [[.post 0, .post 3]] ∧ Once s := by
  have hrun : ((lts.check (fun _ e => !e.loses) (Sample.fresh true) Sample.legacy).map fun s =>
      s.tasks.map Running.sent) = some [[.post 0, .post 3]] := by decide
  obtain ⟨s, hs, hsent⟩ := Option.map_eq_some_iff.1 hrun
  have hreach : lts.Reach Kept s := Lts.reach_of_check (fun s e he => kept_of_not_loses he)
    ⟨rfl, rfl, rfl, rfl, rfl, rfl, rfl⟩ hs
  exact ⟨s, hreach, hsent, runs_once hreach⟩

/-- The writer of a line that was taken in full is told that it was lost, and the call is sent to
another process. -/
theorem ran_twice : ¬∀ s, lts.Reach Lts.Any s → Once s := by
  intro h
  have hrun : ((lts.check (fun _ _ => true) (Sample.fresh false) Sample.crossed).map fun s =>
      (s.tasks.map Running.sent, s.world.mayHaveRun (.line 0 1), s.world.mayHaveRun (.line 1 1))) =
      some ([[.line 0 1, .line 1 1], [.line 0 2]], true, true) := by decide
  obtain ⟨s, hs, he⟩ := Option.map_eq_some_iff.1 hrun
  have hreach : lts.Reach Lts.Any s :=
    Lts.reach_of_check (fun _ _ _ => trivial) ⟨rfl, rfl, rfl, rfl, rfl, rfl, rfl⟩ hs
  obtain ⟨hsent, hran⟩ := Prod.mk.inj he
  have hmem : [.line 0 1, .line 1 1] ∈ s.tasks.map Running.sent := by
    rw [hsent]
    exact List.mem_cons_self
  obtain ⟨t, ht, hts⟩ := List.mem_map.1 hmem
  have honce := h s hreach t ht
  rw [hts] at honce
  have hno := (List.pairwise_cons.1 honce).1 _ List.mem_cons_self
  exact absurd ((Prod.mk.inj hran).1.symm.trans hno) nofun

end Mcp
