import ImpiAgent.Interactions.Forms

/-!
# A form is answered once

A submission reads its form in one statement and removes it in another, and the removal does not say
whether there was a form to remove. Where no submission reads a form that another has read and is
about to remove (`Guarded`), a form is handed on once, and is gone by then (`form_answered_once`);
where one does, both hand it on (`form_answered_twice`). A cancelled submission changes nothing and
the values of a form that names a handler reach no conversation, in any run.
-/

namespace Forms

open Text (Str)

variable {handlers : Str → Bool} {s s' : State} {σ τ : Store} {k k' c : Point} {row : Row}

/-! ## What a submission does -/

/-- The form a submission has read and not yet handed on. -/
def Point.held : Point → Option Row
  | .deleting _ row | .routing _ row | .rendering _ row => some row
  | _ => none

/-- The form a submission has removed and not yet handed on. -/
def Point.removed : Point → Option Row
  | .routing _ row | .rendering _ row => some row
  | _ => none

/-- The values go where the form says: to its handler if it names one. -/
def Handed.Routed (handlers : Str → Bool) (h : Handed) : Prop :=
  if h.row.record.handler = [] then ∃ msg, h.taker = .sink h.row.record.agent msg
  else handlers h.row.record.handler = true ∧
    ∃ values userId, h.taker = .handler h.row.record.handler values userId

/-- What an await comes to, by what it changes. -/
inductive Does (handlers : Str → Bool) (s : Store) : Point → Store × Point → Prop
  | ends {k k' : Point} : k'.held = none → Does handlers s k (s, k')
  | reads {c : Submission} {row : Row} : c.cancelled = false → s.getForm c.state = some row →
      Does handlers s (.getting c) (s, .deleting c row)
  | removes {c : Submission} {row : Row} :
      Does handlers s (.deleting c row) (s.deleteForm c.state, .routing c row)
  | loses {c : Submission} {row : Row} :
      Does handlers s (.deleting c row) (s.deleteForm c.state, .raised)
  | renders {c : Submission} {row : Row} : row.record.handler = [] →
      Does handlers s (.routing c row) (s, .rendering c row)
  | hands {k k' : Point} {row : Row} {taker : Taker} : k.removed = some row →
      ((∀ c, k = .rendering c row → row.record.handler = []) → (⟨row, taker⟩ : Handed).Routed handlers) →
      k'.held = none → Does handlers s k (s.hand ⟨row, taker⟩, k')

theorem act_does {e : Event} {q : Store × Point} (h : k.act handlers σ e = some q) :
    Does handlers σ k q := by
  cases k with
  | getting c =>
    cases e with
    | answers =>
      simp only [Point.act] at h
      split at h
      · cases h
        exact .ends rfl
      · split at h <;> cases h
        · exact .ends rfl
        · rename_i hg hc
          exact .reads (Bool.not_eq_true _ ▸ hc) hg
    | fails executed =>
      cases h
      exact .ends rfl
    | _ => cases h
  | deleting c row =>
    cases e with
    | answers =>
      cases h
      exact .removes
    | fails executed =>
      cases h
      cases executed with
      | true => exact .loses
      | false => exact .ends rfl
    | _ => cases h
  | routing c row =>
    cases e with
    | routes present =>
      simp only [Point.act] at h
      split at h
      · rename_i hn
        split at h <;> cases h
        · rename_i hr
          refine .hands rfl (fun _ => ?_) rfl
          rw [Handed.Routed, if_neg hn]
          exact ⟨hr, _, _, rfl⟩
        · exact .ends rfl
      · rename_i hn
        split at h <;> cases h
        · exact .renders (not_not.1 hn)
        · exact .ends rfl
    | _ => cases h
  | handling row =>
    cases e with
    | handled ok =>
      cases h
      exact .ends rfl
    | _ => cases h
  | rendering c row =>
    cases e with
    | rendered text =>
      cases text with
      | none =>
        cases h
        exact .ends rfl
      | some text =>
        cases h
        refine .hands rfl (fun hr => ?_) (by split <;> rfl)
        rw [Handed.Routed, if_pos (hr c rfl)]
        exact ⟨_, rfl⟩
    | _ => cases h
  | retiring row =>
    cases e with
    | retired =>
      cases h
      exact .ends rfl
    | _ => cases h
  | done taken => cases e <;> cases h
  | raised => cases e <;> cases h

/-- A cancelled submission ends with its form read, or not read. -/
theorem act_cancelled {a : Submission} {e : Event} {q : Store × Point} (hc : a.cancelled = true)
    (h : (Point.getting a).act handlers σ e = some q) : q.1 = σ ∧ (q.2 = .done false ∨ q.2 = .raised) := by
  cases e with
  | answers =>
    simp only [Point.act] at h
    split at h
    · cases h
      exact ⟨rfl, .inl rfl⟩
    · rw [if_pos hc] at h
      cases h
      exact ⟨rfl, .inl rfl⟩
  | fails executed =>
    cases h
    exact ⟨rfl, .inr rfl⟩
  | _ => cases h

/-! ## The store -/

theorem getForm_mem {token : Str} (h : σ.getForm token = some row) :
    row ∈ σ.rows ∧ row.record.token = token := by
  obtain ⟨hr, ht⟩ := Table.find?_some h
  exact ⟨hr, of_decide_eq_true ht⟩

theorem mem_deleteForm {token : Str} {r : Row} :
    r ∈ (σ.deleteForm token).rows ↔ r ∈ σ.rows ∧ r.record.token ≠ token := by
  rw [Store.deleteForm, Table.mem_delete]
  simp

theorem createForm_cases (σ : Store) (r : FormRecord) : σ.createForm r = σ ∨
    (σ.createForm r).serial = σ.serial + 1 ∧ (σ.createForm r).handed = σ.handed ∧
      ∀ q, q ∈ (σ.createForm r).rows ↔ q ∈ σ.rows ∨ q = ⟨σ.serial, r⟩ := by
  unfold Store.createForm
  cases h : σ.rows.insert ⟨σ.serial, r⟩ with
  | none => exact .inl rfl
  | some rows => exact .inr ⟨rfl, rfl, fun q => Table.mem_insert h⟩

/-! ## The invariant -/

/-- The forms there are carry serials of their own, and none was handed on. -/
structure Stored (handlers : Str → Bool) (σ : Store) : Prop where
  drawn : ∀ r ∈ σ.rows, r.serial < σ.serial
  one : ∀ r ∈ σ.rows, ∀ q ∈ σ.rows, r.serial = q.serial → r = q
  spent : ∀ h ∈ σ.handed, h.row.serial < σ.serial
  gone : ∀ h ∈ σ.handed, ∀ r ∈ σ.rows, r.serial ≠ h.row.serial
  once : (σ.handed.map (·.row.serial)).Nodup
  routed : ∀ h ∈ σ.handed, h.Routed handlers

/-- What is true of the form a submission holds. -/
structure Holds (σ : Store) (k : Point) (row : Row) : Prop where
  drawn : row.serial < σ.serial
  unspent : ∀ h ∈ σ.handed, h.row.serial ≠ row.serial
  there : ∀ r ∈ σ.rows, r.serial = row.serial →
    r = row ∧ ∃ c, k = .deleting c row ∧ row.record.token = c.state
  plain : ∀ c, k = .rendering c row → row.record.handler = []

/-- The form a submission holds is its own. -/
structure Sound (handlers : Str → Bool) (s : State) : Prop where
  stored : Stored handlers s.store
  holds : ∀ i k row, s.At i k → k.held = some row → Holds s.store k row
  sole : ∀ i j k c row row', i ≠ j → s.At i k → s.At j c → k.held = some row →
    c.held = some row' → row.serial ≠ row'.serial

/-- A write that removes forms. -/
theorem Stored.delete (h : Stored handlers σ) (token : Str) :
    Stored handlers (σ.deleteForm token) :=
  ⟨fun r hr => h.drawn r (mem_deleteForm.1 hr).1,
    fun r hr q hq => h.one r (mem_deleteForm.1 hr).1 q (mem_deleteForm.1 hq).1, h.spent,
    fun x hx r hr => h.gone x hx r (mem_deleteForm.1 hr).1, h.once, h.routed⟩

theorem Holds.delete (h : Holds σ k row) (token : Str) : Holds (σ.deleteForm token) k row :=
  ⟨h.drawn, h.unspent, fun r hr he => h.there r (mem_deleteForm.1 hr).1 he, h.plain⟩

theorem Stored.create (h : Stored handlers σ) (r : FormRecord) :
    Stored handlers (σ.createForm r) := by
  rcases createForm_cases σ r with he | ⟨hs, hh, hm⟩
  · rwa [he]
  · refine ⟨fun q hq => ?_, fun q hq q' hq' he => ?_, fun x hx => ?_, fun x hx q hq => ?_, ?_, ?_⟩
    · rcases (hm q).1 hq with hq | rfl
      · have := h.drawn q hq
        omega
      · show σ.serial < _
        omega
    · rcases (hm q).1 hq with hq | rfl <;> rcases (hm q').1 hq' with hq' | rfl
      · exact h.one q hq q' hq' he
      · exact absurd he (Nat.ne_of_lt (h.drawn q hq))
      · exact absurd he.symm (Nat.ne_of_lt (h.drawn q' hq'))
      · rfl
    · have := h.spent x (hh ▸ hx)
      omega
    · rcases (hm q).1 hq with hq | rfl
      · exact h.gone x (hh ▸ hx) q hq
      · exact (Nat.ne_of_lt (h.spent x (hh ▸ hx))).symm
    · rw [hh]
      exact h.once
    · rw [hh]
      exact h.routed

theorem Holds.create (h : Holds σ k row) (r : FormRecord) : Holds (σ.createForm r) k row := by
  rcases createForm_cases σ r with he | ⟨hs, hh, hm⟩
  · rwa [he]
  · refine ⟨hs ▸ Nat.lt_succ_of_lt h.drawn, hh ▸ h.unspent, fun q hq he => ?_, h.plain⟩
    rcases (hm q).1 hq with hq | rfl
    · exact h.there q hq he
    · exact absurd he.symm (Nat.ne_of_lt h.drawn)

/-- A form that is there and held is about to be removed. -/
theorem Holds.deleting (h : Holds σ k row) (hr : row ∈ σ.rows) : ∃ c, k = .deleting c row :=
  let ⟨_, c, hk, _⟩ := h.there row hr rfl
  ⟨c, hk⟩

theorem Stored.hand {x : Handed} (h : Stored handlers σ) (hd : x.row.serial < σ.serial)
    (hu : ∀ y ∈ σ.handed, y.row.serial ≠ x.row.serial)
    (hg : ∀ r ∈ σ.rows, r.serial ≠ x.row.serial) (hr : x.Routed handlers) :
    Stored handlers (σ.hand x) := by
  have hm (y : Handed) : y ∈ (σ.hand x).handed ↔ y ∈ σ.handed ∨ y = x := by simp [Store.hand]
  refine ⟨h.drawn, h.one, fun y hy => ?_, fun y hy => ?_, ?_, fun y hy => ?_⟩
  · rcases (hm y).1 hy with hy | rfl
    · exact h.spent y hy
    · exact hd
  · rcases (hm y).1 hy with hy | rfl
    · exact h.gone y hy
    · exact hg
  · show ((σ.handed ++ [x]).map (·.row.serial)).Nodup
    rw [List.map_append, List.nodup_append]
    refine ⟨h.once, List.pairwise_singleton _ _, fun a ha b hb => ?_⟩
    obtain ⟨y, hy, rfl⟩ := List.mem_map.1 ha
    rw [List.mem_singleton.1 hb]
    exact hu y hy
  · rcases (hm y).1 hy with hy | rfl
    · exact h.routed y hy
    · exact hr

theorem Holds.hand {x : Handed} (h : Holds σ k row) (hx : x.row.serial ≠ row.serial) :
    Holds (σ.hand x) k row := by
  refine ⟨h.drawn, fun y hy => ?_, h.there, h.plain⟩
  rcases List.mem_append.1 hy with hy | hy
  · exact h.unspent y hy
  · rw [List.mem_singleton.1 hy]
    exact hx

/-- The form of a call that has removed it is not there. -/
theorem Holds.absent (h : Holds σ k row) (hk : k.removed = some row) :
    ∀ r ∈ σ.rows, r.serial ≠ row.serial := fun r hr he => by
  obtain ⟨-, c, rfl, -⟩ := h.there r hr he
  cases hk

theorem held_of_removed (h : k.removed = some row) : k.held = some row := by
  cases k <;> cases h <;> rfl

/-- No submission reads a form that another has read and is about to remove. -/
def Guarded (s : State) : Label → Prop
  | .step i .answers => ∀ a row, s.At i (.getting a) → a.cancelled = false →
      s.store.getForm a.state = some row → ∀ j a', ¬s.At j (.deleting a' row)
  | _ => True

/-- What a submission's step leaves of its own form and of the store. -/
theorem Sound.act (h : Sound handlers s) {i : Nat} {q : Store × Point} (hk : s.At i k)
    (hd : Does handlers s.store k q)
    (hg : ∀ a row, k = .getting a → q.2 = .deleting a row → a.cancelled = false →
      s.store.getForm a.state = some row → ∀ j a', ¬s.At j (.deleting a' row)) :
    Sound handlers (s.put i q.1 q.2) := by
  -- the calls that go on, where the step keeps what they hold
  have put {σ : Store} {k' : Point} (hs : Stored handlers σ)
      (ho : ∀ j c row, j ≠ i → s.At j c → c.held = some row → Holds σ c row)
      (hi : ∀ row, k'.held = some row → Holds σ k' row ∧
        ∀ j c row', j ≠ i → s.At j c → c.held = some row' → row.serial ≠ row'.serial) :
      Sound handlers (s.put i σ k') := by
    refine ⟨hs, fun j c row hj hc => ?_, fun a b x y row row' hab ha hb hx hy => ?_⟩
    · rcases (Pool.at_put hk).1 hj with ⟨rfl, rfl⟩ | ⟨hne, hj⟩
      · exact (hi row hc).1
      · exact ho j c row hne hj hc
    · rcases (Pool.at_put hk).1 ha with ⟨ea, rfl⟩ | ⟨hna, ha₀⟩ <;>
        rcases (Pool.at_put hk).1 hb with ⟨eb, rfl⟩ | ⟨hnb, hb₀⟩
      · exact absurd (ea.trans eb.symm) hab
      · exact (hi row hx).2 b y row' hnb hb₀ hy
      · exact ((hi row' hy).2 a x row hna ha₀ hx).symm
      · exact h.sole a b x y row row' hab ha₀ hb₀ hx hy
  have hold (row : Row) (hr : k.held = some row) := h.holds i k row hk hr
  have apart {row : Row} (hr : k.held = some row) (j : Nat) (c : Point) (row' : Row) (hne : j ≠ i)
      (hj : s.At j c) (hc : c.held = some row') : row.serial ≠ row'.serial :=
    h.sole i j k c row row' (Ne.symm hne) hk hj hr hc
  cases hd with
  | ends he =>
    exact put h.stored (fun j c row _ hj hc => h.holds j c row hj hc) fun row hr => by
      rw [he] at hr
      cases hr
  | @reads a row ha hr =>
    obtain ⟨hmem, htok⟩ := getForm_mem hr
    refine put h.stored (fun j c row _ hj hc => h.holds j c row hj hc) fun row' hr' => ?_
    cases hr'
    refine ⟨⟨h.stored.drawn row hmem, fun x hx => (h.stored.gone x hx row hmem).symm,
      fun r hrm he => ⟨h.stored.one r hrm row hmem he, a, rfl, htok⟩, nofun⟩, ?_⟩
    intro j c row' hne hj hc he
    -- whoever holds a form that is there is about to remove it
    obtain ⟨rfl, a', rfl, -⟩ := (h.holds j c row' hj hc).there row hmem he
    exact hg a row rfl rfl ha hr j a' hj
  | @removes a row =>
    refine put (h.stored.delete _) (fun j c row _ hj hc => (h.holds j c row hj hc).delete _)
      fun row' hr' => ?_
    cases hr'
    have hrow := hold row rfl
    refine ⟨⟨hrow.drawn, hrow.unspent, fun r hr he => ?_, nofun⟩, apart rfl⟩
    obtain ⟨hr, hne⟩ := mem_deleteForm.1 hr
    obtain ⟨rfl, c, hc, htok⟩ := hrow.there r hr he
    cases hc
    exact absurd htok hne
  | loses =>
    exact put (h.stored.delete _) (fun j c row _ hj hc => (h.holds j c row hj hc).delete _) nofun
  | @renders a row hn =>
    refine put h.stored (fun j c row _ hj hc => h.holds j c row hj hc) fun row' hr' => ?_
    cases hr'
    have hrow := hold row rfl
    exact ⟨⟨hrow.drawn, hrow.unspent, fun r hr he => absurd he (hrow.absent rfl r hr),
      fun _ _ => hn⟩, apart rfl⟩
  | @hands _ k' row taker hr ht he =>
    have hh := held_of_removed hr
    have hrow := hold row hh
    refine put (h.stored.hand hrow.drawn hrow.unspent (hrow.absent hr) (ht hrow.plain))
      (fun j c row' hne hj hc => (h.holds j c row' hj hc).hand (apart hh j c row' hne hj hc))
      fun row' hr' => ?_
    rw [he] at hr'
    cases hr'

theorem Sound.step (h : Sound handlers s) {e : Label} (hg : Guarded s e)
    (hn : next handlers s e = some s') : Sound handlers s' := by
  cases next_step hn with
  | create => exact ⟨h.stored.create _, fun j c row hj hc => (h.holds j c row hj hc).create _, h.sole⟩
  | @submit c =>
    have hnone : (submitForm c).held = none := by
      unfold submitForm
      split <;> rfl
    have old {j : Nat} {k : Point} {row : Row} (hj : (s.start (submitForm c)).At j k)
        (hr : k.held = some row) : s.At j k := by
      rcases Pool.at_start.1 hj with hj | ⟨-, rfl⟩
      · exact hj
      · rw [hnone] at hr
        cases hr
    exact ⟨h.stored, fun j k row hj hr => h.holds j k row (old hj hr) hr,
      fun i j k k' row row' hij hi hj hr hr' =>
        h.sole i j k k' row row' hij (old hi hr) (old hj hr') hr hr'⟩
  | @step i e k k' σ hk ha =>
    refine Sound.act h hk (act_does ha) fun a row ea hq hc hr => ?_
    subst ea
    cases e with
    | answers => exact hg a row hk hc hr
    | _ =>
      cases ha
      try cases hq
  | drop =>
    exact ⟨h.stored, fun j k row hj hr => h.holds j k row (Pool.at_kill.1 hj).2 hr,
      fun i j k k' row row' hij hi hj hr hr' =>
        h.sole i j k k' row row' hij (Pool.at_kill.1 hi).2 (Pool.at_kill.1 hj).2 hr hr'⟩

theorem sound (hr : (lts handlers).Reach Guarded s) : Sound handlers s := by
  refine hr.inv (fun s h0 => ?_) fun s e s' h hg hn => h.step hg hn
  subst h0
  have none (i : Nat) (k : Point) (hk : Pool.At (⟨⟨.empty, 0, []⟩, []⟩ : State) i k) : False :=
    absurd hk.lt (Nat.not_lt_zero i)
  refine ⟨⟨fun _ h => ?_, fun _ h => ?_, nofun, nofun, .nil, nofun⟩, fun i k _ hk => (none i k hk).elim,
    fun i _ k _ _ _ _ hk => (none i k hk).elim⟩
  · exact absurd h List.not_mem_nil
  · exact absurd h List.not_mem_nil

/-! ## Handed on once -/

/-- A form is handed on once, to whom it says, and is gone by then for whoever looks for it. -/
structure Answered (handlers : Str → Bool) (s : State) : Prop where
  once : (s.store.handed.map (·.row.serial)).Nodup
  gone : ∀ h ∈ s.store.handed, ∀ token row, s.store.getForm token = some row →
    row.serial ≠ h.row.serial
  late : ∀ h ∈ s.store.handed, ∀ i c row, s.At i (.deleting c row) → row.serial ≠ h.row.serial
  routed : ∀ h ∈ s.store.handed, h.Routed handlers
  unsaid : ∀ h ∈ s.store.handed, h.row.record.handler ≠ [] → ∀ agent msg, h.taker ≠ .sink agent msg
  cancelled : ∀ i a e s', s.At i (.getting a) → a.cancelled = true →
    next handlers s (.step i e) = some s' →
      s'.store = s.store ∧ (s'.At i (.done false) ∨ s'.At i .raised)

/-- A step of a cancelled submission. -/
theorem cancelled_changes_nothing {i : Nat} {a : Submission} {e : Event} (ha : s.At i (.getting a))
    (hc : a.cancelled = true) (hn : next handlers s (.step i e) = some s') :
    s'.store = s.store ∧ (s'.At i (.done false) ∨ s'.At i .raised) := by
  cases next_step hn with
  | @step _ _ k k' σ hk hact =>
    rw [hk.eq ha] at hact
    obtain ⟨rfl, hd | hd⟩ := act_cancelled hc hact
    · subst hd
      exact ⟨rfl, .inl (Pool.at_put_self hk)⟩
    · subst hd
      exact ⟨rfl, .inr (Pool.at_put_self hk)⟩

/-- In every run where no submission reads a form that another is about to remove, every form is
answered once. -/
theorem form_answered_once (hr : (lts handlers).Reach Guarded s) : Answered handlers s := by
  have h := sound hr
  refine ⟨h.stored.once, fun x hx token row hg => ?_, fun x hx i c row hk => ?_, h.stored.routed,
    fun x hx hn agent msg ht => ?_, fun i a e s' ha hc hn => cancelled_changes_nothing ha hc hn⟩
  · exact h.stored.gone x hx row (getForm_mem hg).1
  · exact ((h.holds i _ row hk rfl).unspent x hx).symm
  · have hrouted := h.stored.routed x hx
    rw [Handed.Routed, if_neg hn] at hrouted
    obtain ⟨-, values, userId, htaker⟩ := hrouted
    rw [htaker] at ht
    cases ht

namespace Sample

def form : FormRecord where
  token := Text.str "f1"
  agent := Text.str "assistant"
  channelId := Text.str "c1"
  conversationId := Text.str "d1"
  kind := Text.str "direct"
  spec := Text.str "\x7b\x7d"
  createdAt := Text.str "2026-01-01T00:00:00"
  handler := Text.str "vault"

def values (cancelled : Bool) : Submission where
  state := Text.str "f1"
  submission := [(Text.str "password", Text.str "hunter2")]
  cancelled := cancelled
  userId := Text.str "u1"

def registered : Str → Bool := fun name => name = Text.str "vault"

/-- `Guarded`, decided. -/
def guarded (s : State) : Label → Bool
  | .step i .answers =>
    match s.calls[i]? with
    | some (some (.getting a)) =>
      match s.store.getForm a.state with
      | some row => a.cancelled || s.calls.all fun k => !k.any fun
        | .deleting _ r => r = row
        | _ => false
      | none => true
    | _ => true
  | _ => true

theorem guarded_of_guarded (s : State) (e : Label) (h : guarded s e = true) : Guarded s e := by
  cases e with
  | step i e =>
    cases e with
    | answers =>
      intro a row ha hc hr j a' hj
      simp only [guarded, show s.calls[i]? = some (some (.getting a)) from ha, hr, hc,
        Bool.false_or, List.all_eq_true] at h
      simpa using h _ hj.mem
    | _ => trivial
  | _ => trivial

/-- A dialog that is closed, then two submissions, one after the other. -/
def answering : List Label :=
  [.create form, .submit (values true), .step 0 .answers, .submit (values false),
    .step 1 .answers, .step 1 .answers, .submit (values false), .step 1 (.routes true),
    .step 2 .answers, .step 1 (.handled true)]

/-- Two submissions, both before the form is removed. -/
def racing : List Label :=
  [.create form, .submit (values false), .submit (values false), .step 0 .answers,
    .step 1 .answers, .step 0 .answers, .step 0 (.routes true), .step 1 .answers,
    .step 1 (.routes true)]

def empty : State := ⟨⟨.empty, 0, []⟩, []⟩

end Sample

/-- The closed dialog leaves the form; the first submission is handled, the second finds nothing. -/
theorem form_answered_once_run : ∃ s, (lts Sample.registered).Reach Guarded s ∧
    (s.store.handed.length = 1 ∧ s.At 1 (.done true) ∧ s.At 2 (.done false)) ∧
      Answered Sample.registered s := by
  have hs : ((lts Sample.registered).check Sample.guarded Sample.empty Sample.answering).any
      (fun s => s.store.handed.length = 1 ∧ s.At 1 (.done true) ∧ s.At 2 (.done false)) = true := by
    decide
  obtain ⟨s, hc, hp⟩ := (Option.any_eq_true _ _).1 hs
  have hr := Lts.reach_of_check Sample.guarded_of_guarded rfl hc
  exact ⟨s, hr, of_decide_eq_true hp, form_answered_once hr⟩

/-- Two submissions read the form before either removes it, and the handler gets it twice. -/
theorem form_answered_twice :
    ¬∀ (handlers : Str → Bool) (s : State), (lts handlers).Reach Lts.Any s → Answered handlers s := by
  intro h
  have hs : ((lts Sample.registered).check (fun _ _ => true) Sample.empty Sample.racing).any
      (fun s => s.store.handed.map (·.row.serial) = [0, 0]) = true := by
    decide
  obtain ⟨s, hc, hp⟩ := (Option.any_eq_true _ _).1 hs
  have hr := Lts.reach_of_check (L := lts Sample.registered) (C := Lts.Any)
    (fun _ _ _ => trivial) rfl hc
  have honce := (h Sample.registered s hr).once
  rw [of_decide_eq_true hp] at honce
  exact absurd honce (by decide)

end Forms
