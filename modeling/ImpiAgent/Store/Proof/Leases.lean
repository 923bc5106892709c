import ImpiAgent.Store.Leases

/-!
# A lease excludes the others while it runs

An acquire that another owner wins found the row lapsed at a second it had read before
(`Writes.wins`, `Dated`), so the winner's row, while its own owner leaves it alone, stands until the
clock has passed its end (`Keeps`). A renewal is an acquire like any other and may move the end
either way (`shortened`), so the end that counts is that of the owner's last acquire.
-/

namespace Leases

variable {b : Backend} {s s' : State} {e : Event}

/-- The seconds a call has read are past. -/
def Dated : Point → Store → Prop
  | .dating _ now, s => Clock.fromIso now ≤ s.clock
  | .taking _ now t, s => Clock.fromIso now ≤ s.clock ∧ Clock.fromIso t ≤ s.clock
  | .inserting _ t, s | .acquired _ t, s => Clock.fromIso t ≤ s.clock
  | _, _ => True

theorem advance_clock (s : Store) (d : Nat) : s.clock ≤ (s.advance d).clock :=
  Int.le_add_of_nonneg_right (Int.natCast_nonneg d)

theorem Dated.mono {k : Point} {s s' : Store} (h : Dated k s) (hc : s.clock ≤ s'.clock) :
    Dated k s' := by
  cases k with
  | dating a now => exact Int.le_trans h hc
  | taking a now t => exact ⟨Int.le_trans h.1 hc, Int.le_trans h.2 hc⟩
  | inserting a t => exact Int.le_trans h hc
  | acquired a t => exact Int.le_trans h hc
  | reading a => trivial
  | refused a => trivial
  | releasing name owner => trivial
  | released => trivial

theorem step_clock {k k' : Point} {s s' : Store} (h : k.step b s = some (s', k')) :
    s'.clock = s.clock := by
  cases step_writes h with
  | reads => rfl
  | wins _ _ hc _ => exact hc
  | lets => rfl

theorem insert_dated {a : AcquireArgs} {t : Time} {s : Store} (h : Clock.fromIso t ≤ s.clock) :
    Dated (insertOrRefuse a t s).2 s := by
  unfold insertOrRefuse
  split
  · exact h
  · trivial

theorem step_dated {k k' : Point} {s s' : Store} (hk : Dated k s)
    (h : k.step b s = some (s', k')) : Dated k' s' := by
  refine Dated.mono (s := s) ?_ (Int.le_of_eq (step_clock h).symm)
  cases k with
  | reading a =>
    cases h
    exact Clock.fromIso_toIso_le s.clock
  | dating a now =>
    cases h
    exact ⟨hk, Clock.fromIso_toIso_le s.clock⟩
  | taking a now t =>
    simp only [Point.step, Option.some.injEq] at h
    split at h
    · cases h
      exact hk.2
    · cases b with
      | sqlite =>
        rw [← show (insertOrRefuse a t s).2 = k' from congrArg Prod.snd h]
        exact insert_dated hk.2
      | mongo =>
        cases h
        exact hk.2
  | inserting a t =>
    simp only [Point.step, Option.some.injEq] at h
    rw [← show (insertOrRefuse a t s).2 = k' from congrArg Prod.snd h]
    exact insert_dated hk
  | releasing name owner =>
    cases h
    trivial
  | acquired a t => cases h
  | refused a => cases h
  | released => cases h

/-- The outline of the calls: what they have read is past. -/
def outline (b : Backend) : Pool.Outline (Point.step b) fun _ _ _ => True where
  I _ := True
  L := Dated
  D _ _ := True
  own _ hk h := ⟨trivial, step_dated hk h⟩
  other _ _ hc _ _ h := hc.mono (Int.le_of_eq (step_clock h).symm)
  apart _ _ _ _ _ _ := trivial
  symm _ := trivial

/-- What an event of the system does. -/
inductive Step (b : Backend) (s : State) : Event → State → Prop
  | advance {d : Nat} : Step b s (.advance d) { s with store := s.store.advance d }
  | acquire {a : AcquireArgs} : Step b s (.acquire a) (s.start (.reading a))
  | release {name owner : String} :
      Step b s (.release name owner) (s.start (.releasing name owner))
  | step {i : Nat} {k k' : Point} {σ : Store} : s.At i k → k.step b s.store = some (σ, k') →
      Step b s (.step i) (s.put i σ k')
  | drop {i : Nat} : Step b s (.drop i) (s.kill i)

theorem next_step (h : next b s e = some s') : Step b s e s' := by
  cases e with
  | advance d =>
    cases h
    exact .advance
  | acquire a =>
    cases h
    exact .acquire
  | release name owner =>
    cases h
    exact .release
  | step i =>
    obtain ⟨k, σ, k', hk, hm, rfl⟩ := Pool.exec_eq_some.1 h
    exact .step hk hm
  | drop i =>
    cases h
    exact .drop

theorem dated (h : (lts b).Reach Lts.Any s) : (outline b).Holds s := by
  refine h.inv (fun s h0 => ?_) fun s e s' ih _ hn => ?_
  · obtain ⟨store, calls⟩ := s
    cases show calls = [] from h0.2
    exact .empty trivial
  · cases next_step hn with
    | advance => exact ih.write trivial fun k hk => hk.mono (advance_clock _ _)
    | acquire => exact ih.start trivial fun _ _ _ => trivial
    | release => exact ih.start trivial fun _ _ _ => trivial
    | step hk hm => exact ih.put hk (fun _ _ _ _ => trivial) hm
    | drop => exact ih.kill

/-- A release by an owner whom no row names. -/
theorem release_eq_self {s : Store} {name owner : String}
    (h : ∀ r ∈ s.leases, r.name = name → r.owner ≠ owner) : s.release name owner = s := by
  have hd : ∀ r ∈ s.leases, decide (r.name = name ∧ r.owner = owner) = false :=
    fun r hr => decide_eq_false fun he => h r hr he.1 he.2
  rw [Store.release, Table.delete_eq_self hd]

/-! ## From one win to the next -/

/-- The row `r` stands, or it has lapsed. -/
def Keeps (r : Lease) (s : Store) : Prop := r ∈ s.leases ∨ r.till < s.clock

theorem Keeps.advance {r : Lease} {s : Store} {d : Nat} (h : Keeps r s) :
    Keeps r (s.advance d) :=
  h.imp_right fun hlt => Int.lt_of_lt_of_le hlt (advance_clock s d)

/-- A statement by which another owner wins the lease finds it lapsed. -/
theorem step_lapsed {r : Lease} {k : Point} {s s' : Store} {a : AcquireArgs} {t : Time}
    (hr : Keeps r s) (hk : Dated k s) (h : k.step b s = some (s', .acquired a t))
    (hname : a.name = r.name) (hown : a.owner ≠ r.owner) : r.till < s.clock := by
  rcases hr with hr | hr
  · cases step_writes h with
    | reads hno _ => exact absurd rfl (hno a t)
    | wins _ hfree _ _ =>
      rcases hfree r hr hname.symm with ho | ⟨now, rfl, hlt⟩
      · exact absurd ho.symm hown
      · exact Int.lt_of_lt_of_le hlt hk.1
  · exact hr

/-- A statement that neither renews nor releases a lease keeps its row until it has lapsed. -/
theorem step_keeps {r : Lease} {k k' : Point} {s s' : Store} (hr : Keeps r s) (hk : Dated k s)
    (h : k.step b s = some (s', k')) (hrel : k ≠ .releasing r.name r.owner)
    (hown : ∀ a t, k' = .acquired a t → a.name = r.name → a.owner ≠ r.owner) : Keeps r s' := by
  rcases hr with hr | hr
  · cases step_writes h with
    | reads => exact .inl hr
    | @wins _ _ a t _ _ hc hm =>
      by_cases hn : a.name = r.name
      · refine .inr ?_
        rw [hc]
        exact step_lapsed (.inl hr) hk h hn (hown a t rfl hn)
      · exact .inl ((hm r).2 (.inr ⟨hr, Ne.symm hn⟩))
    | @lets name owner =>
      refine .inl (Store.mem_release.2 ⟨hr, fun he => hrel ?_⟩)
      rw [he.1, he.2]
  · refine .inr ?_
    rw [step_clock h]
    exact hr

/-- By `e`, an acquire takes effect. -/
def Won (e : Event) (s' : State) (a : AcquireArgs) (t : Time) : Prop :=
  ∃ i, e = .step i ∧ s'.At i (.acquired a t)

/-- `e` is no release of `name` by `owner`. -/
def Unreleased (name owner : String) (s : State) (e : Event) : Prop :=
  ∀ i, e = .step i → ¬ s.At i (.releasing name owner)

/-- `e` neither releases `name` for `owner` nor acquires it for them. -/
def Unrenewed (b : Backend) (name owner : String) (s : State) (e : Event) : Prop :=
  Unreleased name owner s e ∧
    ∀ s' a t, next b s e = some s' → Won e s' a t → a.name = name → a.owner ≠ owner

/-- The call behind a win, and the statement it won by. -/
theorem won_step {a : AcquireArgs} {t : Time} (hn : next b s e = some s') (hw : Won e s' a t) :
    ∃ i k, s.At i k ∧ k.step b s.store = some (s'.store, .acquired a t) := by
  obtain ⟨i, rfl, hi⟩ := hw
  obtain ⟨k, σ, k', hk, hm, rfl⟩ := Pool.exec_eq_some.1 hn
  cases hi.eq (Pool.at_put_self hk)
  exact ⟨i, k, hk, hm⟩

theorem won_row {a : AcquireArgs} {t : Time} (hn : next b s e = some s') (hw : Won e s' a t) :
    a.row t ∈ s'.store.leases := by
  obtain ⟨i, k, -, hm⟩ := won_step hn hw
  generalize s'.store = σ at hm ⊢
  cases step_writes hm with
  | reads hno _ => exact absurd rfl (hno a t)
  | wins _ _ _ hrow => exact (hrow _).2 (.inl rfl)

theorem next_keeps {r : Lease} (hs : (lts b).Reach Lts.Any s) (hr : Keeps r s.store)
    (hC : Unrenewed b r.name r.owner s e) (hn : next b s e = some s') : Keeps r s'.store := by
  have hown := hC.2 s'
  cases next_step hn with
  | advance => exact hr.advance
  | acquire => exact hr
  | release => exact hr
  | @step i k k' σ hk hm =>
    refine step_keeps hr ((dated hs).calls i k hk) hm (fun he => hC.1 i rfl (he ▸ hk))
      fun a t he => hown a t hn ⟨i, rfl, ?_⟩
    rw [← he]
    exact Pool.at_put_self hk
  | drop => exact hr

/-- `a`, which read the second `t`, takes effect at `s₁`, and after a run whose steps meet `C` another
owner's acquire `c` does at `s₃`. -/
structure Follows (b : Backend) (C : State → Event → Prop) (a c : AcquireArgs) (t : Time)
    (s₁ s₂ s₃ : State) : Prop where
  first : ∃ s e, (lts b).Reach Lts.Any s ∧ next b s e = some s₁ ∧ Won e s₁ a t
  run : ∃ es, (lts b).Run C s₁ es s₂
  second : ∃ e u, next b s₂ e = some s₃ ∧ Won e s₃ c u
  name : c.name = a.name
  owner : c.owner ≠ a.owner

/-- A lease excludes the others: once an acquire by an owner has taken effect, its end counted from
the second the call read, no acquire by another owner takes effect until the clock has passed that
end, as long as neither a release nor another acquire by the owner takes effect in between. And a
release by an owner whom the row does not name changes nothing. -/
theorem mutual_exclusion (b : Backend) :
    (∀ a c t s₁ s₂ s₃, Follows b (Unrenewed b a.name a.owner) a c t s₁ s₂ s₃ →
      Clock.fromIso t + a.ttl < s₂.store.clock) ∧
    (∀ s i name owner s', (lts b).Reach Lts.Any s → s.At i (.releasing name owner) →
      (∀ r ∈ s.store.leases, r.name = name → r.owner ≠ owner) →
      next b s (.step i) = some s' → s'.store = s.store) := by
  refine ⟨fun a c t s₁ s₂ s₃ hf => ?_, fun s i name owner s' _ hi hr hn => ?_⟩
  · obtain ⟨s, e, hs, hn, hw⟩ := hf.first
    obtain ⟨es, hrun⟩ := hf.run
    obtain ⟨e', u, hn', hw'⟩ := hf.second
    have hs₁ : (lts b).Reach Lts.Any s₁ := hs.step trivial hn
    have hkeeps : Keeps (a.row t) s₂.store :=
      hrun.inv_of (I := fun s => Keeps (a.row t) s.store) hs₁ (fun _ _ _ => trivial)
        (.inl (won_row hn hw)) fun s e s' hs hr hC hn => next_keeps hs hr hC hn
    obtain ⟨j, k, hj, hm⟩ := won_step hn' hw'
    exact step_lapsed hkeeps ((dated (hs₁.run hrun.any)).calls j k hj) hm hf.name hf.owner
  · obtain ⟨k, σ, k', hk, hm, rfl⟩ := Pool.exec_eq_some.1 hn
    cases hi.eq hk
    cases hm
    exact release_eq_self hr

namespace Sample

def start : State := ⟨⟨0, .empty⟩, []⟩

def sec (n : Nat) : Nat := n * 1000000

def held : AcquireArgs := ⟨"gateway:chat", "x", sec 30⟩

def renewed : AcquireArgs := ⟨"gateway:chat", "x", sec 1⟩

def other : AcquireArgs := ⟨"gateway:chat", "y", sec 30⟩

/-- The condition `Unrenewed` of a step, looked at on the concrete state. -/
def unrenewedCheck (b : Backend) (name owner : String) (s : State) : Event → Bool
  | .step i => s.calls[i]? != some (some (.releasing name owner)) &&
      (next b s (.step i)).all fun (s' : State) =>
        match s'.calls[i]? with
        | some (some (.acquired a _)) => a.name != name || a.owner != owner
        | _ => true
  | _ => true

theorem unrenewed_of_check {name owner : String} (h : unrenewedCheck b name owner s e = true) :
    Unrenewed b name owner s e := by
  refine ⟨fun i he hi => ?_, fun s' a t hn ⟨i, he, hi⟩ hname => ?_⟩ <;> subst he <;>
    obtain ⟨hrel, hown⟩ := Bool.and_eq_true_iff.1 h
  · exact absurd hi (bne_iff_ne.1 hrel)
  · rw [hn, Option.all_some, show s'.calls[i]? = _ from hi] at hown
    simpa [hname] using hown

/-- The condition `Unreleased` of a step. -/
def unreleasedCheck (name owner : String) (s : State) : Event → Bool
  | .step i => s.calls[i]? != some (some (.releasing name owner))
  | _ => true

theorem unreleased_of_check {name owner : String} (h : unreleasedCheck name owner s e = true) :
    Unreleased name owner s e := by
  intro i he hi
  subst he
  exact absurd hi (bne_iff_ne.1 h)

/-- Two wins, looked at on the concrete run: by call `i` after `es₀`, by call `j` after `es`. -/
def wins (b : Backend) (chk : State → Event → Bool) (a c : AcquireArgs) (t u : Time) (i j : Nat)
    (es₀ es : List Event) : Option (State × State × State) := do
  let s ← (lts b).check (fun _ _ => true) start es₀
  let s₁ ← next b s (.step i)
  let s₂ ← (lts b).check chk s₁ es
  let s₃ ← next b s₂ (.step j)
  if s₁.At i (.acquired a t) ∧ s₃.At j (.acquired c u) then some (s₁, s₂, s₃) else none

theorem follows_of_wins {C : State → Event → Prop} {chk : State → Event → Bool}
    (hchk : ∀ s e, chk s e = true → C s e) {a c : AcquireArgs} {t u : Time} {i j : Nat}
    {es₀ es : List Event} {s₁ s₂ s₃ : State} (hname : c.name = a.name) (howner : c.owner ≠ a.owner)
    (h : wins b chk a c t u i j es₀ es = some (s₁, s₂, s₃)) : Follows b C a c t s₁ s₂ s₃ := by
  simp only [wins, Option.bind_eq_bind, Option.bind_eq_some_iff] at h
  obtain ⟨s, hs, s₁', hs₁, s₂', hs₂, s₃', hs₃, h⟩ := h
  split at h
  · rename_i hw
    cases h
    have hreach : (lts b).Reach Lts.Any s :=
      Lts.reach_of_check (fun _ _ _ => trivial) ⟨rfl, rfl⟩ hs
    exact ⟨⟨s, _, hreach, hs₁, i, rfl, hw.1⟩, ⟨es, Lts.run_of_check hchk hs₂⟩,
      ⟨_, u, hs₃, j, rfl, hw.2⟩, hname, howner⟩
  · cases h

end Sample

/-- The other owner asks while the lease runs, and wins it once it has lapsed. -/
theorem mutual_exclusion_run : ∃ s₁ s₂ s₃, Follows .mongo (Unrenewed .mongo "gateway:chat" "x")
    Sample.held Sample.other 0 s₁ s₂ s₃ ∧
    Clock.fromIso 0 + Sample.held.ttl < s₂.store.clock := by
  have h : (Sample.wins .mongo (Sample.unrenewedCheck .mongo "gateway:chat" "x") Sample.held
      Sample.other 0 31 0 2 [.acquire Sample.held, .step 0, .step 0, .step 0]
      [.acquire Sample.other, .step 1, .step 1, .step 1, .step 1, .advance (Sample.sec 31),
        .acquire Sample.other, .step 2, .step 2]).isSome = true := by decide
  obtain ⟨⟨s₁, s₂, s₃⟩, hw⟩ := Option.isSome_iff_exists.1 h
  have hf : Follows .mongo (Unrenewed .mongo "gateway:chat" "x") Sample.held Sample.other 0
    s₁ s₂ s₃ := Sample.follows_of_wins (fun _ _ => Sample.unrenewed_of_check) rfl (by decide) hw
  exact ⟨s₁, s₂, s₃, hf, (mutual_exclusion .mongo).1 _ _ _ _ _ _ hf⟩

/-- The other owner wins the lease within the lifetime an acquire was given, which its owner did not
release: after the owner's renewal for a shorter time, or where the acquire took effect long after
it read the clock. -/
theorem taken_early : (∃ t s₁ s₂ s₃, Follows .sqlite (Unreleased "gateway:chat" "x") Sample.held
      Sample.other t s₁ s₂ s₃ ∧ s₃.store.clock < s₁.store.clock + Sample.held.ttl) ∧
    ∃ t s₁ s₂ s₃, Follows .sqlite (Unrenewed .sqlite "gateway:chat" "x") Sample.held
      Sample.other t s₁ s₂ s₃ ∧ s₃.store.clock < s₁.store.clock + Sample.held.ttl := by
  constructor
  · have h : (Sample.wins .sqlite (Sample.unreleasedCheck "gateway:chat" "x") Sample.held
        Sample.other 0 3 0 2 [.acquire Sample.held, .step 0, .step 0]
        [.advance (Sample.sec 1), .acquire Sample.renewed, .step 1, .step 1, .step 1,
          .advance (Sample.sec 2), .acquire Sample.other, .step 2, .step 2]).any (fun w =>
          decide (w.2.2.store.clock < w.1.store.clock + Sample.held.ttl)) = true := by decide
    obtain ⟨⟨s₁, s₂, s₃⟩, hw, hlt⟩ := (Option.any_eq_true _ _).1 h
    exact ⟨0, s₁, s₂, s₃, Sample.follows_of_wins (fun _ _ => Sample.unreleased_of_check) rfl
      (by decide) hw, of_decide_eq_true hlt⟩
  · have h : (Sample.wins .sqlite (Sample.unrenewedCheck .sqlite "gateway:chat" "x") Sample.held
        Sample.other 0 31 0 1 [.acquire Sample.held, .step 0, .step 0, .advance (Sample.sec 20)]
        [.advance (Sample.sec 11), .acquire Sample.other, .step 1, .step 1]).any (fun w =>
          decide (w.2.2.store.clock < w.1.store.clock + Sample.held.ttl)) = true := by decide
    obtain ⟨⟨s₁, s₂, s₃⟩, hw, hlt⟩ := (Option.any_eq_true _ _).1 h
    exact ⟨0, s₁, s₂, s₃, Sample.follows_of_wins (fun _ _ => Sample.unrenewed_of_check) rfl
      (by decide) hw, of_decide_eq_true hlt⟩

end Leases
