import ImpiAgent.Store.Proof.Leases
import ImpiAgent.Store.Replicas

/-!
# A conversation is not taken from a live owner

SQLite decides in one statement. MongoDB reads the row, then the owner's lease, then writes, and the
owner may come back in between (`displaced_alive`). `Steady` is what has to hold of the steps in
between; `Claiming` is what a call then knows at each of its points, and `changes_kept` that a
statement replaces only an owner that is not alive. From it: who is displaced, what a call answers,
and that a live owner keeps its conversations (`never_taken`).
-/

namespace Replicas

variable {b : Backend} {s s' : State} {e : Event}

/-- The owner a call of MongoDB's has read in the row, its presence not yet. -/
def Point.owner : Point → Option (ClaimArgs × String)
  | .dating a _ owner | .asking a _ owner _ => some (a, owner)
  | _ => none

/-- By this statement of the lease store, a replica that was not alive acquires its lease. -/
def Returns (b : Backend) (k : Point) (s : Store) (o : String) : Prop :=
  ¬ s.Live o ∧ ∃ p l a t, k = .lease p ∧ p.step b s.leases = some (l, .acquired a t) ∧
    a.name = replicaLeasePrefix ++ o

/-- What must hold where a call at `k` issues its next statement and another is at `c`: a replica
does not come back while it is about to be replaced, nor, displaced, while its presence is about to
be looked at; it does not become the owner, alive, while it is about to be replaced; and it is not
replaced while its presence is about to be looked at as of a second at which it was alive. -/
structure Between (b : Backend) (k c : Point) (s : Store) : Prop where
  back : ∀ o, Returns b k s o → (∀ a left, c ≠ .moving a left o) ∧
    ∀ a, c.owner = some (a, o) → s.get a.key = some o
  comes : ∀ a left o x left', k = .moving a left o → s.get a.key = some o →
    c = .moving x left' a.replica → x.key = a.key → ¬ s.Live a.replica
  looks : ∀ a left o x left' now, k = .moving a left o → s.get a.key = some o →
    c = .asking x left' o now → x.key = a.key → s.liveUrl o now = none

/-- Claims come without `take`; in MongoDB, the calls under way meet `Between`. -/
structure Steady (b : Backend) (s : State) (e : Event) : Prop where
  asks : ∀ a, e = .claim a → a.take = false
  between : b = .mongo → ∀ i j k c, e = .step i → i ≠ j → s.At i k → s.At j c →
    Between b k c s.store

/-! ## Who is alive -/

theorem liveUrl_isSome {s : Store} {o : String} {now : Time} : (s.liveUrl o now).isSome = true ↔
    ∃ r ∈ s.leases.leases, r.name = replicaLeasePrefix ++ o ∧ Clock.fromIso now ≤ r.till := by
  rw [Store.liveUrl, Option.isSome_map]
  constructor
  · intro h
    obtain ⟨r, hr⟩ := Option.isSome_iff_exists.1 h
    obtain ⟨hr, hp⟩ := Table.find?_some hr
    exact ⟨r, hr, of_decide_eq_true hp⟩
  · rintro ⟨r, hr, hp⟩
    cases hf : s.leases.leases.find? fun r =>
        decide (r.name = replicaLeasePrefix ++ o ∧ Clock.fromIso now ≤ r.till) with
    | some q => rfl
    | none => exact absurd hp (of_decide_eq_false (Table.find?_none hf r hr))

theorem liveUrl_eq_none {s : Store} {o : String} {now : Time} : s.liveUrl o now = none ↔
    ∀ r ∈ s.leases.leases, r.name = replicaLeasePrefix ++ o → r.till < Clock.fromIso now := by
  rw [← Option.not_isSome_iff_eq_none, liveUrl_isSome]
  simp only [not_exists, not_and, Int.not_le]

theorem fromIso_le {t t' : Time} (h : t ≤ t') : Clock.fromIso t ≤ Clock.fromIso t' :=
  Int.not_lt.1 fun hlt => Int.not_lt.2 h (Clock.fromIso_lt.1 hlt)

/-- Lapsed at an earlier second is lapsed now. -/
theorem not_live_of {s : Store} {o : String} {now : Time} (h : s.liveUrl o now = none)
    (hn : now ≤ s.nowIso) : ¬ s.Live o := by
  rw [Store.Live, liveUrl_isSome]
  rintro ⟨r, hr, hname, hle⟩
  have := liveUrl_eq_none.1 h r hr hname
  exact absurd (Int.lt_of_lt_of_le this (fromIso_le hn)) (Int.not_lt.2 hle)

/-- Time only ends a presence. -/
theorem live_advance {s : Store} {d : Nat} {o : String}
    (h : ({ s with leases := s.leases.advance d } : Store).Live o) : s.Live o := by
  obtain ⟨r, hr, hname, hle⟩ := liveUrl_isSome.1 h
  refine liveUrl_isSome.2 ⟨r, hr, hname, Int.le_trans (fromIso_le ?_) hle⟩
  exact Clock.toIso_mono (Leases.advance_clock s.leases d)

/-- A statement that does not bring a replica back leaves it lapsed. -/
theorem liveUrl_none_of_lease {s : Store} {p p' : Leases.Point} {l : Leases.Store} {o : String}
    {now : Time} (h : p.step b s.leases = some (l, p')) (hlive : s.liveUrl o now = none)
    (hno : ∀ a t, p' = .acquired a t → a.name ≠ replicaLeasePrefix ++ o) :
    ({ s with leases := l } : Store).liveUrl o now = none := by
  rw [liveUrl_eq_none] at hlive ⊢
  intro r hr hname
  cases Leases.step_writes h with
  | reads => exact hlive r hr hname
  | @wins _ _ a t _ _ _ hm =>
    rcases (hm r).1 hr with rfl | ⟨hr, -⟩
    · exact absurd hname (hno a t rfl)
    · exact hlive r hr hname
  | lets => exact hlive r (Leases.Store.mem_release.1 hr).1 hname

/-! ## What a call knows -/

/-- What is true of a call at each of its points. -/
def Claiming (b : Backend) : Point → Store → Prop
  | .reading a, _ => b = .sqlite ∧ a.take = false
  | .updating a now, s => b = .sqlite ∧ a.take = false ∧ now ≤ s.nowIso
  | .readingBack a _, s | .findingLast a, s => ∃ o, s.get a.key = some o
  | .finding a left, s => b = .mongo ∧ a.take = false ∧ (left = 2 ∨ ∃ o, s.get a.key = some o)
  | .inserting a _, _ => b = .mongo ∧ a.take = false
  | .dating a _ owner, s => b = .mongo ∧ a.take = false ∧ (∃ o, s.get a.key = some o) ∧
      (s.get a.key = some owner ∨ ¬ s.Live owner)
  | .asking a _ owner now, s => b = .mongo ∧ a.take = false ∧ (∃ o, s.get a.key = some o) ∧
      (s.get a.key = some owner ∨ s.liveUrl owner now = none) ∧ now ≤ s.nowIso
  | .moving a _ owner, s => b = .mongo ∧ a.take = false ∧ (∃ o, s.get a.key = some o) ∧
      (s.get a.key = some owner → ¬ s.Live owner)
  | _, _ => True

theorem pass_claiming {s : Store} {a : ClaimArgs} {left : Nat} (hb : b = .mongo)
    (ht : a.take = false) (hr : ∃ o, s.get a.key = some o) : Claiming b (pass a left) s := by
  cases left with
  | zero => exact hr
  | succ left => exact ⟨hb, ht, .inr hr⟩

/-- After SQLite's transaction the conversation has an owner. -/
theorem get_claim (s : Store) (a : ClaimArgs) (now : Time) :
    ∃ o, (s.claim a now).get a.key = some o := by
  unfold Store.claim
  split
  · rename_i hany
    obtain ⟨o, ho, -⟩ := (Option.any_eq_true _ _).1 hany
    exact ⟨a.replica, by rw [get_set, if_pos rfl, ho, Option.map_some]⟩
  · cases hi : s.insert a with
    | none => exact get_of_refused hi
    | some t => exact ⟨a.replica, by rw [Option.getD_some, (get_insert hi).2.2, if_pos rfl]⟩

theorem step_claiming {k k' : Point} {s s' : Store} (hk : Claiming b k s)
    (h : k.step b s = some (s', k')) : Claiming b k' s' := by
  cases k <;> simp only [Point.step, Option.some.injEq, Prod.mk.injEq, reduceCtorEq] at h
  case lease k =>
    obtain ⟨⟨l, q⟩, -, he⟩ := Option.map_eq_some_iff.1 h
    cases he
    trivial
  case reading a =>
    obtain ⟨rfl, rfl⟩ := h
    exact ⟨hk.1, hk.2, Int.le_refl _⟩
  case updating a now =>
    obtain ⟨rfl, rfl⟩ := h
    exact get_claim s a now
  case readingBack a now =>
    obtain ⟨rfl, rfl⟩ := h
    split <;> trivial
  case finding a left =>
    obtain ⟨rfl, rfl⟩ := h
    cases hg : s.get a.key with
    | none => exact ⟨hk.1, hk.2.1⟩
    | some owner =>
      dsimp only
      split
      · trivial
      · exact ⟨hk.1, hk.2.1, ⟨owner, hg⟩, .inl hg⟩
  case inserting a left =>
    split at h
    · cases h
      trivial
    · rename_i hi
      cases h
      exact pass_claiming hk.1 hk.2 (get_of_refused hi)
  case dating a left owner =>
    obtain ⟨rfl, rfl⟩ := h
    exact ⟨hk.1, hk.2.1, hk.2.2.1, hk.2.2.2.imp_right fun hn =>
      Option.not_isSome_iff_eq_none.1 hn, Int.le_refl _⟩
  case asking a left owner now =>
    obtain ⟨rfl, rfl⟩ := h
    cases hu : s.liveUrl owner now with
    | none => exact ⟨hk.1, hk.2.1, hk.2.2.1, fun _ => not_live_of hu hk.2.2.2.2⟩
    | some url =>
      simp only [hk.2.1, Bool.false_eq_true, if_false]
      trivial
  case moving a left owner =>
    split at h
    · cases h
      trivial
    · cases h
      exact pass_claiming hk.1 hk.2.1 hk.2.2.1
  case findingLast a =>
    obtain ⟨rfl, rfl⟩ := h
    split <;> trivial
  case datingLast a owner =>
    obtain ⟨rfl, rfl⟩ := h
    trivial
  case addressing a owner now =>
    obtain ⟨rfl, rfl⟩ := h
    trivial

/-! ## What a statement does to the others -/

/-- A row stays, with the owner it names or one who replaced an owner that is not alive. -/
theorem changes_kept {k : Point} {s s' : Store} {c : Conversation} {o : String}
    (hk : Claiming b k s) (h : Changes b s k s') (ho : s.get c = some o) :
    s'.get c = some o ∨ s'.leases = s.leases ∧ ¬ s.Live o ∧ ∃ a, a.key = c ∧
      s'.get c = some a.replica ∧ (b = .mongo → ∃ left, k = .moving a left o) := by
  cases h with
  | quiet => exact .inl ho
  | lease => exact .inl ho
  | @sets _ _ a hl hg hd =>
    by_cases hc : c = a.key
    · subst hc
      have hrow : s'.get a.key = some a.replica := by rw [hg, if_pos rfl]
      rcases hd o ho with ⟨left, rfl⟩ | ⟨now, rfl, hmay⟩
      · exact .inr ⟨hl, hk.2.2.2 ho, a, rfl, hrow, fun _ => ⟨left, rfl⟩⟩
      · obtain ⟨hb, ht, hnow⟩ := hk
        simp only [Store.mayReplace, ht, Bool.or_false, Bool.or_eq_true, decide_eq_true_eq] at hmay
        rcases hmay with rfl | hu
        · exact .inl hrow
        · exact .inr ⟨hl, not_live_of (Option.isNone_iff_eq_none.1 hu) hnow, a, rfl, hrow,
            fun hm => nomatch hb.symm.trans hm⟩
    · exact .inl (by rw [hg, if_neg hc, ho])

theorem row_kept {k : Point} {s s' : Store} {c : Conversation} (hk : Claiming b k s)
    (h : Changes b s k s') (hr : ∃ o, s.get c = some o) : ∃ o, s'.get c = some o := by
  obtain ⟨o, ho⟩ := hr
  rcases changes_kept hk h ho with ho | ⟨-, -, a, -, ho, -⟩
  · exact ⟨o, ho⟩
  · exact ⟨a.replica, ho⟩

theorem changes_nowIso {k : Point} {s s' : Store} (h : Changes b s k s') :
    s'.nowIso = s.nowIso := by
  cases h with
  | quiet => rfl
  | lease hp => exact congrArg Clock.toIso (Leases.step_clock hp)
  | sets hl _ _ => rw [Store.nowIso, hl, ← Store.nowIso]

/-- Who is lapsed and does not come back stays lapsed. -/
theorem lapsed_kept {k : Point} {s s' : Store} {o : String} {now : Time} (h : Changes b s k s')
    (hno : ¬ Returns b k s o) (hn : ¬ s.Live o) (hu : s.liveUrl o now = none) :
    s'.liveUrl o now = none := by
  cases h with
  | quiet => exact hu
  | lease hp =>
    exact liveUrl_none_of_lease hp hu fun a t he hname =>
      hno ⟨hn, _, _, a, t, rfl, he ▸ hp, hname⟩
  | sets hl _ _ => rw [Store.liveUrl, hl, ← Store.liveUrl, hu]

theorem not_live_kept {k : Point} {s s' : Store} {o : String} (h : Changes b s k s')
    (hno : ¬ Returns b k s o) (hn : ¬ s.Live o) : ¬ s'.Live o := by
  rw [Store.Live, Option.not_isSome_iff_eq_none] at hn ⊢
  rw [changes_nowIso h]
  exact lapsed_kept h hno (Option.not_isSome_iff_eq_none.2 hn) hn

theorem live_of_leases {s s' : Store} {o : String} (hl : s'.leases = s.leases) :
    s'.Live o ↔ s.Live o := by
  rw [Store.Live, Store.Live, Store.liveUrl, Store.liveUrl, Store.nowIso, Store.nowIso, hl]

/-- A statement leaves what the other calls know. -/
theorem other_claiming {k c : Point} {s s' : Store} (hk : Claiming b k s) (hc : Claiming b c s)
    (hG : b = .mongo → Between b k c s) (h : Changes b s k s') : Claiming b c s' := by
  have hnow := changes_nowIso h
  cases c with
  | reading a => exact hc
  | updating a now => exact ⟨hc.1, hc.2.1, hnow ▸ hc.2.2⟩
  | readingBack a now => exact row_kept hk h hc
  | findingLast a => exact row_kept hk h hc
  | finding a left => exact ⟨hc.1, hc.2.1, hc.2.2.imp_right (row_kept hk h)⟩
  | inserting a left => exact hc
  | dating a left o =>
    obtain ⟨hb, ht, hr, hown⟩ := hc
    refine ⟨hb, ht, row_kept hk h hr, ?_⟩
    by_cases ho : s.get a.key = some o
    · rcases changes_kept hk h ho with ho | ⟨hl, hn, -⟩
      · exact .inl ho
      · exact .inr (mt (live_of_leases hl).1 hn)
    · refine .inr (not_live_kept h (fun hret => ho ?_) (hown.resolve_left ho))
      exact ((hG hb).back o hret).2 a rfl
  | asking a left o now =>
    obtain ⟨hb, ht, hr, hown, hle⟩ := hc
    refine ⟨hb, ht, row_kept hk h hr, ?_, hnow ▸ hle⟩
    by_cases ho : s.get a.key = some o
    · rcases changes_kept hk h ho with ho' | ⟨hl, -, x, hx, -, hm⟩
      · exact .inl ho'
      · obtain ⟨left', rfl⟩ := hm hb
        refine .inr ?_
        rw [Store.liveUrl, hl, ← Store.liveUrl]
        exact (hG hb).looks x left' o a left now rfl (hx ▸ ho) rfl hx.symm
    · have hu := hown.resolve_left ho
      refine .inr (lapsed_kept h (fun hret => ho ?_) (not_live_of hu hle) hu)
      exact ((hG hb).back o hret).2 a rfl
  | moving a left o =>
    obtain ⟨hb, ht, hr, hown⟩ := hc
    refine ⟨hb, ht, row_kept hk h hr, fun ho' => ?_⟩
    by_cases ho : s.get a.key = some o
    · exact not_live_kept h (fun hret => ((hG hb).back o hret).1 a left rfl) (hown ho)
    · -- the row came to name `o` by this statement
      obtain ⟨p, hp⟩ := hr
      rcases changes_kept hk h hp with hp' | ⟨hl, -, x, hx, hrow, hm⟩
      · exact absurd (hp.trans (hp'.symm.trans ho')) ho
      · obtain ⟨left', rfl⟩ := hm hb
        obtain rfl : x.replica = o := Option.some.inj (hrow.symm.trans ho')
        exact mt (live_of_leases hl).1
          ((hG hb).comes x left' p a left rfl (hx ▸ hp) rfl hx.symm)
  | lease p => trivial
  | datingLast a o => trivial
  | addressing a o now => trivial
  | told a o => trivial

/-- The outline of the calls. -/
def outline (b : Backend) :
    Pool.Outline (Point.step b) fun k c s => b = .mongo → Between b k c s where
  I _ := True
  L := Claiming b
  D _ _ := True
  own _ hk h := ⟨trivial, step_claiming hk h⟩
  other _ hk hc _ hG h := other_claiming hk hc hG (step_changes h)
  apart _ _ _ _ _ _ := trivial
  symm _ := trivial

theorem advance_claiming {k : Point} {s : Store} {d : Nat} (h : Claiming b k s) :
    Claiming b k { s with leases := s.leases.advance d } := by
  have hnow : s.nowIso ≤ ({ s with leases := s.leases.advance d } : Store).nowIso :=
    Clock.toIso_mono (Leases.advance_clock s.leases d)
  cases k with
  | updating a now => exact ⟨h.1, h.2.1, Int.le_trans h.2.2 hnow⟩
  | dating a left o => exact ⟨h.1, h.2.1, h.2.2.1, h.2.2.2.imp_right (mt live_advance)⟩
  | asking a left o now =>
    exact ⟨h.1, h.2.1, h.2.2.1, h.2.2.2.1, Int.le_trans h.2.2.2.2 hnow⟩
  | moving a left o => exact ⟨h.1, h.2.1, h.2.2.1, fun ho => mt live_advance (h.2.2.2 ho)⟩
  | _ => exact h

theorem claiming (h : (lts b).Reach (Steady b) s) : (outline b).Holds s := by
  refine h.inv (fun s h0 => ?_) fun s e s' ih hC hn => ?_
  · obtain ⟨store, calls⟩ := s
    cases show calls = [] from h0.2.2
    exact .empty trivial
  · cases e with
    | advance d =>
      cases hn
      exact ih.write trivial fun _ => advance_claiming
    | acquire a =>
      cases hn
      exact ih.start trivial fun _ _ _ => trivial
    | release name owner =>
      cases hn
      exact ih.start trivial fun _ _ _ => trivial
    | claim a =>
      cases hn
      refine ih.start ?_ fun _ _ _ => trivial
      cases b with
      | sqlite => exact ⟨rfl, hC.asks a rfl⟩
      | mongo => exact ⟨rfl, hC.asks a rfl, .inl rfl⟩
    | step i =>
      obtain ⟨k, σ, k', hk, hm, rfl⟩ := Pool.exec_eq_some.1 hn
      exact ih.put hk (fun j c hne hj hb => hC.between hb i j k c rfl (Ne.symm hne) hk hj) hm
    | drop i =>
      cases hn
      exact ih.kill

/-! ## What a call answers -/

/-- Where the answer is settled, the row names it. -/
theorem step_answers {k k' : Point} {s s' : Store} {a : ClaimArgs} {o : String}
    (hk : Claiming b k s) (h : k.step b s = some (s', k')) (hnone : k.answer = none)
    (hans : k'.answer = some (a, o)) : s'.get a.key = some o := by
  cases k <;> simp only [Point.step, Option.some.injEq, Prod.mk.injEq, reduceCtorEq] at h
  case lease k =>
    obtain ⟨⟨l, q⟩, -, he⟩ := Option.map_eq_some_iff.1 h
    cases he
    cases hans
  case reading c =>
    obtain ⟨rfl, rfl⟩ := h
    cases hans
  case updating c now =>
    obtain ⟨rfl, rfl⟩ := h
    cases hans
  case readingBack c now =>
    obtain ⟨rfl, rfl⟩ := h
    obtain ⟨p, hp⟩ := hk
    rw [hp, Option.getD_some] at hans
    split at hans <;> cases hans <;> exact hp
  case finding c left =>
    obtain ⟨rfl, rfl⟩ := h
    split at hans
    · cases hans
    · rename_i p hp
      split at hans
      · rename_i he
        cases hans
        rw [hp, he]
      · cases hans
  case inserting c left =>
    split at h
    · rename_i t hi
      cases h
      cases hans
      rw [(get_insert hi).2.2, if_pos rfl]
    · cases h
      cases left <;> cases hans
  case dating c left owner =>
    obtain ⟨rfl, rfl⟩ := h
    cases hans
  case asking c left owner now =>
    obtain ⟨rfl, rfl⟩ := h
    split at hans
    · rename_i url hu
      split at hans
      · cases hans
      · cases hans
        refine hk.2.2.2.1.resolve_right fun hn => ?_
        rw [hn] at hu
        cases hu
    · cases hans
  case moving c left owner =>
    split at h
    · rename_i ho
      cases h
      cases hans
      rw [get_set, if_pos rfl, ho, Option.map_some]
    · cases h
      cases left <;> cases hans
  case findingLast c =>
    obtain ⟨rfl, rfl⟩ := h
    obtain ⟨p, hp⟩ := hk
    rw [hp, Option.getD_some] at hans
    split at hans <;> cases hans <;> exact hp
  case datingLast c owner => cases hnone
  case addressing c owner now => cases hnone

/-- A settled answer stays. -/
theorem step_answer_kept {k k' : Point} {s s' : Store} {x : ClaimArgs × String}
    (h : k.step b s = some (s', k')) (hans : k.answer = some x) : k'.answer = some x := by
  cases k <;> simp only [Point.answer, Option.some.injEq, reduceCtorEq] at hans <;> subst hans <;>
    cases h <;> rfl

/-- The owner a call goes by is the one the row names, or it went by it already. -/
theorem step_owner {k k' : Point} {s s' : Store} {a : ClaimArgs} {p : String}
    (h : k.step b s = some (s', k')) (hown : k'.owner = some (a, p)) :
    k.owner = some (a, p) ∨ s.get a.key = some p := by
  cases k <;> simp only [Point.step, Option.some.injEq, Prod.mk.injEq, reduceCtorEq] at h
  case lease k =>
    obtain ⟨⟨l, q⟩, -, he⟩ := Option.map_eq_some_iff.1 h
    cases he
    cases hown
  case finding c left =>
    obtain ⟨rfl, rfl⟩ := h
    split at hown
    · cases hown
    · rename_i p hp
      split at hown <;> cases hown
      exact .inr hp
  case dating c left owner =>
    obtain ⟨rfl, rfl⟩ := h
    exact .inl hown
  case inserting c left =>
    split at h <;> cases h
    · cases hown
    · cases left <;> cases hown
  case moving c left owner =>
    split at h <;> cases h
    · cases hown
    · cases left <;> cases hown
  case asking c left owner now =>
    obtain ⟨rfl, rfl⟩ := h
    split at hown
    · split at hown <;> cases hown
    · cases hown
  case readingBack c now =>
    obtain ⟨rfl, rfl⟩ := h
    split at hown <;> cases hown
  case findingLast c =>
    obtain ⟨rfl, rfl⟩ := h
    split at hown <;> cases hown
  all_goals
    obtain ⟨rfl, rfl⟩ := h
    cases hown

/-- A call is about to replace an owner it went by and found not alive. -/
theorem step_moving {k : Point} {s s' : Store} {a : ClaimArgs} {left : Nat} {p : String}
    (hk : Claiming b k s) (h : k.step b s = some (s', .moving a left p)) :
    k.owner = some (a, p) ∧ ¬ s.Live p := by
  cases k <;> simp only [Point.step, Option.some.injEq, Prod.mk.injEq, reduceCtorEq, and_false] at h
  case lease k =>
    obtain ⟨⟨l, q⟩, -, he⟩ := Option.map_eq_some_iff.1 h
    cases he
  case finding c left =>
    obtain ⟨-, h⟩ := h
    split at h
    · cases h
    · split at h <;> cases h
  case inserting c left =>
    split at h
    · cases h
    · cases left <;> cases h
  case moving c left owner =>
    split at h
    · cases h
    · cases left <;> cases h
  case asking c left owner now =>
    obtain ⟨-, h⟩ := h
    split at h
    · rw [hk.2.1] at h
      cases h
    · rename_i hu
      cases h
      exact ⟨rfl, not_live_of hu hk.2.2.2.2⟩
  case readingBack c now =>
    obtain ⟨-, h⟩ := h
    split at h <;> cases h
  case findingLast c =>
    obtain ⟨-, h⟩ := h
    split at h <;> cases h

/-- A call about the conversation `c`, whose owner `o` is alive all along, is at this point. -/
structure Serves (c : Conversation) (o : String) (k : Point) : Prop where
  owner : ∀ a p, k.owner = some (a, p) → a.key = c → p = o
  moving : ∀ a left p, k = .moving a left p → a.key ≠ c
  answer : ∀ a p, k.answer = some (a, p) → a.key = c → p = o

theorem get_of_live {k : Point} {s s' : Store} {c : Conversation} {o : String}
    (hk : Claiming b k s) (h : Changes b s k s') (ho : s.get c = some o) (hlive : s.Live o) :
    s'.get c = some o :=
  (changes_kept hk h ho).resolve_right fun hn => hn.2.1 hlive

theorem serves_of_step {k k' : Point} {s s' : Store} {c : Conversation} {o : String}
    (hk : Claiming b k s) (hs : Serves c o k) (ho : s.get c = some o) (hlive : s.Live o)
    (h : k.step b s = some (s', k')) : Serves c o k' where
  owner a p hown hc := by
    rcases step_owner h hown with hown | hp
    · exact hs.owner a p hown hc
    · rw [hc, ho] at hp
      exact (Option.some.inj hp).symm
  moving a left p hm hc := by
    subst hm
    obtain ⟨hown, hn⟩ := step_moving hk h
    exact hn (hs.owner a p hown hc ▸ hlive)
  answer a p hans hc := by
    cases hx : k.answer with
    | some x =>
      cases (step_answer_kept h hx).symm.trans hans
      exact hs.answer a p hx hc
    | none =>
      have hp := step_answers hk h hx hans
      rw [hc, get_of_live hk (step_changes h) ho hlive] at hp
      exact (Option.some.inj hp).symm

theorem serves_new {c : Conversation} {o : String} (b : Backend) (a : ClaimArgs) :
    Serves c o (claimConversation b a) := by
  cases b <;> exact ⟨nofun, nofun, nofun⟩

/-- `o` is the owner of `c`, and the calls from the `n`th on go by it. -/
structure Kept (c : Conversation) (o : String) (n : Nat) (s : State) : Prop where
  row : s.store.get c = some o
  calls : ∀ i k, n ≤ i → s.At i k → Serves c o k

theorem kept_step {c : Conversation} {o : String} {n : Nat} (h : (lts b).Reach (Steady b) s)
    (hkept : Kept c o n s) (hlive : s.store.Live o) (hn : next b s e = some s') :
    Kept c o n s' := by
  have fresh : ∀ k, Serves c o k → Kept c o n (s.start k) := fun k hk =>
    ⟨hkept.row, fun i k' hi hk' => (Pool.at_start.1 hk').elim (hkept.calls i k' hi)
      fun he => he.2 ▸ hk⟩
  cases e with
  | advance d =>
    cases hn
    exact ⟨hkept.row, hkept.calls⟩
  | acquire a =>
    cases hn
    exact fresh _ ⟨nofun, nofun, nofun⟩
  | release name owner =>
    cases hn
    exact fresh _ ⟨nofun, nofun, nofun⟩
  | claim a =>
    cases hn
    exact fresh _ (serves_new b a)
  | step i =>
    obtain ⟨k, σ, k', hk, hm, rfl⟩ := Pool.exec_eq_some.1 hn
    have hcl := (claiming h).calls i k hk
    refine ⟨get_of_live hcl (step_changes hm) hkept.row hlive, fun j x hj hx => ?_⟩
    rcases (Pool.at_put hk).1 hx with ⟨rfl, rfl⟩ | ⟨-, hx⟩
    · exact serves_of_step hcl (hkept.calls j k hj hk) hkept.row hlive hm
    · exact hkept.calls j x hj hx
  | drop i =>
    cases hn
    exact ⟨hkept.row, fun j x hj hx => hkept.calls j x hj (Pool.at_kill.1 hx).2⟩

/-- A conversation is not taken from a live owner: where every step is `Steady`, a step that gives a
conversation's row another owner finds the one it names lapsed; where a call's answer is settled the
row names it; and while an owner stays alive the row keeps it and every call that begins in the
meantime answers with it. -/
theorem never_taken (h : (lts b).Reach (Steady b) s) :
    (∀ e s' c o o', next b s e = some s' → s.store.get c = some o → s'.store.get c = some o' →
      o' ≠ o → ¬ s.store.Live o) ∧
    (∀ i k k' s' a o, next b s (.step i) = some s' → s.At i k → s'.At i k' → k.answer = none →
      k'.answer = some (a, o) → s'.store.get a.key = some o) ∧
    (∀ es s' c o, s.store.get c = some o →
      (lts b).Run (fun s e => Steady b s e ∧ s.store.Live o) s es s' →
      s'.store.get c = some o ∧ ∀ i a owner, s.calls.length ≤ i → s'.At i (.told a owner) →
        a.key = c → owner.replica = o) := by
  refine ⟨fun e s' c o o' hn ho ho' hne => ?_, fun i k k' s' a o hn hk hk' hnone hans => ?_,
    fun es s' c o ho hrun => ?_⟩
  · cases e with
    | advance d =>
      cases hn
      exact absurd (Option.some.inj (ho'.symm.trans ho)) hne
    | acquire a =>
      cases hn
      exact absurd (Option.some.inj (ho'.symm.trans ho)) hne
    | release name owner =>
      cases hn
      exact absurd (Option.some.inj (ho'.symm.trans ho)) hne
    | claim a =>
      cases hn
      exact absurd (Option.some.inj (ho'.symm.trans ho)) hne
    | step i =>
      obtain ⟨k, σ, k', hk, hm, rfl⟩ := Pool.exec_eq_some.1 hn
      rcases changes_kept ((claiming h).calls i k hk) (step_changes hm) ho with hx | ⟨-, hx, -⟩
      · exact absurd (Option.some.inj (ho'.symm.trans hx)) hne
      · exact hx
    | drop i =>
      cases hn
      exact absurd (Option.some.inj (ho'.symm.trans ho)) hne
  · obtain ⟨k₀, σ, k₁, hk₀, hm, rfl⟩ := Pool.exec_eq_some.1 hn
    cases hk.eq hk₀
    cases hk'.eq (Pool.at_put_self hk)
    exact step_answers ((claiming h).calls i k hk) hm hnone hans
  · have hkept : Kept c o s.calls.length s' := by
      refine hrun.inv_of h (fun _ _ hC => hC.1) ⟨ho, fun i k hi hk => ?_⟩
        fun s e s' hs hk hC hn => kept_step hs hk hC.2 hn
      exact absurd hk.lt (Nat.not_lt.2 hi)
    exact ⟨hkept.row, fun i a owner hi hk hc =>
      (hkept.calls i _ hi hk).answer a owner.replica rfl hc⟩

namespace Sample

def start : State := ⟨⟨⟨0, .empty⟩, .empty⟩, []⟩

def sec (n : Nat) : Nat := n * 1000000

def chat : Conversation := ⟨"bot", "c1"⟩

/-- Replica `a` says it is alive. -/
def beat : Leases.AcquireArgs := ⟨"replica:a", "http://a", sec 2⟩

/-- It becomes the owner of the conversation, in its first second. -/
def owned : List Event :=
  [.acquire beat, .step 0, .step 0, .step 0, .step 0, .claim ⟨chat, "a", false⟩, .step 1, .step 1]

/-- Two others ask about it, one after the other. -/
def asked : List Event :=
  [.claim ⟨chat, "z", false⟩, .step 2, .step 2, .step 2, .claim ⟨chat, "y", false⟩, .step 3, .step 3,
    .step 3]

/-- Another replica finds it lapsed, it comes back, and the other takes the conversation. -/
def crossed : List Event :=
  [.advance (sec 5), .claim ⟨chat, "z", false⟩, .step 2, .step 2, .step 2, .acquire beat, .step 3,
    .step 3, .step 3]

/-- A call that has read no owner it still has to look at or replace. -/
def Quiet : Point → Bool
  | .dating .. | .asking .. | .moving .. => false
  | _ => true

theorem between_of_quiet {k c : Point} {s : Store} (h : Quiet c = true) : Between b k c s where
  back o _ := by
    refine ⟨fun a left he => ?_, fun a he => ?_⟩
    · subst he
      cases h
    · cases c <;> cases he <;> cases h
  comes a left o x left' _ _ he := by
    subst he
    cases h
  looks a left o x left' now _ _ he := by
    subst he
    cases h

/-- The step begins no forceful claim, and no other call is half way. -/
def steadyCheck (s : State) : Event → Bool
  | .claim a => !a.take
  | .step i => (List.range s.calls.length).all fun j => j == i || match s.calls[j]? with
      | some (some c) => Quiet c
      | _ => true
  | _ => true

theorem steady_of_check (h : steadyCheck s e = true) : Steady b s e where
  asks a he := by
    subst he
    simpa [steadyCheck] using h
  between _ i j k c he hne hk hc := by
    subst he
    have hj := List.all_eq_true.1 h j (List.mem_range.2 hc.lt)
    rw [Bool.or_eq_true, beq_iff_eq, show s.calls[j]? = _ from hc] at hj
    exact between_of_quiet (hj.resolve_left (Ne.symm hne))

end Sample

/-- Two replicas ask MongoDB about a conversation whose owner is alive, and both are told. -/
theorem never_taken_run : ∃ (s s' : State) (a c : ClaimArgs) (p q : ConversationOwner),
    (lts .mongo).Reach (Steady .mongo) s ∧
    s.store.get Sample.chat = some "a" ∧ s'.At 2 (.told a p) ∧ s'.At 3 (.told c q) ∧
    a.replica ≠ c.replica ∧ p.replica = "a" ∧ q.replica = "a" := by
  have h : ((lts .mongo).check Sample.steadyCheck Sample.start Sample.owned).any (fun s =>
      decide (s.store.get Sample.chat = some "a" ∧ s.calls.length = 2) &&
      ((lts .mongo).check (fun s e => Sample.steadyCheck s e && decide (s.store.Live "a")) s
        Sample.asked).any fun s' =>
          decide (s'.At 2 (.told ⟨Sample.chat, "z", false⟩ ⟨"a", "http://a"⟩) ∧
            s'.At 3 (.told ⟨Sample.chat, "y", false⟩ ⟨"a", "http://a"⟩))) = true := by decide
  obtain ⟨s, hs, h⟩ := (Option.any_eq_true _ _).1 h
  obtain ⟨hrow, h⟩ := Bool.and_eq_true_iff.1 h
  obtain ⟨hrow, hlen⟩ := of_decide_eq_true hrow
  obtain ⟨s', hs', h⟩ := (Option.any_eq_true _ _).1 h
  obtain ⟨hz, hy⟩ := of_decide_eq_true h
  have hreach : (lts .mongo).Reach (Steady .mongo) s :=
    Lts.reach_of_check (fun _ _ => Sample.steady_of_check) ⟨rfl, rfl, rfl⟩ hs
  have hrun : (lts .mongo).Run (fun s e => Steady .mongo s e ∧ s.store.Live "a") s Sample.asked s' :=
    Lts.run_of_check (fun s e hc => (Bool.and_eq_true_iff.1 hc).imp Sample.steady_of_check
      of_decide_eq_true) hs'
  obtain ⟨-, hans⟩ := (never_taken hreach).2.2 _ s' Sample.chat "a" hrow hrun
  exact ⟨s, s', _, _, _, _, hreach, hrow, hz, hy, by decide, hans 2 _ _ (hlen ▸ Nat.le_refl 2) hz rfl,
    hans 3 _ _ (hlen ▸ Nat.le_succ 2) hy rfl⟩

/-- MongoDB: a claim that found the owner lapsed takes the conversation after the owner came back. -/
theorem displaced_alive : ∃ s s' : State,
    (lts .mongo).Reach (fun _ e => ∀ a, e = .claim a → a.take = false) s ∧
    next .mongo s (.step 2) = some s' ∧ s.store.Live "a" ∧ s.store.get Sample.chat = some "a" ∧
    s'.store.get Sample.chat = some "z" := by
  have h : ((lts .mongo).check (fun _ e => match e with | .claim a => !a.take | _ => true)
      Sample.start (Sample.owned ++ Sample.crossed)).any (fun s =>
      (next .mongo s (.step 2)).any fun s' => decide (s.store.Live "a" ∧
        s.store.get Sample.chat = some "a" ∧ s'.store.get Sample.chat = some "z")) = true := by
    decide
  obtain ⟨s, hs, h⟩ := (Option.any_eq_true _ _).1 h
  obtain ⟨s', hn, h⟩ := (Option.any_eq_true _ _).1 h
  obtain ⟨hlive, hrow, hrow'⟩ := of_decide_eq_true h
  refine ⟨s, s', Lts.reach_of_check (fun s e hc a he => ?_) ⟨rfl, rfl, rfl⟩ hs, hn, hlive, hrow, hrow'⟩
  subst he
  simpa using hc

end Replicas
