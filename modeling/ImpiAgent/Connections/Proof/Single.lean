import ImpiAgent.Connections.Proof.Known

/-!
# One refresh at a time

Of two calls that hold the lease on a credential while it runs, one would have had to claim it over
the other's (`Sole`). But the release and the conditional write name the credential and not the
lease: after its own has lapsed, a call still ends that of the one that came after it
(`refreshed_twice`), or stores a rotation while the next request is about to be sent. `Timely`
excludes such a write (`Timely.writes`); the rest of it is that no provider call outlasts its lease.
-/

namespace Connections

variable {D : Deployment} {s s' : State} {e : Event} {w w' : World} {k k' : Point} {a : Action}
  {r r' : ConnectionRecord} {till till' : Time}

/-- The lease runs. -/
def Live (w : World) (till : Time) : Prop := w.nowIso < till

instance (w : World) (till : Time) : Decidable (Live w till) :=
  inferInstanceAs (Decidable (w.nowIso < till))

/-- The record whose lease the call's next statement ends. -/
def Point.lets : Point → Option ConnectionRecord
  | .releasing r _ | .replacing r _ _ => some r
  | _ => none

/-- No provider call outlasts its lease. -/
structure Within (s : State) (e : Event) : Prop where
  /-- A request ends while the lease it was sent under runs. -/
  ends : ∀ d i r till, e = .advance d → Has s i (.requesting r till) →
    Live (s.store.advance d) till
  /-- A request is sent while the lease runs. -/
  sends : ∀ i r till, e = .act i (.opened true) → Has s i (.rotating r till) → Live s.store till

structure Timely (s : State) (e : Event) : Prop extends Within s e where
  /-- A call does not end the lease that another one holds on its credential. -/
  writes : ∀ i a k r j k' r' till', e = .act i a → a ≠ .raised false → Has s i k →
    k.lets = some r → j ≠ i → Has s j k' → k'.holds = some (r', till') →
    r'.credential = r.credential → ¬ Live s.store till'

/-- A rotation that is stored is the only one of its credential, and the last of its requests. -/
def Ordered (a b : Entry) : Prop := ∀ c, a = .stored c → b ≠ .sent c ∧ b ≠ .stored c

theorem asks_holds (h : k.asks = some (r, till)) : k.holds = some (r, till) := by
  cases k <;> simp_all [Point.asks, Point.holds]

structure Sole (s : State) : Prop where
  dated : ∀ i r left now till, Has s i (.claiming r left now till) → now ≤ s.store.nowIso
  lease : ∀ i k r till, Has s i k → k.holds = some (r, till) → Live s.store till →
    ∀ row ∈ s.store.rows, row.record.credential = r.credential → row.leaseUntil = some till
  sole : ∀ i j k k' r r' till till', Has s i k → Has s j k' → k.holds = some (r, till) →
    k'.holds = some (r', till') → Live s.store till → Live s.store till' →
    r'.credential = r.credential → j = i
  stored : ∀ c, .stored c ∈ s.store.log → c.connectId < s.store.connects ∧
    (∀ row ∈ s.store.rows, row.record.connectId = c.connectId → c.version < row.record.version) ∧
    ∀ i t r p, Has s i (.saving t r p) → r.connectId ≠ c.connectId
  fresh : ∀ i r till, Has s i (.rotating r till) → Live s.store till →
    .stored r.credential ∉ s.store.log
  asking : ∀ i r till, Has s i (.requesting r till) → Live s.store till
  ordered : s.store.log.Pairwise Ordered

/-! ## One step -/

/-- Who holds a lease held it before, or has claimed it. -/
theorem Does.holds (h : Does w k a w' k') (hh : k'.holds = some (r, till)) :
    k.holds = some (r, till) ∨ k' = .rotating r till ∧ ∃ left now row,
      k = .claiming r left now till ∧ Matches w r.key r.credential row ∧
      row.leaseUntil.all (· ≤ now) = true ∧
      w' = { w with rows := w.rows.put { row with leaseUntil := some till } } := by
  cases h with
  | quiet _ _ hq =>
    rcases hq with hq | hq
    · exact absurd (hq.symm.trans hh) nofun
    · exact .inl (hq ▸ hh)
  | issues | makes | releases => cases hh
  | @saves _ _ previous _ _ ha =>
    rcases ha with ⟨-, rfl⟩ | ⟨-, rfl⟩
    · cases previous <;> cases hh
    · cases hh
  | revokes _ _ h => exact absurd ((Point.holds_none h).symm.trans hh) nofun
  | givesUp _ _ h => exact absurd ((Point.holds_none h).symm.trans hh) nofun
  | deletes _ _ _ h => exact absurd ((Point.holds_none h).symm.trans hh) nofun
  | discards _ _ hk => rcases hk with rfl | rfl <;> cases hh
  | moves _ _ _ hk => rcases hk with rfl | rfl <;> cases hh
  | claims hm hl hk =>
    rcases hk with rfl | rfl <;> cases hh
    exact .inr ⟨rfl, _, _, _, rfl, hm, hl, rfl⟩
  | sends | rotates => exact .inl hh
  | replaces _ _ hk => rcases hk with rfl | rfl <;> cases hh

/-- Who is about to send a request, or waits for the answer, has just claimed or sent. -/
theorem Does.asks (h : Does w k a w' k') (hk : k'.asks = some (r, till)) :
    k' = .rotating r till ∧ (∃ left now row, k = .claiming r left now till ∧
      Matches w r.key r.credential row ∧ w'.log = w.log) ∨
    k' = .requesting r till ∧ k = .rotating r till ∧ a = .opened true := by
  cases h with
  | quiet _ hq => cases k' <;> cases hk <;> cases hq
  | issues | makes | releases | rotates => cases hk
  | @saves _ _ previous _ _ ha =>
    rcases ha with ⟨-, rfl⟩ | ⟨-, rfl⟩
    · cases previous <;> cases hk
    · cases hk
  | revokes _ _ h => cases k' <;> cases hk <;> cases h
  | givesUp _ _ h => cases k' <;> cases hk <;> cases h
  | deletes _ _ _ h => cases k' <;> cases hk <;> cases h
  | discards _ _ h => rcases h with rfl | rfl <;> cases hk
  | moves _ _ _ h => rcases h with rfl | rfl <;> cases hk
  | claims hm _ h =>
    rcases h with rfl | rfl <;> cases hk
    exact .inl ⟨rfl, _, _, _, rfl, hm, rfl⟩
  | sends =>
    cases hk
    exact .inr ⟨rfl, rfl, rfl⟩
  | replaces _ _ h => rcases h with rfl | rfl <;> cases hk

/-- Who goes to claim a lease has just read the clock. -/
theorem Does.claiming {left : Nat} {now : Time} (h : Does w k a w' (.claiming r left now till)) :
    now = w.nowIso := by
  cases h with
  | quiet _ hc => exact hc
  | @saves _ _ previous _ _ ha => cases previous <;> simp at ha
  | revokes h => cases h
  | givesUp h => cases h
  | deletes _ _ _ h => cases h
  | discards _ _ h => simp at h
  | moves _ _ _ h => simp at h
  | claims _ _ h => simp at h
  | replaces _ _ h => simp at h

/-- What a step adds to the log. -/
theorem Does.log (h : Does w k a w' k') : w'.log = w.log ∨
    (∃ r till, k = .rotating r till ∧ a = .opened true ∧ w' = w.note (.sent r.credential)) ∨
    ∃ r till r' row, k = .replacing r till r' ∧ a ≠ .raised false ∧
      Matches w r'.key ⟨r'.connectId, r.version⟩ row ∧ w' = w.stored r r' := by
  cases h with
  | sends => exact .inr (.inl ⟨_, _, rfl, rfl, rfl⟩)
  | replaces ha hm => exact .inr (.inr ⟨_, _, _, _, rfl, ha, hm, rfl⟩)
  | _ => exact .inl rfl

/-- The lease of a row after the step: as it was before, claimed, or ended. -/
theorem Does.leases (h : Does w k a w' k') {x : Row} (hx : x ∈ w'.rows) :
    (∃ row ∈ w.rows, row.record.credential = x.record.credential ∧
      row.leaseUntil = x.leaseUntil) ∨
    (∃ t r p, k = .saving t r p ∧ x = ⟨r, none⟩) ∨
    (∃ r left now till row, k = .claiming r left now till ∧ Matches w r.key r.credential row ∧
      row.leaseUntil.all (· ≤ now) = true ∧ x = { row with leaseUntil := some till } ∧
      (k' = .rotating r till ∨ k' = .raised)) ∨
    (∃ r till row, k = .releasing r till ∧ a ≠ .raised false ∧
      Matches w r.key r.credential row ∧ x = { row with leaseUntil := none } ∧
      k'.holds = none) ∨
    ∃ r till r' row, k = .replacing r till r' ∧ Matches w r'.key ⟨r'.connectId, r.version⟩ row ∧
      x = ⟨r', none⟩ := by
  have old : ∀ {x : Row}, x ∈ w.rows → ∃ row ∈ w.rows,
      row.record.credential = x.record.credential ∧ row.leaseUntil = x.leaseUntil :=
    fun hx => ⟨_, hx, rfl, rfl⟩
  cases h with
  | quiet | issues | makes | revokes | givesUp | sends | rotates => exact .inl (old hx)
  | deletes | discards => exact .inl (old (Rows.mem_delete.1 hx).1)
  | saves =>
    rcases Rows.mem_put.1 hx with rfl | ⟨hx, -⟩
    · exact .inr (.inl ⟨_, _, _, rfl, rfl⟩)
    · exact .inl (old hx)
  | moves hm =>
    rcases Rows.mem_put.1 hx with rfl | ⟨hx, -⟩
    · exact .inl ⟨_, hm, rfl, rfl⟩
    · exact .inl (old (Rows.mem_delete.1 hx).1)
  | claims hm hl hk =>
    rcases Rows.mem_put.1 hx with rfl | ⟨hx, -⟩
    · exact .inr (.inr (.inl ⟨_, _, _, _, _, rfl, hm, hl, rfl, hk⟩))
    · exact .inl (old hx)
  | releases ha hm =>
    rcases Rows.mem_put.1 hx with rfl | ⟨hx, -⟩
    · exact .inr (.inr (.inr (.inl ⟨_, _, _, rfl, ha, hm, rfl, rfl⟩)))
    · exact .inl (old hx)
  | replaces _ hm =>
    rcases Rows.mem_put.1 hx with rfl | ⟨hx, -⟩
    · exact .inr (.inr (.inr (.inr ⟨_, _, _, _, rfl, hm, rfl⟩)))
    · exact .inl (old hx)

theorem Does.clock (h : Does w k a w' k') : w'.clock = w.clock := by
  cases h <;> rfl

/-- A lapsed lease is what a claim takes. -/
theorem not_live_of_claim {now : Time} {row : Row} (hl : row.leaseUntil.all (· ≤ now) = true)
    (hd : now ≤ w.nowIso) (ht : row.leaseUntil = some till) : ¬ Live w till := by
  rw [ht] at hl
  exact Int.not_lt.2 (Int.le_trans (of_decide_eq_true hl) hd)

/-- A row is one of the credential a call matched. -/
theorem Matches.eq {key : Key} {c : Credential} {row row₀ : Row} (hk : Known s)
    (hm : Matches s.store key c row₀) (hr : row ∈ s.store.rows)
    (hc : row.record.connectId = c.connectId) : row = row₀ :=
  hk.apart row₀ hm.mem row hr (hc.trans (congrArg Credential.connectId hm.credential).symm)

section
variable {i : Nat} {c : Call}

theorem Sole.lease_act (h : Sole s) (hk : Known s) (ht : Timely s (.act i a)) (hi : s.At i c)
    (hd : Does s.store c.point a w' k') (hw' : Known (s.put i w' (c.goes k'))) {j : Nat} {q : Point}
    (hj : Has (s.put i w' (c.goes k')) j q) (hq : q.holds = some (r, till)) (hl : Live w' till) :
    ∀ x ∈ w'.rows, x.record.credential = r.credential → x.leaseUntil = some till := by
  have hik : Has s i c.point := .of_at hi
  have hl : Live s.store till := by
    simp only [Live, World.nowIso, hd.clock] at hl
    exact hl
  -- it has just claimed the lease, or held it before
  have held : (∃ left now row, c.point = .claiming r left now till ∧
      Matches s.store r.key r.credential row ∧
      w' = { s.store with rows := s.store.rows.put { row with leaseUntil := some till } }) ∨
      ∃ k₀, Has s j k₀ ∧ k₀.holds = some (r, till) ∧ (j = i → k'.holds = some (r, till)) := by
    rcases (has_put hi).1 hj with ⟨rfl, rfl⟩ | ⟨hne, hj⟩
    · rcases hd.holds hq with hc | ⟨-, left, now, row, hc, hm, -, rfl⟩
      · exact .inr ⟨_, hik, hc, fun _ => hq⟩
      · exact .inl ⟨left, now, row, hc, hm, rfl⟩
    · exact .inr ⟨q, hj, hq, fun he => absurd he hne⟩
  intro x hx hxc
  have hxid := congrArg Credential.connectId hxc
  rcases held with ⟨left, now, row, -, hm, rfl⟩ | ⟨k₀, hj₀, hq₀, hji⟩
  · rcases Rows.mem_put.1 hx with rfl | ⟨hx, hne⟩
    · rfl
    · exact absurd (congrArg (·.record.key) (hm.eq hk hx hxid)) hne
  · have hseen : r ∈ k₀.seen := Point.based_seen (Point.holds_based hq₀)
    have runs := h.lease j k₀ r till hj₀ hq₀ hl
    rcases hd.leases hx with ⟨row, hr, hc, he⟩ | ⟨t, p, pr, hp, rfl⟩ |
      ⟨p, left, now, till', row, hp, hm, hle, rfl, -⟩ | ⟨p, till', row, hp, ha, hm, rfl, hn⟩ |
      ⟨p, till', p', row, hp, hm, rfl⟩
    · exact he ▸ runs row hr (hc.trans hxc)
    · exact absurd hxid.symm ((hk.made i t p pr (hp ▸ hik)).1.calls j k₀ hj₀ r hseen)
    · exact absurd hl
        (not_live_of_claim hle (h.dated i p left now till' (hp ▸ hik)) (runs row hm.mem hxc))
    · have hne : j ≠ i := fun he => absurd (hn.symm.trans (hji he)) nofun
      exact absurd hl (ht.writes i a c.point p j k₀ r till rfl ha hik (by rw [hp]; rfl) hne hj₀ hq₀
        (hxc.symm.trans hm.credential))
    · -- the row is past the version the lease is on
      have hb := (hk.seen j k₀ hj₀ r hseen).2 row hm.mem
        ((congrArg Credential.connectId hm.credential).trans hxid)
      obtain ⟨t, now, rfl⟩ := hk.rotated i p till' p' (hp ▸ hik)
      have hv : row.record.version = p.version := congrArg Credential.version hm.credential
      have hv' : p.version + 1 = r.version := congrArg Credential.version hxc
      have := hb.1
      omega

/-- Two calls do not hold one lease. -/
theorem Sole.sole_act (h : Sole s) (hi : s.At i c) (hd : Does s.store c.point a w' k') :
    ∀ j l q q' r r' till till', Has (s.put i w' (c.goes k')) j q →
      Has (s.put i w' (c.goes k')) l q' → q.holds = some (r, till) → q'.holds = some (r', till') →
      Live s.store till → Live s.store till' → r'.credential = r.credential → l = j := by
  have hik : Has s i c.point := .of_at hi
  -- who claims a lease finds nobody that holds it
  have claims : ∀ j q r r' till till', Has s j q → q.holds = some (r, till) →
      k'.holds = some (r', till') → Live s.store till → r'.credential = r.credential →
      c.point.holds = some (r', till') := by
    intro j q r r' till till' hj hq hk' hl hc
    rcases hd.holds hk' with hc' | ⟨-, left, now, row, hp, hm, hle, -⟩
    · exact hc'
    · have := h.lease j q r till hj hq hl row hm.mem (hm.credential.trans hc)
      exact absurd hl (not_live_of_claim hle (h.dated i r' left now till' (hp ▸ hik)) this)
  intro j l q q' r r' till till' hj hl hq hq' hlj hll hc
  rcases (has_put hi).1 hj with ⟨rfl, rfl⟩ | ⟨-, hj₀⟩ <;>
    rcases (has_put hi).1 hl with ⟨rfl, rfl⟩ | ⟨-, hl₀⟩
  · rfl
  · have := claims l q' r' r till' till hl₀ hq' hq hll hc.symm
    exact h.sole j l c.point q' r r' till till' hik hl₀ this hq' hlj hll hc
  · have := claims j q r r' till till' hj₀ hq hq' hlj hc
    exact h.sole j l q c.point r r' till till' hj₀ hik hq this hlj hll hc
  · exact h.sole j l q q' r r' till till' hj₀ hl₀ hq hq' hlj hll hc

/-- What is stored stays behind the row of its connect. -/
theorem Sole.stored_act (h : Sole s) (hk : Known s) (hi : s.At i c)
    (hd : Does s.store c.point a w' k') (hw' : Known (s.put i w' (c.goes k'))) :
    ∀ b, .stored b ∈ w'.log → b.connectId < w'.connects ∧
      (∀ x ∈ w'.rows, x.record.connectId = b.connectId → b.version < x.record.version) ∧
      ∀ j t r p, Has (s.put i w' (c.goes k')) j (.saving t r p) → r.connectId ≠ b.connectId := by
  have hik : Has s i c.point := .of_at hi
  have hal : Alters s.store c.point w' := hd.alters fun r till r' hp =>
    hk.rotated i r till r' (hp ▸ hik)
  have old : ∀ b, .stored b ∈ s.store.log → b.connectId < w'.connects ∧
      (∀ x ∈ w'.rows, x.record.connectId = b.connectId → b.version < x.record.version) ∧
      ∀ j t r p, Has (s.put i w' (c.goes k')) j (.saving t r p) → r.connectId ≠ b.connectId := by
    intro b hb
    obtain ⟨hdr, hrows, hsav⟩ := h.stored b hb
    refine ⟨Nat.lt_of_lt_of_le hdr hal.connects, fun x hx he => ?_, fun j t r p hj => ?_⟩
    · rcases hal.row hx with ⟨row, hm, hc, ha⟩ | ⟨t, q, p, hp, rfl⟩
      · exact Nat.lt_of_lt_of_le (hrows row hm (hc.symm.trans he)) ha.1
      · exact absurd he (hsav i t q p (hp ▸ hik))
    · rcases (has_put hi).1 hj with ⟨-, hp⟩ | ⟨-, hj₀⟩
      · rcases hd.writes (r := r) (by rw [← goes_point c k', ← hp]; rfl) with
          ⟨t', p', -, -, hc, -⟩ | ⟨q, till, t', now, he, -⟩
        · exact hc ▸ (Nat.ne_of_lt hdr).symm
        · cases hp.trans he
      · exact hsav j t r p hj₀
  intro b hb
  rcases hd.log with hlog | ⟨r, till, -, -, rfl⟩ | ⟨r, till, r', row, hp, -, hm, rfl⟩
  · exact old b (hlog ▸ hb)
  · exact old b ((List.mem_append.1 hb).resolve_right fun hb => nomatch List.mem_singleton.1 hb)
  · rcases List.mem_append.1 hb with hb | hb
    · exact old b hb
    · cases List.mem_singleton.1 hb
      obtain ⟨t, now, rfl⟩ := hk.rotated i r till r' (hp ▸ hik)
      have hr : r ∈ c.point.seen := by
        rw [hp]
        exact List.mem_singleton.2 rfl
      refine ⟨(hk.seen i _ hik r hr).1, fun x hx he => ?_, fun j t' q p hj => ?_⟩
      · have : x = ⟨r.rotated t now, none⟩ :=
          hw'.apart _ (Rows.mem_put.2 (.inl rfl)) x hx he
        subst this
        exact Nat.lt_succ_self _
      · rcases (has_put hi).1 hj with ⟨-, he⟩ | ⟨-, hj₀⟩
        · rcases hd.writes (r := q) (by rw [← goes_point c k', ← he]; rfl) with
            ⟨t', p', -, -, hc, -⟩ | ⟨q, till, t', now, he', -⟩
          · exact hc ▸ (Nat.ne_of_lt (hk.seen i _ hik r hr).1).symm
          · cases he.trans he'
        · exact ((hk.made j t' q p hj₀).1.calls i _ hik r hr).symm

/-- Who is about to send a request finds no rotation of its credential stored. -/
theorem Sole.fresh_act (h : Sole s) (ht : Timely s (.act i a)) (hi : s.At i c)
    (hd : Does s.store c.point a w' k') :
    ∀ j r till, Has (s.put i w' (c.goes k')) j (.rotating r till) → Live s.store till →
      .stored r.credential ∉ w'.log := by
  have hik : Has s i c.point := .of_at hi
  intro j r till hj hl
  rcases (has_put hi).1 hj with ⟨rfl, hp⟩ | ⟨hne, hj₀⟩
  · have hask : k'.asks = some (r, till) := by
      rw [← goes_point c k', ← hp]
      rfl
    obtain ⟨-, left, now, row, -, hm, hlog⟩ | ⟨he, -⟩ := hd.asks hask
    · intro hs
      have hv := (h.stored _ (hlog ▸ hs)).2.1 _ hm.mem (congrArg Credential.connectId hm.credential)
      exact absurd (congrArg Credential.version hm.credential) (Nat.ne_of_gt hv)
    · cases hp.trans he
  · have hf := h.fresh j r till hj₀ hl
    rcases hd.log with hlog | ⟨q, till', -, -, rfl⟩ | ⟨q, till', q', row, hp, ha, hm, rfl⟩
    · exact hlog ▸ hf
    · exact fun hs => hf ((List.mem_append.1 hs).resolve_right fun hs =>
        nomatch List.mem_singleton.1 hs)
    · intro hs
      rcases List.mem_append.1 hs with hs | hs
      · exact hf hs
      · refine ht.writes i a c.point q j _ r till rfl ha hik (by rw [hp]; rfl) hne hj₀ rfl ?_ hl
        exact Entry.stored.inj (List.mem_singleton.1 hs)

theorem Sole.ordered_act (h : Sole s) (hk : Known s) (ht : Timely s (.act i a)) (hi : s.At i c)
    (hd : Does s.store c.point a w' k') : w'.log.Pairwise Ordered := by
  have hik : Has s i c.point := .of_at hi
  rcases hd.log with hlog | ⟨r, till, hp, rfl, rfl⟩ | ⟨r, till, r', row, hp, -, hm, rfl⟩
  · exact hlog ▸ h.ordered
  · refine List.pairwise_append.2 ⟨h.ordered, List.pairwise_singleton _ _, fun x hx y hy b hb => ?_⟩
    cases List.mem_singleton.1 hy
    refine ⟨fun he => ?_, nofun⟩
    cases he
    have hl := ht.sends i r till rfl (hp ▸ hik)
    exact h.fresh i r till (hp ▸ hik) hl (hb ▸ hx)
  · refine List.pairwise_append.2 ⟨h.ordered, List.pairwise_singleton _ _, fun x hx y hy b hb => ?_⟩
    cases List.mem_singleton.1 hy
    refine ⟨nofun, fun he => ?_⟩
    cases he
    -- the row is still at the version whose rotation is stored now
    obtain ⟨t, now, rfl⟩ := hk.rotated i r till r' (hp ▸ hik)
    have hv := (h.stored _ (hb ▸ hx)).2.1 row hm.mem (congrArg Credential.connectId hm.credential)
    exact absurd (congrArg Credential.version hm.credential) (Nat.ne_of_gt hv)

theorem Sole.act (h : Sole s) (hk : Known s) (ht : Timely s (.act i a)) (hi : s.At i c)
    (hd : Does s.store c.point a w' k') : Sole (s.put i w' (c.goes k')) := by
  have hw' := hk.act hi hd
  have live : ∀ {till}, Live w' till ↔ Live s.store till := by
    intro till
    simp only [Live, World.nowIso, hd.clock]
  refine ⟨fun j r left now till hj => ?_, fun j q r till hj hq hl => ?_,
    fun j l q q' r r' till till' hj hl hq hq' hlj hll hc => ?_, ?_, fun j r till hj hl => ?_,
    fun j r till hj => ?_, ?_⟩
  · have hc : w'.nowIso = s.store.nowIso := by simp only [World.nowIso, hd.clock]
    rw [Pool.put_store, hc]
    rcases (has_put hi).1 hj with ⟨-, hp⟩ | ⟨-, hj₀⟩
    · rw [goes_point] at hp
      subst hp
      exact Int.le_of_eq hd.claiming
    · exact h.dated j r left now till hj₀
  · exact h.lease_act hk ht hi hd hw' hj hq hl
  · exact h.sole_act hi hd j l q q' r r' till till' hj hl hq hq' (live.1 hlj) (live.1 hll) hc
  · exact h.stored_act hk hi hd hw'
  · exact h.fresh_act ht hi hd j r till hj (live.1 hl)
  · refine live.2 ?_
    rcases (has_put hi).1 hj with ⟨rfl, hp⟩ | ⟨-, hj₀⟩
    · have hask : k'.asks = some (r, till) := by
        rw [← goes_point c k', ← hp]
        rfl
      rcases hd.asks hask with ⟨he, -⟩ | ⟨-, hp', rfl⟩
      · cases hp.trans he
      · exact ht.sends j r till rfl ⟨c, hi, hp'⟩
    · exact h.asking j r till hj₀
  · exact h.ordered_act hk ht hi hd

end

theorem nowIso_advance (w : World) (d : Nat) : w.nowIso ≤ (w.advance d).nowIso :=
  Clock.toIso_mono (Int.le_add_of_nonneg_right (Int.natCast_nonneg d))

/-- Where nothing is written, and no call goes to claim, send or save. -/
theorem Sole.same (h : Sole s) (hr : s'.store.rows = s.store.rows)
    (hc : s'.store.connects = s.store.connects) (hlog : s'.store.log = s.store.log)
    (hnow : s.store.nowIso ≤ s'.store.nowIso)
    (hk : ∀ i k, Has s' i k → Has s i k ∨ k.holds = none ∧ k.writes = none ∧
      ∀ r left now till, k ≠ .claiming r left now till)
    (hask : ∀ i r till, Has s i (.requesting r till) → Live s'.store till) : Sole s' := by
  have live : ∀ {till}, Live s'.store till → Live s.store till := fun hl =>
    Int.lt_of_le_of_lt hnow hl
  have old : ∀ i k r till, Has s' i k → k.holds = some (r, till) → Has s i k :=
    fun i k r till hi hh => (hk i k hi).resolve_right fun hn =>
      absurd (hn.1.symm.trans hh) nofun
  refine ⟨fun i r left now till hi => ?_, fun i k r till hi hh hl => ?_,
    fun i j k k' r r' till till' hi hj hh hh' hl hl' hcr => ?_, fun c hcs => ?_,
    fun i r till hi hl => ?_, fun i r till hi => ?_, hlog ▸ h.ordered⟩
  · rcases hk i _ hi with hi | ⟨-, -, hn⟩
    · exact Int.le_trans (h.dated i r left now till hi) hnow
    · exact absurd rfl (hn r left now till)
  · rw [hr]
    exact h.lease i k r till (old i k r till hi hh) hh (live hl)
  · exact h.sole i j k k' r r' till till' (old i k r till hi hh) (old j k' r' till' hj hh') hh hh'
      (live hl) (live hl') hcr
  · rw [hlog] at hcs
    obtain ⟨hd, hrows, hs⟩ := h.stored c hcs
    refine ⟨hc ▸ hd, hr ▸ hrows, fun i t r p hi => ?_⟩
    rcases hk i _ hi with hi | ⟨-, hw, -⟩
    · exact hs i t r p hi
    · cases hw
  · rw [hlog]
    exact h.fresh i r till (old i _ r till hi rfl) (live hl)
  · exact hask i r till (old i _ r till hi rfl)

theorem sole_step (h : Sole s) (hk : Known s) (ht : Timely s e) (hs : Step D s e s') :
    Sole s' := by
  cases hs with
  | advance =>
    exact h.same rfl rfl rfl (nowIso_advance _ _) (fun i k hi => .inl hi)
      fun i r till hi => ht.ends _ i r till rfl hi
  | begins _ _ hw hh _ hn _ =>
    refine h.same rfl rfl rfl (Int.le_refl _) (fun i k hi => ?_) h.asking
    rcases has_begin.1 hi with hi | ⟨-, rfl⟩
    · exact .inl hi
    · exact .inr ⟨hh, hw, hn⟩
  | locks hi hp =>
    refine h.same rfl rfl rfl (Int.le_refl _) (fun j k hj => ?_) h.asking
    rcases (has_put hi).1 hj with ⟨-, rfl⟩ | ⟨-, hj⟩
    · exact .inr ⟨rfl, rfl, nofun⟩
    · exact .inl hj
  | acts hi hd => exact h.act hk ht hi hd
  | drops =>
    exact h.same rfl rfl rfl (Int.le_refl _) (fun j k hj => .inl (has_kill.1 hj).2) h.asking

theorem Sole.empty (h : (lts D).init s) : Sole s := by
  obtain ⟨-, -, -, -, -, -, hl, hc⟩ := h
  have no : ∀ i k, ¬ Has s i k := by
    rintro i k ⟨c, hc', -⟩
    exact absurd (hc ▸ hc'.mem) List.not_mem_nil
  exact ⟨fun i _ _ _ _ hi => (no i _ hi).elim, fun i _ _ _ hi => (no i _ hi).elim,
    fun i _ _ _ _ _ _ _ hi => (no i _ hi).elim, fun c hcs => absurd (hl ▸ hcs) List.not_mem_nil,
    fun i _ _ hi => (no i _ hi).elim, fun i _ _ hi => (no i _ hi).elim, hl ▸ .nil⟩

theorem sole (h : (lts D).Reach Timely s) : Sole s :=
  h.inv_using (fun _ => .empty) fun _ _ _ hr hi ht hn =>
    sole_step hi (known hr) ht (next_step hn)

/-- At most one request of a credential is out at a time, none is sent after its rotation was
stored, and that is stored once. -/
theorem single_flight (h : (lts D).Reach Timely s) :
    (∀ i j r r' till till', Has s i (.requesting r till) → Has s j (.requesting r' till') →
      r'.credential = r.credential → j = i) ∧ s.store.log.Pairwise Ordered := by
  have hs := sole h
  exact ⟨fun i j r r' till till' hi hj hc => hs.sole i j _ _ r r' till till' hi hj rfl rfl
    (hs.asking i r till hi) (hs.asking j r' till' hj) hc, hs.ordered⟩

namespace Sample

/-- Call `i`, of a process of its own, takes the lease and sends its request. -/
def asking (i : Nat) : List Event :=
  [.grant i key, .act i .answered, .act i (.opened true), .lock i, .act i .answered,
    .act i (.opened true), .act i .answered, .act i (.opened true)]

def saved : List Event := connecting 0 ++ [.act 0 .answered]

/-- Two requests, one after the other, each stored in time. -/
def refreshedInTurn : List Event :=
  saved ++ asking 1 ++ [.act 1 (.issued true (some 60)), .act 1 .answered, .advance 50000000] ++
    asking 2 ++ [.act 2 (.issued true (some 60)), .act 2 .answered]

/-- A request fails; the release lands when the next call has the lease, and lets a third in. -/
def releasedLate : List Event :=
  saved ++ asking 1 ++ [.act 1 .unavailable, .advance 45000000] ++ asking 2 ++
    [.act 1 .answered] ++ asking 3

/-- Every call but `i` is at a point that passes. -/
def others (s : State) (i : Option Nat) (p : Point → Bool) : Bool :=
  (List.range s.calls.length).all fun j => decide (some j = i) ||
    match s.calls[j]? with
    | some (some c) => p c.point
    | _ => true

theorem of_others {i : Option Nat} {p : Point → Bool} (h : others s i p = true) {j : Nat}
    (hj : some j ≠ i) (hk : Has s j k) : p k = true := by
  obtain ⟨c, hc, rfl⟩ := hk
  have := List.all_eq_true.1 h j (List.mem_range.2 hc.lt)
  simpa [hj, show s.calls[j]? = _ from hc] using this

def requestsLive (w : World) : Point → Bool
  | .requesting _ till => decide (Live w till)
  | _ => true

def sendsLive (w : World) : Point → Bool
  | .rotating _ till => decide (Live w till)
  | _ => true

def withinCheck (s : State) : Event → Bool
  | .advance d => others s none (requestsLive (s.store.advance d))
  | .act _ (.opened true) => others s none (sendsLive s.store)
  | _ => true

theorem within_of_check (h : withinCheck s e = true) : Within s e where
  ends d i r till he hi := by
    subst he
    exact of_decide_eq_true (of_others (p := requestsLive _) h (i := none) (fun he => nomatch he) hi)
  sends i r till he hi := by
    subst he
    exact of_decide_eq_true (of_others (p := sendsLive _) h (i := none) (fun he => nomatch he) hi)

/-- Nobody holds a lease of the credential that runs. -/
def lapsed (w : World) (c : Credential) (k : Point) : Bool :=
  k.holds.all fun h => h.1.credential ≠ c || !decide (Live w h.2)

/-- Call `i` ends nobody else's lease. -/
def letsOwn (s : State) (i : Nat) (k : Point) : Bool :=
  k.lets.all fun r => others s (some i) (lapsed s.store r.credential)

def timelyCheck (s : State) (e : Event) : Bool :=
  withinCheck s e && match e with
    | .act i _ => others s none (letsOwn s i)
    | _ => true

theorem timely_of_check (h : timelyCheck s e = true) : Timely s e where
  toWithin := within_of_check (Bool.and_eq_true_iff.1 h).1
  writes i a k r j k' r' till' he ha hi hk hne hj hh hc hl := by
    subst he
    have h := of_others (p := letsOwn s i) (Bool.and_eq_true_iff.1 h).2 (i := none)
      (fun he => nomatch he) hi
    rw [letsOwn, hk] at h
    have h := of_others (p := lapsed s.store r.credential) h (fun he => hne (Option.some.inj he)) hj
    rw [lapsed, hh] at h
    simp [hc, hl] at h

end Sample

theorem single_flight_run : ∃ s, (lts Sample.deployment).Reach Timely s ∧
    s.store.log = [.sent ⟨0, 0⟩, .stored ⟨0, 0⟩, .sent ⟨0, 1⟩, .stored ⟨0, 1⟩] ∧
    s.store.log.Pairwise Ordered := by
  have h : ((lts Sample.deployment).check Sample.timelyCheck Sample.start
      Sample.refreshedInTurn).any (fun s => decide (s.store.log =
        [.sent ⟨0, 0⟩, .stored ⟨0, 0⟩, .sent ⟨0, 1⟩, .stored ⟨0, 1⟩])) = true := by
    decide
  obtain ⟨s, hs, h⟩ := (Option.any_eq_true _ _).1 h
  have hr : (lts Sample.deployment).Reach Timely s :=
    Lts.reach_of_check (fun _ _ => Sample.timely_of_check)
      ⟨rfl, rfl, rfl, rfl, rfl, rfl, rfl, rfl⟩ hs
  exact ⟨s, hr, of_decide_eq_true h, (single_flight hr).2⟩

/-- No provider call outlasts its lease, and two requests of one credential are out. -/
theorem refreshed_twice : ∃ s r till, (lts Sample.deployment).Reach Within s ∧
    Has s 2 (.requesting r till) ∧ Has s 3 (.requesting r till) := by
  have h : ((lts Sample.deployment).check Sample.withinCheck Sample.start
      Sample.releasedLate).any (fun s => [2, 3].all fun i => decide (s.At i
        ⟨i, some Sample.key, .requesting ⟨Sample.key, 0, some 0, some 60, 0, 0⟩ 90⟩)) = true := by
    decide
  obtain ⟨s, hs, h⟩ := (Option.any_eq_true _ _).1 h
  have at' := List.all_eq_true.1 h
  exact ⟨s, _, _, Lts.reach_of_check (fun _ _ => Sample.within_of_check)
    ⟨rfl, rfl, rfl, rfl, rfl, rfl, rfl, rfl⟩ hs,
    ⟨_, of_decide_eq_true (at' 2 (by simp)), rfl⟩, ⟨_, of_decide_eq_true (at' 3 (by simp)), rfl⟩⟩

end Connections
