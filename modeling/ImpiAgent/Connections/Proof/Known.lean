import ImpiAgent.Connections.Proof.Steps

/-!
# What a call knows of the row it read

A connect draws a `connect_id` nobody has, and a rotation counts the version up. So a record that
somebody read is behind the row of its connect, wherever that is by then, and the two differ in
nothing but the key while the row is still that version (`Behind`). `Known` holds in every run,
moves included.
-/

namespace Connections

variable {D : Deployment} {s s' : State} {e : Event} {w w' : World} {k k' : Point} {a : Action}

/-! ## Calls, by their points -/

theorem has_put {i j : Nat} {c₀ c : Call} (hi : s.At i c₀) :
    Has (s.put i w c) j k ↔ j = i ∧ k = c.point ∨ j ≠ i ∧ Has s j k := by
  constructor
  · rintro ⟨d, hd, rfl⟩
    rcases (Pool.at_put hi).1 hd with ⟨rfl, rfl⟩ | ⟨hne, hd⟩
    · exact .inl ⟨rfl, rfl⟩
    · exact .inr ⟨hne, d, hd, rfl⟩
  · rintro (⟨rfl, rfl⟩ | ⟨hne, d, hd, rfl⟩)
    · exact ⟨c, Pool.at_put_self hi, rfl⟩
    · exact ⟨d, Pool.at_put_ne hi hd hne, rfl⟩

theorem has_begin {process j : Nat} :
    Has (begin s process k) j k' ↔ Has s j k' ∨ j = s.calls.length ∧ k' = k := by
  constructor
  · rintro ⟨d, hd, rfl⟩
    rcases Pool.at_start.1 hd with hd | ⟨rfl, rfl⟩
    · exact .inl ⟨d, hd, rfl⟩
    · exact .inr ⟨rfl, rfl⟩
  · rintro (⟨d, hd, rfl⟩ | ⟨rfl, rfl⟩)
    · exact ⟨d, Pool.at_start.2 (.inl hd), rfl⟩
    · exact ⟨_, Pool.at_start.2 (.inr ⟨rfl, rfl⟩), rfl⟩

theorem has_kill {i j : Nat} : Has (s.kill i) j k ↔ j ≠ i ∧ Has s j k := by
  constructor
  · rintro ⟨d, hd, rfl⟩
    obtain ⟨hne, hd⟩ := Pool.at_kill.1 hd
    exact ⟨hne, d, hd, rfl⟩
  · rintro ⟨hne, d, hd, rfl⟩
    exact ⟨d, Pool.at_kill.2 ⟨hne, hd⟩, rfl⟩

theorem Has.of_at {i : Nat} {c : Call} (h : s.At i c) : Has s i c.point := ⟨c, h, rfl⟩

theorem Has.eq {i : Nat} (h : Has s i k) (h' : Has s i k') : k = k' := by
  obtain ⟨c, hc, rfl⟩ := h
  obtain ⟨d, hd, rfl⟩ := h'
  rw [hc.eq hd]

@[simp] theorem goes_point (c : Call) (k : Point) : (c.goes k).point = k := rfl

/-! ## Rows -/

/-- `q` is `r` as it was read, moved at most, or a later rotation. -/
def After (r q : ConnectionRecord) : Prop :=
  r.version ≤ q.version ∧ (q.version = r.version → q = { r with key := q.key })

theorem After.refl (r : ConnectionRecord) : After r r := ⟨Nat.le_refl _, fun _ => rfl⟩

theorem After.trans {r q p : ConnectionRecord} (h : After r q) (h' : After q p) : After r p := by
  refine ⟨Nat.le_trans h.1 h'.1, fun he => ?_⟩
  have hq : q.version = r.version := Nat.le_antisymm (he ▸ h'.1) h.1
  rw [h'.2 (he.trans hq.symm), h.2 hq]

/-- A record is behind the row of its connect. -/
def Behind (w : World) (r : ConnectionRecord) : Prop :=
  r.connectId < w.connects ∧
    ∀ row ∈ w.rows, row.record.connectId = r.connectId → After r row.record

/-- `row'` has taken the place of `row`. -/
structure Swaps (s s' : Rows) (row row' : Row) : Prop where
  mem : row ∈ s
  iff : ∀ x, x ∈ s' ↔ x = row' ∨ x ∈ s ∧ x.record.key ≠ row.record.key
  connectId : row'.record.connectId = row.record.connectId
  after : After row.record row'.record

theorem swaps_put {s : Rows} {row row' : Row} (hm : row ∈ s)
    (hk : row'.record.key = row.record.key)
    (hc : row'.record.connectId = row.record.connectId) (ha : After row.record row'.record) :
    Swaps s (s.put row') row row' :=
  ⟨hm, fun x => by rw [Rows.mem_put, hk], hc, ha⟩

theorem swaps_move {s : Rows} {row : Row} {key' : Key} (hm : row ∈ s)
    (hf : ∀ q ∈ s, q.record.key ≠ key') :
    Swaps s ((Table.delete s (·.record.key = row.record.key)).put (row.movedTo key')) row
      (row.movedTo key') := by
  refine ⟨hm, fun x => ?_, rfl, Nat.le_refl _, fun _ => rfl⟩
  rw [Rows.mem_put, Rows.mem_delete]
  constructor
  · rintro (rfl | ⟨hx, -⟩)
    · exact .inl rfl
    · exact .inr hx
  · rintro (rfl | hx)
    · exact .inl rfl
    · exact .inr ⟨hx, hf x hx.1⟩

/-- What a call at `k` does to the rows. -/
inductive Alters (w : World) (k : Point) (w' : World) : Prop
  | stays : w'.rows = w.rows → w.connects ≤ w'.connects → Alters w k w'
  | swaps {row row' : Row} : Swaps w.rows w'.rows row row' → w'.connects = w.connects →
      Alters w k w'
  | removes {key : Key} : (∀ x, x ∈ w'.rows ↔ x ∈ w.rows ∧ x.record.key ≠ key) →
      w'.connects = w.connects → Alters w k w'
  | saves {t : Tokens} {r : ConnectionRecord} {previous : Option ConnectionRecord} :
      k = .saving t r previous →
      (∀ x, x ∈ w'.rows ↔ x = ⟨r, none⟩ ∨ x ∈ w.rows ∧ x.record.key ≠ r.key) →
      w'.connects = w.connects → Alters w k w'

theorem Does.alters (h : Does w k a w' k')
    (hr : ∀ r till r', k = .replacing r till r' → ∃ t now, r' = r.rotated t now) :
    Alters w k w' := by
  cases h with
  | quiet | issues | revokes | givesUp | sends | rotates => exact .stays rfl (Nat.le_refl _)
  | makes => exact .stays rfl (Nat.le_succ _)
  | saves => exact .saves rfl (fun x => Rows.mem_put) rfl
  | deletes | discards => exact .removes (fun x => Rows.mem_delete) rfl
  | @moves key key' _ _ row hm hk hf =>
    subst hk
    exact .swaps (swaps_move hm hf) rfl
  | claims hm => exact .swaps (swaps_put hm.mem rfl rfl (.refl _)) rfl
  | releases _ hm => exact .swaps (swaps_put hm.mem rfl rfl (.refl _)) rfl
  | @replaces r r' till _ _ row _ hm =>
    obtain ⟨t, now, rfl⟩ := hr r till r' rfl
    have hc := hm.credential
    simp only [ConnectionRecord.credential, Credential.mk.injEq,
      ConnectionRecord.rotated_connectId] at hc
    refine .swaps (swaps_put hm.mem hm.key.symm hc.1.symm ⟨?_, fun he => ?_⟩) rfl
    · rw [hc.2]
      exact Nat.le_succ _
    · rw [hc.2] at he
      exact absurd he (Nat.succ_ne_self _)

/-- What a call has read afterwards. -/
theorem Does.seen (h : Does w k a w' k') :
    ∀ r ∈ k'.seen, r ∈ k.seen ∨ ∃ row ∈ w'.rows, row.record = r := by
  intro r hr
  cases h with
  | quiet _ _ _ hs => exact hs r hr
  | makes => exact .inr (getConnection_mem (Option.mem_toList.1 hr))
  | @saves t q previous _ _ ha =>
    rcases ha with ⟨-, rfl⟩ | ⟨-, rfl⟩
    · cases previous with
      | none => cases hr
      | some p => exact .inl hr
    · cases hr
  | revokes hs | givesUp hs =>
    rw [hs] at hr
    cases hr
  | deletes _ _ _ _ hs => exact .inl (hs r hr)
  | discards _ _ hk =>
    rcases hk with rfl | rfl <;> cases hr
  | moves _ _ _ hk =>
    rcases hk with rfl | rfl <;> cases hr
  | claims _ _ hk =>
    rcases hk with rfl | rfl
    · exact .inl hr
    · cases hr
  | sends | rotates => exact .inl hr
  | issues | releases => cases hr
  | @replaces _ r' _ _ _ _ _ _ hk =>
    rcases hk with rfl | rfl
    · exact .inr ⟨⟨r', none⟩, Rows.mem_put.2 (.inl rfl), (List.mem_singleton.1 hr).symm⟩
    · cases hr

/-- Only two steps make a record to be written. -/
theorem Does.writes {r : ConnectionRecord} (h : Does w k a w' k') (hw : k'.writes = some r) :
    (∃ t p, k' = .saving t r p ∧ w'.rows = w.rows ∧ r.connectId = w.connects ∧
      w'.connects = w.connects + 1 ∧ ∃ key now, r = .make key t w.connects now) ∨
    ∃ q till t now, k' = .replacing q till r ∧ r = q.rotated t now := by
  cases h with
  | quiet h => exact absurd (h.symm.trans hw) nofun
  | issues | sends | releases => cases hw
  | makes =>
    cases hw
    exact .inl ⟨_, _, rfl, rfl, rfl, rfl, _, _, rfl⟩
  | @saves t q previous _ _ ha =>
    rcases ha with ⟨-, rfl⟩ | ⟨-, rfl⟩
    · cases previous <;> cases hw
    · cases hw
  | revokes _ h => exact absurd (h.symm.trans hw) nofun
  | givesUp _ h => exact absurd (h.symm.trans hw) nofun
  | deletes _ _ h => exact absurd (h.symm.trans hw) nofun
  | discards _ _ hk => rcases hk with rfl | rfl <;> cases hw
  | moves _ _ _ hk => rcases hk with rfl | rfl <;> cases hw
  | claims _ _ hk => rcases hk with rfl | rfl <;> cases hw
  | rotates =>
    cases hw
    exact .inr ⟨_, _, _, _, rfl, rfl⟩
  | replaces _ _ hk => rcases hk with rfl | rfl <;> cases hw

/-! ## The invariant -/

/-- Nobody has seen the connect of `r` yet. -/
structure Unseen (s : State) (r : ConnectionRecord) : Prop where
  drawn : r.connectId < s.store.connects
  rows : ∀ row ∈ s.store.rows, row.record.connectId ≠ r.connectId
  calls : ∀ i k, Has s i k → ∀ q ∈ k.seen, q.connectId ≠ r.connectId

structure Known (s : State) : Prop where
  drawn : ∀ row ∈ s.store.rows, row.record.connectId < s.store.connects
  apart : ∀ row ∈ s.store.rows, ∀ row' ∈ s.store.rows,
    row'.record.connectId = row.record.connectId → row' = row
  seen : ∀ i k, Has s i k → ∀ r ∈ k.seen, Behind s.store r
  made : ∀ i t r p, Has s i (.saving t r p) → Unseen s r ∧ ∃ key c now, r = .make key t c now
  alone : ∀ i j t r p t' r' p', Has s i (.saving t r p) → Has s j (.saving t' r' p') →
    r'.connectId = r.connectId → j = i
  rotated : ∀ i r till r', Has s i (.replacing r till r') → ∃ t now, r' = r.rotated t now

theorem Known.empty (h : (lts D).init s) : Known s := by
  obtain ⟨hr, -, -, -, -, -, -, hc⟩ := h
  have no : ∀ i k, ¬ Has s i k := by
    rintro i k ⟨c, hc', -⟩
    exact absurd (hc ▸ hc'.mem) List.not_mem_nil
  have none : ∀ row, row ∉ s.store.rows := fun row hm => by
    rw [hr] at hm
    cases hm
  exact ⟨fun _ h => (none _ h).elim, fun _ h => (none _ h).elim, fun i k h => (no i k h).elim,
    fun i _ _ _ h => (no i _ h).elim, fun i _ _ _ _ _ _ _ h => (no i _ h).elim,
    fun i _ _ _ h => (no i _ h).elim⟩

/-- Where nothing is written, and what the calls have in hand was there before. -/
theorem Known.same (h : Known s) (hr : s'.store.rows = s.store.rows)
    (hc : s.store.connects ≤ s'.store.connects)
    (hk : ∀ i k, Has s' i k → Has s i k ∨ k.writes = none ∧
      ∀ r ∈ k.seen, (∃ j k₀, Has s j k₀ ∧ r ∈ k₀.seen) ∨ ∃ row ∈ s.store.rows, row.record = r) :
    Known s' := by
  have behind : ∀ r, Behind s.store r → Behind s'.store r := fun r hb =>
    ⟨Nat.lt_of_lt_of_le hb.1 hc, by rw [hr]; exact hb.2⟩
  have ofRow : ∀ row ∈ s.store.rows, Behind s.store row.record := fun row hm =>
    ⟨h.drawn row hm, fun row' hm' he => h.apart row hm row' hm' he ▸ .refl _⟩
  have unseen : ∀ r, Unseen s r → Unseen s' r := by
    refine fun r hu => ⟨Nat.lt_of_lt_of_le hu.drawn hc, by rw [hr]; exact hu.rows,
      fun i k hi q hq => ?_⟩
    rcases hk i k hi with hi | ⟨-, hs⟩
    · exact hu.calls i k hi q hq
    · rcases hs q hq with ⟨j, k₀, hj, hq⟩ | ⟨row, hm, rfl⟩
      · exact hu.calls j k₀ hj q hq
      · exact hu.rows row hm
  have old : ∀ i k, Has s' i k → k.writes ≠ none → Has s i k := fun i k hi hw =>
    (hk i k hi).resolve_right fun hn => hw hn.1
  refine ⟨fun row hm => ?_, by rw [hr]; exact h.apart, fun i k hi r hrs => ?_,
    fun i t r p hi => ?_, fun i j t r p t' r' p' hi hj => ?_, fun i r till r' hi => ?_⟩
  · rw [hr] at hm
    exact Nat.lt_of_lt_of_le (h.drawn row hm) hc
  · rcases hk i k hi with hi | ⟨-, hs⟩
    · exact behind r (h.seen i k hi r hrs)
    · rcases hs r hrs with ⟨j, k₀, hj, hrs⟩ | ⟨row, hm, rfl⟩
      · exact behind r (h.seen j k₀ hj r hrs)
      · exact behind _ (ofRow row hm)
  · obtain ⟨hu, hm⟩ := h.made i t r p (old i _ hi nofun)
    exact ⟨unseen r hu, hm⟩
  · exact h.alone i j t r p t' r' p' (old i _ hi nofun) (old j _ hj nofun)
  · exact h.rotated i r till r' (old i _ hi nofun)

/-- Every row after the step stands for one before it, or is the one saved. -/
theorem Alters.row (h : Alters w k w') {x : Row} (hx : x ∈ w'.rows) :
    (∃ row ∈ w.rows, x.record.connectId = row.record.connectId ∧ After row.record x.record) ∨
    ∃ t r p, k = .saving t r p ∧ x = ⟨r, none⟩ := by
  cases h with
  | stays hr =>
    rw [hr] at hx
    exact .inl ⟨x, hx, rfl, .refl _⟩
  | swaps hs =>
    rcases (hs.iff x).1 hx with rfl | ⟨hx, -⟩
    · exact .inl ⟨_, hs.mem, hs.connectId, hs.after⟩
    · exact .inl ⟨x, hx, rfl, .refl _⟩
  | removes hi => exact .inl ⟨x, ((hi x).1 hx).1, rfl, .refl _⟩
  | saves hk hi =>
    rcases (hi x).1 hx with rfl | ⟨hx, -⟩
    · exact .inr ⟨_, _, _, hk, rfl⟩
    · exact .inl ⟨x, hx, rfl, .refl _⟩

theorem Alters.connects (h : Alters w k w') : w.connects ≤ w'.connects := by
  cases h with
  | stays _ hc => exact hc
  | swaps _ hc | removes _ hc | saves _ _ hc => exact Nat.le_of_eq hc.symm

theorem Alters.behind (h : Alters w k w') {r : ConnectionRecord} (hb : Behind w r)
    (hk : ∀ t q p, k = .saving t q p → q.connectId ≠ r.connectId) : Behind w' r := by
  refine ⟨Nat.lt_of_lt_of_le hb.1 h.connects, fun x hx he => ?_⟩
  rcases h.row hx with ⟨row, hm, hc, ha⟩ | ⟨t, q, p, hs, rfl⟩
  · exact (hb.2 row hm (hc.symm.trans he)).trans ha
  · exact absurd he (hk t q p hs)

theorem Alters.apart (h : Alters w k w')
    (ha : ∀ row ∈ w.rows, ∀ row' ∈ w.rows, row'.record.connectId = row.record.connectId →
      row' = row)
    (hk : ∀ t r p, k = .saving t r p → ∀ row ∈ w.rows, row.record.connectId ≠ r.connectId) :
    ∀ x ∈ w'.rows, ∀ y ∈ w'.rows, y.record.connectId = x.record.connectId → y = x := by
  intro x hx y hy he
  cases h with
  | stays hr =>
    rw [hr] at hx hy
    exact ha x hx y hy he
  | @swaps row row' hs =>
    rcases (hs.iff x).1 hx with rfl | ⟨hx, hkx⟩ <;> rcases (hs.iff y).1 hy with rfl | ⟨hy, hky⟩
    · rfl
    · exact absurd (congrArg (·.record.key) (ha row hs.mem y hy (he.trans hs.connectId))) hky
    · exact absurd (congrArg (·.record.key)
        (ha row hs.mem x hx (he.symm.trans hs.connectId))) hkx
    · exact ha x hx y hy he
  | removes hi => exact ha x ((hi x).1 hx).1 y ((hi y).1 hy).1 he
  | @saves t r p hs hi =>
    rcases (hi x).1 hx with rfl | ⟨hx, hkx⟩ <;> rcases (hi y).1 hy with rfl | ⟨hy, hky⟩
    · rfl
    · exact absurd he (hk t r p hs y hy)
    · exact absurd he.symm (hk t r p hs x hx)
    · exact ha x hx y hy he

theorem Known.act (h : Known s) {i : Nat} {c : Call} (hi : s.At i c)
    (hd : Does s.store c.point a w' k') : Known (s.put i w' (c.goes k')) := by
  have hik : Has s i c.point := .of_at hi
  have hal : Alters s.store c.point w' := hd.alters fun r till r' hk =>
    h.rotated i r till r' (hk ▸ hik)
  -- a record about to be saved was seen by nobody
  have fresh : ∀ t r p, c.point = .saving t r p → Unseen s r := fun t r p hk =>
    (h.made i t r p (hk ▸ hik)).1
  have behind : ∀ j k, Has s j k → ∀ r ∈ k.seen, Behind w' r := fun j k hj r hr =>
    hal.behind (h.seen j k hj r hr) fun t q p hk he => (fresh t q p hk).calls j k hj r hr he.symm
  have drawn : ∀ x ∈ w'.rows, x.record.connectId < w'.connects := by
    intro x hx
    refine Nat.lt_of_lt_of_le ?_ hal.connects
    rcases hal.row hx with ⟨row, hm, hc, -⟩ | ⟨t, q, p, hk, rfl⟩
    · exact hc ▸ h.drawn row hm
    · exact (fresh t q p hk).drawn
  have apart := hal.apart h.apart fun t r p hk => (fresh t r p hk).rows
  have unseen : ∀ j t r p, j ≠ i → Has s j (.saving t r p) →
      Unseen (s.put i w' (c.goes k')) r := by
    intro j t r p hne hj
    have hu := (h.made j t r p hj).1
    have rows : ∀ x ∈ w'.rows, x.record.connectId ≠ r.connectId := by
      intro x hx
      rcases hal.row hx with ⟨row, hm, hc, -⟩ | ⟨t', q, p', hk, rfl⟩
      · exact hc ▸ hu.rows row hm
      · exact fun he => hne (h.alone i j t' q p' t r p (hk ▸ hik) hj he.symm)
    refine ⟨Nat.lt_of_lt_of_le hu.drawn hal.connects, rows, fun l k hl q hq => ?_⟩
    rcases (has_put hi).1 hl with ⟨-, rfl⟩ | ⟨-, hl⟩
    · rcases hd.seen q hq with hq | ⟨row, hm, rfl⟩
      · exact hu.calls i _ hik q hq
      · exact rows row hm
    · exact hu.calls l k hl q hq
  -- what a call at `saving` made before the step, and what it makes by it
  have making : ∀ j t r p, Has (s.put i w' (c.goes k')) j (.saving t r p) →
      j ≠ i ∧ Has s j (.saving t r p) ∨ j = i ∧ w'.rows = s.store.rows ∧
        r.connectId = s.store.connects ∧ w'.connects = s.store.connects + 1 ∧
        ∃ key now, r = .make key t s.store.connects now := by
    intro j t r p hj
    rcases (has_put hi).1 hj with ⟨rfl, hk⟩ | ⟨hne, hj⟩
    · rcases hd.writes (r := r) (by rw [← goes_point c k', ← hk]; rfl) with
        ⟨t', p', he, h₁, h₂, h₃, h₄⟩ | ⟨q, till, t', now, he, -⟩
      · cases hk.trans he
        exact .inr ⟨rfl, h₁, h₂, h₃, h₄⟩
      · cases hk.trans he
    · exact .inl ⟨hne, hj⟩
  refine ⟨drawn, apart, fun j k hj r hr => ?_, fun j t r p hj => ?_,
    fun j l t r p t' r' p' hj hl he => ?_, fun j r till r' hj => ?_⟩
  · rcases (has_put hi).1 hj with ⟨-, rfl⟩ | ⟨-, hj⟩
    · rcases hd.seen r hr with hr | ⟨row, hm, rfl⟩
      · exact behind i _ hik r hr
      · exact ⟨drawn row hm, fun x hx he => apart row hm x hx he ▸ .refl _⟩
    · exact behind j k hj r hr
  · rcases making j t r p hj with ⟨hne, hj⟩ | ⟨rfl, hr, hc, hcs, key, now, hm⟩
    · exact ⟨unseen j t r p hne hj, (h.made j t r p hj).2⟩
    · refine ⟨⟨?_, fun x hx => ?_, fun l k hl q hq => ?_⟩, key, _, now, hm⟩
      · exact hc ▸ hcs ▸ Nat.lt_succ_self _
      · rw [Pool.put_store, hr] at hx
        exact hc ▸ Nat.ne_of_lt (h.drawn x hx)
      · rw [hc]
        rcases (has_put hi).1 hl with ⟨-, rfl⟩ | ⟨-, hl⟩
        · rcases hd.seen q hq with hq | ⟨row, hm, rfl⟩
          · exact Nat.ne_of_lt (h.seen j _ hik q hq).1
          · exact Nat.ne_of_lt (h.drawn row (hr ▸ hm))
        · exact Nat.ne_of_lt (h.seen l k hl q hq).1
  · rcases making j t r p hj with ⟨-, hj₀⟩ | ⟨rfl, -, hc, -, -⟩ <;>
      rcases making l t' r' p' hl with ⟨-, hl₀⟩ | ⟨rfl, -, hc', -, -⟩
    · exact h.alone j l t r p t' r' p' hj₀ hl₀ he
    · exact absurd (he.symm.trans hc') (Nat.ne_of_lt (h.made j t r p hj₀).1.drawn)
    · exact absurd (he.trans hc) (Nat.ne_of_lt (h.made l t' r' p' hl₀).1.drawn)
    · rfl
  · rcases (has_put hi).1 hj with ⟨-, hk⟩ | ⟨-, hj⟩
    · rcases hd.writes (r := r') (by rw [← goes_point c k', ← hk]; rfl) with
        ⟨t, p, he, -⟩ | ⟨q, till', t, now, he, hr⟩
      · cases hk.trans he
      · cases hk.trans he
        exact ⟨t, now, hr⟩
    · exact h.rotated j r till r' hj

theorem known_step (h : Known s) (hs : Step D s e s') : Known s' := by
  cases hs with
  | advance => exact h.same rfl (Nat.le_refl _) fun i k hi => .inl hi
  | begins _ _ hw _ _ _ hseen =>
    refine h.same rfl (Nat.le_refl _) fun i k hi => ?_
    rcases has_begin.1 hi with hi | ⟨-, rfl⟩
    · exact .inl hi
    · refine .inr ⟨hw, fun r hr => .inl ?_⟩
      obtain ⟨j, hj⟩ := hseen r hr
      exact ⟨j, _, hj, List.mem_singleton.2 rfl⟩
  | locks hi _ =>
    refine h.same rfl (Nat.le_refl _) fun j k hj => ?_
    rcases (has_put hi).1 hj with ⟨-, rfl⟩ | ⟨-, hj⟩
    · exact .inr ⟨rfl, nofun⟩
    · exact .inl hj
  | acts hi hd => exact h.act hi hd
  | drops => exact h.same rfl (Nat.le_refl _) fun j k hj => .inl (has_kill.1 hj).2

theorem known {C : State → Event → Prop} (h : (lts D).Reach C s) : Known s :=
  h.inv (fun _ => .empty) fun _ _ _ hk _ hn => known_step hk (next_step hn)

end Connections
