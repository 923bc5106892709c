import ImpiAgent.Store.OneShot

/-!
# A one-shot record is taken once

MongoDB's takes are one operation each. SQLite's are two statements, which the lock keeps together
within a process only: where no take reads a record that a take of another process has read and not
yet deleted (`Apart`), a record is taken once (`taken_once`); where one does, both hand it out
(`taken_twice`).
-/

namespace OneShot

variable {b : Backend} {s s' : State} {e : Event}

/-- The record a take holds, once it has read it. -/
def Point.row : Point → Option Row
  | .deleting row | .took row => some row
  | _ => none

theorem key_of_get {s : Store} {k : Key} {r : Row} (h : s.get k = some r) :
    r ∈ s.rows ∧ r.key = k := by
  obtain ⟨hr, hk⟩ := Table.find?_some h
  exact ⟨hr, of_decide_eq_true hk⟩

/-- The rows carry different serials, all drawn. -/
structure Serial (s : Store) : Prop where
  drawn : ∀ r ∈ s.rows, r.serial < s.serial
  one : ∀ r ∈ s.rows, ∀ q ∈ s.rows, r.serial = q.serial → r = q

/-- What is true of the record a call holds. -/
def Held (b : Backend) : Point → Store → Prop
  | .selecting _, _ => b = .sqlite
  | .deleting row, s => b = .sqlite ∧ row.serial < s.serial ∧
      ∀ r ∈ s.rows, r.serial = row.serial → r = row
  | .findAndDelete _, _ => b = .mongo
  | .took row, s => row.serial < s.serial ∧ ∀ r ∈ s.rows, r.serial ≠ row.serial
  | .missed, _ => True

/-- Two calls hold two records. -/
def Differ (k c : Point) : Prop :=
  ∀ row row', k.row = some row → c.row = some row' → row.serial ≠ row'.serial

/-- A call that reads a record meets none that has read it and not yet deleted it. -/
def Reads (b : Backend) (k c : Point) (s : Store) : Prop :=
  b = .sqlite → ∀ key row, k = .selecting key → s.get key = some row → c ≠ .deleting row

/-! ## What the writes of the store keep -/

/-- A write that only removes rows. -/
theorem Serial.of_subset {s s' : Store} (h : Serial s) (hs : s.serial ≤ s'.serial)
    (hr : ∀ r ∈ s'.rows, r ∈ s.rows) : Serial s' :=
  ⟨fun r hm => Nat.lt_of_lt_of_le (h.drawn r (hr r hm)) hs,
    fun r hm q hq he => h.one r (hr r hm) q (hr q hq) he⟩

theorem Held.of_subset {s s' : Store} {k : Point} (h : Held b k s) (hs : s.serial ≤ s'.serial)
    (hr : ∀ r ∈ s'.rows, r ∈ s.rows) : Held b k s' := by
  cases k with
  | deleting row => exact ⟨h.1, Nat.lt_of_lt_of_le h.2.1 hs, fun r hm => h.2.2 r (hr r hm)⟩
  | took row => exact ⟨Nat.lt_of_lt_of_le h.1 hs, fun r hm => h.2 r (hr r hm)⟩
  | selecting key => exact h
  | findAndDelete key => exact h
  | missed => trivial

theorem mem_delete {s : Store} {k : Key} {r : Row} :
    r ∈ (s.delete k).rows ↔ r ∈ s.rows ∧ r.key ≠ k := by
  rw [Store.delete, Table.mem_delete]
  simp

theorem mem_sweep {s : Store} {now : Time} {r : Row} (h : r ∈ (s.sweep now).rows) :
    r ∈ s.rows := (Table.mem_delete.1 h).1

/-- What an insert does. -/
theorem insert_cases {s s' : Store} {r : Record} (h : s.insert b r = some s') :
    s'.serial = s.serial + 1 ∧ ∀ q, q ∈ s'.rows ↔ q ∈ s.rows ∨ q = ⟨s.serial, r⟩ := by
  unfold Store.insert at h
  split at h
  · cases h
  · obtain ⟨rows, hr, rfl⟩ := Option.map_eq_some_iff.1 h
    exact ⟨rfl, fun q => Table.mem_insert hr⟩

theorem insert_serial {s s' : Store} {r : Record} (h : s.insert b r = some s') (hs : Serial s) :
    Serial s' := by
  obtain ⟨hn, hm⟩ := insert_cases h
  refine ⟨fun q hq => ?_, fun q hq q' hq' he => ?_⟩
  · rcases (hm q).1 hq with hq | rfl
    · have := hs.drawn q hq
      omega
    · show s.serial < s'.serial
      omega
  · rcases (hm q).1 hq with hq | rfl <;> rcases (hm q').1 hq' with hq' | rfl
    · exact hs.one q hq q' hq' he
    · exact absurd he (Nat.ne_of_lt (hs.drawn q hq))
    · exact absurd he.symm (Nat.ne_of_lt (hs.drawn q' hq'))
    · rfl

theorem insert_held {s s' : Store} {r : Record} {k : Point} (h : s.insert b r = some s')
    (hk : Held b k s) : Held b k s' := by
  obtain ⟨hn, hm⟩ := insert_cases h
  -- the new row's serial is above that of every record a call holds
  cases k with
  | deleting row =>
    refine ⟨hk.1, hn ▸ Nat.lt_succ_of_lt hk.2.1, fun q hq he => ?_⟩
    rcases (hm q).1 hq with hq | rfl
    · exact hk.2.2 q hq he
    · exact absurd he.symm (Nat.ne_of_lt hk.2.1)
  | took row =>
    refine ⟨hn ▸ Nat.lt_succ_of_lt hk.1, fun q hq he => ?_⟩
    rcases (hm q).1 hq with hq | rfl
    · exact hk.2 q hq he
    · exact absurd he.symm (Nat.ne_of_lt hk.1)
  | selecting key => exact hk
  | findAndDelete key => exact hk
  | missed => trivial

/-- A put leaves the rows, or sweeps some and inserts one. -/
theorem put_cases (b : Backend) (s : Store) (now : Time) (r : Record) :
    s.put b now r = s ∨ ∃ t, (t = s ∨ t = s.sweep now) ∧ t.insert b r = some (s.put b now r) := by
  have key : ∀ t : Store, (t.insert b r).getD s = s ∨
      t.insert b r = some ((t.insert b r).getD s) := by
    intro t
    cases t.insert b r with
    | none => exact .inl rfl
    | some t' => exact .inr rfl
  unfold Store.put
  dsimp only
  split
  · exact (key (s.sweep now)).imp_right fun h => ⟨_, .inr rfl, h⟩
  · exact (key s).imp_right fun h => ⟨_, .inl rfl, h⟩

theorem put_serial {s : Store} (now : Time) (r : Record) (h : Serial s) :
    Serial (s.put b now r) := by
  rcases put_cases b s now r with he | ⟨t, rfl | rfl, hi⟩
  · rw [he]
    exact h
  · exact insert_serial hi h
  · exact insert_serial hi (h.of_subset (Nat.le_refl _) fun _ => mem_sweep)

theorem put_held {s : Store} {k : Point} (now : Time) (r : Record) (h : Held b k s) :
    Held b k (s.put b now r) := by
  rcases put_cases b s now r with he | ⟨t, rfl | rfl, hi⟩
  · rw [he]
    exact h
  · exact insert_held hi h
  · exact insert_held hi (h.of_subset (Nat.le_refl _) fun _ => mem_sweep)

/-! ## The outline of the takes -/

/-- A step of a take reads a record that is there, or removes one and keeps the others. -/
theorem step_rows {s σ : Store} {k k' : Point} (h : k.step s = some (σ, k')) :
    s.serial ≤ σ.serial ∧ ∀ r ∈ σ.rows, r ∈ s.rows := by
  cases k <;> simp only [Point.step, Option.some.injEq, Prod.mk.injEq, reduceCtorEq] at h <;>
    obtain ⟨rfl, -⟩ := h
  · exact ⟨Nat.le_refl _, fun _ hr => hr⟩
  · exact ⟨Nat.le_refl _, fun _ hr => (mem_delete.1 hr).1⟩
  · exact ⟨Nat.le_refl _, fun _ hr => (mem_delete.1 hr).1⟩

theorem step_held {s σ : Store} {k k' : Point} (hI : Serial s) (hk : Held b k s)
    (h : k.step s = some (σ, k')) : Held b k' σ := by
  cases k with
  | selecting key =>
    simp only [Point.step, Option.some.injEq, Prod.mk.injEq] at h
    obtain ⟨rfl, rfl⟩ := h
    cases hg : s.get key with
    | none => trivial
    | some row =>
      have hrow := (key_of_get hg).1
      exact ⟨hk, hI.drawn row hrow, fun r hr he => hI.one r hr row hrow he⟩
  | deleting row =>
    cases h
    refine ⟨hk.2.1, fun r hr he => ?_⟩
    obtain ⟨hr, hne⟩ := mem_delete.1 hr
    exact hne (by rw [hk.2.2 r hr he])
  | findAndDelete key =>
    simp only [Point.step, Option.some.injEq, Prod.mk.injEq] at h
    obtain ⟨rfl, rfl⟩ := h
    cases hg : s.get key with
    | none => trivial
    | some row =>
      obtain ⟨hrow, hkey⟩ := key_of_get hg
      refine ⟨hI.drawn row hrow, fun r hr he => ?_⟩
      obtain ⟨hr, hne⟩ := mem_delete.1 hr
      exact hne (by rw [hI.one r hr row hrow he, hkey])
  | took row => cases h
  | missed => cases h

/-- A record that is there is held by no call but one that is about to delete it. -/
theorem Held.deleting {s : Store} {c : Point} {row row' : Row} (hc : Held b c s)
    (hrow : row ∈ s.rows) (hr : c.row = some row') (he : row.serial = row'.serial) :
    c = .deleting row ∧ b = .sqlite := by
  cases c with
  | deleting r =>
    cases hr
    rw [hc.2.2 row hrow he]
    exact ⟨rfl, hc.1⟩
  | took r =>
    cases hr
    exact absurd he (hc.2 row hrow)
  | selecting key => cases hr
  | findAndDelete key => cases hr
  | missed => cases hr

/-- The record a statement reads is held by no other take. -/
theorem read_differ {s : Store} {k' c : Point} (key : Key) (hc : Held b c s)
    (hg : ∀ row, s.get key = some row → c = .deleting row → b ≠ .sqlite)
    (hk' : ∀ row, k'.row = some row → s.get key = some row) : Differ k' c := by
  intro row row' hrow hrow' he
  have hget := hk' row hrow
  obtain ⟨hd, hb⟩ := hc.deleting (key_of_get hget).1 hrow' he
  exact hg row hget hd hb

/-- What tells two takes apart: in SQLite the condition on the `SELECT`, in MongoDB that no take is
between two statements. -/
theorem step_differ {s σ : Store} {k k' c : Point} (hk : Held b k s) (hc : Held b c s)
    (hd : Differ k c) (hg : Reads b k c s) (h : k.step s = some (σ, k')) : Differ k' c := by
  cases k with
  | selecting key =>
    simp only [Point.step, Option.some.injEq, Prod.mk.injEq] at h
    obtain ⟨rfl, rfl⟩ := h
    refine read_differ key hc (fun row hget he hb => hg hb key row rfl hget he)
      fun row hrow => ?_
    cases hget : s.get key with
    | none => simp [hget, Point.row] at hrow
    | some r => simpa [hget, Point.row] using hrow
  | deleting r =>
    cases h
    exact hd
  | findAndDelete key =>
    simp only [Point.step, Option.some.injEq, Prod.mk.injEq] at h
    obtain ⟨rfl, rfl⟩ := h
    refine read_differ key hc (fun _ _ _ hb => nomatch hb.symm.trans hk) fun row hrow => ?_
    cases hget : s.get key with
    | none => simp [hget, Point.row] at hrow
    | some r => simpa [hget, Point.row] using hrow
  | took r => cases h
  | missed => cases h

/-- The outline of the takes. -/
def outline (b : Backend) : Pool.Outline Point.step (Reads b) where
  I := Serial
  L := Held b
  D := Differ
  own hI hk h := ⟨hI.of_subset (step_rows h).1 (step_rows h).2, step_held hI hk h⟩
  other _ _ hc _ _ h := hc.of_subset (step_rows h).1 (step_rows h).2
  apart _ hk hc hd hg h := step_differ hk hc hd hg h
  symm hd row row' hrow hrow' he := hd row' row hrow' hrow he.symm

/-- In SQLite, no take reads a record that another take has read and not yet deleted. -/
def Apart (b : Backend) (s : State) : Event → Prop
  | .step i =>
    match s.pool.calls[i]? with
    | some (some (.selecting key)) =>
      b = .sqlite → ∀ row ∈ s.store.get key, some (.deleting row) ∉ s.pool.calls
    | _ => True
  | _ => True

instance : Decidable (Apart b s e) := by
  unfold Apart
  split
  · split <;> infer_instance
  · infer_instance

theorem holds_step (h : (outline b).Holds s.pool) (hC : Apart b s e) (hn : next b s e = some s') :
    (outline b).Holds s'.pool := by
  cases next_step hn with
  | put => exact h.write (put_serial _ _ h.store) fun k hk => put_held _ _ hk
  | sweep =>
    exact h.write (h.store.of_subset (Nat.le_refl _) fun _ => mem_sweep) fun k hk =>
      hk.of_subset (Nat.le_refl _) fun _ => mem_sweep
  | @take pid key =>
    refine h.start ?_ fun i c _ row row' hrow => ?_
    · cases b <;> rfl
    · cases b <;> cases hrow
  | @step i k k' σ hk hm =>
    refine h.put hk (fun j c _ hj hb key row hkey hget hc => ?_) hm
    subst hkey hc
    have hk : s.pool.calls[i]? = some (some (.selecting key)) := hk
    simp only [Apart, hk] at hC
    exact hC hb row hget hj.mem
  | drop => exact h.kill

/-- A stored record is handed to at most one caller: whatever the processes do, where in SQLite no
take reads a record that another has read and not yet deleted, two calls that took one record are
one call. -/
theorem taken_once (h : (lts b).Reach (Apart b) s) {i j : Nat} {row row' : Row}
    (hi : s.At i (.took row)) (hj : s.At j (.took row')) (he : row.serial = row'.serial) :
    i = j := by
  have hs : (outline b).Holds s.pool := by
    refine h.inv (fun s h0 => ?_) fun s e s' => holds_step
    cases h0
    exact .empty ⟨nofun, nofun⟩
  by_contra hne
  exact hs.apart i j _ _ hne hi hj row row' rfl rfl he

namespace Sample

/-- A connect somebody started, and the approval of a card. -/
def link : Record := .link ⟨"d", "u", "p", "v", 600, ""⟩

def interaction : Record := .interaction ⟨"n", "t", "a", "c", "k", "approval", 0, "", ""⟩

def start : State := ⟨⟨⟨.empty, 0⟩, []⟩, []⟩

/-- Both records are taken in two processes, one call after the other. -/
def inTurn : List Event :=
  [.put 1 10 link, .put 2 11 interaction, .takeLink 1 "d", .takeInteraction 2 "t", .step 0, .step 1,
    .step 0, .step 1, .takeLink 2 "d", .step 2]

/-- Two processes read a record before either deletes it. -/
def crossed (record : Record) (taken : Nat → Event) : List Event :=
  [.put 1 10 record, taken 1, taken 2, .step 0, .step 1, .step 0, .step 1]

end Sample

/-- Two records, each taken by the call that came first. -/
theorem taken_once_run : ∃ s row row', (lts .sqlite).Reach (Apart .sqlite) s ∧
    s.At 0 (.took row) ∧ s.At 1 (.took row') ∧ s.At 2 .missed ∧ row.serial ≠ row'.serial := by
  have h : ((lts .sqlite).check (fun s e => decide (Apart .sqlite s e)) Sample.start
      Sample.inTurn).any (fun s => decide (s.At 0 (.took ⟨0, Sample.link⟩) ∧
        s.At 1 (.took ⟨1, Sample.interaction⟩) ∧ s.At 2 .missed)) = true := by decide
  obtain ⟨s, hs, hq⟩ := (Option.any_eq_true _ _).1 h
  obtain ⟨h0, h1, h2⟩ := of_decide_eq_true hq
  have hreach : (lts .sqlite).Reach (Apart .sqlite) s :=
    Lts.reach_of_check (fun _ _ h => of_decide_eq_true h) rfl hs
  refine ⟨s, _, _, hreach, h0, h1, h2, fun he => ?_⟩
  exact absurd (taken_once hreach h0 h1 he) (by decide)

/-- Two SQLite processes take one link, and one interaction. -/
theorem taken_twice : (∃ s row, (lts .sqlite).Reach Lts.Any s ∧ s.At 0 (.took row) ∧
      s.At 1 (.took row) ∧ row.record = Sample.link) ∧
    (∃ s row, (lts .sqlite).Reach Lts.Any s ∧ s.At 0 (.took row) ∧
      s.At 1 (.took row) ∧ row.record = Sample.interaction) := by
  have key : ∀ record taken, ((lts .sqlite).check (fun _ _ => true) Sample.start
      (Sample.crossed record taken)).any (fun s => decide (s.At 0 (.took ⟨0, record⟩) ∧
        s.At 1 (.took ⟨0, record⟩))) = true → ∃ s row, (lts .sqlite).Reach Lts.Any s ∧
      s.At 0 (.took row) ∧ s.At 1 (.took row) ∧ row.record = record := by
    intro record taken h
    obtain ⟨s, hs, hq⟩ := (Option.any_eq_true _ _).1 h
    obtain ⟨h0, h1⟩ := of_decide_eq_true hq
    exact ⟨s, _, Lts.reach_of_check (fun _ _ _ => trivial) rfl hs, h0, h1, rfl⟩
  exact ⟨key Sample.link (.takeLink · "d") (by decide),
    key Sample.interaction (.takeInteraction · "t") (by decide)⟩

end OneShot
