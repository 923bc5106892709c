import ImpiAgent.Connections.System

/-!
# What a step does

`Does` says, for each thing that can happen to a call at an await, what it does to the table and to
the history, and what the call knows afterwards; `next_does` that this is all there is. A statement
that matches no row, or is not carried out, is `quiet`. `Step` is the same of an event.
-/

namespace Connections

namespace Point

/-- The record whose credential the call's next conditional write names. -/
def based : Point → Option ConnectionRecord
  | .forgetting _ r | .forgetDeleting _ r _ | .disconnectDeleting r _ | .opening r
  | .refreshOpening r _ | .claiming r _ _ _ | .waiting r _ _ | .rotating r _ | .requesting r _
  | .rejectedReading r _ | .ending r _ | .releasing r _ | .replacing r _ _ | .checking r _
  | .reopening r | .dropping r | .granted r => some r
  | _ => none

/-- The records the call has read. -/
def seen : Point → List ConnectionRecord
  | .saving _ _ previous => previous.toList
  | .revokingStored r => [r]
  | .forgetDeleting _ g record => g :: record.toList
  | k => k.based.toList

/-- The record the call is about to write in full. -/
def writes : Point → Option ConnectionRecord
  | .saving _ r _ | .replacing _ _ r => some r
  | _ => none

/-- The record the call has claimed the lease of, and until when. -/
def holds : Point → Option (ConnectionRecord × Time)
  | .rotating r till | .requesting r till | .rejectedReading r till | .ending r till
  | .releasing r till | .replacing r till _ => some (r, till)
  | _ => none

/-- The record a call has claimed the lease of, until the provider has answered it. -/
def asks : Point → Option (ConnectionRecord × Time)
  | .rotating r till | .requesting r till => some (r, till)
  | _ => none

/-- The pairs nobody else knows of that the call has in hand. -/
def carries : Point → List Nat
  | .identifying _ t | .readingPrevious _ t | .saving t _ _ => [t.pair]
  | .revokingTokens pair | .checking _ pair | .revokingFresh _ pair => [pair]
  | .revokingStored r => r.pairs
  | .replacing _ _ r => [r.access]
  | _ => []

/-- The points at which a call that raises drops what it carries. -/
def fragile : Point → Bool
  | .readingPrevious .. | .replacing .. | .checking .. => true
  | _ => false

theorem based_seen {k : Point} {r : ConnectionRecord} (h : k.based = some r) : r ∈ k.seen := by
  cases k <;> simp_all [based, seen]

theorem holds_based {k : Point} {r : ConnectionRecord} {till : Time}
    (h : k.holds = some (r, till)) : k.based = some r := by
  cases k <;> simp_all [based, holds]

end Point

theorem Point.holds_none {k : Point} (h : k.based = none) : k.holds = none := by
  cases k <;> first | rfl | cases h

/-- The row of a key, as the credential it was read as. -/
structure Matches (w : World) (key : Key) (c : Credential) (row : Row) : Prop where
  mem : row ∈ w.rows
  key : row.record.key = key
  credential : row.record.credential = c

theorem matches_iff {w : World} {key : Key} {c : Credential} {row : Row} :
    w.rows.current key c = some row ↔ Matches w key c row := by
  rw [Rows.current_eq_some]
  exact ⟨fun ⟨hm, hk, hc⟩ => ⟨hm, hk, hc⟩, fun ⟨hm, hk, hc⟩ => ⟨hm, hk, hc⟩⟩

/-- The table without the row of the key. -/
def World.without (w : World) (key : Key) : World :=
  { w with rows := w.rows.delete (·.record.key = key) }

/-- The call has not claimed the lease anew; if it is going to, it has read the clock. -/
def Calm (w : World) : Point → Prop
  | .rotating .. | .requesting .. => False
  | .claiming _ _ now _ => now = w.nowIso
  | _ => True

/-- What happens to a call at `k` by the action `a`. -/
inductive Does (w : World) : Point → Action → World → Point → Prop
  | quiet {k k' : Point} {a : Action} :
      k'.writes = none → Calm w k' → (k'.holds = none ∨ k'.holds = k.holds) →
      (∀ r ∈ k'.seen, r ∈ k.seen ∨ ∃ row ∈ w.rows, row.record = r) →
      ((∃ landed, a = .raised landed) ∧ k.fragile = true ∨ ∀ p ∈ k.carries, p ∈ k'.carries) →
      Does w k a w k'
  | issues {key : Key} {renews : Bool} {ex : Option Int} :
      Does w (.exchanging key) (.issued renews ex) (w.issue none renews)
        (.identifying key (w.tokens renews ex))
  | makes {key : Key} {t : Tokens} :
      Does w (.readingPrevious key t) .answered { w with connects := w.connects + 1 }
        (.saving t (.make key t w.connects w.clock) (w.rows.getConnection key))
  | saves {t : Tokens} {r : ConnectionRecord} {previous : Option ConnectionRecord} {k' : Point}
      {a : Action} :
      a = .answered ∧ k' = previous.elim .returned .revokingStored ∨
        a = .raised true ∧ k' = .revokingTokens t.pair →
      Does w (.saving t r previous) a { w with rows := w.rows.saveConnection r } k'
  | revokes {k k' : Point} {a : Action} : k'.seen = [] → k'.writes = none → k'.based = none →
      Does w k a (w.revoke k.carries) k'
  | givesUp {k k' : Point} {a : Action} : k'.seen = [] → k'.writes = none → k'.based = none →
      Does w k a (w.giveUp k.carries) k'
  | deletes {k k' : Point} {a : Action} {r : ConnectionRecord} {key : Key} {row : Row} :
      k.based = some r → Matches w key r.credential row →
      k'.writes = none → k'.based = none → (∀ q ∈ k'.seen, q ∈ k.seen) →
      (a = .answered ∧ ((∃ left, k = .disconnectDeleting r left ∧ k' = .revokingStored r) ∨
        ∃ owner record, k = .forgetDeleting owner r record ∧ key = ⟨owner, r.key.provider⟩ ∧
          ∀ q, record = some q → q.credential = r.credential → k' = .revokingStored q) ∨
        a = .raised true) →
      Does w k a (w.without key) k'
  | discards {k k' : Point} {a : Action} {r : ConnectionRecord} {row : Row} :
      (k = .dropping r ∨ ∃ till, k = .ending r till) → Matches w r.key r.credential row →
      k' = .notConnected ∨ k' = .raised → Does w k a ((w.without r.key).giveUp r.pairs) k'
  | moves {key key' : Key} {k' : Point} {a : Action} {row : Row} :
      row ∈ w.rows → row.record.key = key → (∀ q ∈ w.rows, q.record.key ≠ key') →
      k' = .moved true ∨ k' = .raised →
      Does w (.moving key key') a
        { w with rows := (w.rows.delete (·.record.key = key)).put (row.movedTo key') } k'
  | claims {r : ConnectionRecord} {left : Nat} {now till : Time} {k' : Point} {a : Action}
      {row : Row} : Matches w r.key r.credential row → row.leaseUntil.all (· ≤ now) = true →
      k' = .rotating r till ∨ k' = .raised →
      Does w (.claiming r left now till) a
        { w with rows := w.rows.put { row with leaseUntil := some till } } k'
  | sends {r : ConnectionRecord} {till : Time} : r.refresh ≠ none →
      Does w (.rotating r till) (.opened true) (w.note (.sent r.credential)) (.requesting r till)
  | rotates {r : ConnectionRecord} {till : Time} {renews : Bool} {ex : Option Int} :
      Does w (.requesting r till) (.issued renews ex) (w.issue (some r.connectId) renews)
        (.replacing r till (r.rotated (w.tokens renews ex) w.clock))
  | releases {r : ConnectionRecord} {till : Time} {a : Action} {row : Row} : a ≠ .raised false →
      Matches w r.key r.credential row →
      Does w (.releasing r till) a { w with rows := w.rows.put { row with leaseUntil := none } }
        .raised
  | replaces {r r' : ConnectionRecord} {till : Time} {k' : Point} {a : Action} {row : Row} :
      a ≠ .raised false → Matches w r'.key ⟨r'.connectId, r.version⟩ row →
      k' = .granted r' ∨ k' = .raised → Does w (.replacing r till r') a (w.stored r r') k'

/-! ## Statements -/

section
variable {w : World} {r r' : ConnectionRecord} {key : Key} {c : Credential}

theorem delete_cases (w : World) (key : Key) (c : Credential) :
    w.delete key c = (false, w) ∨ ∃ row, Matches w key c row ∧
      w.delete key c = (true, w.without key) := by
  unfold World.delete Rows.deleteConnection
  cases h : w.rows.current key c with
  | none => exact .inl rfl
  | some row => exact .inr ⟨row, matches_iff.1 h, rfl⟩

theorem discard_cases (w : World) (r : ConnectionRecord) :
    w.discard r = w ∨ ∃ row, Matches w r.key r.credential row ∧
      w.discard r = (w.without r.key).giveUp r.pairs := by
  unfold World.discard
  rcases delete_cases w r.key r.credential with h | ⟨row, hm, h⟩ <;> rw [h]
  · exact .inl rfl
  · exact .inr ⟨row, hm, rfl⟩

theorem replace_cases (w : World) (r r' : ConnectionRecord) :
    w.replace r r' = (false, w) ∨ ∃ row, Matches w r'.key ⟨r'.connectId, r.version⟩ row ∧
      w.replace r r' = (true, w.stored r r') := by
  unfold World.replace Rows.replaceConnection
  cases h : w.rows.current r'.key ⟨r'.connectId, r.version⟩ with
  | none => exact .inl rfl
  | some row => exact .inr ⟨row, matches_iff.1 h, rfl⟩

theorem release_cases (w : World) (r : ConnectionRecord) :
    w.rows.releaseRefresh r.key r.credential = w.rows ∨ ∃ row,
      Matches w r.key r.credential row ∧
      w.rows.releaseRefresh r.key r.credential = w.rows.put { row with leaseUntil := none } := by
  unfold Rows.releaseRefresh
  cases h : w.rows.current r.key r.credential with
  | none => exact .inl rfl
  | some row => exact .inr ⟨row, matches_iff.1 h, rfl⟩

theorem claim_cases (w : World) (r : ConnectionRecord) (now till : Time) :
    w.rows.claimRefresh r.key r.credential now till = (false, w.rows) ∨ ∃ row,
      Matches w r.key r.credential row ∧ row.leaseUntil.all (· ≤ now) = true ∧
      w.rows.claimRefresh r.key r.credential now till =
        (true, w.rows.put { row with leaseUntil := some till }) := by
  unfold Rows.claimRefresh
  cases h : w.rows.current r.key r.credential with
  | none => exact .inl rfl
  | some row =>
    by_cases hl : row.leaseUntil.all (· ≤ now) = true
    · exact .inr ⟨row, matches_iff.1 h, hl, if_pos hl⟩
    · exact .inl (if_neg hl)

theorem move_cases (b : Backend) (w : World) (key key' : Key) :
    (w.rows.moveConnection b key key').2 = w.rows ∨ ∃ row ∈ w.rows, row.record.key = key ∧
      (∀ q ∈ w.rows, q.record.key ≠ key') ∧ w.rows.moveConnection b key key' =
        (true, (w.rows.delete (·.record.key = key)).put (row.movedTo key')) := by
  unfold Rows.moveConnection
  split
  · exact .inl rfl
  · cases hr : w.rows.row key with
    | none => exact .inl rfl
    | some row =>
      cases hq : w.rows.row key' with
      | some q => exact .inl rfl
      | none =>
        obtain ⟨hm, hk⟩ := Rows.row_eq_some.1 hr
        exact .inr ⟨row, hm, hk, Rows.row_eq_none.1 hq, rfl⟩

theorem getConnection_mem (h : w.rows.getConnection key = some r) :
    ∃ row ∈ w.rows, row.record = r := by
  obtain ⟨row, hm, -, hr⟩ := Rows.getConnection_eq_some.1 h
  exact ⟨row, hm, hr⟩

end

/-! ## Calls -/

section
variable {w w' : World} {k k' : Point} {a : Action}

/-- Nothing was written and nothing was in hand. -/
theorem Does.over (hw : k'.writes = none) (ha : Calm w k') (hh : k'.holds = none)
    (hs : k'.seen = [])
    (hc : k.carries = []) : Does w k a w k' :=
  .quiet hw ha (.inl hh) (by simp [hs]) (.inr (by simp [hc]))

/-- A call reads a record and goes on with it. -/
theorem Does.reads (hw : k'.writes = none) (ha : Calm w k') (hh : k'.holds = none)
    (hs : ∀ r ∈ k'.seen, r ∈ k.seen ∨ ∃ row ∈ w.rows, row.record = r) (hc : k.carries = []) :
    Does w k a w k' :=
  .quiet hw ha (.inl hh) hs (.inr (by simp [hc]))

theorem finish_does (h : k.finish w a = some (w', k')) : Does w k a w' k' := by
  unfold Point.finish at h
  split at h <;> simp only [Option.some.injEq, Prod.mk.injEq, reduceCtorEq] at h <;>
    obtain ⟨rfl, rfl⟩ := h
  · exact .issues
  · exact .over rfl trivial rfl rfl rfl
  · exact .over rfl trivial rfl rfl rfl
  · exact .quiet rfl trivial (.inl rfl) nofun (.inr fun _ => id)
  · exact .quiet rfl trivial (.inl rfl) nofun (.inr fun _ => id)
  · exact .makes
  · exact .quiet rfl trivial (.inl rfl) nofun (.inl ⟨⟨_, rfl⟩, rfl⟩)
  · exact .saves (.inl ⟨rfl, rfl⟩)
  · split
    · rename_i hl
      exact .saves (.inr ⟨by rw [hl], rfl⟩)
    · exact .quiet rfl trivial (.inl rfl) nofun (.inr fun _ => id)
  · exact .revokes (k := .revokingTokens _) rfl rfl rfl

theorem revokeStored_does {D : Deployment} {process : Nat}
    (h : k.revokeStored D process w a = some (w', k')) : Does w k a w' k' := by
  unfold Point.revokeStored at h
  split at h <;> simp only [Option.some.injEq, Prod.mk.injEq, reduceCtorEq] at h
  obtain ⟨rfl, rfl⟩ := h
  split
  · exact .revokes (k := .revokingStored _) rfl rfl rfl
  · exact .givesUp (k := .revokingStored _) rfl rfl rfl

theorem forget_does (h : k.forget w a = some (w', k')) : Does w k a w' k' := by
  unfold Point.forget at h
  split at h <;> simp only [Option.some.injEq, Prod.mk.injEq, reduceCtorEq] at h
  · rename_i owner g
    obtain ⟨rfl, rfl⟩ := h
    refine .reads rfl trivial rfl (fun r hr => ?_) rfl
    rcases List.mem_cons.1 hr with rfl | hr
    · exact .inl (List.mem_singleton.2 rfl)
    · exact .inr (getConnection_mem (Option.mem_toList.1 hr))
  · obtain ⟨rfl, rfl⟩ := h
    exact .over rfl trivial rfl rfl rfl
  · rename_i owner g record
    rcases delete_cases w ⟨owner, g.key.provider⟩ g.credential with hd | ⟨row, hm, hd⟩ <;>
      rw [hd] at h <;> simp only [Prod.mk.injEq] at h <;> obtain ⟨rfl, rfl⟩ := h
    · exact .over rfl trivial rfl rfl rfl
    · cases hf : record.filter (·.credential = g.credential) with
      | none =>
        refine .deletes rfl hm rfl rfl nofun (.inl ⟨rfl, .inr ⟨owner, record, rfl, rfl, ?_⟩⟩)
        rintro q rfl hq
        simp [hq] at hf
      | some r =>
        obtain ⟨rfl, -⟩ := Option.filter_eq_some_iff.1 hf
        refine .deletes rfl hm rfl rfl (fun q hq => List.mem_cons_of_mem _ hq)
          (.inl ⟨rfl, .inr ⟨owner, _, rfl, rfl, ?_⟩⟩)
        rintro q ⟨⟩ -
        rfl
  · rename_i owner g record landed
    obtain ⟨rfl, rfl⟩ := h
    split
    · rename_i hl
      rcases delete_cases w ⟨owner, g.key.provider⟩ g.credential with hd | ⟨row, hm, hd⟩ <;>
        rw [hd]
      · exact .over rfl trivial rfl rfl rfl
      · exact .deletes rfl hm rfl rfl nofun (.inr (by rw [hl]))
    · exact .over rfl trivial rfl rfl rfl

theorem disconnectPass_over (w : World) (key : Key) (left : Nat) :
    (disconnectPass key left).writes = none ∧ Calm w (disconnectPass key left) ∧
      (disconnectPass key left).holds = none ∧ (disconnectPass key left).seen = [] := by
  cases left <;> exact ⟨rfl, trivial, rfl, rfl⟩

theorem disconnect_does (h : k.disconnect w a = some (w', k')) : Does w k a w' k' := by
  unfold Point.disconnect at h
  split at h <;> simp only [Option.some.injEq, Prod.mk.injEq, reduceCtorEq] at h
  · rename_i key left
    obtain ⟨rfl, rfl⟩ := h
    cases hg : w.rows.getConnection key with
    | none => exact .over rfl trivial rfl rfl rfl
    | some r =>
      refine .reads rfl trivial rfl (fun q hq => .inr ?_) rfl
      cases List.mem_singleton.1 hq
      exact getConnection_mem hg
  · obtain ⟨rfl, rfl⟩ := h
    exact .over rfl trivial rfl rfl rfl
  · rename_i r left
    rcases delete_cases w r.key r.credential with hd | ⟨row, hm, hd⟩ <;>
      rw [hd] at h <;> simp only [Prod.mk.injEq] at h <;> obtain ⟨rfl, rfl⟩ := h
    · obtain ⟨hw, ha, hh, hs⟩ := disconnectPass_over w r.key left
      exact .over hw ha hh hs rfl
    · exact .deletes rfl hm rfl rfl (fun _ => id) (.inl ⟨rfl, .inl ⟨left, rfl, rfl⟩⟩)
  · rename_i r left landed
    obtain ⟨rfl, rfl⟩ := h
    split
    · rename_i hl
      rcases delete_cases w r.key r.credential with hd | ⟨row, hm, hd⟩ <;> rw [hd]
      · exact .over rfl trivial rfl rfl rfl
      · exact .deletes rfl hm rfl rfl nofun (.inr (by rw [hl]))
    · exact .over rfl trivial rfl rfl rfl

theorem move_does {D : Deployment} (h : k.move D w a = some (w', k')) : Does w k a w' k' := by
  unfold Point.move at h
  split at h
  · rename_i key key'
    rcases move_cases D.backend w key key' with hd | ⟨row, hm, hk, hf, hd⟩
    · split at h
      rename_i ok rows hr
      rw [hr] at hd
      cases hd
      simp only [Option.some.injEq, Prod.mk.injEq] at h
      obtain ⟨rfl, rfl⟩ := h
      exact .over rfl trivial rfl rfl rfl
    · rw [hd] at h
      simp only [Option.some.injEq, Prod.mk.injEq] at h
      obtain ⟨rfl, rfl⟩ := h
      exact .moves hm hk hf (.inl rfl)
  · rename_i key key' landed
    simp only [Option.some.injEq, Prod.mk.injEq] at h
    obtain ⟨rfl, rfl⟩ := h
    split
    · rcases move_cases D.backend w key key' with hd | ⟨row, hm, hk, hf, hd⟩ <;> rw [hd]
      · exact .over rfl trivial rfl rfl rfl
      · exact .moves hm hk hf (.inr rfl)
    · exact .over rfl trivial rfl rfl rfl
  · cases h

/-- What a call looks up, and goes on with. -/
theorem found_reads {key : Key} {f : ConnectionRecord → Point} (hw : ∀ r, (f r).writes = none)
    (ha : ∀ r, Calm w (f r)) (hh : ∀ r, (f r).holds = none) (hs : ∀ r, (f r).seen = [r]) (hc : k.carries = []) :
    Does w k a w (found (w.rows.getConnection key) f) := by
  cases hg : w.rows.getConnection key with
  | none => exact .over rfl trivial rfl rfl hc
  | some r =>
    refine .reads (hw r) (ha r) (hh r) (fun q hq => .inr ?_) hc
    rw [show found (some r) f = f r from rfl, hs, List.mem_singleton] at hq
    exact hq ▸ getConnection_mem hg

/-- A call that goes on with the record it has. -/
theorem Does.keeps {r : ConnectionRecord} (hw : k'.writes = none) (ha : Calm w k')
    (hh : k'.holds = none ∨ k'.holds = k.holds) (hr : r ∈ k.seen)
    (hs : k'.seen = [r] ∨ k'.seen = []) (hc : k.carries = []) : Does w k a w k' := by
  refine .quiet hw ha hh (fun q hq => .inl ?_) (.inr (by simp [hc]))
  rcases hs with hs | hs <;> rw [hs] at hq
  · exact List.mem_singleton.1 hq ▸ hr
  · cases hq

theorem discards_of {r : ConnectionRecord} (hk : k = .dropping r ∨ ∃ till, k = .ending r till)
    (hk' : k' = .notConnected ∨ k' = .raised) : Does w k a (w.discard r) k' := by
  rcases discard_cases w r with hd | ⟨row, hm, hd⟩ <;> rw [hd]
  · have hc : k.carries = [] := by
      rcases hk with rfl | ⟨till, rfl⟩ <;> rfl
    rcases hk' with rfl | rfl <;> exact .over rfl trivial rfl rfl hc
  · exact .discards hk hm hk'

theorem pass_over (w : World) (key : Key) (left : Nat) :
    (pass key left).writes = none ∧ Calm w (pass key left) ∧ (pass key left).holds = none ∧
      (pass key left).seen = [] := by
  cases left <;> exact ⟨rfl, trivial, rfl, rfl⟩

theorem grant_does {D : Deployment} (h : k.grant D w a = some (w', k')) : Does w k a w' k' := by
  unfold Point.grant at h
  split at h <;> simp only [Option.some.injEq, Prod.mk.injEq, reduceCtorEq] at h
  · obtain ⟨rfl, rfl⟩ := h
    exact found_reads (fun _ => rfl) (fun _ => trivial) (fun _ => rfl) (fun _ => rfl) rfl
  · rename_i r opens
    obtain ⟨rfl, rfl⟩ := h
    have hr : r ∈ (Point.opening r).seen := List.mem_singleton.2 rfl
    split
    · exact .keeps rfl trivial (.inl rfl) hr (.inl rfl) rfl
    · split
      · exact .keeps rfl trivial (.inl rfl) hr (.inl rfl) rfl
      · exact .keeps rfl trivial (.inl rfl) hr (.inr rfl) rfl
  · obtain ⟨rfl, rfl⟩ := h
    exact found_reads (fun _ => rfl) (fun _ => trivial) (fun _ => rfl) (fun _ => rfl) rfl
  · rename_i r left opens
    obtain ⟨rfl, rfl⟩ := h
    have hr : r ∈ (Point.refreshOpening r left).seen := List.mem_singleton.2 rfl
    split
    · exact .keeps rfl trivial (.inl rfl) hr (.inl rfl) rfl
    · split
      · exact .keeps rfl trivial (.inl rfl) hr (.inl rfl) rfl
      · exact .keeps rfl rfl (.inl rfl) hr (.inl rfl) rfl
  · rename_i r left now till
    rcases claim_cases w r now till with hd | ⟨row, hm, hl, hd⟩ <;> rw [hd] at h <;>
      simp only [Prod.mk.injEq] at h <;> obtain ⟨rfl, rfl⟩ := h
    · exact .keeps rfl trivial (.inl rfl) (List.mem_singleton.2 rfl) (.inl rfl) rfl
    · exact .claims hm hl (.inl rfl)
  · rename_i r left now till landed
    obtain ⟨rfl, rfl⟩ := h
    split
    · rcases claim_cases w r now till with hd | ⟨row, hm, hl, hd⟩ <;> rw [hd]
      · exact .over rfl trivial rfl rfl rfl
      · exact .claims hm hl (.inr rfl)
    · exact .over rfl trivial rfl rfl rfl
  · rename_i r left polls
    obtain ⟨rfl, rfl⟩ := h
    obtain ⟨hw, ha, hh, hs⟩ := pass_over w r.key left
    split
    · exact .over hw ha hh hs rfl
    · split
      · exact .over hw ha hh hs rfl
      · exact .over hw ha hh hs rfl
      · exact .keeps rfl trivial (.inl rfl) (List.mem_singleton.2 rfl) (.inl rfl) rfl
  · rename_i r
    obtain ⟨rfl, rfl⟩ := h
    exact discards_of (.inl rfl) (.inl rfl)
  · rename_i r landed
    obtain ⟨rfl, rfl⟩ := h
    split
    · exact discards_of (.inl rfl) (.inr rfl)
    · exact .over rfl trivial rfl rfl rfl
  all_goals
    obtain ⟨rfl, rfl⟩ := h
    exact .over rfl trivial rfl rfl rfl

theorem rotate_does {D : Deployment} {process : Nat}
    (h : k.rotate D process w a = some (w', k')) : Does w k a w' k' := by
  unfold Point.rotate at h
  split at h <;> simp only [Option.some.injEq, Prod.mk.injEq, reduceCtorEq] at h
  · rename_i r till opens
    have hr : r ∈ (Point.rotating r till).seen := List.mem_singleton.2 rfl
    split at h
    · cases h
      exact .over rfl trivial rfl rfl rfl
    · split at h
      · cases h
        exact .keeps rfl trivial (.inr rfl) hr (.inl rfl) rfl
      · rename_i hn
        cases h
        simp only [Bool.or_eq_true, decide_eq_true_eq, Bool.not_eq_true', not_or,
          Bool.not_eq_false] at hn
        rw [hn.2]
        exact .sends hn.1
  · obtain ⟨rfl, rfl⟩ := h
    exact .rotates
  · obtain ⟨rfl, rfl⟩ := h
    exact .keeps rfl trivial (.inr rfl) (List.mem_singleton.2 rfl) (.inl rfl) rfl
  · obtain ⟨rfl, rfl⟩ := h
    exact .keeps rfl trivial (.inr rfl) (List.mem_singleton.2 rfl) (.inl rfl) rfl
  · rename_i r till
    obtain ⟨rfl, rfl⟩ := h
    have hr : r ∈ (Point.rejectedReading r till).seen := List.mem_singleton.2 rfl
    split
    · rename_i latest hg
      split
      · refine .reads rfl trivial rfl (fun q hq => .inr ?_) rfl
        cases List.mem_singleton.1 hq
        exact getConnection_mem hg
      · exact .keeps rfl trivial (.inr rfl) hr (.inl rfl) rfl
    · exact .keeps rfl trivial (.inr rfl) hr (.inl rfl) rfl
  · rename_i r till
    obtain ⟨rfl, rfl⟩ := h
    exact discards_of (.inr ⟨till, rfl⟩) (.inl rfl)
  · rename_i r till landed
    obtain ⟨rfl, rfl⟩ := h
    split
    · exact discards_of (.inr ⟨till, rfl⟩) (.inr rfl)
    · exact .over rfl trivial rfl rfl rfl
  · rename_i r till
    obtain ⟨rfl, rfl⟩ := h
    rcases release_cases w r with hd | ⟨row, hm, hd⟩ <;> rw [hd]
    · exact .over rfl trivial rfl rfl rfl
    · exact .releases nofun hm
  · rename_i r till landed
    obtain ⟨rfl, rfl⟩ := h
    split
    · rename_i hl
      rcases release_cases w r with hd | ⟨row, hm, hd⟩ <;> rw [hd]
      · exact .over rfl trivial rfl rfl rfl
      · exact .releases (by simp [hl]) hm
    · exact .over rfl trivial rfl rfl rfl
  · rename_i r till r'
    rcases replace_cases w r r' with hd | ⟨row, hm, hd⟩ <;> rw [hd] at h <;>
      simp only [Prod.mk.injEq] at h <;> obtain ⟨rfl, rfl⟩ := h
    · refine .quiet rfl trivial (.inl rfl) (fun q hq => .inl hq) (.inr fun _ => id)
    · exact .replaces nofun hm (.inl rfl)
  · rename_i r till r' landed
    obtain ⟨rfl, rfl⟩ := h
    have hq : Does w (.replacing r till r') (.raised landed) w .raised :=
      .quiet rfl trivial (.inl rfl) nofun (.inl ⟨⟨_, rfl⟩, rfl⟩)
    split
    · rename_i hl
      rcases replace_cases w r r' with hd | ⟨row, hm, hd⟩ <;> rw [hd]
      · exact hq
      · exact .replaces (by simp [hl]) hm (.inr rfl)
    · exact hq
  · rename_i r pair
    split at h <;> cases h
    · exact .quiet rfl trivial (.inl rfl) nofun (.inr fun _ => id)
    · exact .givesUp (k := .checking _ _) rfl rfl rfl
  · obtain ⟨rfl, rfl⟩ := h
    exact .revokes (k := .revokingFresh _ _) rfl rfl rfl
  · obtain ⟨rfl, rfl⟩ := h
    exact found_reads (fun _ => rfl) (fun _ => trivial) (fun _ => rfl) (fun _ => rfl) rfl
  · rename_i r opens
    obtain ⟨rfl, rfl⟩ := h
    split <;> exact .keeps rfl trivial (.inl rfl) (List.mem_singleton.2 rfl) (.inl rfl) rfl
  · obtain ⟨rfl, rfl⟩ := h
    exact .over rfl trivial rfl rfl rfl
  · obtain ⟨rfl, rfl⟩ := h
    exact .quiet rfl trivial (.inl rfl) nofun (.inl ⟨⟨_, rfl⟩, rfl⟩)
  · obtain ⟨rfl, rfl⟩ := h
    exact .over rfl trivial rfl rfl rfl

theorem next_does {D : Deployment} {process : Nat}
    (h : k.next D process w a = some (w', k')) : Does w k a w' k' := by
  unfold Point.next at h
  split at h
  case h_6 => exact revokeStored_does h
  all_goals first
    | exact finish_does h
    | exact forget_does h
    | exact disconnect_does h
    | exact move_does h
    | exact grant_does h
    | exact rotate_does h

end

/-- Call `i` is at `k`. -/
def Has (s : State) (i : Nat) (k : Point) : Prop := ∃ c, s.At i c ∧ c.point = k

/-- What an event does. -/
inductive Step (D : Deployment) (s : State) : Event → State → Prop
  | advance {d : Nat} : Step D s (.advance d) { s with store := s.store.advance d }
  | begins {e : Event} {process : Nat} {k : Point} : (∀ i a, e ≠ .act i a) →
      (∀ d, e ≠ .advance d) → k.writes = none → k.holds = none → k.carries = [] →
      (∀ r left now till, k ≠ .claiming r left now till) → (∀ r ∈ k.seen, ∃ j, Has s j (.granted r)) →
      Step D s e (begin s process k)
  | locks {i process : Nat} {c : Call} {key : Key} : s.At i c → c.point = .locking key →
      Step D s (.lock i) (s.put i s.store ⟨process, some key, .refreshLoading key 1⟩)
  | acts {i : Nat} {a : Action} {c : Call} {w' : World} {k' : Point} : s.At i c →
      Does s.store c.point a w' k' → Step D s (.act i a) (s.put i w' (c.goes k'))
  | drops {i : Nat} : Step D s (.drop i) (s.kill i)

theorem next_step {D : Deployment} {s s' : State} {e : Event} (h : next D s e = some s') :
    Step D s e s' := by
  cases e with
  | advance d =>
    cases h
    exact .advance
  | finish process key =>
    simp only [next] at h
    split at h <;> cases h
    exact .begins nofun nofun rfl rfl rfl nofun nofun
  | grant process key =>
    cases h
    exact .begins nofun nofun rfl rfl rfl nofun nofun
  | forget process owner j =>
    simp only [next] at h
    split at h <;> cases h
    rename_i hj
    refine .begins nofun nofun rfl rfl rfl nofun fun r hr => ?_
    cases List.mem_singleton.1 hr
    exact ⟨j, _, hj, rfl⟩
  | disconnect process key =>
    cases h
    exact .begins nofun nofun rfl rfl rfl nofun nofun
  | move process key newOwner =>
    cases h
    exact .begins nofun nofun rfl rfl rfl nofun nofun
  | lock i =>
    simp only [next, onLock] at h
    split at h
    · rename_i hi
      split at h <;> cases h
      exact .locks hi rfl
    · cases h
  | act i a =>
    simp only [next, onAct] at h
    split at h
    · rename_i c hi
      obtain ⟨⟨w', k'⟩, hk, rfl⟩ := Option.map_eq_some_iff.1 h
      exact .acts hi (next_does hk)
    · cases h
  | drop i =>
    cases h
    exact .drops

end Connections
