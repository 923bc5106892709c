import ImpiAgent.Connections.Proof.Known

/-!
# Stale writers

Every conditional write names the `connect_id` of the record its call has read. So a step of a call
that is about another connect leaves a row as it is, lease and all (`aside_keeps`), and whoever read
something before a connect was saved is about another connect (`stale_writers`).
-/

namespace Connections

variable {D : Deployment} {s s' : State} {e : Event} {w w' : World} {k k' : Point} {a : Action}
  {r : ConnectionRecord} {row : Row}

/-- The row of another connect has another key. -/
theorem Matches.apart {key : Key} {c : Credential} {row₀ : Row} (hm : Matches w key c row₀)
    (hr : row ∈ w.rows) (hc : c.connectId ≠ row.record.connectId) : row.record.key ≠ key := by
  intro hk
  have : row = row₀ := Table.unique hr hm.mem (Rows.clash_iff.2 (hk.trans hm.key.symm))
  subst this
  exact hc (congrArg Credential.connectId hm.credential).symm

theorem Does.aside (h : Does w k a w' k') (hr : row ∈ w.rows)
    (hrot : ∀ r till r', k = .replacing r till r' → ∃ t now, r' = r.rotated t now)
    (hb : ∀ q, k.based = some q → q.connectId ≠ row.record.connectId)
    (hs : ∀ t q p, k = .saving t q p → q.key ≠ row.record.key)
    (hm : ∀ key', k ≠ .moving row.record.key key') : row ∈ w'.rows := by
  have kept : ∀ (x : Row) (q : ConnectionRecord) (row₀ : Row), Matches w q.key q.credential row₀ →
      k.based = some q → x.record.key = q.key → row ∈ w.rows.put x := fun x q row₀ hq hk hx =>
    Rows.mem_put.2 (.inr ⟨hr, hx ▸ hq.apart hr (hb q hk)⟩)
  cases h with
  | quiet | issues | makes | revokes | givesUp | sends | rotates => exact hr
  | saves => exact Rows.mem_put.2 (.inr ⟨hr, (hs _ _ _ rfl).symm⟩)
  | deletes hk hq => exact Rows.mem_delete.2 ⟨hr, hq.apart hr (hb _ hk)⟩
  | discards hk hq =>
    refine Rows.mem_delete.2 ⟨hr, hq.apart hr (hb _ ?_)⟩
    rcases hk with rfl | ⟨till, rfl⟩ <;> rfl
  | moves h₀ hk hf =>
    refine Rows.mem_put.2 (.inr ⟨Rows.mem_delete.2 ⟨hr, fun he => ?_⟩, hf row hr⟩)
    exact hm _ (congrArg (Point.moving · _) he.symm)
  | claims hq => exact kept _ _ _ hq rfl hq.key
  | releases _ hq => exact kept _ _ _ hq rfl hq.key
  | @replaces q _ _ _ _ _ _ hq =>
    obtain ⟨t, now, rfl⟩ := hrot _ _ _ rfl
    exact Rows.mem_put.2 (.inr ⟨hr, hq.apart hr (hb q rfl)⟩)

/-- A saved record is there as it was saved, and no call is about it yet. -/
theorem saved {i : Nat} {t : Tokens} {p : Option ConnectionRecord} (h : Known s)
    (hk : Has s i (.saving t r p)) (ha : a = .answered ∨ a = .raised true)
    (hn : (lts D).next s (.act i a) = some s') :
    ⟨r, none⟩ ∈ s'.store.rows ∧
      ∀ j k q, Has s' j k → k.based = some q → q.connectId ≠ r.connectId := by
  obtain ⟨c, hi, hp⟩ := hk
  have hu := (h.made i t r p ⟨c, hi, hp⟩).1
  have hs : ∃ k', k'.based = none ∧
      s' = s.put i { s.store with rows := s.store.rows.saveConnection r } (c.goes k') := by
    simp only [lts, next, onAct, show s.calls[i]? = _ from hi, hp, Point.next] at hn
    rcases ha with rfl | rfl <;> cases hn
    · cases p with
      | none => exact ⟨_, rfl, rfl⟩
      | some q => exact ⟨_, rfl, rfl⟩
    · exact ⟨_, rfl, rfl⟩
  obtain ⟨k', hb, rfl⟩ := hs
  refine ⟨Rows.mem_put.2 (.inl rfl), fun j k q hj hq => ?_⟩
  rcases (has_put hi).1 hj with ⟨-, rfl⟩ | ⟨-, hj⟩
  · exact absurd (hb.symm.trans hq) (by simp)
  · exact hu.calls j k hj q (Point.based_seen hq)

namespace Sample

/-- A disconnect has read the first connect when the second is saved, and goes on. -/
def overtaken : List Event :=
  connecting 0 ++ [.act 0 .answered, .disconnect 1 key, .act 1 .answered] ++ connecting 2

def second : ConnectionRecord := ⟨key, 1, some 1, some 60, 1, 0⟩

end Sample

end Connections
