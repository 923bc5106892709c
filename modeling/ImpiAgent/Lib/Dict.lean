import Mathlib.Data.List.Nodup
import Mathlib.Tactic.Tauto

/-!
# Dictionaries in the order of insertion

A list of pairs with `assign` (a key that is there keeps its place), `List.lookup` and `remove`. The
keys of a dictionary built by these are distinct (`Distinct`).
-/

universe u v

namespace Dict

variable {κ : Type u} {α : Type v} [DecidableEq κ]

/-- `d[k] = a`. -/
@[grind =] def assign (k : κ) (a : α) : List (κ × α) → List (κ × α)
  | [] => [(k, a)]
  | (k', a') :: d => if k' = k then (k, a) :: d else (k', a') :: assign k a d

/-- `d.pop(k, None)`. -/
def remove (k : κ) (d : List (κ × α)) : List (κ × α) := d.filter (·.1 ≠ k)

/-- `dict(pairs)`: of two pairs with one key the later one's value, in the earlier one's place. -/
def ofPairs (l : List (κ × α)) : List (κ × α) := l.foldl (fun d x => assign x.1 x.2 d) []

/-- No key is there twice. -/
def Distinct (d : List (κ × α)) : Prop := (d.map Prod.fst).Nodup

variable {k k' : κ} {a a' : α} {d : List (κ × α)}

theorem mem_keys_assign : k' ∈ (assign k a d).map Prod.fst ↔ k' = k ∨ k' ∈ d.map Prod.fst := by
  induction d with
  | nil => simp [assign]
  | cons x d ih =>
    unfold assign
    split
    · rename_i h
      rw [List.map_cons, List.map_cons, List.mem_cons, List.mem_cons, h]
      simp
    · rw [List.map_cons, List.map_cons, List.mem_cons, List.mem_cons, ih]
      tauto

/-- A new key comes last. -/
theorem assign_new (h : k ∉ d.map Prod.fst) : assign k a d = d ++ [(k, a)] := by
  induction d with
  | nil => rfl
  | cons x d ih =>
    rw [List.map_cons, List.mem_cons, not_or] at h
    rw [assign, if_neg (Ne.symm h.1), ih h.2, List.cons_append]

/-- A key that is there keeps its place. -/
theorem assign_append {l : List (κ × α)} (h : k ∈ d.map Prod.fst) :
    assign k a (d ++ l) = assign k a d ++ l := by
  induction d with
  | nil => exact nomatch h
  | cons x d ih =>
    rw [List.cons_append, assign, assign]
    split
    · rfl
    · rename_i hk
      rw [List.map_cons, List.mem_cons] at h
      rw [ih (h.resolve_left (Ne.symm hk)), List.cons_append]

theorem assign_append_right {l : List (κ × α)} (h : k ∉ d.map Prod.fst) :
    assign k a (d ++ l) = d ++ assign k a l := by
  induction d with
  | nil => rfl
  | cons x d ih =>
    rw [List.map_cons, List.mem_cons, not_or] at h
    rw [List.cons_append, assign, if_neg (Ne.symm h.1), ih h.2, List.cons_append]

theorem length_assign :
    (assign k a d).length = if k ∈ d.map Prod.fst then d.length else d.length + 1 := by
  induction d with
  | nil => rfl
  | cons x d ih =>
    rw [assign, List.map_cons]
    by_cases hk : x.1 = k
    · simp [hk]
    · have hk' : ¬k = x.1 := Ne.symm hk
      rw [if_neg hk, List.length_cons, ih]
      simp only [List.mem_cons, hk', false_or]
      split <;> rfl

theorem mem_assign {x : κ × α} (h : x ∈ assign k a d) : x = (k, a) ∨ x ∈ d := by
  induction d with
  | nil => exact .inl (List.mem_singleton.1 h)
  | cons y d ih =>
    rw [assign] at h
    split at h
    · rcases List.mem_cons.1 h with h | h
      · exact .inl h
      · exact .inr (List.mem_cons_of_mem _ h)
    · rcases List.mem_cons.1 h with rfl | h
      · exact .inr List.mem_cons_self
      · exact (ih h).imp id (List.mem_cons_of_mem _)

theorem Distinct.assign (h : Distinct d) : Distinct (assign k a d) := by
  induction d with
  | nil => exact List.nodup_cons.2 ⟨List.not_mem_nil, .nil⟩
  | cons x d ih =>
    obtain ⟨hx, hd⟩ := List.nodup_cons.1 h
    unfold Dict.assign
    split
    · rename_i hk
      exact List.nodup_cons.2 ⟨hk ▸ hx, hd⟩
    · rename_i hk
      refine List.nodup_cons.2 ⟨fun hm => ?_, ih hd⟩
      rcases mem_keys_assign.1 hm with heq | hm
      · exact hk heq
      · exact hx hm

theorem foldl_assign_distinct (l : List (κ × α)) (h : Distinct d) :
    Distinct (l.foldl (fun d x => Dict.assign x.1 x.2 d) d) := by
  induction l generalizing d with
  | nil => exact h
  | cons x l ih => exact ih h.assign

theorem ofPairs_distinct (l : List (κ × α)) : Distinct (ofPairs l) :=
  foldl_assign_distinct l .nil

theorem length_foldl_assign (l : List (κ × α)) :
    (l.foldl (fun d x => Dict.assign x.1 x.2 d) d).length ≤ d.length + l.length := by
  induction l generalizing d with
  | nil => exact Nat.le_refl _
  | cons x l ih =>
    refine Nat.le_trans ih ?_
    rw [length_assign, List.length_cons]
    split <;> omega

/-- As many keys as pairs: nothing was assigned twice. -/
theorem foldl_assign_eq {l : List (κ × α)}
    (h : (l.foldl (fun d x => Dict.assign x.1 x.2 d) d).length = d.length + l.length) :
    l.foldl (fun d x => Dict.assign x.1 x.2 d) d = d ++ l := by
  induction l generalizing d with
  | nil => simp
  | cons x l ih =>
    rw [List.foldl_cons] at h ⊢
    have hle := length_foldl_assign (d := Dict.assign x.1 x.2 d) l
    rw [length_assign] at hle
    rw [List.length_cons] at h
    have hnew : x.1 ∉ d.map Prod.fst := by
      intro hm
      rw [if_pos hm] at hle
      omega
    rw [ih (by rw [length_assign, if_neg hnew]; omega), assign_new hnew]
    simp

theorem ofPairs_of_distinct {l : List (κ × α)} (h : Distinct l) : ofPairs l = l := by
  have key : ∀ (l d : List (κ × α)), Distinct (d ++ l) →
      l.foldl (fun d x => Dict.assign x.1 x.2 d) d = d ++ l := by
    intro l
    induction l with
    | nil => simp
    | cons x l ih =>
      intro d hd
      have hnew : x.1 ∉ d.map Prod.fst := by
        intro hm
        unfold Distinct at hd
        rw [List.map_append, List.map_cons, List.nodup_append] at hd
        exact hd.2.2 _ hm _ List.mem_cons_self rfl
      rw [List.foldl_cons, assign_new hnew, ih (d ++ [x]) (by simpa using hd)]
      simp
  exact key l [] h

/-- A list of pairs that is a dictionary as it is. -/
theorem ofPairs_eq_iff {l l' : List (κ × α)} (hlen : l'.length = l.length) :
    ofPairs l' = l ↔ l' = l ∧ Distinct l := by
  constructor
  · rintro rfl
    have heq : ofPairs l' = l' := foldl_assign_eq (d := []) (hlen.symm.trans (Nat.zero_add _).symm)
    exact ⟨heq.symm, ofPairs_distinct l'⟩
  · rintro ⟨rfl, hd⟩
    exact ofPairs_of_distinct hd

theorem mem_remove {x : κ × α} : x ∈ remove k d ↔ x ∈ d ∧ x.1 ≠ k := by
  simp [remove, List.mem_filter]

theorem Distinct.remove (h : Distinct d) : Distinct (remove k d) :=
  List.Nodup.sublist (List.filter_sublist.map _) h

omit [DecidableEq κ] in
/-- A key has one value. -/
theorem Distinct.eq (h : Distinct d) (hm : (k, a) ∈ d) (hm' : (k, a') ∈ d) : a = a' :=
  congrArg Prod.snd (List.inj_on_of_nodup_map h hm hm' rfl)

section
variable {κ : Type u} [BEq κ] [LawfulBEq κ] {k : κ} {d : List (κ × α)}

theorem mem_of_lookup (h : d.lookup k = some a) : (k, a) ∈ d := by
  obtain ⟨l, l', rfl, -⟩ := List.lookup_eq_some_iff.1 h
  exact List.mem_append_right _ List.mem_cons_self

theorem Distinct.lookup (h : Distinct d) (hm : (k, a) ∈ d) : d.lookup k = some a := by
  cases hl : d.lookup k with
  | some b => rw [h.eq hm (mem_of_lookup hl)]
  | none =>
    have := List.lookup_eq_none_iff.1 hl _ hm
    simp at this

/-- The order of the pairs does not matter. -/
theorem Distinct.lookup_perm {d' : List (κ × α)} (h : Distinct d) (hp : d.Perm d') :
    d'.lookup k = d.lookup k := by
  have h' : Distinct d' := (hp.map Prod.fst).nodup_iff.1 h
  refine Option.ext fun a => ⟨fun ha => ?_, fun ha => ?_⟩
  · exact h.lookup (hp.mem_iff.2 (mem_of_lookup ha))
  · exact h'.lookup (hp.mem_iff.1 (mem_of_lookup ha))

theorem lookup_eq_none : d.lookup k = none ↔ k ∉ d.map Prod.fst := by
  constructor
  · intro h hm
    obtain ⟨x, hx, rfl⟩ := List.mem_map.1 hm
    have := List.lookup_eq_none_iff.1 h x hx
    simp at this
  · intro h
    refine List.lookup_eq_none_iff.2 fun x hx => ?_
    have hne : k ≠ x.1 := fun heq => h (heq ▸ List.mem_map_of_mem hx)
    exact bne_iff_ne.2 hne

end

theorem mem_keys_foldl_assign (l : List (κ × α)) : k ∈ (l.foldl (fun d x => assign x.1 x.2 d)
    d).map Prod.fst ↔ k ∈ d.map Prod.fst ∨ k ∈ l.map Prod.fst := by
  induction l generalizing d with
  | nil => simp
  | cons x l ih =>
    rw [List.foldl_cons, ih, mem_keys_assign, List.map_cons, List.mem_cons]
    tauto

theorem mem_keys_ofPairs (l : List (κ × α)) :
    k ∈ (ofPairs l).map Prod.fst ↔ k ∈ l.map Prod.fst := by
  rw [ofPairs, mem_keys_foldl_assign]
  simp

theorem mem_ofPairs {x : κ × α} {l : List (κ × α)} (h : x ∈ ofPairs l) : x ∈ l := by
  have key : ∀ (l d : List (κ × α)), x ∈ l.foldl (fun d x => assign x.1 x.2 d) d →
      x ∈ d ∨ x ∈ l := by
    intro l
    induction l with
    | nil => exact fun d h => .inl h
    | cons y l ih =>
      intro d h
      rcases ih _ h with h | h
      · rcases mem_assign h with rfl | h
        · exact .inr List.mem_cons_self
        · exact .inl h
      · exact .inr (List.mem_cons_of_mem _ h)
  exact (key l [] h).resolve_left List.not_mem_nil

/-- A key of the pairs has the value of one of them. -/
theorem lookup_ofPairs {l : List (κ × α)} (h : (k, a) ∈ l) :
    ∃ a', (ofPairs l).lookup k = some a' ∧ (k, a') ∈ l := by
  cases hl : (ofPairs l).lookup k with
  | none =>
    exact absurd ((mem_keys_ofPairs l).2 (List.mem_map_of_mem h)) (lookup_eq_none.1 hl)
  | some a' => exact ⟨a', rfl, mem_ofPairs (mem_of_lookup hl)⟩

theorem lookup_map {β : Type v} (f : α → β) (k : κ) (d : List (κ × α)) :
    (d.map fun x => (x.1, f x.2)).lookup k = (d.lookup k).map f := by
  induction d with
  | nil => rfl
  | cons x d ih =>
    rw [List.map_cons, List.lookup_cons, List.lookup_cons, ih]
    cases k == x.1 <;> rfl

theorem lookup_map_keys (f : κ → α) {l : List κ} (h : k ∈ l) :
    (l.map fun k => (k, f k)).lookup k = some (f k) := by
  induction l with
  | nil => cases h
  | cons x l ih =>
    rw [List.map_cons, List.lookup_cons]
    by_cases hk : k = x
    · subst hk
      rw [beq_self_eq_true]
    · rw [beq_false_of_ne hk]
      exact ih (List.mem_of_ne_of_mem hk h)

section
variable {κ : Type u} [DecidableEq κ] [BEq κ] [LawfulBEq κ] {k k' : κ} {d : List (κ × α)}

theorem lookup_assign : (assign k a d).lookup k' = if k' = k then some a else d.lookup k' := by
  induction d with
  | nil =>
    rw [assign, List.lookup_cons]
    by_cases h : k' = k <;> simp [h, beq_false_of_ne]
  | cons x d ih =>
    unfold assign
    split
    · rename_i h
      rw [List.lookup_cons, List.lookup_cons, h]
      by_cases hk : k' = k <;> simp [hk, beq_false_of_ne]
    · rename_i h
      rw [List.lookup_cons, List.lookup_cons, ih]
      by_cases hx : k' = x.1
      · subst hx
        simp [h]
      · rw [beq_false_of_ne hx]

/-- Keeping the pairs whose key has a property. -/
theorem lookup_filter (f : κ → Bool) :
    (d.filter fun x => f x.1).lookup k = if f k then d.lookup k else none := by
  induction d with
  | nil => simp
  | cons x d ih =>
    obtain ⟨k₀, a₀⟩ := x
    rw [List.filter_cons, List.lookup_cons]
    by_cases hk : k = k₀
    · subst hk
      cases hf : f k with
      | false => simpa [hf] using ih
      | true => simp
    · have hb := beq_false_of_ne hk
      cases f k₀ with
      | false => simpa [hb] using ih
      | true => simpa [List.lookup_cons, hb] using ih

theorem lookup_remove : (remove k d).lookup k' = if k' = k then none else d.lookup k' := by
  unfold remove
  rw [lookup_filter fun x => decide (x ≠ k)]
  by_cases h : k' = k <;> simp [h]

end

end Dict
