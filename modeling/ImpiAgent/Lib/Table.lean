import Mathlib.Data.List.Pairwise

/-!
# Tables with unique keys

A row type that is `Keyed` says which two rows may not stand in one table (`clash`: equal under a
primary key or a unique index). A `Table` carries as a field that no two of its rows clash, so
`insert` is the only operation that can fail, and the others are total.

The operations are those of a document or SQL store on one table: `insert` (refused on a clash),
`put` (in place of the rows it clashes with), `update` (every row that matches), `delete`, and the
reads `select` and `find?`. Each comes with the lemma that says what a row of the result was before.
-/

universe u

/-- Rows with keys: which two of them clash. -/
class Keyed (α : Type u) where
  clash : α → α → Bool
  refl : ∀ a, clash a a = true
  symm : ∀ a b, clash a b = clash b a

export Keyed (clash)

/-- A table: no two rows clash. -/
structure Table (α : Type u) [Keyed α] where
  rows : List α
  apart : rows.Pairwise fun a b => clash a b = false

namespace Table

variable {α : Type u} [Keyed α]

instance : Membership α (Table α) := ⟨fun T a => a ∈ T.rows⟩

theorem mem_def {T : Table α} {a : α} : a ∈ T ↔ a ∈ T.rows := Iff.rfl

instance [DecidableEq α] (T : Table α) (a : α) : Decidable (a ∈ T) :=
  inferInstanceAs (Decidable (a ∈ T.rows))

instance (T : Table α) (p : α → Prop) [DecidablePred p] : Decidable (∀ a ∈ T, p a) :=
  inferInstanceAs (Decidable (∀ a ∈ T.rows, p a))

instance (T : Table α) (p : α → Prop) [DecidablePred p] : Decidable (∃ a ∈ T, p a) :=
  inferInstanceAs (Decidable (∃ a ∈ T.rows, p a))

/-- The table without rows. -/
def empty : Table α := ⟨[], .nil⟩

/-- Two rows of a table that clash are one. -/
theorem unique {T : Table α} {a b : α} (ha : a ∈ T) (hb : b ∈ T) (h : clash a b = true) :
    a = b := by
  apply Classical.byContradiction
  intro hne
  have hsymm : Std.Symm fun x y : α => clash x y = false :=
    ⟨fun x y hxy => by rw [Keyed.symm]; exact hxy⟩
  have := T.apart.forall ha hb hne
  simp [this] at h

/-- `r` clashes with no row of `T`. -/
def Free (T : Table α) (r : α) : Prop := ∀ a ∈ T, clash a r = false

instance (T : Table α) (r : α) : Decidable (T.Free r) :=
  inferInstanceAs (Decidable (∀ a ∈ T, clash a r = false))

/-- Insert a row; `none` where a unique index refuses it. -/
def insert (T : Table α) (r : α) : Option (Table α) :=
  if h : T.Free r then
    some ⟨T.rows ++ [r], by
      rw [List.pairwise_append]
      refine ⟨T.apart, List.pairwise_singleton _ _, fun a ha b hb => ?_⟩
      cases List.mem_singleton.1 hb
      exact h a ha⟩
  else none

theorem mem_insert {T T' : Table α} {r a : α} (h : T.insert r = some T') :
    a ∈ T' ↔ a ∈ T ∨ a = r := by
  unfold insert at h
  split at h
  · cases h
    simp [mem_def]
  · cases h

theorem free_of_insert {T T' : Table α} {r : α} (h : T.insert r = some T') : T.Free r := by
  unfold insert at h
  split at h
  · assumption
  · cases h

theorem insert_of_free {T : Table α} {r : α} (h : T.Free r) : ∃ T', T.insert r = some T' :=
  ⟨_, dif_pos h⟩

/-- A refused row clashes with one that is there. -/
theorem insert_eq_none {T : Table α} {r : α} :
    T.insert r = none ↔ ∃ a ∈ T, clash a r = true := by
  constructor
  · intro h
    unfold insert at h
    split at h
    · cases h
    · rename_i hn
      simpa [Free] using hn
  · rintro ⟨a, ha, hc⟩
    refine dif_neg fun h => ?_
    simp [h a ha] at hc

/-- Rewrite every row that matches. The rewriting keeps the keys. -/
def update (T : Table α) (p : α → Bool) (f : α → α) (hf : ∀ a b, clash (f a) b = clash a b) :
    Table α :=
  ⟨T.rows.map fun a => if p a then f a else a, by
    have key : ∀ a b, clash (if p a then f a else a) b = clash a b := by
      intro a b
      split
      · exact hf a b
      · rfl
    refine List.pairwise_map.2 (T.apart.imp fun {a b} h => ?_)
    rw [key, Keyed.symm, key, Keyed.symm]
    exact h⟩

section
variable {T : Table α} {p : α → Bool} {f : α → α} {hf : ∀ a b, clash (f a) b = clash a b}

theorem mem_update {x : α} :
    x ∈ T.update p f hf ↔ ∃ a ∈ T, x = if p a then f a else a := by
  simp only [update, mem_def, List.mem_map, eq_comm]

end

/-- The rows that match (`SELECT … WHERE p`). -/
def select (T : Table α) (p : α → Bool) : List α := T.rows.filter p

@[simp] theorem mem_select {T : Table α} {p : α → Bool} {a : α} :
    a ∈ T.select p ↔ a ∈ T ∧ p a = true := List.mem_filter

/-- The row that matches, where a filter by a unique key matches at most one. -/
def find? (T : Table α) (p : α → Bool) : Option α := T.rows.find? p

theorem find?_some {T : Table α} {p : α → Bool} {a : α} (h : T.find? p = some a) :
    a ∈ T ∧ p a = true :=
  ⟨List.mem_of_find?_eq_some h, List.find?_some h⟩

theorem find?_none {T : Table α} {p : α → Bool} (h : T.find? p = none) :
    ∀ a ∈ T, p a = false := by
  intro a ha
  simpa using List.find?_eq_none.1 h a ha

/-- A filter that matches only rows clashing with `a` finds `a`. -/
theorem find?_eq {T : Table α} {p : α → Bool} {a : α} (ha : a ∈ T) (hp : p a = true)
    (hu : ∀ b, p b = true → clash b a = true) : T.find? p = some a := by
  cases h : T.find? p with
  | none => simp [find?_none h a ha] at hp
  | some b =>
    obtain ⟨hb, hpb⟩ := find?_some h
    rw [unique hb ha (hu b hpb)]

/-- Remove the rows that match. -/
def delete (T : Table α) (p : α → Bool) : Table α :=
  ⟨T.rows.filter fun a => !p a, T.apart.filter _⟩

@[simp] theorem mem_delete {T : Table α} {p : α → Bool} {a : α} :
    a ∈ T.delete p ↔ a ∈ T ∧ p a = false := by
  simp [delete, mem_def, List.mem_filter]

/-- Nothing matches, nothing goes. -/
theorem delete_eq_self {T : Table α} {p : α → Bool} (h : ∀ a ∈ T, p a = false) :
    T.delete p = T := by
  obtain ⟨rows, apart⟩ := T
  have he : rows.filter (fun a => !p a) = rows :=
    List.filter_eq_self.2 fun a ha => by simp [h a ha]
  simp only [delete, he]

/-- Insert a row in place of those it clashes with. -/
def put (T : Table α) (r : α) : Table α :=
  ⟨T.rows.filter (fun a => !clash a r) ++ [r], by
    rw [List.pairwise_append]
    refine ⟨T.apart.filter _, List.pairwise_singleton _ _, fun a ha b hb => ?_⟩
    cases List.mem_singleton.1 hb
    simpa using (List.mem_filter.1 ha).2⟩

@[simp] theorem mem_put {T : Table α} {r a : α} :
    a ∈ T.put r ↔ a = r ∨ a ∈ T ∧ clash a r = false := by
  simp [put, mem_def, List.mem_filter, or_comm]

end Table
