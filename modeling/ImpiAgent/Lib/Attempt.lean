import Mathlib.Data.List.Forall2

/-!
# Computations that may fail

When a computation in `Except` returns: one after another (`bind_ok`), a check first (`unless_ok`),
and over a list (`mapM_ok`, `mapM_map_ok`).
-/

namespace Attempt

variable {α β ε : Type}

theorem bind_ok {x : Except ε α} {f : α → Except ε β} {b : β} :
    (x >>= f) = .ok b ↔ ∃ a, x = .ok a ∧ f a = .ok b := by
  cases x with
  | error err => exact ⟨fun h => (nomatch h), fun ⟨_, h, _⟩ => (nomatch h)⟩
  | ok a =>
    constructor
    · exact fun h => ⟨a, rfl, h⟩
    · rintro ⟨_, h, hf⟩
      cases h
      exact hf

theorem map_ok {x : Except ε α} {f : α → β} {b : β} :
    x.map f = .ok b ↔ ∃ a, x = .ok a ∧ f a = b := by
  cases x with
  | error err => exact ⟨fun h => (nomatch h), fun ⟨_, h, _⟩ => (nomatch h)⟩
  | ok a => simp [Except.map]

theorem mapM_ok {f : α → Except ε β} {xs : List α} : ∀ {ys : List β},
    xs.mapM f = .ok ys ↔ List.Forall₂ (fun x y => f x = .ok y) xs ys := by
  induction xs with
  | nil =>
    intro ys
    rw [List.mapM_nil, List.forall₂_nil_left_iff]
    exact ⟨fun h => (Except.ok.inj h).symm, fun h => congrArg Except.ok h.symm⟩
  | cons x xs ih =>
    intro ys
    rw [List.mapM_cons, bind_ok, List.forall₂_cons_left_iff]
    constructor
    · rintro ⟨y, hy, h⟩
      obtain ⟨zs, hzs, h⟩ := bind_ok.1 h
      exact ⟨y, zs, hy, ih.1 hzs, (Except.ok.inj h).symm⟩
    · rintro ⟨y, zs, hy, hzs, rfl⟩
      exact ⟨y, hy, bind_ok.2 ⟨zs, ih.2 hzs, rfl⟩⟩

theorem mem_mapM {f : α → Except ε β} {xs : List α} {ys : List β} (h : xs.mapM f = .ok ys) {y : β}
    (hy : y ∈ ys) : ∃ x ∈ xs, f x = .ok y := by
  have hall := mapM_ok.1 h
  clear h
  induction hall with
  | nil => exact nomatch hy
  | cons hxy _ ih =>
    rcases List.mem_cons.1 hy with rfl | hy
    · exact ⟨_, List.mem_cons_self, hxy⟩
    · obtain ⟨x, hx, hxy⟩ := ih hy
      exact ⟨x, List.mem_cons_of_mem _ hx, hxy⟩

/-- The same of computations that just fail. -/
theorem mem_mapM_some {f : α → Option β} {xs : List α} : ∀ {ys : List β}, xs.mapM f = some ys →
    ∀ y ∈ ys, ∃ x ∈ xs, f x = some y := by
  induction xs with
  | nil =>
    intro ys h
    obtain rfl := Option.some.inj h
    exact fun _ hy => nomatch hy
  | cons x xs ih =>
    intro ys h
    rw [List.mapM_cons] at h
    obtain ⟨y, hy, h⟩ := Option.bind_eq_some_iff.1 h
    obtain ⟨zs, hzs, h⟩ := Option.bind_eq_some_iff.1 h
    obtain rfl := Option.some.inj h
    refine List.forall_mem_cons.2 ⟨⟨x, List.mem_cons_self, hy⟩, fun z hz => ?_⟩
    obtain ⟨x', hx', hz⟩ := ih hzs z hz
    exact ⟨x', List.mem_cons_of_mem _ hx', hz⟩

theorem exists_of_mapM_some {f : α → Option β} {xs : List α} : ∀ {ys : List β},
    xs.mapM f = some ys → ∀ x ∈ xs, ∃ y ∈ ys, f x = some y := by
  induction xs with
  | nil => exact fun _ _ hx => nomatch hx
  | cons x xs ih =>
    intro ys h x' hx'
    rw [List.mapM_cons] at h
    obtain ⟨y, hy, h⟩ := Option.bind_eq_some_iff.1 h
    obtain ⟨ys, hys, h⟩ := Option.bind_eq_some_iff.1 h
    cases h
    rcases List.mem_cons.1 hx' with rfl | hx'
    · exact ⟨y, List.mem_cons_self, hy⟩
    · obtain ⟨z, hz, hfz⟩ := ih hys x' hx'
      exact ⟨z, .tail _ hz, hfz⟩

/-- What each attempt comes to, all come to. -/
theorem exists_mapM_some {f : α → Option β} {good : α → β → Prop} {xs : List α}
    (h : ∀ x ∈ xs, ∃ y, f x = some y ∧ good x y) :
    ∃ ys, xs.mapM f = some ys ∧ List.Forall₂ good xs ys := by
  induction xs with
  | nil => exact ⟨[], rfl, .nil⟩
  | cons x xs ih =>
    obtain ⟨y, hy, hgood⟩ := h x List.mem_cons_self
    obtain ⟨ys, hys, hall⟩ := ih fun x hx => h x (.tail _ hx)
    exact ⟨y :: ys, by rw [List.mapM_cons, hy, hys]; rfl, .cons hgood hall⟩

/-- Each entry is read or not on a condition of its own, and read as `g` has it. -/
theorem mapM_map_ok {γ : Type} {f : α → Except ε β} {r : γ → α} {g : γ → β} {good : γ → Prop}
    {xs : List γ} (h : ∀ x ∈ xs, ∀ y, f (r x) = .ok y ↔ good x ∧ y = g x) {ys : List β} :
    (xs.map r).mapM f = .ok ys ↔ (∀ x ∈ xs, good x) ∧ ys = xs.map g := by
  rw [mapM_ok, List.forall₂_map_left_iff]
  induction xs generalizing ys with
  | nil => simp
  | cons x xs ih =>
    rw [List.forall₂_cons_left_iff]
    have hx := h x List.mem_cons_self
    have hxs : ∀ zs, List.Forall₂ (fun x y => f (r x) = .ok y) xs zs ↔
        (∀ x ∈ xs, good x) ∧ zs = xs.map g :=
      fun _ => ih fun z hz => h z (List.mem_cons_of_mem _ hz)
    constructor
    · rintro ⟨y, zs, hy, hzs, rfl⟩
      obtain ⟨hgood, rfl⟩ := (hx y).1 hy
      obtain ⟨hgoods, rfl⟩ := (hxs zs).1 hzs
      exact ⟨List.forall_mem_cons.2 ⟨hgood, hgoods⟩, rfl⟩
    · rintro ⟨hgood, rfl⟩
      obtain ⟨hg, hgs⟩ := List.forall_mem_cons.1 hgood
      exact ⟨g x, xs.map g, (hx _).2 ⟨hg, rfl⟩, (hxs _).2 ⟨hgs, rfl⟩, rfl⟩

/-- A check that raises comes first. -/
theorem unless_ok {γ : Type} {b : Bool} {err : ε} {k : γ → Except ε α} {x : Except ε α}
    {a : α} : (if (!b) = true then throw err >>= k else x) = .ok a ↔ b = true ∧ x = .ok a := by
  cases b with
  | false => exact ⟨fun h => (nomatch h), fun h => (nomatch h.1)⟩
  | true => simp

end Attempt
