import ImpiAgent.Lib.Lts

/-!
# Calls in progress over one shared store

A `Pool σ κ` is a store and the calls made on it so far, in the order they were made. A call is at
a point `κ` of its code (between two statements it issues, or at its end, where what it returned
can be read off); `none` is a call lost with its process. A call that ended stays, so the pool is
also the history of what was returned.

A *machine* `m : κ → σ → Option (σ × κ)` gives the next statement of a call: the store after it and
the point the call is then at (`none` at a call's end). `exec` lets one call issue one statement, so
the runs of a pool are all interleavings of its calls at statement granularity.

`count` counts the calls at a point with a property, which a step changes at its own call alone.

`Outline` is the rule for reasoning about them: an invariant of the store, an assertion for each
point of a call, and what tells two calls apart. It asks that a statement keeps its own call's
assertion (`own`) and does not interfere with those of the others (`other`).
-/

universe u v

/-- A store and the calls made on it, lost ones as `none`. -/
structure Pool (σ : Type u) (κ : Type v) where
  store : σ
  calls : List (Option κ)

namespace Pool

variable {σ : Type u} {κ : Type v}

/-- Call `i` is at `k`. -/
def At (p : Pool σ κ) (i : Nat) (k : κ) : Prop := p.calls[i]? = some (some k)

instance [DecidableEq κ] (p : Pool σ κ) (i : Nat) (k : κ) : Decidable (p.At i k) :=
  inferInstanceAs (Decidable (p.calls[i]? = some (some k)))

/-- A new call. -/
def start (p : Pool σ κ) (k : κ) : Pool σ κ := { p with calls := p.calls ++ [some k] }

/-- Call `i` moves to `k`, leaving the store `s`. -/
def put (p : Pool σ κ) (i : Nat) (s : σ) (k : κ) : Pool σ κ := ⟨s, p.calls.set i (some k)⟩

/-- Call `i` is lost. -/
def kill (p : Pool σ κ) (i : Nat) : Pool σ κ := { p with calls := p.calls.set i none }

/-- Call `i` issues its next statement. -/
def exec (m : κ → σ → Option (σ × κ)) (p : Pool σ κ) (i : Nat) : Option (Pool σ κ) :=
  match p.calls[i]? with
  | some (some k) => (m k p.store).map fun q => p.put i q.1 q.2
  | _ => none

theorem At.eq {p : Pool σ κ} {i : Nat} {k c : κ} (h : p.At i k) (h' : p.At i c) : k = c := by
  unfold At at h h'
  rw [h] at h'
  simpa using h'

theorem At.lt {p : Pool σ κ} {i : Nat} {k : κ} (h : p.At i k) : i < p.calls.length :=
  (List.getElem?_eq_some_iff.1 h).1

theorem At.mem {p : Pool σ κ} {i : Nat} {k : κ} (h : p.At i k) : some k ∈ p.calls :=
  List.mem_of_getElem? h

theorem at_of_mem {p : Pool σ κ} {k : κ} (h : some k ∈ p.calls) : ∃ i, p.At i k :=
  List.mem_iff_getElem?.1 h

@[simp] theorem start_store (p : Pool σ κ) (k : κ) : (p.start k).store = p.store := rfl
@[simp] theorem put_store (p : Pool σ κ) (i : Nat) (s : σ) (k : κ) : (p.put i s k).store = s := rfl
@[simp] theorem kill_store (p : Pool σ κ) (i : Nat) : (p.kill i).store = p.store := rfl

theorem at_start {p : Pool σ κ} {k c : κ} {i : Nat} :
    (p.start k).At i c ↔ p.At i c ∨ i = p.calls.length ∧ c = k := by
  unfold At start
  rw [List.getElem?_append]
  split
  · rename_i h
    constructor
    · exact .inl
    · rintro (h' | ⟨rfl, -⟩)
      · exact h'
      · omega
  · rename_i h
    rw [List.getElem?_eq_none (l := p.calls) (by omega)]
    by_cases hi : i = p.calls.length
    · subst hi
      simp [eq_comm]
    · rw [List.getElem?_eq_none (by simp; omega)]
      simp [hi]

theorem at_put {p : Pool σ κ} {i j : Nat} {s : σ} {k k₀ c : κ} (h : p.At i k₀) :
    (p.put i s k).At j c ↔ j = i ∧ c = k ∨ j ≠ i ∧ p.At j c := by
  unfold At put
  have hlt := h.lt
  by_cases hji : j = i
  · subst hji
    simp [hlt, eq_comm]
  · simp [Ne.symm hji, hji]

theorem at_put_self {p : Pool σ κ} {i : Nat} {s : σ} {k k₀ : κ} (h : p.At i k₀) :
    (p.put i s k).At i k := (at_put h).2 (.inl ⟨rfl, rfl⟩)

theorem at_put_ne {p : Pool σ κ} {i j : Nat} {s : σ} {k k₀ c : κ} (h : p.At i k₀) (hj : p.At j c)
    (hne : j ≠ i) : (p.put i s k).At j c := (at_put h).2 (.inr ⟨hne, hj⟩)

theorem at_kill {p : Pool σ κ} {i j : Nat} {c : κ} :
    (p.kill i).At j c ↔ j ≠ i ∧ p.At j c := by
  unfold At kill
  by_cases hji : j = i
  · subst hji
    by_cases hlt : j < p.calls.length <;> simp [hlt]
  · simp [Ne.symm hji, hji]

/-- What issuing a statement does. -/
theorem exec_eq_some {m : κ → σ → Option (σ × κ)} {p p' : Pool σ κ} {i : Nat} :
    p.exec m i = some p' ↔
      ∃ k s' k', p.At i k ∧ m k p.store = some (s', k') ∧ p' = p.put i s' k' := by
  unfold exec At
  constructor
  · intro h
    split at h
    · rename_i k hk
      rw [Option.map_eq_some_iff] at h
      obtain ⟨⟨s', k'⟩, hm, rfl⟩ := h
      exact ⟨k, s', k', hk, hm, rfl⟩
    · cases h
  · rintro ⟨k, s', k', hk, hm, rfl⟩
    simp [hk, hm]

section Count

/-- Changing one element of a list changes a count by that element. -/
theorem countP_modify {α : Type u} {l : List α} {i : Nat} {a : α} (f : α → Bool) (g : α → α)
    (h : l[i]? = some a) :
    (l.modify i g).countP f + (f a).toNat = l.countP f + (f (g a)).toNat := by
  obtain ⟨hlt, rfl⟩ := List.getElem?_eq_some_iff.1 h
  rw [List.modify_eq_set_getElem?, h]
  show (l.set i (g l[i])).countP f + _ = _
  rw [List.countP_set hlt]
  have hle : (f l[i]).toNat ≤ l.countP f := by
    cases hf : f l[i] with
    | false => exact Nat.zero_le _
    | true => exact List.countP_pos_iff.2 ⟨_, List.getElem_mem hlt, hf⟩
  cases hf : f l[i] <;> cases f (g l[i]) <;>
    simp only [hf, Bool.toNat_false, Bool.toNat_true, if_true, Bool.false_eq_true, if_false] at hle ⊢
  all_goals omega

variable (f : κ → Bool) {p : Pool σ κ} {i : Nat} {k k₀ : κ} {s : σ}

/-- How many calls are at a point with `f`. -/
def count (p : Pool σ κ) : Nat := p.calls.countP (·.any f)

theorem count_start : (p.start k).count f = p.count f + (f k).toNat := by
  unfold count start
  rw [List.countP_append, List.countP_singleton]
  cases hf : f k <;> simp [hf]

theorem count_put (h : p.At i k₀) :
    (p.put i s k).count f + (f k₀).toNat = p.count f + (f k).toNat := by
  have hm := countP_modify (fun x => x.any f) (fun _ => some k) h
  rw [List.modify_eq_set_getElem?, h] at hm
  exact hm

theorem count_eq_zero : p.count f = 0 ↔ ∀ i k, p.At i k → f k = false := by
  unfold count
  rw [List.countP_eq_zero]
  constructor
  · intro h i k hk
    simpa using h _ hk.mem
  · intro h x hx
    cases x with
    | none => simp
    | some k =>
      obtain ⟨i, hi⟩ := at_of_mem hx
      simp [h i k hi]

end Count

/-- A proof outline of the calls a machine runs: `I` of the store, `L` at each point of a call,
`D` of any two calls. `G k c` is the condition under which a call at `k` may issue its next
statement while another is at `c`. -/
structure Outline (m : κ → σ → Option (σ × κ)) (G : κ → κ → σ → Prop) where
  I : σ → Prop
  L : κ → σ → Prop
  D : κ → κ → Prop
  own : ∀ {s s' k k'}, I s → L k s → m k s = some (s', k') → I s' ∧ L k' s'
  other : ∀ {s s' k k' c}, I s → L k s → L c s → D k c → G k c s → m k s = some (s', k') → L c s'
  apart : ∀ {s s' k k' c}, I s → L k s → L c s → D k c → G k c s → m k s = some (s', k') → D k' c
  symm : ∀ {k c}, D k c → D c k

namespace Outline

variable {m : κ → σ → Option (σ × κ)} {G : κ → κ → σ → Prop} (O : Outline m G)

/-- The outline holds of a pool. -/
structure Holds (p : Pool σ κ) : Prop where
  store : O.I p.store
  calls : ∀ i k, p.At i k → O.L k p.store
  apart : ∀ i j k c, i ≠ j → p.At i k → p.At j c → O.D k c

variable {O} {p : Pool σ κ} {i : Nat}

/-- A pool without calls. -/
theorem Holds.empty {s : σ} (h : O.I s) : O.Holds ⟨s, []⟩ :=
  ⟨h, fun i _ hk => absurd hk.lt (Nat.not_lt_zero i),
    fun i _ _ _ _ hi => absurd hi.lt (Nat.not_lt_zero i)⟩

/-- A statement keeps the outline. -/
theorem Holds.put (h : O.Holds p) {k k' : κ} {s' : σ} (hk : p.At i k)
    (hG : ∀ j c, j ≠ i → p.At j c → G k c p.store) (hm : m k p.store = some (s', k')) :
    O.Holds (p.put i s' k') := by
  have hown := O.own h.store (h.calls i k hk) hm
  have new : ∀ j c, j ≠ i → p.At j c → O.D k' c := fun j c hne hj =>
    O.apart h.store (h.calls i k hk) (h.calls j c hj) (h.apart i j k c (Ne.symm hne) hk hj)
      (hG j c hne hj) hm
  refine ⟨hown.1, fun j c hj => ?_, fun a b x y hab ha hb => ?_⟩
  · rcases (at_put hk).1 hj with ⟨-, rfl⟩ | ⟨hne, hj⟩
    · exact hown.2
    · exact O.other h.store (h.calls i k hk) (h.calls j c hj)
        (h.apart i j k c (Ne.symm hne) hk hj) (hG j c hne hj) hm
  · rcases (at_put hk).1 ha with ⟨ea, rfl⟩ | ⟨hna, ha₀⟩ <;>
      rcases (at_put hk).1 hb with ⟨eb, rfl⟩ | ⟨hnb, hb₀⟩
    · exact absurd (ea.trans eb.symm) hab
    · exact new b y hnb hb₀
    · exact O.symm (new a x hna ha₀)
    · exact h.apart a b x y hab ha₀ hb₀

/-- So does a new call that brings its assertion and is told apart from the others. -/
theorem Holds.start {k : κ} (h : O.Holds p) (hL : O.L k p.store)
    (hD : ∀ i c, p.At i c → O.D k c) : O.Holds (p.start k) := by
  refine ⟨h.store, fun j c hj => ?_, fun a b x y hab ha hb => ?_⟩
  · rcases at_start.1 hj with hj | ⟨-, rfl⟩
    · exact h.calls j c hj
    · exact hL
  · rcases at_start.1 ha with ha₀ | ⟨ea, rfl⟩ <;> rcases at_start.1 hb with hb₀ | ⟨eb, rfl⟩
    · exact h.apart a b x y hab ha₀ hb₀
    · exact O.symm (hD a x ha₀)
    · exact hD b y hb₀
    · exact absurd (ea.trans eb.symm) hab

theorem Holds.kill (h : O.Holds p) : O.Holds (p.kill i) :=
  ⟨h.store, fun j c hj => h.calls j c (at_kill.1 hj).2,
    fun a b x y hab ha hb => h.apart a b x y hab (at_kill.1 ha).2 (at_kill.1 hb).2⟩

/-- A write from outside the calls that no assertion minds. -/
theorem Holds.write (h : O.Holds p) {s' : σ} (hI : O.I s')
    (hL : ∀ k, O.L k p.store → O.L k s') : O.Holds { p with store := s' } :=
  ⟨hI, fun j c hj => hL c (h.calls j c hj), fun a b x y hab ha hb => h.apart a b x y hab ha hb⟩

end Outline

end Pool
