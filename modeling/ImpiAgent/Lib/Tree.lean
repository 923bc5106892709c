import ImpiAgent.Lib.Dict
import Mathlib.Data.List.Infix

/-!
# A tree of directories

A path is the list of its components, the innermost first, so that the parent of a path is its tail
and what lies beneath it are the paths it is a suffix of. A tree gives each directory there is the
time it was last modified: when it was made, when a child was made or removed, or when it was
touched.
-/

universe u v

/-- The directories there are, each with its modification time. -/
abbrev DirTree (κ : Type u) (τ : Type v) := List (List κ × τ)

namespace DirTree

variable {κ : Type u} {τ : Type v} [DecidableEq κ] {t : DirTree κ τ} {p q dir : List κ} {n : κ}
  {now : τ}

def mtime (t : DirTree κ τ) (p : List κ) : Option τ := t.lookup p

def Has (t : DirTree κ τ) (p : List κ) : Prop := (t.mtime p).isSome

instance (t : DirTree κ τ) (p : List κ) : Decidable (t.Has p) :=
  inferInstanceAs (Decidable ((t.mtime p).isSome = true))

/-- `os.utime` of a directory that is there. -/
def touch (p : List κ) (now : τ) (t : DirTree κ τ) : DirTree κ τ :=
  if t.Has p then Dict.assign p now t else t

/-- `mkdir(parents=True, exist_ok=True)`. -/
def mkdir (now : τ) : List κ → DirTree κ τ → DirTree κ τ
  | [], t => t
  | n :: dir, t =>
    let t := mkdir now dir t
    if t.Has (n :: dir) then t else Dict.assign (n :: dir) now (t.touch dir now)

/-- `shutil.rmtree`. -/
def rmtree (p : List κ) (now : τ) (t : DirTree κ τ) : DirTree κ τ :=
  DirTree.touch p.tail now (t.filter fun x => !decide (p <:+ x.1))

/-- `Path.iterdir`. -/
def children (t : DirTree κ τ) (dir : List κ) : List (List κ) :=
  (t.map Prod.fst).filter fun q => q ≠ [] ∧ q.tail = dir

theorem mtime_assign :
    DirTree.mtime (Dict.assign p now t) q = if q = p then some now else t.mtime q :=
  Dict.lookup_assign

theorem mtime_filter (f : List κ → Bool) :
    DirTree.mtime (t.filter fun x => f x.1) q = if f q then t.mtime q else none :=
  Dict.lookup_filter f

theorem mtime_touch : (t.touch p now).mtime q =
    if q = p ∧ t.Has p then some now else t.mtime q := by
  unfold touch
  by_cases h : t.Has p
  · rw [if_pos h, mtime_assign]
    simp [h]
  · rw [if_neg h]
    simp [h]

@[simp] theorem has_touch : (t.touch p now).Has q ↔ t.Has q := by
  unfold Has
  rw [mtime_touch]
  split
  · rename_i h
    rw [h.1]
    exact ⟨fun _ => h.2, fun _ => rfl⟩
  · rfl

theorem mtime_touch_ne (h : q ≠ p) : (t.touch p now).mtime q = t.mtime q := by
  rw [mtime_touch, if_neg fun hq => h hq.1]

theorem mtime_touch_self (h : t.Has p) : (t.touch p now).mtime p = some now := by
  rw [mtime_touch, if_pos ⟨rfl, h⟩]

/-! ## Making directories -/

theorem has_mkdir : (mkdir now p t).Has q ↔ t.Has q ∨ q ≠ [] ∧ q <:+ p := by
  induction p with
  | nil =>
    simp only [mkdir, List.suffix_nil]
    tauto
  | cons n dir ih =>
    rw [mkdir, List.suffix_cons_iff]
    split
    · rename_i h
      rw [ih]
      constructor
      · exact Or.imp_right fun h => ⟨h.1, .inr h.2⟩
      · rintro (hq | ⟨hq, rfl | hs⟩)
        · exact .inl hq
        · exact ih.1 h
        · exact .inr ⟨hq, hs⟩
    · unfold Has
      rw [mtime_assign]
      by_cases hq : q = n :: dir
      · simp [hq]
      · rw [if_neg hq]
        show (DirTree.Has (touch _ _ _) q) ↔ _
        rw [has_touch, ih, or_iff_right hq]
        rfl

theorem has_mkdir_self (h : p ≠ []) : (mkdir now p t).Has p :=
  has_mkdir.2 (.inr ⟨h, List.suffix_refl p⟩)

theorem Has.mkdir (h : t.Has q) : (DirTree.mkdir now p t).Has q := has_mkdir.2 (.inl h)

/-- A directory that is there is modified by a new child alone. -/
theorem mtime_mkdir (h : t.Has q) (hc : ∀ n, n :: q <:+ p → t.Has (n :: q)) :
    (mkdir now p t).mtime q = t.mtime q := by
  induction p with
  | nil => rfl
  | cons n dir ih =>
    have hd := ih fun m hm => hc m (hm.trans (List.suffix_cons _ _))
    rw [DirTree.mkdir]
    split
    · exact hd
    · rename_i hn
      have hne : q ≠ n :: dir := fun he => hn (has_mkdir.2 (.inl (he ▸ h)))
      have hdir : q ≠ dir := fun he => hn (has_mkdir.2 (.inl (he ▸ hc n (he ▸ List.suffix_refl _))))
      rw [mtime_assign, if_neg hne, mtime_touch_ne hdir, hd]

/-! ## Removing them -/

theorem has_rmtree : (t.rmtree p now).Has q ↔ t.Has q ∧ ¬p <:+ q := by
  unfold rmtree
  rw [has_touch]
  unfold Has
  rw [mtime_filter fun k => !decide (p <:+ k)]
  by_cases h : p <:+ q <;> simp [h]

theorem mtime_rmtree (h : ¬p <:+ q) (hq : q ≠ p.tail) :
    (t.rmtree p now).mtime q = t.mtime q := by
  unfold rmtree
  rw [mtime_touch_ne hq, mtime_filter fun k => !decide (p <:+ k)]
  simp [h]

theorem mem_children : q ∈ t.children dir ↔ t.Has q ∧ q ≠ [] ∧ q.tail = dir := by
  unfold children Has mtime
  rw [List.mem_filter, decide_eq_true_iff, Option.isSome_iff_ne_none]
  have hl := Dict.lookup_eq_none (k := q) (d := t)
  tauto

end DirTree
