import Mathlib

/-!
# Time zones

A zone is an offset and its changes, at whole seconds. `reading z u` is what a clock there shows at
the instant `u`; a reading may come twice (the clocks went back) or never (they jumped), and the
offset of a reading is looked up by its `fold` (`localOffset`): 0 for the first of two, 1 for the
second, and in a gap 0 for the offset before and 1 for the one after.

`first z w`: the least instant whose reading is at or after `w` (`first_least`), so it grows with
`w` (`first_mono`). Where no change comes before the readings the last one repeats or skips are over
(`Apart`), the offset of `w` leads there, or `w` is skipped and the two offsets lie on both sides of
the change that skips it (`lookup`).
-/

/-- The offset before all changes, and the changes: an instant, and the offset from then on. -/
structure Zone where
  base : Int
  changes : List (Int × Int)
  sorted : changes.Pairwise (·.1 < ·.1)

namespace Zone

/-- The offset in force at an instant. -/
def offsetFrom (o : Int) : List (Int × Int) → Int → Int
  | [], _ => o
  | (t, o') :: l, u => if u < t then o else offsetFrom o' l u

def offset (z : Zone) (u : Int) : Int := offsetFrom z.base z.changes u

/-- What the clock shows. -/
def reading (z : Zone) (u : Int) : Int := u + z.offset u

/-- The offset of a reading: that of the last change it is past. A change is past a reading from the
later of its two readings on, with `fold` from the earlier. -/
def localOffsetFrom (fold : Bool) (o : Int) : List (Int × Int) → Int → Int
  | [], _ => o
  | (t, o') :: l, w =>
    if w < t + (if fold then min o o' else max o o') then o else localOffsetFrom fold o' l w

def localOffset (z : Zone) (fold : Bool) (w : Int) : Int :=
  localOffsetFrom fold z.base z.changes w

/-- The readings a change repeats or skips are over before the next one's begin. -/
def ApartFrom (o : Int) : List (Int × Int) → Prop
  | (t, o') :: (t', o'') :: l =>
    t + max o o' ≤ t' + min o' o'' ∧ ApartFrom o' ((t', o'') :: l)
  | _ => True

def Apart (z : Zone) : Prop := ApartFrom z.base z.changes

instance decidableApartFrom : (o : Int) → (l : List (Int × Int)) → Decidable (ApartFrom o l)
  | _, [] => isTrue trivial
  | _, [_] => isTrue trivial
  | o, (t, o') :: (t', o'') :: l =>
    have := decidableApartFrom o' ((t', o'') :: l)
    inferInstanceAs (Decidable (t + max o o' ≤ t' + min o' o'' ∧ ApartFrom o' ((t', o'') :: l)))

instance (z : Zone) : Decidable z.Apart := decidableApartFrom z.base z.changes

/-- The least instant whose reading is at or after `w`. -/
def firstFrom (o : Int) : List (Int × Int) → Int → Int
  | [], w => w - o
  | (t, o') :: l, w => if w < t + o then w - o else if w < t + o' then t else firstFrom o' l w

def first (z : Zone) (w : Int) : Int := firstFrom z.base z.changes w

variable {o o' t u w : Int} {l : List (Int × Int)}

theorem ApartFrom.tail (h : ApartFrom o ((t, o') :: l)) : ApartFrom o' l := by
  cases l with
  | nil => trivial
  | cons c l => exact h.2

/-- Before the first change the base is in force. -/
theorem offset_before (hl : ((t, o') :: l).Pairwise (·.1 < ·.1)) (hu : u ≤ t) :
    offsetFrom o' l u = o' := by
  cases l with
  | nil => rfl
  | cons c l =>
    have hlt : t < c.1 := (List.pairwise_cons.1 hl).1 c List.mem_cons_self
    exact if_pos (lt_of_le_of_lt hu hlt)

theorem firstFrom_least (hl : l.Pairwise (·.1 < ·.1)) :
    w ≤ firstFrom o l w + offsetFrom o l (firstFrom o l w) ∧
      ∀ u, w ≤ u + offsetFrom o l u → firstFrom o l w ≤ u := by
  induction l generalizing o with
  | nil => simp only [offsetFrom, firstFrom]; lia
  | cons c l ih =>
    obtain ⟨t, o'⟩ := c
    simp only [firstFrom]
    have hbefore : ∀ {u}, u < t → offsetFrom o ((t, o') :: l) u = o := fun hu => if_pos hu
    have hafter : ∀ {u}, t ≤ u → offsetFrom o ((t, o') :: l) u = offsetFrom o' l u :=
      fun hu => if_neg (not_lt.2 hu)
    by_cases h : w < t + o
    · rw [if_pos h, hbefore (by lia)]
      refine ⟨by lia, fun u hu => ?_⟩
      by_contra hlt
      rw [hbefore (by lia)] at hu
      lia
    rw [if_neg h]
    by_cases h' : w < t + o'
    · rw [if_pos h', hafter le_rfl, offset_before hl le_rfl]
      refine ⟨by lia, fun u hu => ?_⟩
      by_contra hlt
      rw [hbefore (by lia)] at hu
      lia
    · rw [if_neg h']
      obtain ⟨hmem, hleast⟩ := ih (o := o') (List.pairwise_cons.1 hl).2
      -- no instant before the change reads as late as this, by either offset
      have hge : t ≤ firstFrom o' l w := by
        by_contra hlt
        rw [offset_before hl (by lia)] at hmem
        lia
      refine ⟨by rwa [hafter hge], fun u hu => ?_⟩
      by_cases hut : t ≤ u
      · rw [hafter hut] at hu
        exact hleast u hu
      · rw [hbefore (by lia)] at hu
        lia

/-- Past a change that skips `w` nothing reads `w` any more. -/
theorem ApartFrom.later (h : ApartFrom o ((t, o') :: l)) (hw : w < t + o') (hu : t ≤ u) :
    w < u + offsetFrom o' l u := by
  have hmax : ∀ {l o t o'}, ApartFrom o ((t, o') :: l) → w < t + o' → w < t + max o o' →
      t ≤ u → w < u + offsetFrom o' l u := by
    intro l
    induction l with
    | nil =>
      intro o t o' _ hw _ hu
      simp only [offsetFrom]
      lia
    | cons c l ih =>
      obtain ⟨t', o''⟩ := c
      intro o t o' h hw hm hu
      simp only [offsetFrom]
      split
      · lia
      · have := h.1
        exact ih h.2 (by lia) (by lia) (by lia)
  exact hmax h hw (by lia) hu

/-- The offset of a reading leads to the first instant that has it; where it is skipped, to after
the change, and the other one to before it. -/
theorem lookupFrom (hl : l.Pairwise (·.1 < ·.1)) (ha : ApartFrom o l) :
    (firstFrom o l w = w - localOffsetFrom false o l w ∧
      firstFrom o l w + offsetFrom o l (firstFrom o l w) = w) ∨
    ((∃ o', (firstFrom o l w, o') ∈ l) ∧ w - localOffsetFrom true o l w < firstFrom o l w ∧
      firstFrom o l w ≤ w - localOffsetFrom false o l w ∧
      ∀ u, firstFrom o l w ≤ u → w < u + offsetFrom o l u) := by
  induction l generalizing o with
  | nil => simp only [firstFrom, localOffsetFrom, offsetFrom]; lia
  | cons c l ih =>
    obtain ⟨t, o'⟩ := c
    have hbefore : ∀ {u}, u < t → offsetFrom o ((t, o') :: l) u = o := fun hu => if_pos hu
    have hafter : ∀ {u}, t ≤ u → offsetFrom o ((t, o') :: l) u = offsetFrom o' l u :=
      fun hu => if_neg (not_lt.2 hu)
    simp only [firstFrom, localOffsetFrom, if_true, Bool.false_eq_true, if_false]
    by_cases h : w < t + o
    · left
      rw [if_pos h, if_pos (by lia), hbefore (by lia)]
      lia
    rw [if_neg h]
    by_cases h' : w < t + o'
    · -- the change skips `w`; the next one begins to matter later
      right
      have hnext : localOffsetFrom true o' l w = o' := by
        cases l with
        | nil => rfl
        | cons c l =>
          have := ha.1
          exact if_pos (by simp only [if_true]; lia)
      have hmax : w < t + max o o' := by lia
      have hmin : ¬w < t + min o o' := by lia
      rw [if_pos h', if_pos hmax, if_neg hmin, hnext]
      refine ⟨⟨o', List.mem_cons_self⟩, by lia, by lia, fun u hu => ?_⟩
      rw [hafter hu]
      exact ha.later h' hu
    · rw [if_neg h', if_neg (by lia), if_neg (by lia)]
      obtain ⟨hmem, -⟩ := firstFrom_least (w := w) (o := o') (List.pairwise_cons.1 hl).2
      have hge : t ≤ firstFrom o' l w := by
        by_contra hlt
        rw [offset_before hl (by lia)] at hmem
        lia
      rw [hafter hge]
      rcases ih (List.pairwise_cons.1 hl).2 ha.tail with hr | ⟨⟨o'', hc⟩, hlow, hhigh, hlate⟩
      · exact .inl hr
      · refine .inr ⟨⟨o'', List.mem_cons_of_mem _ hc⟩, hlow, hhigh, fun u hu => ?_⟩
        rw [hafter (hge.trans hu)]
        exact hlate u hu

variable {z : Zone}

theorem first_least (z : Zone) (w : Int) : IsLeast {u | w ≤ z.reading u} (z.first w) :=
  firstFrom_least z.sorted

theorem le_reading_first : w ≤ z.reading (z.first w) := (first_least z w).1

theorem first_le (h : w ≤ z.reading u) : z.first w ≤ u := (first_least z w).2 h

theorem reading_lt (h : u < z.first w) : z.reading u < w := by
  by_contra hle
  exact absurd (first_le (not_lt.1 hle)) (not_le.2 h)

theorem first_mono (z : Zone) : Monotone z.first := fun _ _ h => first_le (h.trans le_reading_first)

/-- A change skips `w`: the clock jumps past it. -/
structure Skips (z : Zone) (w t : Int) : Prop where
  change : ∃ o, (t, o) ∈ z.changes
  before : ∀ u < t, z.reading u < w
  after : ∀ u, t ≤ u → w < z.reading u

theorem Skips.unread (h : z.Skips w t) (u : Int) : z.reading u ≠ w := by
  by_cases hu : u < t
  · exact (h.before u hu).ne
  · exact (h.after u (not_lt.1 hu)).ne'

/-- What the two offsets of a reading lead to. -/
theorem lookup (h : z.Apart) (w : Int) :
    (z.first w = w - z.localOffset false w ∧ z.reading (z.first w) = w) ∨
      (z.Skips w (z.first w) ∧ w - z.localOffset true w < z.first w ∧
        z.first w ≤ w - z.localOffset false w) := by
  rcases lookupFrom z.sorted h with hr | ⟨hc, hlow, hhigh, hlate⟩
  · exact .inl hr
  · exact .inr ⟨⟨hc, fun _ => reading_lt, hlate⟩, hlow, hhigh⟩

end Zone
