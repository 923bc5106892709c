import ImpiAgent.Gateways.Rendering
import Mathlib.Data.List.TakeWhile

/-!
# The sections of a passage

The loops of `_sections` end with the pieces one reads off the text (`split_eq`), which are cut
where the text allows it just when each begins with no empty line and ends inside no entity
(`clean_of_cuts`, `cuts_of_clean`). So the sections hold the passage just when the ones that are
shown do and the note has room (`held_iff`), and a card's label always leaves some (`room_pos`).
-/

namespace Rendering

open Text (Str str lstrip rstrip)
open Containment (oneLine fieldLimit defuse inertKeepLines mrkdwnText)

variable {room : Nat} {s s' text line tail current : Str}

/-! ## What a section takes -/

theorem find?_down {p : Nat → Bool} {n i : Nat} (hi : i ≤ n) (hp : p i = true)
    (hmax : ∀ m, i < m → m ≤ n → p m = false) :
    (List.range (n + 1)).reverse.find? p = some i := by
  induction n with
  | zero =>
    obtain rfl : i = 0 := by omega
    simp [hp]
  | succ n ih =>
    rw [List.range_succ, List.reverse_append, List.reverse_singleton, List.singleton_append,
      List.find?_cons]
    by_cases h : i = n + 1
    · rw [← h, hp]
    · rw [hmax (n + 1) (by omega) le_rfl]
      exact ih (by omega) fun m him hm => hmax m him (by omega)

theorem ends_eq (text : Str) (n : Nat) : ends text n = text[n]?.all (· = '\n') := by
  rw [ends, List.head?_drop]

theorem ends_length (text : Str) : ends text text.length = true := by
  simp [ends_eq]

theorem span_eq {n : Nat} (hn : n ≤ room) (hl : n ≤ text.length) (he : ends text n = true)
    (hmax : ∀ m, n < m → m ≤ room → m ≤ text.length → ends text m = false) :
    span room text = n := by
  rw [span, find?_down (le_min hn hl) he fun m hm hle => hmax m hm (by omega) (by omega)]
  rfl

theorem span_of_le (h : text.length ≤ room) : span room text = text.length :=
  span_eq h le_rfl (ends_length text) fun m hm _ hle => by omega

theorem span_long (h : ∀ m, m ≤ room → m ≤ text.length → ends text m = false) :
    span room text = room := by
  rw [span, List.find?_eq_none.2 fun m hm => ?_]
  · rfl
  · rw [List.mem_reverse, List.mem_range] at hm
    simp [h m (by omega) (by omega)]

theorem span_le (room : Nat) (text : Str) : span room text ≤ room := by
  unfold span
  cases h : (List.range (min room text.length + 1)).reverse.find? (ends text) with
  | none => rfl
  | some n =>
    have hm := List.mem_of_find?_eq_some h
    rw [List.mem_reverse, List.mem_range] at hm
    show n ≤ room
    omega

/-- A line that has begun is not left out. -/
theorem span_pos (hr : 0 < room) (hne : text ≠ []) (hh : text.head? ≠ some '\n') :
    0 < span room text := by
  unfold span
  cases h : (List.range (min room text.length + 1)).reverse.find? (ends text) with
  | none => exact hr
  | some n =>
    have he := List.find?_some h
    rw [ends_eq] at he
    obtain ⟨c, rest, rfl⟩ := List.exists_cons_of_ne_nil hne
    cases n with
    | zero => simp_all
    | succ n => exact Nat.succ_pos n

theorem ends_inside {n : Nat} (hl : '\n' ∉ s) (hn : n < s.length) :
    s[n]?.all (· = '\n') = false := by
  cases h : s[n]? with
  | none => exact absurd (List.getElem?_eq_none_iff.1 h) (by omega)
  | some c =>
    have hc : c ≠ '\n' := fun he => hl (he ▸ List.mem_of_getElem? h)
    simpa using hc

/-! ## From one section to the next -/

@[simp] theorem piece_feed (room : Nat) (s : Str) : piece room ('\n' :: s) = piece room s := by
  simp [piece]

@[simp] theorem next_feed (room : Nat) (s : Str) : next room ('\n' :: s) = next room s := by
  simp [next]

theorem skip_eq (h : s.head? ≠ some '\n') : s.dropWhile (· = '\n') = s := by
  cases s with
  | nil => rfl
  | cons c s => simpa using h

theorem piece_eq (h : s.head? ≠ some '\n') : piece room s = s.take (span room s) := by
  rw [piece, skip_eq h]

theorem length_piece_le (room : Nat) (s : Str) : (piece room s).length ≤ room := by
  rw [piece, List.length_take]
  exact (Nat.min_le_left _ _).trans (span_le _ _)

theorem head?_skip (s : Str) : (s.dropWhile (· = '\n')).head? ≠ some '\n' := fun h => by
  have := List.head?_dropWhile_not (· = '\n') s
  rw [h] at this
  simp at this

theorem head?_piece (room : Nat) (s : Str) : (piece room s).head? ≠ some '\n' := by
  intro h
  rw [piece, List.head?_take] at h
  split at h
  · cases h
  · exact head?_skip s h

theorem next_none (h : next room s = none) :
    (s.dropWhile (· = '\n')).drop (span room (s.dropWhile (· = '\n'))) = [] := by
  rw [next] at h
  split at h
  · assumption
  · cases h

/-- The next section begins after a line break, or in the middle of a line. -/
theorem next_some (h : next room s = some s') :
    (s.dropWhile (· = '\n')).drop (span room (s.dropWhile (· = '\n'))) = '\n' :: s' ∨
      (s.dropWhile (· = '\n')).drop (span room (s.dropWhile (· = '\n'))) = s' ∧ s' ≠ [] ∧
        s'.head? ≠ some '\n' := by
  rw [next] at h
  split at h
  · cases h
  · next c rest heq =>
    rw [heq]
    by_cases hc : c = '\n'
    · rw [if_pos hc] at h
      cases h
      exact .inl (by rw [hc])
    · rw [if_neg hc] at h
      cases h
      exact .inr ⟨rfl, List.cons_ne_nil _ _, by simpa using hc⟩

theorem piece_ne_nil (hr : 0 < room) (h : next room s = some s') : piece room s ≠ [] := by
  have hne : s.dropWhile (· = '\n') ≠ [] := fun hnil => by
    rcases next_some h with hd | ⟨hd, hs', -⟩
    · simp [hnil] at hd
    · rw [hnil, List.drop_nil] at hd
      exact hs' hd.symm
  have hpos := span_pos hr hne (head?_skip s)
  rw [piece]
  simp [hne]
  omega

/-- Each section is of less of the text than the one before. -/
theorem length_next (hr : 0 < room) (h : next room s = some s') : s'.length < s.length := by
  have hpos := List.length_pos_of_ne_nil (piece_ne_nil hr h)
  have hsuf := (List.dropWhile_suffix (l := s) (· = '\n')).length_le
  have hsplit := congrArg List.length
    (List.take_append_drop (span room (s.dropWhile (· = '\n'))) (s.dropWhile (· = '\n')))
  rw [List.length_append] at hsplit
  change 0 < (List.take _ _).length at hpos
  rcases next_some h with hd | ⟨hd, -⟩ <;> rw [hd] at hsplit
  · rw [List.length_cons] at hsplit
    omega
  · omega

theorem startsIn_eq (hr : 0 < room) : ∀ {n m : Nat} {s : Str}, s.length < n → s.length < m →
    startsIn room n s = startsIn room m s
  | 0, _, _, h, _ => absurd h (Nat.not_lt_zero _)
  | _, 0, _, _, h => absurd h (Nat.not_lt_zero _)
  | n + 1, m + 1, s, hn, hm => by
    rw [startsIn, startsIn]
    cases h : next room s with
    | none => rfl
    | some s' =>
      have := length_next hr h
      exact congrArg (s :: ·) (startsIn_eq hr (by omega) (by omega))

theorem starts_eq (hr : 0 < room) (s : Str) :
    starts room s = s :: ((next room s).map (starts room)).getD [] := by
  rw [starts, startsIn]
  cases h : next room s with
  | none => rfl
  | some s' =>
    have := length_next hr h
    exact congrArg (s :: ·) (startsIn_eq hr (by omega) (by omega))

theorem starts_last (hr : 0 < room) (h : next room s = none) : starts room s = [s] := by
  rw [starts_eq hr, h]
  rfl

theorem starts_next (hr : 0 < room) (h : next room s = some s') :
    starts room s = s :: starts room s' := by
  rw [starts_eq hr, h]
  rfl

/-- The first section has the text from its start. -/
theorem mem_starts (hr : 0 < room) (text : Str) : text ∈ (starts room text).take sectionsMax := by
  rw [starts_eq hr, sectionsMax, List.take_succ_cons]
  exact List.mem_cons_self

/-! ## The loops -/

/-- The pieces one reads off the text. -/
def pieces (room : Nat) (text : Str) : List Str := (starts room text).map (piece room)

theorem pieces_feed (hr : 0 < room) (s : Str) : pieces room ('\n' :: s) = pieces room s := by
  unfold pieces
  cases h : next room s with
  | none => rw [starts_last hr h, starts_last hr (by rw [next_feed, h])]; simp
  | some s' => rw [starts_next hr h, starts_next hr (by rw [next_feed, h])]; simp

theorem pieces_last (hr : 0 < room) (hl : current.length ≤ room) (hh : current.head? ≠ some '\n') :
    pieces room current = [current] := by
  have hnext : next room current = none := by
    rw [next, skip_eq hh, span_of_le hl, List.drop_length]
  rw [pieces, starts_last hr hnext, List.map_singleton, piece_eq hh, span_of_le hl,
    List.take_length]

/-- One line longer than a section. -/
theorem pieces_hard (hr : 0 < room) (hc : '\n' ∉ current) (hl : room < current.length) :
    pieces room (current ++ tail) =
      current.take room :: pieces room (current.drop room ++ tail) := by
  have hh : (current ++ tail).head? ≠ some '\n' := by
    rw [List.head?_append_of_ne_nil _ (by rintro rfl; cases hl)]
    exact fun h => hc (List.mem_of_mem_head? h)
  have hspan : span room (current ++ tail) = room := by
    refine span_long fun m hm _ => ?_
    rw [ends_eq, List.getElem?_append_left (by omega)]
    exact ends_inside hc (by omega)
  have hnext : next room (current ++ tail) = some (current.drop room ++ tail) := by
    rw [next, skip_eq hh, hspan, List.drop_append_of_le_length hl.le]
    obtain ⟨c, rest, hd⟩ := List.exists_cons_of_ne_nil (l := current.drop room)
      (by rw [ne_eq, List.drop_eq_nil_iff]; omega)
    have hcn : c ≠ '\n' := by
      rintro rfl
      exact hc (List.mem_of_mem_drop (hd ▸ List.mem_cons_self))
    rw [hd, List.cons_append]
    simp [hcn]
  rw [pieces, starts_next hr hnext, List.map_cons, piece_eq hh, hspan,
    List.take_append_of_le_length hl.le]
  rfl

/-- A line there is no room for any more. -/
theorem pieces_full (hr : 0 < room) (hl : current.length ≤ room) (hh : current.head? ≠ some '\n')
    (hne : current ≠ []) (hline : '\n' ∉ line) (hfull : room < current.length + 1 + line.length) :
    pieces room (current ++ '\n' :: (line ++ tail)) = current :: pieces room (line ++ tail) := by
  have hh' : (current ++ '\n' :: (line ++ tail)).head? ≠ some '\n' := by
    rwa [List.head?_append_of_ne_nil _ hne]
  have hspan : span room (current ++ '\n' :: (line ++ tail)) = current.length := by
    refine span_eq hl (by simp) (by simp [ends_eq]) fun m hm hmr _ => ?_
    obtain ⟨i, rfl⟩ : ∃ i, m = current.length + (i + 1) := ⟨m - current.length - 1, by omega⟩
    rw [ends_eq, List.getElem?_append_right (by omega), Nat.add_sub_cancel_left,
      List.getElem?_cons_succ, List.getElem?_append_left (by omega)]
    exact ends_inside hline (by omega)
  have hnext : next room (current ++ '\n' :: (line ++ tail)) = some (line ++ tail) := by
    rw [next, skip_eq hh', hspan, List.drop_left]
    simp
  rw [pieces, starts_next hr hnext, List.map_cons, piece_eq hh', hspan, List.take_left]
  rfl

theorem upTo_nat (n : Nat) (s : Str) : upTo n s = s.take n := by
  rw [upTo, if_neg (by omega), Int.toNat_natCast]

theorem onFrom_nat (n : Nat) (s : Str) : onFrom n s = s.drop n := by
  rw [onFrom, if_neg (by omega), Int.toNat_natCast]

theorem hardSplit_short {turns : Nat} {ps : List Str} (ht : 0 < turns)
    (hl : current.length ≤ room) : hardSplit room turns (ps, current) = some (ps, current) := by
  obtain ⟨n, rfl⟩ := Nat.exists_eq_add_one.2 ht
  rw [hardSplit, if_neg (by omega)]

theorem hardSplit_line (hr : 0 < room) : ∀ (turns : Nat) (ps : List Str) {current : Str},
    '\n' ∉ current → current.length < turns →
      ∃ qs c, hardSplit room turns (ps, current) = some (ps ++ qs, c) ∧ c.length ≤ room ∧
        '\n' ∉ c ∧ ∀ tail, pieces room (current ++ tail) = qs ++ pieces room (c ++ tail)
  | 0, _, _, _, h => absurd h (Nat.not_lt_zero _)
  | turns + 1, ps, current, hc, ht => by
    by_cases hl : current.length ≤ room
    · exact ⟨[], current, by rw [hardSplit_short (Nat.succ_pos _) hl, List.append_nil], hl, hc,
        fun _ => rfl⟩
    · have hrest : '\n' ∉ current.drop room := fun h => hc (List.mem_of_mem_drop h)
      obtain ⟨qs, c, heq, hlen, hnl, htail⟩ := hardSplit_line hr turns (ps ++ [current.take room])
        hrest (by rw [List.length_drop]; omega)
      refine ⟨current.take room :: qs, c, ?_, hlen, hnl, fun tail => ?_⟩
      · rw [hardSplit, if_pos (by omega), upTo_nat, onFrom_nat, heq, List.append_assoc]
        rfl
      · rw [pieces_hard hr hc (by omega), htail, List.cons_append]

/-- A turn of the `for`: what is to come after the line is read off as before. -/
theorem addLine_eq (hr : 0 < room) {turns : Nat} (ps : List Str) (hline : '\n' ∉ line)
    (ht : line.length < turns) (hl : current.length ≤ room) (hh : current.head? ≠ some '\n') :
    ∃ qs c, addLine room turns (ps, current) line = some (ps ++ qs, c) ∧ c.length ≤ room ∧
      c.head? ≠ some '\n' ∧
      ∀ tail, pieces room (current ++ '\n' :: (line ++ tail)) = qs ++ pieces room (c ++ tail) := by
  have hhead {c : Str} (hc : '\n' ∉ c) : c.head? ≠ some '\n' := fun h =>
    hc (List.mem_of_mem_head? h)
  simp only [addLine]
  by_cases hne : current = []
  · subst hne
    rw [if_neg (by simp), if_pos rfl]
    obtain ⟨qs, c, heq, hlen, hnl, htail⟩ := hardSplit_line hr turns ps hline ht
    exact ⟨qs, c, heq, hlen, hhead hnl, fun tail => (pieces_feed hr _).trans (htail tail)⟩
  by_cases hfull : room < current.length + 1 + line.length
  · rw [if_pos ⟨hne, by exact_mod_cast hfull⟩]
    obtain ⟨qs, c, heq, hlen, hnl, htail⟩ := hardSplit_line hr turns (ps ++ [current]) hline ht
    refine ⟨current :: qs, c, ?_, hlen, hhead hnl, fun tail => ?_⟩
    · rw [heq, List.append_assoc]
      rfl
    · rw [pieces_full hr hl hh hne hline hfull, htail, List.cons_append]
  · rw [if_neg fun h => hfull (by exact_mod_cast h.2), if_neg hne]
    have hlen : (current ++ '\n' :: line).length ≤ room := by
      rw [List.length_append, List.length_cons]
      omega
    refine ⟨[], current ++ '\n' :: line, ?_, hlen, ?_, fun tail => ?_⟩
    · rw [hardSplit_short (by omega) hlen, List.append_nil]
    · rwa [List.head?_append_of_ne_nil _ hne]
    · rw [List.append_assoc, List.cons_append, List.nil_append]

theorem foldlM_addLine (hr : 0 < room) {turns : Nat} : ∀ (lines ps : List Str)
    (current : Str), (∀ line ∈ lines, '\n' ∉ line ∧ line.length < turns) → current.length ≤ room →
      current.head? ≠ some '\n' →
      ∃ qs c, lines.foldlM (addLine room turns) (ps, current) = some (ps ++ qs, c) ∧
        pieces room (current ++ lines.flatMap ('\n' :: ·)) = qs ++ [c]
  | [], _, current, _, hl, hh => ⟨[], current, by simp, by simpa using pieces_last hr hl hh⟩
  | line :: lines, ps, current, hlines, hl, hh => by
    obtain ⟨hline, ht⟩ := hlines line List.mem_cons_self
    obtain ⟨qs, c, hadd, hlen, hc, htail⟩ := addLine_eq hr ps hline ht hl hh
    obtain ⟨rs, d, hfold, hrest⟩ := foldlM_addLine hr lines (ps ++ qs) c
      (fun l h => hlines l (List.mem_cons_of_mem _ h)) hlen hc
    refine ⟨qs ++ rs, d, ?_, ?_⟩
    · rw [List.foldlM_cons, hadd, Option.bind_eq_bind, Option.bind_some, hfold, List.append_assoc]
    · rw [List.flatMap_cons, List.cons_append, htail, hrest, List.append_assoc]

/-- A text is its lines, each after a line break but the first. -/
theorem flatMap_lines (text : Str) :
    (text.splitOn '\n').flatMap ('\n' :: ·) = '\n' :: text := by
  have h : ∀ {ls : List Str}, ls ≠ [] →
      ls.flatMap ('\n' :: ·) = '\n' :: ['\n'].intercalate ls := by
    intro ls hne
    induction ls with
    | nil => exact absurd rfl hne
    | cons l ls ih =>
      cases ls with
      | nil => simp
      | cons m ls =>
        rw [List.flatMap_cons, ih (List.cons_ne_nil _ _), List.intercalate_cons_cons]
        simp
  rw [h (List.splitOn_ne_nil _ _), List.intercalate_splitOn]

/-- The loops end, with the pieces one reads off the text. -/
theorem split_eq (hr : 0 < room) {turns : Nat} (ht : text.length < turns) :
    split room turns text = some (pieces room text) := by
  have hlines : ∀ line ∈ text.splitOn '\n', '\n' ∉ line ∧ line.length < turns := by
    intro line hl
    refine ⟨fun h => ?_, ?_⟩
    · have := Text.not_of_mem_splitOnP (p := (· == '\n')) hl _ h
      simp at this
    · obtain ⟨a, b, hab⟩ := List.append_of_mem hl
      have := congrArg List.length (flatMap_lines text)
      rw [hab] at this
      simp at this
      omega
  obtain ⟨qs, c, hfold, hpieces⟩ := foldlM_addLine hr _ [] [] hlines
    (Nat.zero_le _) (by simp)
  rw [flatMap_lines, List.nil_append, pieces_feed hr] at hpieces
  rw [split, hfold, hpieces]
  rfl

/-! ## The cuts -/

theorem not_halved_nil (front : Str) : ¬Halved front [] := by
  rintro ⟨e, -, i, hi, -, -, hb⟩
  rw [List.prefix_nil, List.drop_eq_nil_iff] at hb
  omega

theorem not_halved_feed (front back : Str) : ¬Halved front ('\n' :: back) := by
  rintro ⟨e, he, i, hi, -, -, hb⟩
  have hnl : ∀ e ∈ entities, '\n' ∉ e := by decide
  obtain ⟨c, rest, hd⟩ := List.exists_cons_of_ne_nil (l := e.drop i)
    (by rw [ne_eq, List.drop_eq_nil_iff]; omega)
  rw [hd, List.cons_prefix_cons] at hb
  have hc : c ∈ e := List.mem_of_mem_drop (i := i) (by rw [hd]; exact List.mem_cons_self)
  exact hnl e he (hb.1 ▸ hc)

variable {rest p : Str} {ps : List Str}

theorem cuts_singleton : Cuts rest [p] s ↔ s = p ++ rest ∧ ¬Halved p rest := by
  refine ⟨fun h => ?_, fun h => h.1 ▸ .last p h.2⟩
  cases h with
  | last _ hcut => exact ⟨rfl, hcut⟩
  | line _ h => cases h
  | hard _ _ _ h => cases h

theorem cuts_cons (hps : ps ≠ []) : Cuts rest (p :: ps) s ↔
    (∃ t, s = p ++ '\n' :: t ∧ Cuts rest ps t) ∨
      ∃ t, s = p ++ t ∧ t.head? ≠ some '\n' ∧ ¬Halved p t ∧ Cuts rest ps t := by
  constructor
  · intro h
    cases h with
    | last => exact absurd rfl hps
    | line _ h => exact .inl ⟨_, rfl, h⟩
    | hard _ hh hcut h => exact .inr ⟨_, rfl, hh, hcut, h⟩
  · rintro (⟨t, rfl, h⟩ | ⟨t, rfl, hh, hcut, h⟩)
    · exact .line p h
    · exact .hard p hh hcut h

theorem take_drop (room : Nat) (h : s.head? ≠ some '\n') :
    piece room s ++ s.drop (span room s) = s := by
  rw [piece_eq h, List.take_append_drop]

/-- What is left of the text where a section begins with no empty line. -/
theorem next_cases (h : s.head? ≠ some '\n') (hn : next room s = some s') :
    s = piece room s ++ '\n' :: s' ∨ s = piece room s ++ s' ∧ s'.head? ≠ some '\n' := by
  have hd := next_some hn
  rw [skip_eq h] at hd
  rcases hd with hd | ⟨hd, -, hh⟩
  · exact .inl (by rw [← hd, take_drop room h])
  · exact .inr ⟨by rw [← hd, take_drop room h], hh⟩

theorem drop_of_piece {back : Str} (hh : s.head? ≠ some '\n') (h : s = piece room s ++ back) :
    s.drop (span room s) = back :=
  List.append_cancel_left ((take_drop room hh).trans h)

theorem head?_of_piece {back : Str} (hne : piece room s ≠ []) (h : s = piece room s ++ back) :
    s.head? ≠ some '\n' := by
  rw [h, List.head?_append_of_ne_nil _ hne]
  exact head?_piece room s

/-- A section that shows all there is. -/
theorem head?_of_whole (h : s = piece room s) : s.head? ≠ some '\n' := by
  have hskip : s.dropWhile (· = '\n') = s := by
    refine (List.dropWhile_suffix _).eq_of_length_le ?_
    conv => lhs; rw [h, piece, List.length_take]
    exact Nat.min_le_right _ _
  exact hskip ▸ head?_skip s

theorem pieces_ne_nil (hr : 0 < room) (k : Nat) (s : Str) : (pieces room s).take (k + 1) ≠ [] := by
  rw [pieces, starts_eq hr, List.map_cons, List.take_succ_cons]
  exact List.cons_ne_nil _ _

theorem take_starts_last (hr : 0 < room) (k : Nat) (h : next room s = none) :
    (starts room s).take (k + 1) = [s] := by
  rw [starts_last hr h, List.take_succ_cons, List.take_nil]

theorem take_pieces_last (hr : 0 < room) (k : Nat) (h : next room s = none) :
    (pieces room s).take (k + 1) = [piece room s] := by
  rw [pieces, ← List.map_take, take_starts_last hr k h, List.map_singleton]

theorem take_starts_next (hr : 0 < room) (k : Nat) (h : next room s = some s') :
    (starts room s).take (k + 1) = s :: (starts room s').take k := by
  rw [starts_next hr h, List.take_succ_cons]

theorem take_pieces_next (hr : 0 < room) (k : Nat) (h : next room s = some s') :
    (pieces room s).take (k + 1) = piece room s :: (pieces room s').take k := by
  rw [pieces, ← List.map_take, take_starts_next hr k h, List.map_cons, List.map_take, pieces]

/-- Sections that are all clean are cut where the text allows it. -/
theorem cuts_of_clean (hr : 0 < room) : ∀ (k : Nat) {s : Str},
    (∀ x ∈ (starts room s).take (k + 1), Clean room x) →
      ∃ rest, Cuts rest ((pieces room s).take (k + 1)) s ∧
        ((starts room s).length ≤ k + 1 → rest = [])
  | k, s, h => by
    obtain ⟨hh, hcut⟩ := h s (by rw [starts_eq hr]; exact List.mem_cons_self)
    have hs := (take_drop room hh).symm
    cases hn : next room s with
    | none =>
      have hd := next_none hn
      rw [skip_eq hh] at hd
      rw [hd] at hcut hs
      rw [take_pieces_last hr k hn]
      exact ⟨[], cuts_singleton.2 ⟨hs, hcut⟩, fun _ => rfl⟩
    | some s' =>
      rw [take_starts_next hr k hn] at h
      rw [take_pieces_next hr k hn, starts_next hr hn, List.length_cons]
      cases k with
      | zero =>
        refine ⟨_, cuts_singleton.2 ⟨hs, hcut⟩, fun hl => ?_⟩
        rw [starts_eq hr s', List.length_cons] at hl
        omega
      | succ k =>
        obtain ⟨rest, hcuts, hrest⟩ := cuts_of_clean hr k (s := s') fun x hx =>
          h x (List.mem_cons_of_mem _ hx)
        refine ⟨rest, (cuts_cons (pieces_ne_nil hr k s')).2 ?_, fun hl => hrest (by omega)⟩
        rcases next_cases hh hn with hs | ⟨hs, hh'⟩
        · exact .inl ⟨s', hs, hcuts⟩
        · rw [drop_of_piece hh hs] at hcut
          exact .inr ⟨s', hs, hh', hcut, hcuts⟩

/-- Sections that are cut where the text allows it are all clean. -/
theorem clean_of_cuts (hr : 0 < room) : ∀ (k : Nat) {s : Str},
    Cuts rest ((pieces room s).take (k + 1)) s →
      (k + 1 < (starts room s).length ∨ rest = []) →
      ∀ x ∈ (starts room s).take (k + 1), Clean room x
  | k, s, h, hrest => by
    cases hn : next room s with
    | none =>
      rw [take_pieces_last hr k hn, cuts_singleton] at h
      rw [take_starts_last hr k hn]
      obtain rfl : rest = [] := by simpa [starts_last hr hn] using hrest
      obtain ⟨hs, hcut⟩ := h
      have hh : s.head? ≠ some '\n' := head?_of_whole (hs.trans (List.append_nil _))
      intro x hx
      obtain rfl := List.mem_singleton.1 hx
      exact ⟨hh, by rwa [drop_of_piece hh hs]⟩
    | some s' =>
      have hne := piece_ne_nil hr hn
      rw [take_pieces_next hr k hn] at h
      rw [take_starts_next hr k hn]
      cases k with
      | zero =>
        obtain ⟨hs, hcut⟩ := cuts_singleton.1 h
        have hh := head?_of_piece hne hs
        intro x hx
        obtain rfl := List.mem_singleton.1 hx
        exact ⟨hh, by rwa [drop_of_piece hh hs]⟩
      | succ k =>
        have hclean : Clean room s ∧ Cuts rest ((pieces room s').take (k + 1)) s' := by
          rcases (cuts_cons (pieces_ne_nil hr k s')).1 h with
            ⟨t, hs, hcuts⟩ | ⟨t, hs, ht, hcut, hcuts⟩
          · have hh := head?_of_piece hne hs
            have hd := drop_of_piece hh hs
            refine ⟨⟨hh, hd ▸ not_halved_feed _ _⟩, ?_⟩
            rcases next_cases hh hn with hs' | ⟨hs', hh'⟩
            · obtain rfl := (List.cons.inj ((drop_of_piece hh hs').symm.trans hd)).2
              exact hcuts
            · rw [(drop_of_piece hh hs').symm.trans hd] at hh'
              simp at hh'
          · have hh := head?_of_piece hne hs
            have hd := drop_of_piece hh hs
            refine ⟨⟨hh, by rwa [hd]⟩, ?_⟩
            rcases next_cases hh hn with hs' | ⟨hs', -⟩
            · rw [← hd, drop_of_piece hh hs'] at ht
              simp at ht
            · exact (drop_of_piece hh hs').symm.trans hd ▸ hcuts
        intro x hx
        rcases List.mem_cons.1 hx with rfl | hx
        · exact hclean.1
        · refine clean_of_cuts hr k hclean.2 (hrest.imp_left fun hl => ?_) x hx
          rw [starts_next hr hn, List.length_cons] at hl
          omega

/-! ## The texts of the sections -/

variable {label fence : Str}

theorem length_dress (i : Nat) (p : Str) : (dress label fence i p).length =
    (if i = 0 ∧ label ≠ [] then label.length + 1 else 0) + p.length + frame fence := by
  unfold dress frame
  by_cases hf : fence = [] <;> by_cases hi : i = 0 ∧ label ≠ [] <;> simp [hf, hi] <;> omega

theorem dress_inj {i : Nat} {p q : Str} (h : dress label fence i p = dress label fence i q) :
    p = q := by
  have h := List.append_cancel_left h
  by_cases hf : fence = []
  · rwa [if_pos hf, if_pos hf] at h
  · rw [if_neg hf, if_neg hf] at h
    simpa using h

theorem mapIdx_inj {α β : Type} {f : Nat → α → β} (hf : ∀ i a b, f i a = f i b → a = b) :
    ∀ {as bs : List α}, as.mapIdx f = bs.mapIdx f → as = bs := by
  intro as
  induction as generalizing f with
  | nil =>
    intro bs h
    cases bs with
    | nil => rfl
    | cons b bs => simp at h
  | cons a as ih =>
    intro bs h
    cases bs with
    | nil => simp at h
    | cons b bs =>
      rw [List.mapIdx_cons, List.mapIdx_cons] at h
      obtain ⟨hhead, htail⟩ := List.cons.inj h
      rw [hf 0 a b hhead, ih (fun i => hf (i + 1)) htail]

theorem dressed_inj {qs : List Str} (h : dressed label fence ps = dressed label fence qs) :
    ps = qs :=
  mapIdx_inj (f := dress label fence) (fun _ _ _ => dress_inj) h

/-- There is room for a section's label and fence. -/
theorem dress_fits {i : Nat} (hr : room = Rendering.room label fence) (hl : p.length ≤ room) :
    (dress label fence i p).length ≤ sectionMax := by
  rw [length_dress]
  unfold Rendering.room sectionMax at hr
  unfold frame sectionMax
  split <;> split <;> simp_all <;> omega

/-- Only the last section there is can be over the limit, and only for its note. -/
theorem dressed_fits (hr : room = Rendering.room label fence) (hl : ∀ p ∈ ps, p.length ≤ room) :
    ∀ block ∈ dressed label fence ps, block.length ≤ sectionMax := by
  intro block hb
  obtain ⟨i, hi, rfl⟩ := List.mem_mapIdx.1 hb
  exact dress_fits hr (hl _ (List.getElem_mem _))

theorem shown_of_le (h : ps.length ≤ sectionsMax) : shown ps = ps := by
  rw [shown, if_neg (by omega)]

theorem shown_of_lt : ∀ (ps : List Str), sectionsMax < ps.length →
    ∃ front d, front.length + 1 = sectionsMax ∧ ps.take sectionsMax = front ++ [d] ∧
      ps[sectionsMax - 1]? = some d ∧ shown ps = front ++ [d ++ note (ps.length - sectionsMax)]
  | [], h | [_], h | [_, _], h | [_, _, _], h | [_, _, _, _], h =>
    absurd h (by simp [sectionsMax])
  | a :: b :: c :: d :: e :: ps, h => by
    refine ⟨[a, b, c], d, rfl, rfl, rfl, ?_⟩
    rw [shown, if_pos h]
    rfl

/-! ## What the sections hold -/

variable {blocks : List Str}

theorem fits_iff (hr : room = Rendering.room label fence) {front : List Str} {d x : Str}
    (hf : 0 < front.length) (hfront : ∀ p ∈ front, p.length ≤ room) :
    (∀ block ∈ dressed label fence (front ++ [d ++ x]), block.length ≤ sectionMax) ↔
      d.length + x.length + frame fence ≤ sectionMax := by
  have hlast : (dress label fence front.length (d ++ x)).length =
      d.length + x.length + frame fence := by
    rw [length_dress, if_neg fun h => by omega, Nat.zero_add, List.length_append]
  have hsplit : dressed label fence (front ++ [d ++ x]) =
      dressed label fence front ++ [dress label fence front.length (d ++ x)] := by
    simp [dressed, List.mapIdx_append]
  rw [hsplit, List.forall_mem_append, List.forall_mem_singleton, hlast]
  exact and_iff_right (dressed_fits hr hfront)

/-- Where the text goes on with what the note would say. -/
theorem cuts_shorten {x : Str} {d : Str} (hx : x.head? = some '\n') :
    ∀ {front : List Str} {s : Str}, Cuts [] (front ++ [d ++ x]) s → Cuts x (front ++ [d]) s
  | [], s, h => by
    obtain ⟨c, rest, rfl⟩ := List.exists_cons_of_ne_nil (l := x) (by rintro rfl; cases hx)
    obtain rfl : c = '\n' := by simpa using hx
    obtain ⟨hs, -⟩ := cuts_singleton.1 h
    exact cuts_singleton.2 ⟨hs.trans (List.append_nil _), not_halved_feed _ _⟩
  | p :: front, s, h => by
    refine (cuts_cons (by simp)).2 (((cuts_cons (by simp)).1 h).imp ?_ ?_)
    · rintro ⟨t, hs, h⟩
      exact ⟨t, hs, cuts_shorten hx h⟩
    · rintro ⟨t, hs, hh, hcut, h⟩
      exact ⟨t, hs, hh, hcut, cuts_shorten hx h⟩

theorem notes_differ {n : Nat} {d e : Str} {front ps : List Str}
    (h : front ++ [d ++ note n] = ps ++ [e ++ note n]) : front = ps ∧ d = e := by
  obtain ⟨hps, hlast⟩ := List.append_inj' h rfl
  exact ⟨hps, List.append_cancel_right (List.cons.inj hlast).1⟩

/-- The sections hold the text just when each that is shown is clean and the note has room. -/
theorem held_iff (hr : 0 < Rendering.room label fence) :
    Held label text fence
      (dressed label fence (shown (pieces (Rendering.room label fence).toNat text))) ↔
      Fair label text fence := by
  have hroom := Int.toNat_of_nonneg (Int.le_of_lt hr)
  have hpos : 0 < (Rendering.room label fence).toNat := by omega
  generalize hroomNat : (Rendering.room label fence).toNat = room at hroom hpos ⊢
  have hlen : (pieces room text).length = (starts room text).length := List.length_map _
  have hle : ∀ p ∈ pieces room text, p.length ≤ room := by
    intro p hp
    obtain ⟨x, -, rfl⟩ := List.mem_map.1 hp
    exact length_piece_le room x
  have hne : 0 < (starts room text).length := by
    rw [starts_eq hpos]
    exact Nat.succ_pos _
  by_cases hn : (starts room text).length ≤ sectionsMax
  · rw [shown_of_le (by omega)]
    obtain ⟨k, hk⟩ := Nat.exists_eq_add_one.2 hne
    have htake : (pieces room text).take (k + 1) = pieces room text :=
      List.take_of_length_le (by omega)
    have hall : (starts room text).take (k + 1) = (starts room text).take sectionsMax := by
      rw [List.take_of_length_le (by omega), List.take_of_length_le hn]
    constructor
    · intro h
      refine ⟨?_, fun _ _ h => absurd h (by rw [hroomNat]; omega)⟩
      rw [hroomNat, ← hall]
      obtain ⟨ps, hps, hcuts⟩ | ⟨ps, d, n, rest, hps, -, hn0, hcount⟩ := h.whole
      · rw [← dressed_inj hps, ← htake] at hcuts
        exact clean_of_cuts hpos k hcuts (.inr rfl)
      · have := congrArg List.length (dressed_inj hps)
        rw [List.length_append, List.length_singleton, hlen] at this
        rw [hroomNat] at hcount
        omega
    · intro h
      have hclean := h.clean
      rw [hroomNat, ← hall] at hclean
      obtain ⟨rest, hcuts, hrest⟩ := cuts_of_clean hpos k hclean
      obtain rfl := hrest (by omega)
      rw [htake] at hcuts
      exact ⟨dressed_fits hroom hle, .inl ⟨_, rfl, hcuts⟩⟩
  · obtain ⟨front, d, hfront, htake, hd, hshown⟩ := shown_of_lt (pieces room text) (by omega)
    have hthree : sectionsMax - 1 + 1 = sectionsMax := rfl
    have hsome : 0 < front.length := by
      unfold sectionsMax at hfront
      omega
    have hstart : ∃ x, (starts room text)[sectionsMax - 1]? = some x ∧ piece room x = d := by
      rw [pieces, List.getElem?_map] at hd
      exact Option.map_eq_some_iff.1 hd
    obtain ⟨x, hx, hpiece⟩ := hstart
    have hfrontle : ∀ p ∈ front, p.length ≤ room := by
      intro p hp
      refine hle p (List.mem_of_mem_take (i := sectionsMax) ?_)
      rw [htake]
      exact List.mem_append_left _ hp
    have hfits := fits_iff (d := d) (x := note ((starts room text).length - sectionsMax)) hroom
      hsome hfrontle
    rw [hshown, hlen]
    constructor
    · intro h
      refine ⟨?_, fun y hy _ => ?_⟩
      · rw [hroomNat, ← hthree]
        have hcuts : ∃ rest, Cuts rest ((pieces room text).take (sectionsMax - 1 + 1)) text := by
          rw [hthree, htake]
          obtain ⟨ps, hps, hcuts⟩ | ⟨ps, e, n, rest, hps, hcuts, -, hcount⟩ := h.whole
          · rw [← dressed_inj hps] at hcuts
            exact ⟨_, cuts_shorten rfl hcuts⟩
          · have heq := dressed_inj hps
            have hps' := congrArg List.length heq
            simp only [List.length_append, List.length_singleton] at hps'
            rw [hroomNat] at hcount
            obtain rfl : n = (starts room text).length - sectionsMax := by omega
            obtain ⟨rfl, rfl⟩ := notes_differ heq
            exact ⟨rest, hcuts⟩
        obtain ⟨rest, hcuts⟩ := hcuts
        exact clean_of_cuts hpos _ hcuts (.inl (by omega))
      · rw [hroomNat] at hy ⊢
        obtain rfl := Option.some.inj (hx.symm.trans hy)
        rw [hpiece]
        exact hfits.1 h.fits
    · intro h
      have hclean := h.clean
      have hnoted := h.noted x (by rwa [hroomNat]) (by rw [hroomNat]; omega)
      rw [hroomNat, hpiece] at hnoted
      rw [hroomNat, ← hthree] at hclean
      obtain ⟨rest, hcuts, -⟩ := cuts_of_clean hpos _ hclean
      rw [hthree, htake] at hcuts
      refine ⟨hfits.2 hnoted, .inr ⟨front, d, _, rest, rfl, hcuts, by omega, ?_⟩⟩
      rw [hroomNat]
      omega

/-! ## The calls -/

theorem returns (hr : 0 < Rendering.room label fence) : Returns label text fence
    (dressed label fence (shown (pieces (Rendering.room label fence).toNat text))) := by
  have hroom := Int.toNat_of_nonneg (Int.le_of_lt hr)
  refine ⟨text.length + 1, fun turns ht => ?_⟩
  rw [sections, ← hroom, split_eq (by omega) (by omega), Int.toNat_natCast]
  rfl

theorem returns_unique {blocks' : List Str} (h : Returns label text fence blocks)
    (h' : Returns label text fence blocks') : blocks = blocks' := by
  obtain ⟨n, h⟩ := h
  obtain ⟨m, h'⟩ := h'
  exact Option.some.inj ((h (max n m) (Nat.le_max_left _ _)).symm.trans
    (h' (max n m) (Nat.le_max_right _ _)))

theorem length_mrkdwnText_le (text : Str) : (mrkdwnText text).length ≤ 5 * text.length := by
  unfold mrkdwnText
  induction text with
  | nil => exact Nat.le_refl _
  | cons c text ih =>
    have hc : (Containment.entity c).length ≤ 5 := by
      unfold Containment.entity
      split
      · decide
      · split
        · decide
        · split
          · decide
          · simp
    rw [List.flatMap_cons, List.length_append, List.length_cons]
    omega

theorem length_oneLine_le {limit : Nat} (h : 0 < limit) (text : Str) :
    (oneLine text limit).length ≤ limit := by
  unfold oneLine
  dsimp only
  split
  · have hstrip (s : Str) : (rstrip s).length ≤ s.length := by
      rw [rstrip, List.length_reverse]
      exact (List.length_dropWhile_le _ _).trans_eq List.length_reverse
    have := hstrip (List.take (limit - 1)
      (defuse ([' '].intercalate (Containment.words (inertKeepLines text)))))
    rw [List.length_take] at this
    rw [List.length_append, List.length_singleton]
    omega
  · omega

theorem length_starred_le (label : Str) : (starred label).length ≤ 5 * label.length + 2 := by
  have := length_mrkdwnText_le label
  simp [starred]
  omega

/-- A label leaves room for the text. -/
theorem room_pos {card : ApprovalCard} {call : Call} (h : call ∈ confirmationCalls card) :
    0 < Rendering.room call.label call.fence := by
  have hone (text : Str) : (oneLine text fieldLimit).length ≤ fieldLimit :=
    length_oneLine_le (by decide) text
  have hlabel : call.label.length ≤ 1100 ∧ call.fence.length ≤ 3 := by
    unfold confirmationCalls at h
    rcases List.mem_append.1 h with h | h
    · obtain ⟨⟨label, text⟩, hp, rfl⟩ := List.mem_map.1 h
      have hlen : label.length ≤ fieldLimit + 9 := by
        obtain ⟨row, -, hp⟩ := List.mem_flatMap.1 hp
        have hrow := hone row.label
        dsimp only at hp
        split at hp
        · rcases List.mem_append.1 hp with hp | hp
          · split at hp
            · cases hp
            · cases List.mem_singleton.1 hp
              have : (str " (before)").length = 9 := rfl
              rw [List.length_append]
              omega
          · split at hp
            · cases hp
            · cases List.mem_singleton.1 hp
              omega
        · cases hp
      have := length_starred_le label
      unfold fieldLimit at hlen
      exact ⟨by dsimp only; omega, Nat.zero_le _⟩
    · dsimp only at h
      have hlen := length_starred_le (oneLine card.blockLabel fieldLimit)
      have hblock := hone card.blockLabel
      unfold fieldLimit at hlen hblock
      generalize (if card.block = [] then [] else passage card.block blockLimit) = block at h
      by_cases hb : block = []
      · rw [if_pos hb] at h
        cases h
      · rw [if_neg hb] at h
        cases List.mem_singleton.1 h
        refine ⟨?_, Nat.le_refl _⟩
        dsimp only
        split
        · exact Nat.zero_le _
        · unfold fieldLimit
          omega
  unfold Rendering.room sectionMax
  omega

/-- `_sections` ends on what `build_confirmation_blocks` passes it, and its sections hold the text
just when the ones shown are clean and there is room for the note. -/
theorem sections_hold {card : ApprovalCard} {call : Call} (h : call ∈ confirmationCalls card) :
    ∃ blocks, Returns call.label call.text call.fence blocks ∧
      (Held call.label call.text call.fence blocks ↔ Fair call.label call.text call.fence) :=
  ⟨_, returns (room_pos h), held_iff (room_pos h)⟩

namespace Sample

/-- A comment of two lines. -/
def comment : ApprovalCard := ⟨[⟨str "Comment", str "Fine.\nR & D", [], true⟩], [], []⟩

/-- A block of one line, an ampersand at the end of a section. -/
def ampersand : ApprovalCard := ⟨[], [], List.replicate 2988 'x' ++ ['&']⟩

end Sample

theorem sections_hold_sample : ∃ blocks,
    Returns (str "*Comment*") (str "> Fine.\n> R &amp; D") [] blocks ∧
      (Held (str "*Comment*") (str "> Fine.\n> R &amp; D") [] blocks ↔
        Fair (str "*Comment*") (str "> Fine.\n> R &amp; D") []) := by
  have h : ⟨str "*Comment*", str "> Fine.\n> R &amp; D", []⟩ ∈
      confirmationCalls Sample.comment := by decide +kernel
  have hsections := sections_hold h
  exact hsections

/-- The ampersand's entity is begun in one section and ended in the next. -/
theorem entity_halved : ¬∀ card, ∀ call ∈ confirmationCalls card, ∃ blocks,
    Returns call.label call.text call.fence blocks ∧
      Held call.label call.text call.fence blocks := by
  intro h
  have hcalls : confirmationCalls Sample.ampersand =
      [⟨[], List.replicate 2988 'x' ++ str "&amp;", str "```"⟩] := by decide +kernel
  obtain ⟨blocks, hret, hheld⟩ := h Sample.ampersand
    ⟨[], List.replicate 2988 'x' ++ str "&amp;", str "```"⟩
    (by rw [hcalls]; exact List.mem_singleton_self _)
  have hr : 0 < Rendering.room [] (str "```") := by decide
  have hroom : (Rendering.room [] (str "```")).toNat = 2990 := rfl
  dsimp only at hret hheld
  generalize htext : List.replicate 2988 'x' ++ str "&amp;" = text at hret hheld
  rw [returns_unique hret (returns hr), held_iff hr] at hheld
  have hclean := hheld.clean
  rw [hroom] at hclean
  obtain ⟨hh, hcut⟩ := hclean _ (mem_starts (by decide) text)
  rw [← htext] at hh hcut
  have hnl : '\n' ∉ List.replicate 2988 'x' ++ str "&amp;" := by decide +kernel
  have hspan : span 2990 (List.replicate 2988 'x' ++ str "&amp;") = 2990 := by
    refine span_long fun m hm _ => ?_
    rw [ends_eq]
    exact ends_inside hnl (Nat.lt_of_le_of_lt hm (by decide +kernel))
  rw [piece_eq hh, hspan] at hcut
  exact hcut (by unfold Halved; decide +kernel)

end Rendering
