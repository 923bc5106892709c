import ImpiAgent.Gateways.Formatter
import Mathlib

/-!
# Code under the rules

In a masked line marks stand where its code spans did (`masked_woven`). The rules cannot tell them
from other text (`Apart`), so they leave them in their order, but for images and links
(`restyled_woven`), and each mark is then replaced by its code (`restore_woven`): what becomes of a
line is `convertLine_spec`.
-/

namespace Formatter

open Text (Str str isSpace lstrip rstrip)
open Markdown (tick)
open Rewrite

variable {s t line : Str} {is js : List Nat} {c m : Char} {decimal : Char → Option Nat}
  {tokens : List Str}

/-! ## Marks -/

/-- In no mark. -/
def literal (c : Char) : Bool := c ≠ soh && c ≠ nul && !c.isDigit

theorem isDigit_of_mem_digits {i : Nat} (h : c ∈ Nat.toDigits 10 i) : c.isDigit = true :=
  Nat.isDigit_of_mem_toDigits (by decide) (by decide) h

theorem not_mem_mark (hm : m = soh ∨ m = nul) (hc : literal c = true) (i : Nat) : c ∉ mark m i := by
  simp only [literal, Bool.and_eq_true, decide_eq_true_eq, Bool.not_eq_true'] at hc
  obtain ⟨⟨hsoh, hnul⟩, hdigit⟩ := hc
  have hne : c ≠ m := by rcases hm with rfl | rfl <;> assumption
  intro h
  rcases List.mem_cons.1 h with h | h
  · exact hne h
  · rcases List.mem_append.1 h with h | h
    · rw [isDigit_of_mem_digits h] at hdigit
      cases hdigit
    · exact hne (List.mem_singleton.1 h)

theorem mem_mark (m : Char) (i : Nat) : m ∈ mark m i := List.mem_cons_self

theorem mark_ne_nil (m : Char) (i : Nat) : mark m i ≠ [] := List.cons_ne_nil _ _

theorem literal_of_isSpace (h : isSpace c = true) : literal c = true := by
  have hsoh : c ≠ soh := by
    rintro rfl
    exact absurd h (by decide)
  have hnul : c ≠ nul := by
    rintro rfl
    exact absurd h (by decide)
  have hdigit : c.isDigit = false := by
    cases hd : c.isDigit with
    | false => rfl
    | true =>
      have hn := Char.isDigit_iff_toNat.1 hd
      simp only [isSpace, Bool.or_eq_true, Bool.and_eq_true, decide_eq_true_eq] at h
      have h0 : '0'.toNat = 48 := rfl
      have h9 : '9'.toNat = 57 := rfl
      omega
  simp [literal, hsoh, hnul, hdigit]

/-- The digits of a mark are read back. -/
theorem number_digits (i : Nat) : number decimal (Nat.toDigits 10 i) = some i := by
  have hvals : (Nat.toDigits 10 i).mapM (digitValue decimal) =
      some ((Nat.toDigits 10 i).map fun c => c.toNat - 48) := by
    have hall : ∀ c ∈ Nat.toDigits 10 i, digitValue decimal c = some (c.toNat - 48) := by
      intro c hc
      rw [digitValue, if_pos (isDigit_of_mem_digits hc)]
    generalize Nat.toDigits 10 i = l at hall
    induction l with
    | nil => rfl
    | cons c l ih =>
      rw [List.mapM_cons, hall c List.mem_cons_self, ih fun d hd => hall d (.tail _ hd)]
      rfl
  rw [number, hvals, Option.map_some, List.foldl_map]
  exact congrArg some (Nat.ofDigitChars_ten_toDigits (n := i))

theorem restoreFrom_skip (n : Nat) :
    restoreFrom decimal m tokens n s = restoreFrom decimal m tokens 0 (s.drop n) := by
  induction s generalizing n with
  | nil => cases n <;> rfl
  | cons c s ih =>
    cases n with
    | zero => rfl
    | succ n =>
      rw [restoreFrom, List.drop_succ_cons]
      exact ih n

/-- What a mark stands for is put in its place. -/
theorem restore_mark (hm : m = soh ∨ m = nul) (i : Nat) :
    restore decimal m tokens (mark m i ++ s) =
      (tokens[i]?).bind fun span => (restore decimal m tokens s).map (span ++ ·) := by
  have hnone : digitValue decimal m = none := by rcases hm with rfl | rfl <;> rfl
  have hds : (Nat.toDigits 10 i ++ (m :: s)).takeWhile (fun c => (digitValue decimal c).isSome) =
      Nat.toDigits 10 i := by
    rw [List.takeWhile_append_of_pos fun c hc => by
      rw [digitValue, if_pos (isDigit_of_mem_digits hc)]; rfl]
    simp [hnone]
  have hdrop : (Nat.toDigits 10 i ++ (m :: s)).drop ((Nat.toDigits 10 i).length + 1) = s := by
    rw [← List.drop_drop, List.drop_left]
    rfl
  rw [restore, mark, List.cons_append, List.append_assoc, List.singleton_append, restoreFrom]
  simp only [hds, List.drop_left, List.head?_cons, Nat.toDigits_ne_nil, ne_eq, not_false_eq_true,
    and_self, if_true, number_digits]
  rw [restoreFrom_skip, hdrop]
  cases hi : tokens[i]? <;> cases h : restoreFrom decimal m tokens 0 s <;> simp [restore, hi, h]

theorem restore_char (hc : c ≠ m) :
    restore decimal m tokens (c :: s) = (restore decimal m tokens s).map (c :: ·) := by
  simp [restore, restoreFrom, hc]

variable (decimal) in
/-- Marks are each replaced by what they stand for, and nothing else is. -/
theorem restore_woven (hm : m = soh ∨ m = nul) (htokens : ∀ token ∈ tokens, token ≠ [])
    {P : Char → Prop} (hP : ∀ c, P c → c ≠ m) (h : Woven P (mark m) is s)
    (hi : ∀ i ∈ is, i < tokens.length) (x : Char) (hx : literal x = true) :
    ∃ out, restore decimal m tokens s = some out ∧
      Woven P (fun i => tokens[i]?.getD []) is out ∧
      out.count x = s.count x + (is.map fun i => (tokens[i]?.getD []).count x).sum := by
  induction h with
  | nil => exact ⟨[], rfl, .nil, rfl⟩
  | @char c is s hc _ ih =>
    obtain ⟨out, hout, hw, hcount⟩ := ih hi
    refine ⟨c :: out, by rw [restore_char (hP c hc), hout]; rfl, .char hc hw, ?_⟩
    simp only [List.count_cons, hcount]
    omega
  | @word i s is hne _ ih =>
    obtain ⟨out, hout, hw, hcount⟩ := ih fun j hj => hi j (.tail _ hj)
    have hlt := hi i List.mem_cons_self
    have hget : tokens[i]? = some tokens[i] := List.getElem?_eq_getElem hlt
    refine ⟨tokens[i]?.getD [] ++ out, by rw [restore_mark hm, hout, hget]; rfl, .word ?_ hw, ?_⟩
    · rw [hget]
      exact htokens _ (List.getElem_mem hlt)
    · rw [List.count_append, List.count_append, hcount, List.map_cons, List.sum_cons,
        List.count_eq_zero_of_not_mem (not_mem_mark hm hx i)]
      omega

theorem masked_woven {r : Rule Char Str} {P : Char → Prop} (h : ∀ c ∈ s, P c) :
    Woven P (mark m) (List.range' 0 (r.found s).length) (masked r m s) := by
  have main : ∀ (ps : List (Char ⊕ Str)) (i : Nat), (∀ c, .inl c ∈ ps → P c) →
      Woven P (mark m) (List.range' i (ps.filterMap Sum.getRight?).length)
        (render (fun i _ => mark m i) i ps) := by
    intro ps
    induction ps with
    | nil => exact fun _ _ => .nil
    | cons p ps ih =>
      intro i hps
      have ih := fun i => ih i fun c hc => hps c (.tail _ hc)
      cases p with
      | inl c => exact .char (hps c List.mem_cons_self) (ih i)
      | inr b => exact .word (mark_ne_nil m i) (ih (i + 1))
  exact main _ 0 fun c hc => h c (mem_of_left hc)

/-- A masked text holds, with what the marks stand for, what the text did. -/
theorem count_masked (r : Rule Char Str) (hm : m = soh ∨ m = nul) {x : Char}
    (hx : literal x = true) :
    (masked r m s).count x + (((r.found s).map r.text).map (·.count x)).sum = s.count x := by
  have main : ∀ (ps : List (Char ⊕ Str)) (i : Nat),
      (render (fun i _ => mark m i) i ps).count x +
        (((ps.filterMap Sum.getRight?).map r.text).map (·.count x)).sum =
      (render (fun _ => r.text) i ps).count x := by
    intro ps
    induction ps with
    | nil => exact fun _ => rfl
    | cons p ps ih =>
      intro i
      cases p with
      | inl c =>
        have := ih i
        simp only [render, List.count_cons, List.filterMap_cons, Sum.getRight?_inl]
        omega
      | inr b =>
        have := ih (i + 1)
        simp only [render, List.count_append, List.filterMap_cons, Sum.getRight?_inr,
          List.map_cons, List.sum_cons, List.count_eq_zero_of_not_mem (not_mem_mark hm hx i)]
        omega
  have hs := scan_text (r := r) (s := s) none 0 0
  rw [List.drop_zero] at hs
  rw [← congrArg (List.count x) hs]
  exact main _ 0

/-! ## What the rules for lines do -/

theorem rstrip_front (s : Str) : rstrip s <+: s := by
  have := List.dropWhile_suffix (l := s.reverse) isSpace
  simpa [rstrip] using List.reverse_prefix.2 this

theorem item_cases (d n line : Str) : item d n line = line ∨ ∃ blanks rest,
    (∀ c ∈ blanks, isSpace c = true) ∧ line = blanks ++ (d ++ rest) ∧
      item d n line = blanks ++ (n ++ rest) := by
  simp only [item]
  split
  · rename_i hfront
    obtain ⟨rest, hrest⟩ := List.isPrefixOf_iff_prefix.1 hfront.1
    refine .inr ⟨line.takeWhile isSpace, rest, fun c hc => List.mem_takeWhile_imp hc, ?_, ?_⟩
    · rw [hrest]
      exact List.takeWhile_append_dropWhile.symm
    · rw [← hrest, List.drop_left]
  · exact .inl rfl

theorem heading_cases (line : Str) : heading line = line ∨ ∃ hashes rest,
    hashes ≠ [] ∧ (∀ c ∈ hashes, c = '#') ∧ line = hashes ++ ([' '] ++ rest) ∧
      heading line = ['*'] ++ (rest ++ ['*']) := by
  simp only [heading]
  split
  · rename_i c rest hrest
    split
    · rename_i hlevel
      refine .inr ⟨line.takeWhile (· = '#'), c :: rest, fun hnil => by simp [hnil] at hlevel,
        fun d hd => by simpa using List.mem_takeWhile_imp hd, ?_, rfl⟩
      rw [List.singleton_append, ← hrest]
      exact (List.prefix_iff_eq_append.1 (List.takeWhile_prefix _)).symm
    · exact .inl rfl
  · exact .inl rfl

/-- An orphan goes. -/
theorem stripOrphanAsterisks_cases (line : Str) :
    stripOrphanAsterisks line = (stars 2 (by decide) ['*']).sub line ∨
      ∃ a b, (stars 2 (by decide) ['*']).sub line = a ++ (['*'] ++ b) ∧
        stripOrphanAsterisks line = a ++ b := by
  simp only [stripOrphanAsterisks]
  generalize (stars 2 _ ['*']).sub line = line
  split
  · split
    · rename_i hlast
      refine .inr ⟨(rstrip line).dropLast, line.drop (rstrip line).length, ?_, rfl⟩
      rw [← List.append_assoc, List.dropLast_append_getLast? _ hlast]
      exact (List.prefix_iff_eq_append.1 (rstrip_front line)).symm
    · split
      · rename_i hhead
        obtain ⟨t, ht⟩ := List.head?_eq_some_iff.1 hhead
        refine .inr ⟨line.takeWhile isSpace, t, ?_, by rw [ht]; rfl⟩
        rw [List.singleton_append, ← ht]
        exact List.takeWhile_append_dropWhile.symm
      · exact .inl rfl
  · exact .inl rfl

/-! ## Words under the rules -/

/-- What the rules look for, but other blanks, and what they put in its place. -/
def markup (c : Char) : Bool := (str "*_~[]()!-# xX<>|•☐☑─").contains c

/-- Words that the rules cannot tell from other text; `x` is in each. -/
structure Apart {ι : Type} (P : Char → Prop) (w : ι → Str) (x : Char) : Prop where
  solid : ∀ c, markup c = true → ∀ i, c ∉ w i
  allowed : ∀ c, markup c = true → P c
  sign : ∀ i, x ∈ w i
  no_markup : markup x = false
  no_blank : isSpace x = false

namespace Apart

variable {ι : Type} {P : Char → Prop} {w : ι → Str} {is : List ι} {x : Char}

theorem solid_text (hw : Apart P w x) (h : s.all markup = true) : ∀ c ∈ s, ∀ i, c ∉ w i :=
  fun c hc => hw.solid c (List.all_eq_true.1 h c hc)

theorem allowed_text (hw : Apart P w x) (h : s.all markup = true) : ∀ c ∈ s, P c :=
  fun c hc => hw.allowed c (List.all_eq_true.1 h c hc)

/-- What no word has anything of may be replaced. -/
theorem replace (hw : Apart P w x) {d n : Str} (hd : d.all markup = true) (hne : d ≠ [])
    (hn : n.all markup = true) (h : Woven P w is (s ++ (d ++ t))) :
    Woven P w is (s ++ (n ++ t)) :=
  h.replace (hw.solid_text hd) hne (hw.allowed_text hn)

theorem wrap (hw : Apart P w x) {d n : Str} {hne : d ≠ []} {inner : Char → Bool}
    {before : Option Char → Bool} {after : Str → Bool} (hd : d.all markup = true)
    (hn : n.all markup = true) (h : Woven P w is line) :
    Woven P w is ((Formatter.wrap d n hne inner before after).sub line) := by
  refine Rule.sub_induction (fun g _ s t h => ?_) h
  have h : Woven P w is (s ++ (d ++ (g ++ (d ++ t)))) := by simpa [Formatter.wrap] using h
  have h : Woven P w is ((s ++ (n ++ g)) ++ (d ++ t)) := by
    simpa using hw.replace hd hne hn h
  simpa [Formatter.wrap] using hw.replace hd hne hn h

theorem stars (hw : Apart P w x) {k : Nat} {z : k ≠ 0} {n : Str} (hn : n.all markup = true)
    (h : Woven P w is line) : Woven P w is ((Formatter.stars k z n).sub line) := by
  refine Rule.sub_induction (fun b _ s t h => ?_) h
  refine hw.replace (List.all_eq_true.2 fun c hc => ?_) ((Formatter.stars k z n).ne_nil b) hn h
  rw [List.eq_of_mem_replicate hc]
  decide

theorem enclosed (hw : Apart P w x) {a b : Str} (ha : a.all markup = true)
    (hb : b.all markup = true) (h : Woven P w is s) : Woven P w is (a ++ (s ++ b)) := by
  have := (h.append (Woven.of_text (hw.allowed_text hb))).before (hw.allowed_text ha)
  rwa [List.append_nil] at this

theorem item (hw : Apart P w x) {d n : Str} (hd : d.all markup = true) (hne : d ≠ [])
    (hn : n.all markup = true) (h : Woven P w is line) :
    Woven P w is (Formatter.item d n line) := by
  rcases item_cases d n line with heq | ⟨blanks, rest, -, hline, heq⟩
  · rw [heq]
    exact h
  · rw [heq]
    exact hw.replace hd hne hn (hline ▸ h)

theorem items (hw : Apart P w x) (h : Woven P w is line) : Woven P w is (Formatter.items line) :=
  hw.item (by decide) (by decide) (by decide) <| hw.item (by decide) (by decide) (by decide) <|
    hw.item (by decide) (by decide) (by decide) <|
      hw.item (by decide) (by decide) (by decide) h

theorem heading (hw : Apart P w x) (h : Woven P w is line) :
    Woven P w is (Formatter.heading line) := by
  rcases heading_cases line with heq | ⟨hashes, rest, hne, hall, hline, heq⟩
  · rw [heq]
    exact h
  · rw [heq]
    rw [hline] at h
    have hmarkup : hashes.all markup = true := List.all_eq_true.2 fun c hc => hall c hc ▸ rfl
    -- the blank goes with the marks
    have h := hw.replace (s := []) (n := []) hmarkup hne rfl h
    have h := hw.replace (s := []) (d := [' ']) (n := []) (by decide) (by decide) rfl h
    exact hw.enclosed (by decide) (by decide) h

theorem emphases (hw : Apart P w x) (h : Woven P w is line) :
    Woven P w is (Formatter.emphases line) :=
  hw.wrap (by decide) (by decide) <| hw.wrap (by decide) (by decide) <| hw.heading <|
    hw.wrap (by decide) (by decide) h

/-- The words in a label and those in its URL. -/
theorem linkText (hw : Apart P w x) {d : Str} {l : Link} (hd : d.all markup = true) (hne : d ≠ [])
    (h : Woven P w is (s ++ (Formatter.linkText d l ++ t))) :
    ∃ us ls rs ts, is = us ++ ((ls ++ rs) ++ ts) ∧ Woven P w us s ∧ Woven P w ls l.1 ∧
      Woven P w rs l.2 ∧ Woven P w ts t := by
  simp only [Formatter.linkText, List.append_assoc] at h
  obtain ⟨us, vs, rfl, hs, h⟩ := h.cut_text (hw.solid_text hd) hne
  obtain ⟨ls, vs, rfl, hl, h⟩ := h.cut_text (d := str "](") (hw.solid_text (by decide)) (by decide)
  obtain ⟨rs, ts, rfl, hr, ht⟩ := h.cut_text (d := [')']) (hw.solid_text (by decide)) (by decide)
  exact ⟨us, ls, rs, ts, by simp, hs, hl, hr, ht⟩

/-- An image's label goes, with the words in it. -/
theorem image (hw : Apart P w x) (h : Woven P w is line) :
    ∃ js, js.Sublist is ∧ ((∀ l ∈ Formatter.image.found line, x ∉ l.1) → js = is) ∧
      Woven P w js (Formatter.image.sub line) := by
  let T (s : Str) : Prop := ∃ js, js.Sublist is ∧
    ((∀ l ∈ Formatter.image.found line, x ∉ l.1) → js = is) ∧ Woven P w js s
  refine Rule.sub_induction (T := T) (fun l hl s t h => ?_) ⟨is, .refl is, fun _ => rfl, h⟩
  obtain ⟨js, hsub, hjs, h⟩ := h
  obtain ⟨us, ls, rs, ts, rfl, hs, hlabel, hurl, ht⟩ :=
    hw.linkText (d := str "![") (by decide) (by decide) h
  refine ⟨us ++ (rs ++ ts), .trans ?_ hsub, fun hall => ?_,
    hs.append ((hw.enclosed (by decide) (by decide) hurl).append ht)⟩
  · exact .append (.refl us) (.append (List.sublist_append_right ls rs) (.refl ts))
  · rw [← hjs hall, hlabel.eq_nil_of_not_mem hw.sign (hall l hl), List.nil_append]

/-- A link's label goes behind its URL. -/
theorem link (hw : Apart P w x) (h : Woven P w is line) :
    ∃ js, js.Perm is ∧ ((∀ l ∈ Formatter.link.found line, x ∉ l.1 ∨ x ∉ l.2) → js = is) ∧
      Woven P w js (Formatter.link.sub line) := by
  let T (s : Str) : Prop := ∃ js, js.Perm is ∧
    ((∀ l ∈ Formatter.link.found line, x ∉ l.1 ∨ x ∉ l.2) → js = is) ∧ Woven P w js s
  refine Rule.sub_induction (T := T) (fun l hl s t h => ?_) ⟨is, .refl is, fun _ => rfl, h⟩
  obtain ⟨js, hperm, hjs, h⟩ := h
  obtain ⟨us, ls, rs, ts, rfl, hs, hlabel, hurl, ht⟩ :=
    hw.linkText (d := ['[']) (by decide) (by decide) h
  have hbehind := (hw.enclosed (a := ['<']) (b := ['|']) (by decide) (by decide) hurl).append
    (hw.enclosed (a := []) (b := ['>']) (by decide) (by decide) hlabel)
  refine ⟨us ++ ((rs ++ ls) ++ ts), .trans ?_ hperm, fun hall => ?_,
    hs.append (.append (by simpa [Formatter.link] using hbehind) ht)⟩
  · exact .append_left us (.append_right ts List.perm_append_comm)
  · rw [← hjs hall]
    rcases hall l hl with hno | hno
    · rw [hlabel.eq_nil_of_not_mem hw.sign hno, List.append_nil, List.nil_append]
    · rw [hurl.eq_nil_of_not_mem hw.sign hno, List.append_nil, List.nil_append]

theorem stripOrphanAsterisks (hw : Apart P w x) (h : Woven P w is line) :
    Woven P w is (Formatter.stripOrphanAsterisks line) := by
  have h := hw.stars (k := 2) (z := by decide) (n := ['*']) (by decide) h
  rcases stripOrphanAsterisks_cases line with heq | ⟨a, b, hline, heq⟩
  · rw [heq]
    exact h
  · rw [heq]
    rw [hline] at h
    exact hw.replace (n := []) (by decide) (by decide) rfl h

theorem not_mem_rule (hw : Apart P w x) (h : isRule line = true) : x ∉ line := by
  simp only [isRule, List.any_eq_true, Bool.and_eq_true, List.all_eq_true] at h
  obtain ⟨d, hd, hfront, hrest⟩ := h
  obtain ⟨t, rfl⟩ := List.isPrefixOf_iff_prefix.1 hfront
  have hlen : d.length = 3 ∧ ∀ c ∈ d, markup c = true := by
    simp only [List.mem_cons, List.not_mem_nil, or_false] at hd
    rcases hd with rfl | rfl | rfl <;> simp [str, markup]
  rw [← hlen.1, List.drop_left] at hrest
  intro hx
  rcases List.mem_append.1 hx with hx | hx
  · have := hlen.2 x hx
    rw [hw.no_markup] at this
    cases this
  · have := hrest x hx
    rw [hw.no_blank] at this
    cases this

end Apart

/-! ## Code spans -/

/-- The line as the rule for images sees it. -/
def imagesSeen (line : Str) : Str :=
  items ((stars 3 three_ne_zero (str "**")).sub (maskCode line))

/-- The line as the rule for links sees it. -/
def linksSeen (line : Str) : Str := emphases (image.sub (imagesSeen line))

theorem restyled_woven {ι : Type} {P : Char → Prop} {w : ι → Str} {x : Char} {is : List ι}
    (hw : Apart P w x) (h : Woven P w is (maskCode line)) :
    ∃ ks js, ks.Sublist is ∧ ((∀ l ∈ image.found (imagesSeen line), x ∉ l.1) → ks = is) ∧
      js.Perm ks ∧ ((∀ l ∈ link.found (linksSeen line), x ∉ l.1 ∨ x ∉ l.2) → js = ks) ∧
      Woven P w js (restyled (maskCode line)) := by
  rw [restyled]
  split
  · rename_i hrule
    rw [h.eq_nil_of_not_mem hw.sign (hw.not_mem_rule hrule)]
    exact ⟨[], [], .refl _, fun _ => rfl, .refl _, fun _ => rfl,
      .of_text (hw.allowed_text (by decide))⟩
  · obtain ⟨ks, hsub, hks, h⟩ := hw.image (hw.items (hw.stars (k := 3) (z := by decide)
      (n := str "**") (by decide) h))
    obtain ⟨js, hperm, hjs, h⟩ := hw.link (hw.emphases h)
    exact ⟨ks, js, hsub, hks, hperm, hjs,
      hw.stripOrphanAsterisks (hw.wrap (by decide) (by decide) h)⟩

theorem apart_marks : Apart (· ≠ soh) (mark soh) soh where
  solid c hc := not_mem_mark (.inl rfl) <| by
    have hall : (str "*_~[]()!-# xX<>|•☐☑─").all literal = true := by decide
    exact List.all_eq_true.1 hall c (List.contains_iff_mem.1 hc)
  allowed c hc := by
    rintro rfl
    exact absurd hc (by decide)
  sign := mem_mark soh
  no_markup := by decide
  no_blank := by decide

theorem apart_ticks : Apart (· ≠ tick) (fun _ : Unit => [tick]) tick where
  solid c hc _ := by
    rw [List.mem_singleton]
    rintro rfl
    exact absurd hc (by decide)
  allowed c hc := by
    rintro rfl
    exact absurd hc (by decide)
  sign _ := List.mem_singleton_self _
  no_markup := by decide
  no_blank := by decide

/-- A character as a word that stands in a text as often as it is in it. -/
theorem woven_count (c : Char) (s : Str) :
    Woven (· ≠ c) (fun _ : Unit => [c]) (List.replicate (s.count c) ()) s := by
  induction s with
  | nil => exact .nil
  | cons d s ih =>
    by_cases hd : d = c
    · rw [hd, List.count_cons_self, List.replicate_succ]
      exact .word (w := fun _ : Unit => [c]) (List.cons_ne_nil _ _) ih
    · rw [List.count_cons_of_ne hd]
      exact .char hd ih

theorem count_of_woven {is : List Unit} (h : Woven (· ≠ c) (fun _ => [c]) is s) :
    s.count c = is.length := by
  induction h with
  | nil => rfl
  | char hd _ ih => rw [List.count_cons_of_ne hd, ih]
  | word _ _ ih => rw [List.singleton_append, List.count_cons_self, ih, List.length_cons]

/-- The rules add no backtick. -/
theorem count_restyled (line : Str) :
    (restyled (maskCode line)).count tick ≤ (maskCode line).count tick := by
  obtain ⟨ks, js, hsub, -, hperm, -, h⟩ := restyled_woven apart_ticks (woven_count tick _)
  have := hsub.length_le
  rw [List.length_replicate] at this
  rw [count_of_woven h, hperm.length_eq]
  exact this

/-- What a line's code comes to in what the line becomes: it is left as it is and in its order, but
that an image's label goes, with its code, and a link's label goes behind its URL. No code is put
where there was none. -/
structure CodeKept (line out : Str) : Prop where
  woven : ∃ kept moved, kept.Sublist (spans line) ∧
    ((∀ l ∈ image.found (imagesSeen line), soh ∉ l.1) → kept = spans line) ∧ moved.Perm kept ∧
    ((∀ l ∈ link.found (linksSeen line), soh ∉ l.1 ∨ soh ∉ l.2) → moved = kept) ∧
    Woven (fun _ => True) id moved out
  no_more : out.count tick ≤ line.count tick

variable (decimal) in
theorem convertLine_spec (h : soh ∉ line) :
    ∃ out, convertLine decimal line = some out ∧ CodeKept line out := by
  have hmasked : Woven (· ≠ soh) (mark soh) (List.range' 0 (spans line).length)
      (maskCode line) := by
    rw [spans, List.length_map]
    exact masked_woven fun c hc hsoh => h (hsoh ▸ hc)
  obtain ⟨ks, js, hsub, hks, hperm, hjs, hw⟩ := restyled_woven apart_marks hmasked
  have hlt : ∀ i ∈ js, i < (spans line).length := fun i hi => by
    have := List.mem_range'.1 (hsub.subset (hperm.subset hi))
    omega
  have hne : ∀ span ∈ spans line, span ≠ [] := fun span hspan => by
    obtain ⟨g, -, rfl⟩ := List.mem_map.1 hspan
    exact inlineCode.ne_nil g
  obtain ⟨out, hout, hwoven, hcount⟩ :=
    restore_woven decimal (.inl rfl) hne (fun _ => id) hw hlt tick (by decide)
  have hall : (List.range' 0 (spans line).length).map (fun i => (spans line)[i]?.getD []) =
      spans line := by
    refine List.ext_getElem (by simp) fun i h _ => ?_
    simp only [List.length_map, List.length_range'] at h
    simp [h]
  have hkept := hsub.map fun i => (spans line)[i]?.getD []
  rw [hall] at hkept
  refine ⟨out, hout, ⟨_, _, hkept, fun hl => ?_, hperm.map _, fun hl => ?_,
    (hwoven.mono fun _ _ => trivial).map⟩, ?_⟩
  · rw [hks hl, hall]
  · rw [hjs hl]
  · have hsum := (hsub.map fun i => ((spans line)[i]?.getD []).count tick).sum_le_sum
      fun _ _ => Nat.zero_le _
    have hcounts : (List.range' 0 (spans line).length).map
        (fun i => ((spans line)[i]?.getD []).count tick) = (spans line).map (·.count tick) := by
      have := congrArg (List.map (·.count tick)) hall
      rw [List.map_map] at this
      exact this
    rw [← (hperm.map _).sum_nat, hcounts] at hsum
    have hline := count_masked (s := line) inlineCode (.inl rfl) (x := tick) (by decide)
    have := count_restyled line
    rw [hcount]
    show _ ≤ line.count tick
    rw [← hline]
    exact Nat.add_le_add this hsum

end Formatter
