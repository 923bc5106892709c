import ImpiAgent.Gateways.Proof.Formatter
import ImpiAgent.Lib.Attempt

/-!
# The cells of tables

A row without marks is split (`splitRow_spec`), and each of its cells stands in a line of the row's
list (`mem_rowToBullet`), in one of five ways (`Shown`). There the rules leave a plain cell as it is
(`shown_kept`): it is the last of its line (`Last.restyled`), or a number at the front of it
(`Firm.restyled`).
-/

namespace Formatter

open Text (Str str isSpace lstrip rstrip)
open Markdown (tick)
open Rewrite

variable {s t u v W line row : Str} {cell : Str} {c : Char} {decimal : Char → Option Nat}
  {digits : Char → Bool}

/-! ## A text near the end of a line -/

def isEmphasis (c : Char) : Bool := c = '*' || c = '_' || c = '~'

/-- `W` is the last of the line, but for what emphasis is made of. -/
def Last (W s : Str) : Prop := ∃ u v : Str, s = u ++ (W ++ v) ∧ v.all isEmphasis = true

/-- What has nothing of `W` in it is before `W` or behind it. -/
theorem append_cases {a b d : Str} (hd : d ≠ []) (hW : ∀ c ∈ d, c ∉ W) (hne : W ≠ [])
    (h : a ++ (d ++ b) = u ++ (W ++ v)) :
    (∃ y, u = a ++ (d ++ y) ∧ b = y ++ (W ++ v)) ∨ ∃ y, a = u ++ (W ++ y) ∧ v = y ++ (d ++ b) := by
  obtain ⟨x, W', hW'⟩ := List.exists_cons_of_ne_nil hne
  rcases List.append_eq_append_iff.1 h with ⟨y, rfl, hy⟩ | ⟨y, rfl, hy⟩
  · left
    rcases List.append_eq_append_iff.1 hy with ⟨z, rfl, hz⟩ | ⟨z, rfl, hz⟩
    · exact ⟨z, by simp, hz⟩
    · cases z with
      | nil => exact ⟨[], by simp, by simpa using hz.symm⟩
      | cons e z =>
        rw [hW'] at hz
        obtain ⟨rfl, -⟩ := List.cons.inj hz
        exact absurd (by simp [hW']) (hW x (by simp))
  · rcases List.append_eq_append_iff.1 hy with ⟨z, rfl, hz⟩ | ⟨z, rfl, hz⟩
    · exact .inr ⟨z, by simp, hz⟩
    · obtain ⟨e, d', rfl⟩ := List.exists_cons_of_ne_nil hd
      cases z with
      | nil => exact .inr ⟨[], by simp, by simpa using hz.symm⟩
      | cons f z =>
        obtain ⟨rfl, -⟩ := List.cons.inj hz
        exact absurd (by simp) (hW e List.mem_cons_self)

/-- A text that the rules leave as it is, where it is the last of a line. -/
structure Quiet (W : Str) : Prop where
  ne_nil : W ≠ []
  plain : ∀ c ∈ W, isEmphasis c = false
  no_paren : ')' ∉ W
  no_tick : tick ∉ W

namespace Last

variable {a a' b d n : Str}

/-- What emphasis is made of may be replaced by the like. -/
theorem replace (hW : Quiet W) (hne : d ≠ []) (hd : d.all isEmphasis = true)
    (hn : n.all isEmphasis = true) (h : Last W (a ++ (d ++ b))) : Last W (a ++ (n ++ b)) := by
  obtain ⟨u, v, hs, hv⟩ := h
  have hdW : ∀ c ∈ d, c ∉ W := fun c hc hcW => by
    have := List.all_eq_true.1 hd c hc
    rw [hW.plain c hcW] at this
    cases this
  rcases append_cases hne hdW hW.ne_nil hs with ⟨y, -, rfl⟩ | ⟨y, rfl, rfl⟩
  · exact ⟨a ++ (n ++ y), v, by simp, hv⟩
  · refine ⟨u, y ++ (n ++ b), by simp, ?_⟩
    simp only [List.all_append, Bool.and_eq_true] at hv ⊢
    exact ⟨hv.1, hn, hv.2.2⟩

/-- What cannot be in the last of a line is before it. -/
theorem behind (hW : Quiet W) (hc : isEmphasis c = false) (hcW : c ∉ W)
    (h : Last W (a ++ (c :: b))) : Last W (a' ++ b) := by
  obtain ⟨u, v, hs, hv⟩ := h
  rcases append_cases (d := [c]) (by simp) (by simpa using hcW) hW.ne_nil hs with
    ⟨y, -, rfl⟩ | ⟨y, -, rfl⟩
  · exact ⟨a' ++ y, v, by simp, hv⟩
  · simp [hc] at hv

/-- Where the front of the line has nothing of what the text begins with, it is behind the front. -/
theorem of_front (hhead : ∀ c, W.head? = some c → c ∉ a) (hW : Quiet W) (h : Last W (a ++ b)) :
    Last W b := by
  obtain ⟨u, v, hs, hv⟩ := h
  rcases List.append_eq_append_iff.1 hs with ⟨y, rfl, hy⟩ | ⟨y, rfl, hy⟩
  · exact ⟨y, v, hy, hv⟩
  · obtain ⟨x, W', rfl⟩ := List.exists_cons_of_ne_nil hW.ne_nil
    cases y with
    | nil => exact ⟨[], v, by simpa using hy.symm, hv⟩
    | cons e y =>
      obtain ⟨rfl, -⟩ := List.cons.inj hy
      exact absurd (by simp) (hhead x rfl)

theorem enclosed (ha : Last W s) (hb : b.all isEmphasis = true) : Last W (a ++ (s ++ b)) := by
  obtain ⟨u, v, rfl, hv⟩ := ha
  exact ⟨a ++ u, v ++ b, by simp, by simp [hv, hb]⟩

theorem wrap (hW : Quiet W) {hne : d ≠ []} {inner : Char → Bool} {before : Option Char → Bool}
    {after : Str → Bool} (hd : d.all isEmphasis = true) (hn : n.all isEmphasis = true)
    (h : Last W line) : Last W ((Formatter.wrap d n hne inner before after).sub line) := by
  refine Rule.sub_induction (fun g _ s t h => ?_) h
  have h : Last W (s ++ (d ++ (g ++ (d ++ t)))) := by simpa [Formatter.wrap] using h
  have h : Last W ((s ++ (n ++ g)) ++ (d ++ t)) := by simpa using replace hW hne hd hn h
  simpa [Formatter.wrap] using replace hW hne hd hn h

theorem stars (hW : Quiet W) {k : Nat} {z : k ≠ 0} (hn : n.all isEmphasis = true)
    (h : Last W line) : Last W ((Formatter.stars k z n).sub line) := by
  refine Rule.sub_induction (fun b _ s t h => ?_) h
  refine replace hW ((Formatter.stars k z n).ne_nil b) (List.all_eq_true.2 fun c hc => ?_) hn h
  rw [List.eq_of_mem_replicate hc]
  decide

theorem link (hW : Quiet W) {r : Rule Char Link} {d : Str} (hr : r.text = linkText d)
    (h : Last W line) : Last W (r.sub line) := by
  refine Rule.sub_induction (fun l _ s t h => ?_) h
  have h : Last W ((s ++ (d ++ (l.1 ++ (str "](" ++ l.2)))) ++ (')' :: t)) := by
    simpa [hr, linkText] using h
  rw [← List.append_assoc]
  exact behind hW (by decide) hW.no_paren h

theorem mask (hW : Quiet W) (h : Last W line) : Last W (maskCode line) := by
  refine Rule.subWith_induction (fun g _ i s t h => ?_) h
  have h : Last W ((s ++ (tick :: g)) ++ (tick :: t)) := by
    simpa [inlineCode, Formatter.wrap] using h
  rw [← List.append_assoc]
  exact behind hW (by decide) hW.no_tick h

theorem item (hW : Quiet W) (hblank : ∀ c, W.head? = some c → isSpace c = false)
    (hd : ∀ c, W.head? = some c → c ∉ d) (h : Last W line) : Last W (Formatter.item d n line) := by
  rcases item_cases d n line with heq | ⟨blanks, rest, hblanks, rfl, heq⟩
  · rw [heq]
    exact h
  · rw [heq, ← List.append_assoc]
    rw [← List.append_assoc] at h
    have hrest := of_front (fun c hc => ?_) hW h
    · simpa using hrest.enclosed (a := blanks ++ n) (b := []) rfl
    · rw [List.mem_append, not_or]
      refine ⟨fun hmem => ?_, hd c hc⟩
      have := hblank c hc
      rw [hblanks c hmem] at this
      cases this

theorem heading (hW : Quiet W) (hblank : W.head? ≠ some ' ') (hmark : W.head? ≠ some '#')
    (h : Last W line) : Last W (Formatter.heading line) := by
  rcases heading_cases line with heq | ⟨hashes, rest, -, hall, rfl, heq⟩
  · rw [heq]
    exact h
  · rw [heq]
    rw [← List.append_assoc] at h
    refine (of_front (fun c hc => ?_) hW h).enclosed (by decide)
    rw [List.mem_append, not_or]
    exact ⟨fun hmem => hmark (hall c hmem ▸ hc),
      fun hmem => hblank (List.mem_singleton.1 hmem ▸ hc)⟩

theorem stripOrphanAsterisks (hW : Quiet W) (h : Last W line) :
    Last W (Formatter.stripOrphanAsterisks line) := by
  have h := stars hW (k := 2) (z := by decide) (n := ['*']) (by decide) h
  rcases stripOrphanAsterisks_cases line with heq | ⟨a, b, hline, heq⟩
  · rw [heq]
    exact h
  · rw [heq]
    rw [hline] at h
    exact replace hW (n := []) (by decide) (by decide) rfl h

/-- The rules after those for list items, and what is done about orphans. -/
theorem restyled (hW : Quiet W) (hblank : W.head? ≠ some ' ') (hmark : W.head? ≠ some '#')
    (hrule : isRule line = false)
    (h : Last W (items ((Formatter.stars 3 (by decide) (str "**")).sub line))) :
    Last W (Formatter.restyled line) := by
  simp only [Formatter.restyled, hrule, Bool.false_eq_true, if_false, rules, emphases]
  refine stripOrphanAsterisks hW (wrap hW (by decide) (by decide) (link hW rfl ?_))
  refine wrap hW (by decide) (by decide) (wrap hW (by decide) (by decide) ?_)
  refine heading hW hblank hmark (wrap hW (by decide) (by decide) ?_)
  exact link hW rfl h

end Last

/-! ## A number at the front of a line -/

/-- What the matches of the rules begin with. -/
def isLead (c : Char) : Bool := c = '*' || c = '_' || c = '~' || c = '!' || c = '[' || c = tick

/-- A text that no rule matches at the front of a line. -/
structure Firm (a : Str) : Prop where
  plain : ∀ c ∈ a, isLead c = false
  head : ∃ c, a.head? = some c ∧ isSpace c = false ∧ c ≠ '-' ∧ c ≠ '#'

namespace Firm

variable {a b d n : Str}

/-- What begins with what is not in it is behind it. -/
theorem before (hc : c ∉ a) (h : a <+: s ++ c :: t) : a <+: s := by
  obtain ⟨z, hz⟩ := h
  rcases List.append_eq_append_iff.1 hz with ⟨y, rfl, -⟩ | ⟨y, rfl, hy⟩
  · exact List.prefix_append a y
  · cases y with
    | nil => rw [List.append_nil]
    | cons d y =>
      obtain ⟨rfl, -⟩ := List.cons.inj hy
      exact absurd (by simp) hc

/-- What begins as matches do may be replaced. -/
theorem replace (ha : Firm a) (hc : isLead c = true) (h : a <+: s ++ c :: t) : a <+: s ++ n :=
  (before (fun hmem => by rw [ha.plain c hmem] at hc; cases hc) h).trans (List.prefix_append s n)

theorem sub (ha : Firm a) {β : Type} {r : Rule Char β} {f : Nat → β → Str}
    (hr : ∀ b, ∃ c m, r.text b = c :: m ∧ isLead c = true) (h : a <+: line) :
    a <+: r.subWith f line := by
  refine Rule.subWith_induction (T := (a <+: ·)) (fun b _ i s t h => ?_) h
  obtain ⟨c, m, hm, hc⟩ := hr b
  rw [hm] at h
  exact ha.replace hc h

theorem wrap (ha : Firm a) {hne : d ≠ []} {inner : Char → Bool} {before : Option Char → Bool}
    {after : Str → Bool} (hd : ∃ c m, d = c :: m ∧ isLead c = true) (h : a <+: line) :
    a <+: (Formatter.wrap d n hne inner before after).sub line := by
  refine ha.sub (fun g => ?_) h
  obtain ⟨c, m, rfl, hc⟩ := hd
  exact ⟨c, _, rfl, hc⟩

theorem stars (ha : Firm a) {k : Nat} {z : k ≠ 0} (h : a <+: line) :
    a <+: (Formatter.stars k z n).sub line := by
  refine ha.sub (fun b => ?_) h
  obtain ⟨k, rfl⟩ := Nat.exists_eq_succ_of_ne_zero z
  exact ⟨'*', List.replicate (k + b) '*', by
    simp only [Formatter.stars, Nat.succ_add, List.replicate_succ], rfl⟩

theorem item_eq (ha : Firm a) (h : a <+: line) (hd : d.head? = some '-') :
    item d n line = line := by
  rcases item_cases d n line with heq | ⟨blanks, rest, hblanks, rfl, -⟩
  · exact heq
  · obtain ⟨c, hc, hblank, hdash, -⟩ := ha.head
    obtain ⟨d, rfl⟩ := List.head?_eq_some_iff.1 hd
    obtain ⟨a, rfl⟩ := List.head?_eq_some_iff.1 hc
    cases blanks with
    | nil => exact absurd (List.cons_prefix_cons.1 h).1 hdash
    | cons e blanks =>
      rw [(List.cons_prefix_cons.1 h).1, hblanks e List.mem_cons_self] at hblank
      cases hblank

theorem items_eq (ha : Firm a) (h : a <+: line) : items line = line := by
  rw [items, ha.item_eq h, ha.item_eq h, ha.item_eq h, ha.item_eq h] <;> rfl

theorem heading (ha : Firm a) (h : a <+: line) : a <+: Formatter.heading line := by
  rcases heading_cases line with heq | ⟨hashes, rest, hne, hall, rfl, -⟩
  · rw [heq]
    exact h
  · obtain ⟨c, hc, -, -, hhash⟩ := ha.head
    obtain ⟨a, rfl⟩ := List.head?_eq_some_iff.1 hc
    obtain ⟨e, hashes, rfl⟩ := List.exists_cons_of_ne_nil hne
    exact absurd ((List.cons_prefix_cons.1 h).1.trans (hall e List.mem_cons_self)) hhash

theorem not_rule (ha : Firm a) (h : a <+: line) : isRule line = false := by
  obtain ⟨c, hc, -, hdash, -⟩ := ha.head
  obtain ⟨a, rfl⟩ := List.head?_eq_some_iff.1 hc
  obtain ⟨t, rfl⟩ := h
  have hlead := ha.plain c List.mem_cons_self
  have hstar : c ≠ '*' := by rintro rfl; exact absurd hlead (by decide)
  have hbar : c ≠ '_' := by rintro rfl; exact absurd hlead (by decide)
  simp [isRule, str, hdash.symm, hstar.symm, hbar.symm]

theorem restyled (ha : Firm a) (hline : a <+: line) : a <+: Formatter.restyled line := by
  have hstrip : ∀ {s : Str}, a <+: s → a <+: stripOrphanAsterisks s := by
    intro s hs
    have hs := ha.stars (k := 2) (z := by decide) (n := ['*']) hs
    rcases stripOrphanAsterisks_cases s with heq | ⟨x, y, hline, heq⟩
    · rw [heq]
      exact hs
    · rw [heq]
      rw [hline] at hs
      exact ha.replace (c := '*') rfl hs
  have h := ha.stars (k := 3) (z := by decide) (n := str "**") hline
  simp only [Formatter.restyled, ha.not_rule hline, Bool.false_eq_true, if_false, rules, emphases,
    ha.items_eq h]
  refine hstrip (ha.wrap ⟨_, _, rfl, rfl⟩ (ha.sub (fun l => ⟨_, _, rfl, rfl⟩) ?_))
  refine ha.wrap ⟨_, _, rfl, rfl⟩ (ha.wrap ⟨_, _, rfl, rfl⟩ (ha.heading ?_))
  refine ha.wrap ⟨_, _, rfl, rfl⟩ (ha.sub (fun l => ⟨_, _, rfl, rfl⟩) ?_)
  exact h

theorem mask (ha : Firm a) (h : a <+: line) : a <+: maskCode line :=
  ha.sub (fun _ => ⟨_, _, rfl, rfl⟩) h

end Firm

/-! ## A cell in a line -/

variable (decimal) in
theorem restore_plain (tokens : List Str) (h : soh ∉ s) :
    restore decimal soh tokens s = some s := by
  induction s with
  | nil => rfl
  | cons c s ih =>
    rw [List.mem_cons, not_or] at h
    rw [restore_char (Ne.symm h.1), ih h.2]
    rfl

/-- What has no mark stays at the end of the line. -/
theorem suffix_of_restore {tokens : List Str} {out : Str} (ht : soh ∉ t)
    (h : restore decimal soh tokens (s ++ t) = some out) : t <:+ out := by
  have main : ∀ (s : Str) (n : Nat) (out : Str), n ≤ s.length →
      restoreFrom decimal soh tokens n (s ++ t) = some out → t <:+ out := by
    intro s
    induction s with
    | nil =>
      intro n out hn h
      rw [Nat.le_zero.1 hn] at h
      have := restore_plain decimal tokens ht
      rw [restore, ← List.nil_append t, h] at this
      cases this
      exact List.suffix_refl t
    | cons c s ih =>
      intro n out hn h
      cases n with
      | succ n =>
        rw [List.cons_append, restoreFrom] at h
        exact ih n out (Nat.le_of_succ_le_succ hn) h
      | zero =>
        rw [List.cons_append, restoreFrom] at h
        split at h
        · rename_i hmark
          simp only [Option.bind_eq_bind, Option.bind_eq_some_iff, Option.pure_def,
            Option.some.injEq] at h
          obtain ⟨_, -, span, -, out, hout, rfl⟩ := h
          refine (ih _ out ?_ hout).trans (List.suffix_append span out)
          -- the mark's end is not in what has none
          by_contra hlen
          have hlen := Nat.le_of_lt_succ (Nat.lt_of_not_le hlen)
          rw [List.drop_append, List.drop_eq_nil_of_le hlen, List.nil_append] at hmark
          exact ht (List.mem_of_mem_drop (List.mem_of_head? hmark.2.2))
        · obtain ⟨out, hout, rfl⟩ := Option.map_eq_some_iff.1 h
          exact (ih 0 out (Nat.zero_le _) hout).trans (List.suffix_cons c out)
  exact main s 0 out (Nat.zero_le _) h

theorem prefix_of_restore {tokens : List Str} {out : Str} (hs : soh ∉ s)
    (h : restore decimal soh tokens (s ++ t) = some out) : s <+: out := by
  induction s generalizing out with
  | nil => exact List.nil_prefix
  | cons c s ih =>
    rw [List.mem_cons, not_or] at hs
    rw [List.cons_append, restore_char (Ne.symm hs.1)] at h
    obtain ⟨out, hout, rfl⟩ := Option.map_eq_some_iff.1 h
    exact List.cons_prefix_cons.2 ⟨rfl, ih hs.2 hout⟩

/-- A cell that the rules leave as it is. -/
structure Plain (cell : Str) : Prop where
  quiet : ∀ c ∈ cell, isEmphasis c = false ∧ c ≠ ')' ∧ c ≠ tick
  no_item : ¬str "- " <+: cell
  no_heading : cell.head? ≠ some '#'

/-- A cell as rows are split: without blanks around it. -/
structure Cell (cell : Str) : Prop where
  no_soh : soh ∉ cell
  head : ∀ c, cell.head? = some c → isSpace c = false

section

variable (digits)

/-- How a cell stands in a line of its row's list. -/
inductive Shown (row : List Str) (cell : Str) : Str → Prop
  | first : Shown row cell (str "- **" ++ (cell ++ str "**"))
  | number {rest : Str} : isdigit digits cell = true → Shown row cell (cell ++ (str ". **" ++ rest))
  | second {number : Str} : number ∈ row → isdigit digits number = true →
      Shown row cell (number ++ (str ". **" ++ (cell ++ str "**")))
  | keyed {key : Str} : Shown row cell (str "    " ++ (key ++ (str ": " ++ cell)))
  | under : Shown row cell (str "    " ++ cell)

end

theorem maskCode_eq (h : tick ∉ line) : maskCode line = line := by
  have hfound : inlineCode.found line = [] := by
    refine List.eq_nil_iff_forall_not_mem.2 fun g hg => h ?_
    exact (infix_of_mem_found hg).subset (by simp [inlineCode, wrap])
  exact subWith_of_found hfound

/-- Two stars in a row are left. -/
theorem stars_eq (hc : c ≠ '*') (hs : s.count '*' < 3) (ht : t.count '*' < 3) :
    (stars 3 (by decide) (str "**")).sub (s ++ c :: t) = s ++ c :: t := by
  refine subWith_of_found (List.eq_nil_iff_forall_not_mem.2 fun k hk => ?_)
  obtain ⟨x, y, h⟩ := infix_of_mem_found hk
  have hcount : (List.replicate (3 + k) '*').count '*' = 3 + k := List.count_replicate_self
  have hmem : ∀ d ∈ List.replicate (3 + k) '*', d ∉ [c] := fun d hd hd' =>
    hc ((List.mem_singleton.1 hd').symm.trans (List.eq_of_mem_replicate hd))
  rw [List.append_assoc] at h
  rcases append_cases (W := [c]) (by simp) hmem (by simp) h with ⟨z, rfl, -⟩ | ⟨z, -, rfl⟩
  · simp only [List.count_append, hcount] at hs
    omega
  · simp only [List.count_append, hcount] at ht
    omega

theorem firm_of_isdigit {number : Str} (h : isdigit digits number = true) (hcell : Cell number) :
    Firm number := by
  simp only [isdigit, Bool.and_eq_true, List.all_eq_true, Bool.or_eq_true, decide_eq_true_eq] at h
  have hhigh : ∀ c ∈ number, c.isDigit = true ∨ 127 < c.toNat := fun c hc =>
    (h.2 c hc).imp_right (·.1)
  have hnot : ∀ d : Char, d.isDigit = false → d.toNat ≤ 127 → d ∉ number := by
    intro d hd hle hmem
    rcases hhigh d hmem with hdigit | hlt
    · rw [hd] at hdigit
      cases hdigit
    · omega
  obtain ⟨c, rest, rfl⟩ := List.exists_cons_of_ne_nil h.1
  refine ⟨fun d hd => ?_, c, rfl, hcell.head c rfl, ?_, ?_⟩
  · cases hl : isLead d with
    | false => rfl
    | true =>
      simp only [isLead, Bool.or_eq_true, decide_eq_true_eq] at hl
      rcases hl with ((((rfl | rfl) | rfl) | rfl) | rfl) | rfl <;>
        exact absurd hd (hnot _ (by decide) (by decide))
  · rintro rfl
    exact hnot '-' (by decide) (by decide) List.mem_cons_self
  · rintro rfl
    exact hnot '#' (by decide) (by decide) List.mem_cons_self

theorem Plain.no_char (h : Plain cell) (hc : isEmphasis c = true ∨ c = ')' ∨ c = tick) :
    c ∉ cell := by
  intro hmem
  obtain ⟨he, hp, ht⟩ := h.quiet c hmem
  rcases hc with hc | hc | hc
  · rw [he] at hc
    cases hc
  · exact hp hc
  · exact ht hc

theorem Plain.isQuiet (h : Plain cell) (hne : cell ≠ []) : Quiet cell where
  ne_nil := hne
  plain c hc := (h.quiet c hc).1
  no_paren := h.no_char (.inr (.inl rfl))
  no_tick := h.no_char (.inr (.inr rfl))

theorem isRule_blank : isRule (' ' :: s) = false := rfl

theorem maskCode_blank : ∃ t, maskCode (' ' :: s) = ' ' :: t := ⟨_, rfl⟩

theorem infix_of_last {out : Str} (hW : soh ∉ W) (h : Last W (restyled (maskCode line)))
    (hout : convertLine decimal line = some out) : W <:+: out := by
  obtain ⟨u, v, hs, hv⟩ := h
  rw [convertLine, hs] at hout
  refine (List.prefix_append W v).isInfix.trans (suffix_of_restore ?_ hout).isInfix
  exact List.not_mem_append hW fun hmem =>
    absurd (List.all_eq_true.1 hv soh hmem) (by decide)

theorem prefix_of_firm {out : Str} (hfirm : Firm s) (hs : soh ∉ s) (h : s <+: line)
    (hout : convertLine decimal line = some out) : s <+: out := by
  obtain ⟨t, ht⟩ := hfirm.restyled (hfirm.mask h)
  rw [convertLine, ← ht] at hout
  exact prefix_of_restore hs hout

/-- A cell behind two stars. -/
theorem infix_of_bold {out : Str} (hcell : Cell cell) (hp : Plain cell) (hne : cell ≠ [])
    (hs : s.count '*' < 3) (htick : tick ∉ s)
    (hrule : isRule (s ++ (cell ++ str "**")) = false)
    (hitems : ∃ u, items (s ++ (cell ++ str "**")) = u ++ (cell ++ str "**"))
    (hout : convertLine decimal (s ++ (cell ++ str "**")) = some out) : cell <:+: out := by
  have hW := hp.isQuiet hne
  have hstars : (stars 3 (by decide) (str "**")).sub (s ++ (cell ++ str "**")) =
      s ++ (cell ++ str "**") := by
    have hzero : cell.count '*' = 0 := List.count_eq_zero_of_not_mem (hp.no_char (.inl rfl))
    obtain ⟨x, cell, rfl⟩ := List.exists_cons_of_ne_nil hne
    rw [List.count_cons] at hzero
    refine stars_eq (t := cell ++ str "**") (fun hx => by simp [hx] at hzero) hs ?_
    have htwo : (str "**").count '*' = 2 := by decide
    rw [List.count_append, htwo]
    omega
  refine infix_of_last hcell.no_soh ?_ hout
  rw [maskCode_eq (List.not_mem_append htick (List.not_mem_append hW.no_tick (by decide)))]
  refine Last.restyled hW (fun hc => absurd (hcell.head _ hc) (by decide)) hp.no_heading hrule ?_
  obtain ⟨u, hu⟩ := hitems
  rw [hstars, hu]
  exact ⟨u, str "**", rfl, by decide⟩

/-- A cell behind its header. -/
theorem infix_of_keyed {key out : Str} (hcell : Cell cell) (hp : Plain cell) (hne : cell ≠ [])
    (hout : convertLine decimal (str "    " ++ (key ++ (str ": " ++ cell))) = some out) :
    cell <:+: out := by
  have hW := hp.isQuiet hne
  have hW' : Quiet (str ": " ++ cell) := by
    refine ⟨by simp [str], fun c hc => ?_, List.not_mem_append (by decide) hW.no_paren,
      List.not_mem_append (by decide) hW.no_tick⟩
    rcases List.mem_append.1 hc with hc | hc
    · have hall : (str ": ").all (!isEmphasis ·) = true := by decide
      simpa using List.all_eq_true.1 hall c hc
    · exact hW.plain c hc
  have hitem : ∀ {d n s : Str}, ':' ∉ d → Last (str ": " ++ cell) s →
      Last (str ": " ++ cell) (item d n s) := by
    intro d n s hd hs
    refine Last.item hW' ?_ ?_ hs <;> rintro c ⟨⟩
    · decide
    · exact hd
  obtain ⟨t, ht⟩ := maskCode_blank (s := str "   " ++ (key ++ (str ": " ++ cell)))
  have hmask : maskCode (str "    " ++ (key ++ (str ": " ++ cell))) = ' ' :: t := ht
  have hline : Last (str ": " ++ cell) (str "    " ++ (key ++ (str ": " ++ cell))) :=
    ⟨str "    " ++ key, [], by simp, rfl⟩
  have hkept := infix_of_last (W := str ": " ++ cell)
    (List.not_mem_append (by decide) hcell.no_soh)
    (Last.restyled hW' (by simp [str]) (by simp [str]) (hmask ▸ isRule_blank)
      (hitem (by decide) (hitem (by decide) (hitem (by decide) (hitem (by decide)
        (Last.stars hW' (by decide) (Last.mask hW' hline))))))) hout
  exact (List.suffix_append _ cell).isInfix.trans hkept

/-- A cell that has no header. -/
theorem infix_of_under {out : Str} (hcell : Cell cell) (hp : Plain cell) (hne : cell ≠ [])
    (hout : convertLine decimal (str "    " ++ cell) = some out) : cell <:+: out := by
  have hW := hp.isQuiet hne
  have hstars : (stars 3 (by decide) (str "**")).sub (str "    " ++ cell) = str "    " ++ cell := by
    refine stars_eq (s := []) (c := ' ') (by decide) (by decide) ?_
    have hzero : cell.count '*' = 0 := List.count_eq_zero_of_not_mem (hp.no_char (.inl rfl))
    have hblanks : (str "   ").count '*' = 0 := by decide
    show (str "   " ++ cell).count '*' < 3
    rw [List.count_append, hblanks, hzero]
    decide
  have hitem : ∀ {d n : Str}, str "- " <+: d →
      item d n (str "    " ++ cell) = str "    " ++ cell := by
    intro d n hd
    have hstrip : lstrip (str "    " ++ cell) = cell := by
      show lstrip cell = cell
      obtain ⟨x, cell, rfl⟩ := List.exists_cons_of_ne_nil hne
      rw [lstrip, List.dropWhile_cons_of_neg (by simp [hcell.head x rfl])]
    simp only [item, hstrip]
    rw [if_neg]
    rintro ⟨hfront, -⟩
    exact hp.no_item (hd.trans (List.isPrefixOf_iff_prefix.1 hfront))
  refine infix_of_last hcell.no_soh ?_ hout
  rw [maskCode_eq (List.not_mem_append (by decide) hW.no_tick)]
  refine Last.restyled hW (fun hc => absurd (hcell.head _ hc) (by decide)) hp.no_heading rfl ?_
  rw [hstars, items, hitem (by decide), hitem (by decide), hitem (by decide), hitem (by decide)]
  exact ⟨str "    ", [], by simp, rfl⟩

/-- Where a plain cell is shown it is left. -/
theorem shown_kept {row : List Str} {l out : Str} (hrow : ∀ cell ∈ row, Cell cell)
    (hcell : Cell cell) (hne : cell ≠ []) (hp : Plain cell) (h : Shown digits row cell l)
    (hout : convertLine decimal l = some out) : cell <:+: out := by
  cases h with
  | first =>
    exact infix_of_bold hcell hp hne (by decide) (by decide) rfl ⟨str "• **", rfl⟩ hout
  | number hdigits =>
    exact (prefix_of_firm (firm_of_isdigit hdigits hcell) hcell.no_soh
      (List.prefix_append _ _) hout).isInfix
  | @second number hmem hdigits =>
    have hfirm := firm_of_isdigit hdigits (hrow number hmem)
    have hno : ∀ c, isLead c = true → c ∉ number := fun c hc hmem => by
      rw [hfirm.plain c hmem] at hc
      cases hc
    have hfront : number <+: (number ++ str ". **") ++ (cell ++ str "**") := by
      rw [List.append_assoc]
      exact List.prefix_append _ _
    rw [← List.append_assoc] at hout
    refine infix_of_bold hcell hp hne ?_ (List.not_mem_append (hno tick rfl) (by decide))
      (hfirm.not_rule hfront) ⟨_, hfirm.items_eq hfront⟩ hout
    rw [List.count_append, List.count_eq_zero_of_not_mem (hno '*' rfl)]
    decide
  | keyed => exact infix_of_keyed hcell hp hne hout
  | under => exact infix_of_under hcell hp hne hout

/-! ## A row -/

variable (digits) in
theorem mem_subLines {row cells : List Str} (header : List Str) (h : cell ∈ cells)
    (hne : cell ≠ []) : ∃ l ∈ subLines cells header, Shown digits row cell l := by
  induction cells generalizing header with
  | nil => cases h
  | cons value cells ih =>
    rcases List.mem_cons.1 h with rfl | h
    · refine ⟨str "    " ++ ((if header.headD [] ≠ [] then header.headD [] ++ str ": " else []) ++
        cell), ?_, ?_⟩
      · rw [subLines, if_neg hne]
        exact List.mem_append_left _ (List.mem_singleton_self _)
      · split
        · rw [List.append_assoc]
          exact .keyed
        · exact .under
    · obtain ⟨l, hl, hshown⟩ := ih header.tail h
      exact ⟨l, List.mem_append_right _ hl, hshown⟩

variable (digits) in
/-- No cell that has text is left out of its row's list. -/
theorem mem_rowToBullet {row : List Str} (header : List Str) (h : cell ∈ row) (hne : cell ≠ []) :
    ∃ l ∈ rowToBullet digits row header, Shown digits row cell l := by
  have hrest : ∀ {first : Str} {rest : List Str}, row = first :: rest →
      ∃ l ∈ (if first ≠ [] then str "- **" ++ (first ++ str "**") else ['-']) ::
        subLines rest (header.drop 1), Shown digits row cell l := by
    rintro first rest rfl
    rcases List.mem_cons.1 h with rfl | h
    · exact ⟨_, List.mem_cons_self, by rw [if_pos hne]; exact .first⟩
    · obtain ⟨l, hl, hshown⟩ := mem_subLines digits _ h hne
      exact ⟨l, .tail _ hl, hshown⟩
  cases row with
  | nil => cases h
  | cons first rest =>
    have hany : (first :: rest).all (· = []) = false := by
      rw [List.all_eq_false]
      exact ⟨cell, h, by simpa using hne⟩
    simp only [rowToBullet, hany, Bool.false_eq_true, if_false]
    cases rest with
    | nil => exact hrest rfl
    | cons second rest =>
      simp only
      split
      · rename_i hnumber
        rcases List.mem_cons.1 h with rfl | h
        · exact ⟨_, List.mem_cons_self, .number hnumber.1⟩
        · rcases List.mem_cons.1 h with rfl | h
          · exact ⟨_, List.mem_cons_self, .second List.mem_cons_self hnumber.1⟩
          · obtain ⟨l, hl, hshown⟩ := mem_subLines digits _ h hne
            exact ⟨l, .tail _ hl, hshown⟩
      · exact hrest rfl

theorem not_mem_subLines {cells header : List Str} (hc : c ∉ str " :")
    (hcells : ∀ cell ∈ cells, c ∉ cell) (hheader : ∀ key ∈ header, c ∉ key) :
    ∀ l ∈ subLines cells header, c ∉ l := by
  induction cells generalizing header with
  | nil => exact fun l hl => nomatch hl
  | cons value cells ih =>
    intro l hl
    rcases List.mem_append.1 hl with hl | hl
    · have hblank : c ∉ str "    " := fun h => hc (by simp_all [str])
      have hcolon : c ∉ str ": " := fun h => hc (by simp_all [str, or_comm])
      have hkey : c ∉ header.headD [] := by
        cases header with
        | nil => exact List.not_mem_nil
        | cons key header => exact hheader key List.mem_cons_self
      split at hl
      · cases hl
      · rw [List.mem_singleton.1 hl]
        refine List.not_mem_append hblank (List.not_mem_append ?_ (hcells _ List.mem_cons_self))
        split
        · exact List.not_mem_append hkey hcolon
        · exact List.not_mem_nil
    · exact ih (fun cell hcell => hcells cell (.tail _ hcell))
        (fun key hkey => hheader key (List.mem_of_mem_tail hkey)) l hl

/-- A row's list has nothing that neither its cells nor its headers have, but what lists are made
of. -/
theorem not_mem_rowToBullet {row header : List Str} (hc : c ∉ str "- *.:")
    (hrow : ∀ cell ∈ row, c ∉ cell) (hheader : ∀ key ∈ header, c ∉ key) :
    ∀ l ∈ rowToBullet digits row header, c ∉ l := by
  have hpart : ∀ {s : Str}, s ⊆ str "- *.:" → c ∉ s := fun hs hmem => hc (hs hmem)
  have hdash : c ∉ ['-'] := hpart (by decide)
  have hlines : ∀ {cells header : List Str}, (∀ cell ∈ cells, c ∉ cell) →
      (∀ key ∈ header, c ∉ key) → ∀ l ∈ subLines cells header, c ∉ l :=
    not_mem_subLines (hpart (by decide))
  cases row with
  | nil =>
    intro l hl
    rw [List.mem_singleton.1 hl]
    exact hdash
  | cons first rest =>
    have hfirst := hrow first List.mem_cons_self
    have hcells : ∀ cell ∈ rest, c ∉ cell := fun cell hcell => hrow cell (.tail _ hcell)
    have hdrop : ∀ n, ∀ key ∈ header.drop n, c ∉ key := fun n key hkey =>
      hheader key (List.mem_of_mem_drop hkey)
    have hrest : ∀ l ∈ (if first ≠ [] then str "- **" ++ (first ++ str "**") else ['-']) ::
        subLines rest (header.drop 1), c ∉ l := by
      intro l hl
      rcases List.mem_cons.1 hl with rfl | hl
      · split
        · exact List.not_mem_append (hpart (by decide))
            (List.not_mem_append hfirst (hpart (by decide)))
        · exact hdash
      · exact hlines hcells (hdrop 1) l hl
    simp only [rowToBullet]
    split
    · intro l hl
      rw [List.mem_singleton.1 hl]
      exact hdash
    · cases rest with
      | nil => exact hrest
      | cons second rest =>
        simp only
        split
        · intro l hl
          rcases List.mem_cons.1 hl with rfl | hl
          · exact List.not_mem_append hfirst (List.not_mem_append (hpart (by decide))
              (List.not_mem_append (hcells second List.mem_cons_self) (hpart (by decide))))
          · exact hlines (fun cell hcell => hcells cell (.tail _ hcell)) (hdrop 2) l hl
        · exact hrest

/-! ## Cells -/

/-- Blanks around a text are in no mark. -/
theorem strip_woven {P : Char → Prop} {is : List Nat} {m : Char} (hm : m = soh ∨ m = nul)
    (h : Woven P (mark m) is s) : Woven P (mark m) is (rstrip (lstrip s)) := by
  have hsolid : ∀ {d : Str}, (∀ c ∈ d, isSpace c = true) → ∀ c ∈ d, ∀ i, c ∉ mark m i :=
    fun hd c hc => not_mem_mark hm (literal_of_isSpace (hd c hc))
  have hs : s = s.takeWhile isSpace ++ (rstrip (lstrip s) ++
      ((lstrip s).reverse.takeWhile isSpace).reverse) := by
    rw [rstrip, ← List.reverse_append, List.takeWhile_append_dropWhile, List.reverse_reverse]
    exact List.takeWhile_append_dropWhile.symm
  rw [hs] at h
  refine h.core (hsolid fun c hc => List.mem_takeWhile_imp hc) (hsolid fun c hc => ?_)
  exact List.mem_takeWhile_imp (List.mem_reverse.1 hc)

theorem head_strip (hc : (rstrip (lstrip s)).head? = some c) : isSpace c = false := by
  have hpre := rstrip_front (lstrip s)
  obtain ⟨t, ht⟩ := List.head?_eq_some_iff.1 hc
  rw [ht] at hpre
  obtain ⟨u, hu⟩ := hpre
  have hhead : (s.dropWhile isSpace).head? = some c := by
    show (lstrip s).head? = some c
    rw [← hu]
    rfl
  have := List.head?_dropWhile_not isSpace s
  rw [hhead] at this
  simpa using this

theorem mem_of_mem_bare (h : c ∈ bare line) : c ∈ line := by
  have hstrip : ∀ {d : Char}, d ∈ rstrip (lstrip line) → d ∈ line := fun hd =>
    (List.dropWhile_subset _) (List.mem_reverse.1
      ((List.dropWhile_subset _) (List.mem_reverse.1 hd)))
  have hlast : ∀ {t : Str}, t ⊆ line →
      c ∈ (if t.getLast? = some '|' then t.dropLast else t) → c ∈ line := by
    intro t ht hc
    split at hc
    · exact ht (List.mem_of_mem_dropLast hc)
    · exact ht hc
  by_cases hhead : (rstrip (lstrip line)).head? = some '|'
  · simp only [bare, hhead, if_true] at h
    exact hlast (fun d hd => hstrip (List.mem_of_mem_tail hd)) h
  · simp only [bare, hhead, if_false] at h
    exact hlast (fun d hd => hstrip hd) h

/-- What is put in the place of marks begins with no blank where the marked text does not. -/
theorem head_restore {P : Char → Prop} {is : List Nat} {m : Char} (hm : m = soh ∨ m = nul)
    {tokens : List Str} {out : Str} (hP : ∀ c, P c → c ≠ m) (h : Woven P (mark m) is s)
    (hs : ∀ c, s.head? = some c → isSpace c = false)
    (htokens : ∀ token ∈ tokens, ∃ c u, token = c :: u ∧ isSpace c = false)
    (hout : restore decimal m tokens s = some out) :
    ∀ c, out.head? = some c → isSpace c = false := by
  intro d hd
  cases h with
  | nil =>
    cases hout
    cases hd
  | @char c is s hc _ =>
    rw [restore_char (hP c hc)] at hout
    obtain ⟨out, -, rfl⟩ := Option.map_eq_some_iff.1 hout
    exact hs d hd
  | @word i s is _ _ =>
    rw [restore_mark hm] at hout
    obtain ⟨token, htoken, hout⟩ := Option.bind_eq_some_iff.1 hout
    obtain ⟨out, -, rfl⟩ := Option.map_eq_some_iff.1 hout
    obtain ⟨c, u, rfl, hc⟩ := htokens token (List.mem_of_getElem? htoken)
    cases hd
    exact hc

variable (decimal) in
/-- A row without marks is split, and its cells are of it. -/
theorem splitRow_spec (h : nul ∉ line) : ∃ cells, splitRow decimal line = some cells ∧
    ∀ cell ∈ cells, (∀ c ∈ cell, c ∈ line) ∧ ∀ c, cell.head? = some c → isSpace c = false := by
  let tokens := (angleToken.found (bare line)).map angleToken.text
  have htokens : ∀ token ∈ tokens, (∃ c u, token = c :: u ∧ isSpace c = false) ∧
      ∀ c ∈ token, c ∈ line := by
    intro token htoken
    obtain ⟨g, hg, rfl⟩ := List.mem_map.1 htoken
    exact ⟨⟨'<', _, rfl, by decide⟩,
      fun c hc => mem_of_mem_bare ((infix_of_mem_found hg).subset hc)⟩
  have hmasked : Woven (fun c => c ∈ line ∧ c ≠ nul) (mark nul)
      (List.range' 0 (angleToken.found (bare line)).length) (masked angleToken nul (bare line)) :=
    masked_woven fun c hc => ⟨mem_of_mem_bare hc, fun hnul => h (hnul ▸ mem_of_mem_bare hc)⟩
  have hsplit : ['|'].intercalate ((masked angleToken nul (bare line)).splitOn '|') =
      masked angleToken nul (bare line) := List.intercalate_splitOn '|'
  rw [← hsplit] at hmasked
  have hparts := hmasked.part (not_mem_mark (.inr rfl) (by decide))
  have hcell : ∀ part ∈ (masked angleToken nul (bare line)).splitOn '|', ∃ cell,
      restore decimal nul tokens (rstrip (lstrip part)) = some cell ∧
        ((∀ c ∈ cell, c ∈ line) ∧ ∀ c, cell.head? = some c → isSpace c = false) := by
    intro part hpart
    obtain ⟨js, hjs, hwoven⟩ := hparts part hpart
    have hstrip := strip_woven (.inr rfl) hwoven
    have hlt : ∀ j ∈ js, j < tokens.length := by
      intro j hj
      have := List.mem_range'.1 (hjs hj)
      rw [List.length_map]
      omega
    obtain ⟨out, hout, hw, -⟩ := restore_woven decimal (.inr rfl)
      (fun token htoken => by
        obtain ⟨c, u, rfl, -⟩ := (htokens token htoken).1
        exact List.cons_ne_nil c u) (fun c hc => hc.2) hstrip hlt tick (by decide)
    refine ⟨out, hout, fun c hc => ?_, head_restore (.inr rfl) (fun c hc => hc.2) hstrip
      (fun c hc => head_strip hc) (fun token htoken => (htokens token htoken).1) hout⟩
    rcases hw.mem hc with hc | ⟨i, hi, hc⟩
    · exact hc.1
    · rw [List.getElem?_eq_getElem (hlt i hi)] at hc
      exact (htokens _ (List.getElem_mem _)).2 c hc
  obtain ⟨cells, hcells, -⟩ := Attempt.exists_mapM_some hcell
  refine ⟨cells, hcells, fun cell hmem => ?_⟩
  obtain ⟨part, hpart, hout⟩ := Attempt.mem_mapM_some hcells cell hmem
  obtain ⟨cell', hcell', hgood⟩ := hcell part hpart
  rw [hout] at hcell'
  cases hcell'
  exact hgood

end Formatter
