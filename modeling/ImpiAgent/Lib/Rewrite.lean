import Mathlib.Data.List.Infix
import Mathlib.Tactic.Common

/-!
# Rewriting by a pattern

`Rule.sub` replaces what a pattern matches, from the left, and `Rule.found` is what it matches.

What the replacement of each match keeps is kept by that of all (`Rule.subWith_induction`). A text
in which words stand in the order of a list, with other text around them, is `Woven`: it can be cut
at what is in no word (`Woven.cut`), which can be replaced (`Woven.replace`).
-/

namespace Rewrite

universe u

variable {α β ι : Type u}

/-! ## Rules -/

/-- `find p s`: what the pattern matches at the front of `s`, where `p` is before it. -/
structure Rule (α β : Type u) where
  find : Option α → List α → Option β
  text : β → List α
  by_ : β → List α
  ne_nil : ∀ b, text b ≠ []
  is_front : ∀ {p s b}, find p s = some b → text b <+: s

/-- The text from left to right: a character that is left, or a match; `n` more characters are part
of a match. -/
def Rule.scan (r : Rule α β) : Option α → Nat → List α → List (α ⊕ β)
  | _, _, [] => []
  | _, n + 1, c :: s => r.scan (some c) n s
  | p, 0, c :: s =>
    match r.find p (c :: s) with
    | some b => .inr b :: r.scan (some c) ((r.text b).length - 1) s
    | none => .inl c :: r.scan (some c) 0 s

/-- What is scanned, with `f i b` in the place of the match `b`, the `i`-th. -/
def render (f : Nat → β → List α) : Nat → List (α ⊕ β) → List α
  | _, [] => []
  | i, .inl c :: ps => c :: render f i ps
  | i, .inr b :: ps => f i b ++ render f (i + 1) ps

/-- `re.sub` with a function of the match, and of how many were before it. -/
def Rule.subWith (r : Rule α β) (f : Nat → β → List α) (s : List α) : List α :=
  render f 0 (r.scan none 0 s)

/-- `re.sub`. -/
def Rule.sub (r : Rule α β) (s : List α) : List α := r.subWith (fun _ => r.by_) s

/-- `re.findall`. -/
def Rule.found (r : Rule α β) (s : List α) : List β := (r.scan none 0 s).filterMap Sum.getRight?

variable {r : Rule α β} {s : List α} {b : β} {f : Nat → β → List α}

/-- The scan is of the whole text. -/
theorem scan_text (p : Option α) (n i : Nat) :
    render (fun _ => r.text) i (r.scan p n s) = s.drop n := by
  induction s generalizing p n i with
  | nil => simp [Rule.scan, render]
  | cons c s ih =>
    cases n with
    | succ n => simpa [Rule.scan] using ih (some c) n i
    | zero =>
      rw [Rule.scan]
      split
      · rename_i b hb
        obtain ⟨t, ht⟩ := r.is_front hb
        obtain ⟨d, m, hm⟩ := List.exists_cons_of_ne_nil (r.ne_nil b)
        rw [hm, List.cons_append] at ht
        obtain ⟨rfl, rfl⟩ := List.cons.inj ht
        simp [render, ih, hm]
      · simpa [render] using ih (some c) 0 i

theorem mem_found : b ∈ r.found s ↔ .inr b ∈ r.scan none 0 s := by
  simp [Rule.found, List.mem_filterMap]

/-- What the replacement of any match keeps, wherever it is, that of all keeps. -/
theorem Rule.subWith_induction {T : List α → Prop}
    (hr : ∀ b ∈ r.found s, ∀ i x t, T (x ++ (r.text b ++ t)) → T (x ++ (f i b ++ t))) (h : T s) :
    T (r.subWith f s) := by
  have main : ∀ (ps : List (α ⊕ β)) (i : Nat) (x : List α),
      (∀ b, .inr b ∈ ps → ∀ i x t, T (x ++ (r.text b ++ t)) → T (x ++ (f i b ++ t))) →
      T (x ++ render (fun _ => r.text) i ps) → T (x ++ render f i ps) := by
    intro ps
    induction ps with
    | nil => exact fun _ _ _ h => h
    | cons p ps ih =>
      intro i x hps h
      have htail := fun b hb => hps b (.tail _ hb)
      cases p with
      | inl c => simpa [render] using ih i (x ++ [c]) htail (by simpa [render] using h)
      | inr b =>
        have h := hps b List.mem_cons_self i x _ h
        rw [← List.append_assoc] at h
        simpa [render] using ih (i + 1) (x ++ f i b) htail h
  have hs := scan_text (r := r) (s := s) none 0 0
  exact main (r.scan none 0 s) 0 [] (fun b hb => hr b (mem_found.2 hb)) (by simpa [hs] using h)

theorem Rule.sub_induction {T : List α → Prop}
    (hr : ∀ b ∈ r.found s, ∀ x t, T (x ++ (r.text b ++ t)) → T (x ++ (r.by_ b ++ t))) (h : T s) :
    T (r.sub s) :=
  r.subWith_induction (fun b hb _ => hr b hb) h

/-- What is matched is in the text. -/
theorem infix_of_mem_found (h : b ∈ r.found s) : r.text b <:+: s := by
  have main : ∀ (ps : List (α ⊕ β)) (i : Nat), .inr b ∈ ps →
      r.text b <:+: render (fun _ => r.text) i ps := by
    intro ps
    induction ps with
    | nil => exact fun _ h => nomatch h
    | cons p ps ih =>
      intro i h
      rcases List.mem_cons.1 h with rfl | hps
      · exact (List.prefix_append _ _).isInfix
      · cases p with
        | inl c => exact (ih i hps).trans (List.suffix_cons c _).isInfix
        | inr d => exact (ih (i + 1) hps).trans (List.suffix_append _ _).isInfix
  have hs := scan_text (r := r) (s := s) none 0 0
  rw [List.drop_zero] at hs
  exact hs ▸ main _ 0 (mem_found.1 h)

theorem subWith_of_found (h : r.found s = []) : r.subWith f s = s := by
  have main : ∀ (ps : List (α ⊕ β)) (i : Nat), ps.filterMap Sum.getRight? = [] →
      render f i ps = render (fun _ => r.text) i ps := by
    intro ps
    induction ps with
    | nil => exact fun _ _ => rfl
    | cons p ps ih =>
      intro i h
      cases p with
      | inl c => exact congrArg (c :: ·) (ih i h)
      | inr b => cases h
  rw [Rule.subWith, main _ 0 h, scan_text, List.drop_zero]

/-- Of what is scanned, what is left is of the text. -/
theorem mem_of_left {c : α} {p : Option α} {n : Nat} (h : .inl c ∈ r.scan p n s) : c ∈ s := by
  have main : ∀ (ps : List (α ⊕ β)) (i : Nat), .inl c ∈ ps →
      c ∈ render (fun _ => r.text) i ps := by
    intro ps
    induction ps with
    | nil => exact fun _ h => nomatch h
    | cons p ps ih =>
      intro i h
      rcases List.mem_cons.1 h with rfl | hps
      · exact List.mem_cons_self
      · cases p with
        | inl d => exact .tail _ (ih i hps)
        | inr b => exact List.mem_append_right _ (ih (i + 1) hps)
  exact List.mem_of_mem_drop (scan_text (r := r) p n 0 ▸ main _ 0 h)

/-! ## Words in a text -/

/-- The words `w i` stand in the text one after the other; around them is what `P` allows. -/
inductive Woven (P : α → Prop) (w : ι → List α) : List ι → List α → Prop
  | nil : Woven P w [] []
  | char {c : α} {is : List ι} {s : List α} : P c → Woven P w is s → Woven P w is (c :: s)
  | word {i : ι} {s : List α} {is : List ι} :
      w i ≠ [] → Woven P w is s → Woven P w (i :: is) (w i ++ s)

variable {P : α → Prop} {w : ι → List α} {is js : List ι} {t : List α} {c : α}

theorem Woven.before {u : List α} (hu : ∀ c ∈ u, P c) (h : Woven P w is s) :
    Woven P w is (u ++ s) := by
  induction u with
  | nil => exact h
  | cons c u ih => exact .char (hu c List.mem_cons_self) (ih fun d hd => hu d (.tail _ hd))

theorem Woven.of_text (hs : ∀ c ∈ s, P c) : Woven P w [] s := by
  simpa using Woven.nil.before hs

theorem Woven.append (h : Woven P w is s) (h' : Woven P w js t) :
    Woven P w (is ++ js) (s ++ t) := by
  induction h with
  | nil => exact h'
  | char hc _ ih => exact .char hc ih
  | word hne _ ih =>
    rw [List.append_assoc]
    exact .word hne ih

theorem Woven.eq_nil (h : Woven P w is []) : is = [] := by
  generalize hs : ([] : List α) = s at h
  cases h with
  | nil => rfl
  | char => cases hs
  | word hne => exact absurd (List.append_eq_nil_iff.1 hs.symm).1 hne

/-- A text that lacks what is in each word has none. -/
theorem Woven.eq_nil_of_not_mem (hw : ∀ i, c ∈ w i) (h : Woven P w is s) (hs : c ∉ s) :
    is = [] := by
  induction h with
  | nil => rfl
  | char _ _ ih => exact ih fun hc => hs (.tail _ hc)
  | @word i => exact absurd (List.mem_append_left _ (hw i)) hs

/-- What is in no word tells the words before it from those after it. -/
theorem Woven.cut {x : List α} (hc : ∀ i, c ∉ w i) (h : Woven P w is (x ++ c :: t)) :
    ∃ us vs, is = us ++ vs ∧ Woven P w us x ∧ Woven P w vs t := by
  generalize hs : x ++ c :: t = s at h
  induction h generalizing x with
  | nil => simp at hs
  | @char d is s hd h ih =>
    cases x with
    | nil =>
      obtain ⟨-, rfl⟩ := List.cons.inj hs
      exact ⟨[], is, rfl, .nil, h⟩
    | cons e x =>
      obtain ⟨rfl, htail⟩ := List.cons.inj hs
      obtain ⟨us, vs, rfl, hus, hvs⟩ := ih htail
      exact ⟨us, vs, rfl, .char hd hus, hvs⟩
  | @word i s is hne h ih =>
    have hbehind : ∀ y, y ++ c :: t = s →
        ∃ us vs, i :: is = us ++ vs ∧ Woven P w us (w i ++ y) ∧ Woven P w vs t := by
      intro y hy
      obtain ⟨us, vs, rfl, hus, hvs⟩ := ih hy
      exact ⟨i :: us, vs, rfl, .word hne hus, hvs⟩
    rcases List.append_eq_append_iff.1 hs with ⟨y, hx, hy⟩ | ⟨y, rfl, hy⟩
    · cases y with
      | nil =>
        rw [List.append_nil] at hx
        simpa [hx] using hbehind [] hy
      | cons d y =>
        obtain ⟨rfl, -⟩ := List.cons.inj hy
        exact absurd (by simp [hx]) (hc i)
    · exact hbehind y hy.symm

/-- The same of more than one of these. -/
theorem Woven.cut_text {x d : List α} (hd : ∀ c ∈ d, ∀ i, c ∉ w i) (hne : d ≠ [])
    (h : Woven P w is (x ++ (d ++ t))) :
    ∃ us vs, is = us ++ vs ∧ Woven P w us x ∧ Woven P w vs t := by
  induction d generalizing x is with
  | nil => exact absurd rfl hne
  | cons c d ih =>
    obtain ⟨us, vs, rfl, hus, hvs⟩ := h.cut (hd c List.mem_cons_self)
    by_cases hnil : d = []
    · subst hnil
      exact ⟨us, vs, rfl, hus, hvs⟩
    · obtain ⟨us', vs', rfl, hus', hvs'⟩ := ih (fun e he => hd e (.tail _ he)) hnil (x := []) hvs
      cases hus'.eq_nil
      exact ⟨us, vs', rfl, hus, hvs'⟩

theorem Woven.map (h : Woven P w is s) : Woven P id (is.map w) s := by
  induction h with
  | nil => exact .nil
  | char hc _ ih => exact .char hc ih
  | word hne _ ih => exact .word hne ih

/-- What is in no word may be replaced. -/
theorem Woven.replace {x d n : List α} (hd : ∀ c ∈ d, ∀ i, c ∉ w i) (hne : d ≠ [])
    (hn : ∀ c ∈ n, P c) (h : Woven P w is (x ++ (d ++ t))) : Woven P w is (x ++ (n ++ t)) := by
  obtain ⟨us, vs, rfl, hx, ht⟩ := h.cut_text hd hne
  exact hx.append (ht.before hn)

/-- What is in no word may be left away around a text. -/
theorem Woven.core {d e : List α} (hd : ∀ c ∈ d, ∀ i, c ∉ w i) (he : ∀ c ∈ e, ∀ i, c ∉ w i)
    (h : Woven P w is (d ++ (s ++ e))) : Woven P w is s := by
  have hfront : Woven P w is (s ++ e) := by
    by_cases hnil : d = []
    · rwa [hnil] at h
    · obtain ⟨us, vs, rfl, hus, hvs⟩ := Woven.cut_text (x := []) hd hnil h
      rwa [hus.eq_nil]
  by_cases hnil : e = []
  · rwa [hnil, List.append_nil] at hfront
  · rw [← List.append_nil e] at hfront
    obtain ⟨us, vs, rfl, hus, hvs⟩ := hfront.cut_text he hnil
    rwa [hvs.eq_nil, List.append_nil]

/-- The parts of a text between what is in no word. -/
theorem Woven.part {sep : α} (hsep : ∀ i, sep ∉ w i) :
    ∀ {parts : List (List α)} {is : List ι}, Woven P w is ([sep].intercalate parts) →
      ∀ part ∈ parts, ∃ js, js ⊆ is ∧ Woven P w js part
  | [], _, _, _, hp => nomatch hp
  | [p], is, h, part, hp => by
    rw [List.mem_singleton.1 hp]
    exact ⟨is, List.Subset.refl is, by simpa [List.intercalate] using h⟩
  | p :: q :: parts, is, h, part, hp => by
    rw [List.intercalate_cons_cons, List.append_assoc, List.singleton_append] at h
    obtain ⟨us, vs, rfl, hus, hvs⟩ := h.cut hsep
    rcases List.mem_cons.1 hp with rfl | hp
    · exact ⟨us, List.subset_append_left us vs, hus⟩
    · obtain ⟨js, hjs, hpart⟩ := Woven.part hsep hvs part hp
      exact ⟨js, fun j hj => List.mem_append_right us (hjs hj), hpart⟩

/-- What is in a text is in its words or around them. -/
theorem Woven.mem (h : Woven P w is s) (hc : c ∈ s) : P c ∨ ∃ i ∈ is, c ∈ w i := by
  induction h with
  | nil => cases hc
  | char hd _ ih =>
    rcases List.mem_cons.1 hc with rfl | hc
    · exact .inl hd
    · exact ih hc
  | @word i s is _ _ ih =>
    rcases List.mem_append.1 hc with hc | hc
    · exact .inr ⟨i, List.mem_cons_self, hc⟩
    · exact (ih hc).imp_right fun ⟨j, hj, hc⟩ => ⟨j, .tail _ hj, hc⟩

theorem Woven.mono {P' : α → Prop} (hP : ∀ c, P c → P' c) (h : Woven P w is s) :
    Woven P' w is s := by
  induction h with
  | nil => exact .nil
  | char hc _ ih => exact .char (hP _ hc) ih
  | word hne _ ih => exact .word hne ih

end Rewrite
