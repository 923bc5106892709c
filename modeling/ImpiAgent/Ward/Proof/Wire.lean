import ImpiAgent.Ward.Wire
import Mathlib.Data.List.TakeWhile

/-!
# References to secrets

What `parseRef` accepts (`parse_ref_iff`), and what a reference is printed as: it names one secret
and one field, and is read back as itself but where a line's end is lost (`references_round`).
-/

namespace Ward

open Text

/-! ## Cutting a text -/

variable {sep : Char} {text a b : String}

/-- A text begins with what meets `p`, up to where something does not. -/
theorem takeWhile_run {p : Char → Bool} {run tail : Str} (h : ∀ c ∈ run, p c = true)
    (ht : ∀ c ∈ tail.head?, p c = false) : (run ++ tail).takeWhile p = run := by
  rw [List.takeWhile_append_of_pos h]
  cases tail with
  | nil => exact List.append_nil run
  | cons c tail =>
    rw [List.takeWhile_cons_of_neg (by simp [ht c rfl]), List.append_nil]

theorem dropWhile_run {p : Char → Bool} {run tail : Str} (h : ∀ c ∈ run, p c = true)
    (ht : ∀ c ∈ tail.head?, p c = false) : (run ++ tail).dropWhile p = tail := by
  rw [List.dropWhile_append_of_pos h]
  cases tail with
  | nil => rfl
  | cons c tail => rw [List.dropWhile_cons_of_neg (by simp [ht c rfl])]

theorem cut_some_iff : cut sep text = (a, some b) ↔
    sep ∉ a.toList ∧ text.toList = a.toList ++ sep :: b.toList := by
  unfold cut
  constructor
  · intro h
    obtain ⟨ha, hb⟩ := Prod.mk.inj h
    obtain ⟨rest, hrest, rfl⟩ := Option.map_eq_some_iff.1 hb
    have htake : a.toList = text.toList.takeWhile (· ≠ sep) := by
      rw [← ha, String.toList_ofList]
    refine ⟨fun hm => ?_, ?_⟩
    · rw [htake] at hm
      simpa using List.mem_takeWhile_imp hm
    · cases hd : text.toList.dropWhile (· ≠ sep) with
      | nil =>
        rw [hd] at hrest
        cases hrest
      | cons c rest' =>
        have hc : c = sep := by
          have hhead := List.head?_dropWhile_not (· ≠ sep) text.toList
          rw [hd] at hhead
          simpa using hhead
        rw [hd] at hrest
        cases hrest
        rw [String.toList_ofList, ← hc, htake, ← hd, List.takeWhile_append_dropWhile]
  · rintro ⟨hno, htext⟩
    have hrun : ∀ c ∈ a.toList, decide (c ≠ sep) = true := fun c hc => by
      simpa using fun h : c = sep => hno (h ▸ hc)
    have hend : ∀ c ∈ (sep :: b.toList).head?, decide (c ≠ sep) = false := by simp
    dsimp only
    rw [htext, takeWhile_run hrun hend, dropWhile_run hrun hend]
    simp

theorem cut_none_iff : cut sep text = (a, none) ↔ sep ∉ text.toList ∧ a = text := by
  unfold cut
  constructor
  · intro h
    obtain ⟨ha, hb⟩ := Prod.mk.inj h
    have hd : text.toList.dropWhile (· ≠ sep) = [] := by
      cases hd : text.toList.dropWhile (· ≠ sep) with
      | nil => rfl
      | cons c rest =>
        rw [hd] at hb
        cases hb
    have hall := List.dropWhile_eq_nil_iff.1 hd
    refine ⟨fun hm => by simpa using hall sep hm, ?_⟩
    rw [← ha, List.takeWhile_eq_self_iff.2 hall, String.ofList_toList]
  · rintro ⟨hno, rfl⟩
    have hall : ∀ c ∈ a.toList, decide (c ≠ sep) = true := fun c hc => by
      simpa using fun h : c = sep => hno (h ▸ hc)
    dsimp only
    rw [List.takeWhile_eq_self_iff.2 hall, List.dropWhile_eq_nil_iff.2 hall]
    simp

/-- Where a text was cut, it is cut in that way alone. -/
theorem cut_cases (sep : Char) (text : String) :
    (∃ a b, cut sep text = (a, some b)) ∨ cut sep text = (text, none) := by
  cases h : (cut sep text).2 with
  | some b => exact .inl ⟨(cut sep text).1, b, Prod.ext rfl h⟩
  | none =>
    have hcut : cut sep text = ((cut sep text).1, none) := Prod.ext rfl h
    exact .inr (hcut.trans (by rw [(cut_none_iff.1 hcut).2]))

/-! ## Names and fields -/

theorem atEnd_iff {s : Str} : atEnd s = true ↔ s = [] ∨ s = ['\n'] := by
  simp [atEnd]

theorem isNameChar_of_isLower {c : Char} (h : isLower c = true) : isNameChar c = true := by
  simp [isNameChar, h]

theorem isFieldChar_of_isNameChar {c : Char} (h : isNameChar c = true) : isFieldChar c = true := by
  simp [isFieldChar, h]

theorem fieldChar_cases {c : Char} (h : isFieldChar c = true) :
    45 ≤ c.toNat ∧ c.toNat ≤ 46 ∨ 48 ≤ c.toNat ∧ c.toNat ≤ 57 ∨ 65 ≤ c.toNat ∧ c.toNat ≤ 90 ∨
      95 ≤ c.toNat ∧ c.toNat ≤ 122 := by
  have hle (a b : Char) : a ≤ b ↔ a.toNat ≤ b.toNat := Iff.rfl
  simp only [isFieldChar, isNameChar, isLower, Bool.or_eq_true, Bool.and_eq_true,
    decide_eq_true_eq, hle] at h
  rcases h with ((((⟨h, h'⟩ | ⟨h, h'⟩) | rfl) | rfl) | rfl) | ⟨h, h'⟩
  · exact .inr (.inr (.inr ⟨Nat.le_trans (by decide) h, h'⟩))
  · exact .inr (.inl ⟨h, h'⟩)
  · decide
  · decide
  · decide
  · exact .inr (.inr (.inl ⟨h, h'⟩))

/-- What is in a field is no space, nor what names and values are set apart by. -/
theorem fieldChar_plain {c : Char} (h : isFieldChar c = true) :
    isSpace c = false ∧ c ≠ '#' ∧ c ≠ '\n' := by
  have hc := fieldChar_cases h
  refine ⟨?_, ?_, ?_⟩
  · simp only [isSpace, Bool.or_eq_false_iff, Bool.and_eq_false_iff, decide_eq_false_iff_not]
    omega
  · rintro rfl
    revert hc
    decide
  · rintro rfl
    revert hc
    decide

theorem newline_not_fieldChar : isFieldChar '\n' = false := rfl

theorem atEnd_head {p : Char → Bool} {tail : Str} (h : atEnd tail = true) (hp : p '\n' = false) :
    ∀ c ∈ tail.head?, p c = false := by
  rcases atEnd_iff.1 h with rfl | rfl
  · exact fun c hc => by cases hc
  · exact fun c hc => by
      cases hc
      exact hp

theorem isName_iff {s : Str} : isName s = true ↔ ∃ c run tail, s = c :: (run ++ tail) ∧
    isLower c = true ∧ (∀ c ∈ run, isNameChar c = true) ∧ run.length ≤ 63 ∧ atEnd tail = true := by
  constructor
  · intro h
    cases s with
    | nil => cases h
    | cons c s =>
      simp only [isName, Bool.and_eq_true, decide_eq_true_eq] at h
      obtain ⟨⟨hc, hlen⟩, hend⟩ := h
      exact ⟨c, _, _, congrArg (c :: ·) List.takeWhile_append_dropWhile.symm, hc,
        fun _ => List.mem_takeWhile_imp, hlen, hend⟩
  · rintro ⟨c, run, tail, rfl, hc, hrun, hlen, hend⟩
    have hhead := atEnd_head hend (p := isNameChar) rfl
    simp only [isName, Bool.and_eq_true, decide_eq_true_eq, takeWhile_run hrun hhead,
      dropWhile_run hrun hhead]
    exact ⟨⟨hc, hlen⟩, hend⟩

theorem isField_iff {s : Str} : isField s = true ↔ ∃ run tail, s = run ++ tail ∧
    (∀ c ∈ run, isFieldChar c = true) ∧ 1 ≤ run.length ∧ run.length ≤ 64 ∧ atEnd tail = true := by
  constructor
  · intro h
    simp only [isField, Bool.and_eq_true, decide_eq_true_eq] at h
    obtain ⟨⟨hne, hlen⟩, hend⟩ := h
    exact ⟨_, _, List.takeWhile_append_dropWhile.symm, fun _ => List.mem_takeWhile_imp, hne, hlen,
      hend⟩
  · rintro ⟨run, tail, rfl, hrun, hne, hlen, hend⟩
    have hhead := atEnd_head hend newline_not_fieldChar
    simp only [isField, Bool.and_eq_true, decide_eq_true_eq, takeWhile_run hrun hhead,
      dropWhile_run hrun hhead]
    exact ⟨⟨hne, hlen⟩, hend⟩

/-- A name is a field too. -/
theorem isField_of_isName {s : Str} (h : isName s = true) : isField s = true := by
  obtain ⟨c, run, tail, rfl, hc, hrun, hlen, hend⟩ := isName_iff.1 h
  refine isField_iff.2 ⟨c :: run, tail, rfl, ?_, Nat.succ_le_succ (Nat.zero_le _),
    Nat.succ_le_succ hlen, hend⟩
  rw [List.forall_mem_cons]
  exact ⟨isFieldChar_of_isNameChar (isNameChar_of_isLower hc),
    fun c h => isFieldChar_of_isNameChar (hrun c h)⟩

/-- A field is not empty, and at most its last character is a newline, the others plain. -/
theorem isField_last {s : Str} (h : isField s = true) : ∃ c ∈ s.getLast?,
    isSpace c = true → c = '\n' := by
  obtain ⟨run, tail, rfl, hrun, hne, -, hend⟩ := isField_iff.1 h
  rcases atEnd_iff.1 hend with rfl | rfl
  · cases hl : run.getLast? with
    | none =>
      rw [List.getLast?_eq_none_iff.1 hl] at hne
      cases hne
    | some c =>
      refine ⟨c, by rw [List.append_nil, hl]; rfl, fun hs => ?_⟩
      rw [(fieldChar_plain (hrun c (List.mem_of_getLast? hl))).1] at hs
      cases hs
  · exact ⟨'\n', by rw [List.getLast?_append]; rfl, fun _ => rfl⟩

theorem isField_no_hash {s : Str} (h : isField s = true) : '#' ∉ s := by
  obtain ⟨run, tail, rfl, hrun, -, -, hend⟩ := isField_iff.1 h
  intro hm
  rcases List.mem_append.1 hm with hm | hm
  · exact (fieldChar_plain (hrun _ hm)).2.1 rfl
  · rcases atEnd_iff.1 hend with rfl | rfl
    · cases hm
    · revert hm
      decide

/-! ## Reading a reference -/

/-- What follows the scheme of a reference: the name, and the field unless it is the default one. -/
def SecretRef.Spelled (ref : SecretRef) (rest : Str) : Prop :=
  rest = ref.name.toList ++ '#' :: ref.field.toList ∨
    rest = ref.name.toList ∧ ref.field = "value"

theorem prefix_schemes {scheme scheme' text : Str} (h : scheme ∈ schemes) (h' : scheme' ∈ schemes)
    (hp : scheme <+: text) (hp' : scheme' <+: text) : scheme = scheme' := by
  have hone : ∀ a ∈ schemes, ∀ b ∈ schemes, a <+: b → a = b := by decide
  rcases List.prefix_or_prefix_of_prefix hp hp' with hab | hba
  · exact hone _ h _ h' hab
  · exact (hone _ h' _ h hba).symm

theorem prefix_of_find {scheme text : Str}
    (h : schemes.find? (·.isPrefixOf text) = some scheme) : scheme ∈ schemes ∧ scheme <+: text :=
  ⟨List.mem_of_find?_eq_some h,
    List.isPrefixOf_iff_prefix.1 (List.find?_some (p := fun s : Str => s.isPrefixOf text) h)⟩

theorem find_scheme {scheme rest : Str} (h : scheme ∈ schemes) :
    schemes.find? (·.isPrefixOf (scheme ++ rest)) = some scheme := by
  have hp : scheme <+: scheme ++ rest := List.prefix_append _ _
  cases hf : schemes.find? (·.isPrefixOf (scheme ++ rest)) with
  | none =>
    exact absurd (List.isPrefixOf_iff_prefix.2 hp) (by simpa using List.find?_eq_none.1 hf _ h)
  | some scheme' =>
    obtain ⟨hm, hp'⟩ := prefix_of_find hf
    rw [prefix_schemes h hm hp hp']

theorem cut_spelled_iff {rest : Str} {ref : SecretRef} (hname : '#' ∉ ref.name.toList) :
    (cut '#' (.ofList rest)).1 = ref.name ∧ (cut '#' (.ofList rest)).2.getD "value" = ref.field ↔
      ref.Spelled rest := by
  constructor
  · rintro ⟨hn, hf⟩
    rcases cut_cases '#' (.ofList rest) with ⟨a, b, h⟩ | h
    · rw [h] at hn hf
      obtain ⟨-, ht⟩ := cut_some_iff.1 h
      rw [String.toList_ofList] at ht
      exact .inl (by rw [ht, ← hn, ← hf]; rfl)
    · rw [h] at hn hf
      exact .inr ⟨by rw [← hn, String.toList_ofList], hf.symm⟩
  · rintro (h | ⟨h, hv⟩)
    · have hc : cut '#' (.ofList rest) = (ref.name, some ref.field) :=
        cut_some_iff.2 ⟨hname, by rw [String.toList_ofList, h]⟩
      rw [hc]
      exact ⟨rfl, rfl⟩
    · have hc : cut '#' (.ofList rest) = (ref.name, none) := by
        refine cut_none_iff.2 ⟨by rwa [String.toList_ofList, h], ?_⟩
        rw [h, String.ofList_toList]
      rw [hc, hv]
      exact ⟨rfl, rfl⟩

/-- What is accepted: a scheme, a name, and a field that may be left out where it is the default. -/
theorem parse_ref_iff {raw : String} {ref : SecretRef} : parseRef raw = .ok ref ↔
    isName ref.name.toList = true ∧ isField ref.field.toList = true ∧
      ∃ scheme ∈ schemes, ∃ rest, (strip raw).toList = scheme ++ rest ∧ ref.Spelled rest := by
  constructor
  · intro h
    unfold parseRef at h
    dsimp only at h
    split at h
    · cases h
    · next scheme hfind =>
      obtain ⟨hscheme, rest, hrest⟩ := prefix_of_find hfind
      rw [← hrest, List.drop_left] at h
      split at h
      · cases h
      · next hname =>
        split at h
        · cases h
        · next hfield =>
          cases h
          rw [not_not] at hname hfield
          have hno := isField_no_hash (isField_of_isName hname)
          refine ⟨hname, hfield, scheme, hscheme, rest, hrest.symm, ?_⟩
          exact (cut_spelled_iff (by exact hno)).1 ⟨rfl, rfl⟩
  · rintro ⟨hname, hfield, scheme, hscheme, rest, hrest, hspelled⟩
    obtain ⟨hn, hf⟩ := (cut_spelled_iff (isField_no_hash (isField_of_isName hname))).2 hspelled
    unfold parseRef
    simp only [hrest, find_scheme hscheme, List.drop_left, hn, hf, hname, hfield, not_true,
      if_false]

/-! ## A printed reference -/

/-- What is printed after the scheme. -/
def SecretRef.rest (ref : SecretRef) : Str :=
  ref.name.toList ++ if ref.field ≠ "value" then '#' :: ref.field.toList else []

theorem SecretRef.str_toList (ref : SecretRef) : ref.str.toList = Text.str "vault://" ++ ref.rest := by
  unfold SecretRef.str SecretRef.rest
  split <;> simp [Text.str]

theorem SecretRef.spelled_rest (ref : SecretRef) : ref.Spelled ref.rest := by
  unfold SecretRef.rest
  split
  · exact .inl rfl
  · next h => exact .inr ⟨List.append_nil _, not_not.1 h⟩

/-- A reference is printed as short as it can be spelled. -/
theorem SecretRef.rest_le {ref : SecretRef} {rest : Str} (h : ref.Spelled rest) :
    ref.rest.length ≤ rest.length := by
  unfold SecretRef.rest
  rcases h with rfl | ⟨rfl, hv⟩
  · split <;> simp
  · simp [hv]

theorem rstrip_concat (s : Str) (c : Char) :
    rstrip (s ++ [c]) = if isSpace c = true then rstrip s else s ++ [c] := by
  unfold rstrip
  rw [List.reverse_append, List.reverse_singleton, List.singleton_append]
  split
  · next h => rw [List.dropWhile_cons_of_pos h]
  · next h => rw [List.dropWhile_cons_of_neg h, List.reverse_cons, List.reverse_reverse]

theorem length_rstrip_le (s : Str) : (rstrip s).length ≤ s.length := by
  rw [rstrip, List.length_reverse]
  exact (List.length_dropWhile_le _ _).trans (List.length_reverse ..).le

theorem SecretRef.strip_str (ref : SecretRef) : (strip ref.str).toList = rstrip ref.str.toList := by
  have hl : lstrip ref.str.toList = ref.str.toList := by
    rw [ref.str_toList]
    rfl
  rw [strip, String.toList_ofList, hl]

theorem SecretRef.rest_last {ref : SecretRef} (hname : isName ref.name.toList = true)
    (hfield : isField ref.field.toList = true) : ∃ s c, ref.str.toList = s ++ [c] ∧
      (isSpace c = true → c = '\n') := by
  obtain ⟨c, hc, hspace⟩ : ∃ c ∈ ref.rest.getLast?, isSpace c = true → c = '\n' := by
    unfold SecretRef.rest
    split
    · obtain ⟨c, hc, h⟩ := isField_last hfield
      have hlast : ('#' :: ref.field.toList).getLast? = some c := by
        rw [List.getLast?_cons, Option.mem_def.1 hc]
        rfl
      refine ⟨c, ?_, h⟩
      rw [List.getLast?_append, hlast]
      rfl
    · rw [List.append_nil]
      exact isField_last (isField_of_isName hname)
  have hlast : ref.str.toList.getLast? = some c := by
    rw [ref.str_toList, List.getLast?_append, Option.mem_def.1 hc]
    rfl
  obtain ⟨s, hs⟩ := List.getLast?_eq_some_iff.1 hlast
  exact ⟨s, c, hs, hspace⟩

/-- A printed reference is read back as itself, unless it is none or a newline ends it. -/
theorem parse_str_iff (ref : SecretRef) : parseRef ref.str = .ok ref ↔
    isName ref.name.toList = true ∧ isField ref.field.toList = true ∧
      ref.str.toList.getLast? ≠ some '\n' := by
  rw [parse_ref_iff]
  refine and_congr_right fun hname => and_congr_right fun hfield => ?_
  obtain ⟨s, c, hs, hspace⟩ := SecretRef.rest_last hname hfield
  have hlast : ref.str.toList.getLast? = some c := by
    rw [hs, List.getLast?_append]
    rfl
  rw [ref.strip_str, hlast]
  constructor
  · rintro ⟨scheme, hscheme, rest, hrest, hspelled⟩ hnl
    obtain rfl : c = '\n' := Option.some.inj hnl
    -- what is read is shorter than what was printed
    have hstripped : rstrip ref.str.toList = rstrip s := by
      rw [hs, rstrip_concat, if_pos (by decide)]
    have hlen := length_rstrip_le s
    have htotal := congrArg List.length hs
    rw [hstripped] at hrest
    rw [hrest, List.length_append] at hlen
    rw [ref.str_toList, List.length_append, List.length_append, List.length_singleton] at htotal
    have hle := SecretRef.rest_le hspelled
    have hshort : ∀ scheme ∈ schemes, (str "vault://").length ≤ scheme.length := by decide
    have := hshort scheme hscheme
    omega
  · intro hnl
    have hsp : ¬isSpace c = true := fun h => hnl (congrArg some (hspace h))
    rw [hs, rstrip_concat, if_neg hsp, ← hs]
    exact ⟨str "vault://", by decide, ref.rest, ref.str_toList, ref.spelled_rest⟩

/-- References print alike only where they are of one secret and one field of it. -/
theorem SecretRef.str_inj {ref ref' : SecretRef} (h : '#' ∉ ref.name.toList)
    (h' : '#' ∉ ref'.name.toList) (heq : ref.str = ref'.str) : ref = ref' := by
  have hrest : ref.rest = ref'.rest := by
    have := congrArg String.toList heq
    rw [ref.str_toList, ref'.str_toList] at this
    exact List.append_cancel_left this
  obtain ⟨hn, hf⟩ := (cut_spelled_iff h).2 ref.spelled_rest
  obtain ⟨hn', hf'⟩ := (cut_spelled_iff h').2 ref'.spelled_rest
  rw [hrest] at hn hf
  cases ref
  cases ref'
  cases hn.symm.trans hn'
  cases hf.symm.trans hf'
  rfl

theorem strip_subset (raw : String) : (strip raw).toList ⊆ raw.toList := by
  intro c hc
  rw [strip, String.toList_ofList, rstrip, List.mem_reverse] at hc
  exact (List.dropWhile_sublist _).subset (List.mem_reverse.1 ((List.dropWhile_sublist _).subset hc))

theorem SecretRef.newline_mem {ref : SecretRef} {rest : Str} (hspelled : ref.Spelled rest)
    (h : ref.str.toList.getLast? = some '\n') : '\n' ∈ rest := by
  have hm : '\n' ∈ ref.str.toList := List.mem_of_getLast? h
  rw [ref.str_toList, SecretRef.rest] at hm
  rcases List.mem_append.1 hm with hm | hm
  · exact absurd hm (by decide)
  rcases hspelled with rfl | ⟨rfl, hv⟩
  · split at hm
    · exact hm
    · rw [List.append_nil] at hm
      exact List.mem_append_left _ hm
  · rwa [if_neg (not_not.2 hv), List.append_nil] at hm

/-- What is printed of an accepted reference is of one secret and one field alone, and it is read
back as that reference unless the name of a default field ends in a newline, as none does that was
read from one line. -/
theorem references_round (ref : SecretRef) :
    (parseRef ref.str = .ok ref ↔ isName ref.name.toList = true ∧ isField ref.field.toList = true ∧
      ref.str.toList.getLast? ≠ some '\n') ∧
    ∀ raw, parseRef raw = .ok ref → ('\n' ∉ raw.toList → parseRef ref.str = .ok ref) ∧
      ∀ raw' ref', parseRef raw' = .ok ref' → ref'.str = ref.str → ref' = ref := by
  refine ⟨parse_str_iff ref, fun raw h => ?_⟩
  obtain ⟨hname, hfield, scheme, -, rest, hrest, hspelled⟩ := parse_ref_iff.1 h
  constructor
  · intro hline
    refine (parse_str_iff ref).2 ⟨hname, hfield, fun hnl => hline (strip_subset raw ?_)⟩
    rw [hrest]
    exact List.mem_append_right _ (SecretRef.newline_mem hspelled hnl)
  · intro raw' ref' h' heq
    obtain ⟨hname', -⟩ := parse_ref_iff.1 h'
    exact SecretRef.str_inj (isField_no_hash (isField_of_isName hname'))
      (isField_no_hash (isField_of_isName hname)) heq

end Ward
