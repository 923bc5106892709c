import ImpiAgent.Lib.Sha256
import Mathlib.Data.List.DropRight
import Mathlib.Data.List.Infix

/-!
# Session ids

`derive_runtime_session_id` of `store/base.py`, on texts of code points: a pair spelled safely is
its own id (`Spelled`), any other is `readable` with a digest after it, and a lone surrogate makes
the digest raise.

`derived_safe` is what an id is made of. Two pairs share an id where the separator falls elsewhere
in the same text (`Shifted`, `joined_inj`), where one is spelled like the other's id (`Mimics`), or
where two digests agree; `separate_iff` is that there is no other way.
-/

namespace SessionIds

abbrev Str := List Nat

/-- A text the source writes out. -/
def str (s : String) : Str := s.toList.map Char.toNat

/-- An agent and a conversation. -/
structure Pair where
  agent : Str
  conversationId : Str
  deriving DecidableEq

/-- `[A-Za-z0-9._-]`. -/
def safe (c : Nat) : Bool :=
  65 ≤ c && c ≤ 90 || 97 ≤ c && c ≤ 122 || 48 ≤ c && c ≤ 57 || c = 46 || c = 95 || c = 45

/-- A character of `"-._"`. -/
def edge (c : Nat) : Bool := c = 45 || c = 46 || c = 95

def hyphen : Nat := 45

/-- `f"{agent}--{conversation_id}"`. -/
def Pair.joined (p : Pair) : Str := p.agent ++ hyphen :: hyphen :: p.conversationId

/-- `str.strip("-._")`. -/
def strip (s : Str) : Str := (s.dropWhile edge).rdropWhile edge

def cleaned (raw : Str) : Str := strip (raw.map fun c => if safe c then c else hyphen)

/-- `cleaned or 'session'`. -/
def readable (raw : Str) : Str := if cleaned raw = [] then str "session" else cleaned raw

def digestChars : Nat := 12

/-- `hashlib.sha256(raw.encode()).hexdigest()[:_DIGEST_CHARS]`. -/
def digest (raw : Str) : Option Str :=
  (Sha256.encode raw).map fun bytes => (Sha256.hexdigest bytes).take digestChars

/-- `derive_runtime_session_id`, `none` where it raises. -/
def deriveRuntimeSessionId (p : Pair) : Option Str :=
  let raw := p.joined
  if cleaned raw = raw then some (cleaned raw)
  else (digest raw).map fun digest => readable raw ++ hyphen :: digest

variable {p q : Pair} {raw s : Str}

/-- The id is the pair itself. -/
def Spelled (p : Pair) : Prop := cleaned p.joined = p.joined

instance (p : Pair) : Decidable (Spelled p) := inferInstanceAs (Decidable (_ = _))

/-- No lone surrogate. -/
def Written (p : Pair) : Prop := ∀ c ∈ p.agent ++ p.conversationId, Sha256.surrogate c = false

instance (p : Pair) : Decidable (Written p) := inferInstanceAs (Decidable (∀ _ ∈ _, _))

/-- The separator falls later in the same text: a hyphen of the conversation ends the agent's name,
or the name goes on past a separator of the conversation's. -/
def Shifted (p q : Pair) : Prop :=
  q.agent = p.agent ++ [hyphen] ∧ p.conversationId = hyphen :: q.conversationId ∨
    ∃ t, q.agent = p.agent ++ hyphen :: hyphen :: t ∧
      p.conversationId = t ++ hyphen :: hyphen :: q.conversationId

/-- `p` is spelled safely, `q` is not, and `p` reads as `q` cleaned with its digest. -/
def Mimics (p q : Pair) : Prop :=
  Spelled p ∧ ¬ Spelled q ∧
    ∃ d, digest q.joined = some d ∧ p.joined = readable q.joined ++ hyphen :: d

/-- The digests of two different texts agree. -/
def DigestsCollide (p q : Pair) : Prop :=
  p.joined ≠ q.joined ∧ digest p.joined = digest q.joined

/-- Both pairs have an id that is not empty and of the safe alphabet; those of different pairs
differ, unless neither is the pair itself and the digests collide. -/
def Separate (p q : Pair) : Prop :=
  (∃ i, deriveRuntimeSessionId p = some i ∧ i ≠ [] ∧ ∀ c ∈ i, safe c) ∧
  (∃ i, deriveRuntimeSessionId q = some i ∧ i ≠ [] ∧ ∀ c ∈ i, safe c) ∧
  (p ≠ q → deriveRuntimeSessionId p = deriveRuntimeSessionId q →
    ¬ Spelled p ∧ ¬ Spelled q ∧ DigestsCollide p q)

/-! ## What an id is made of -/

theorem mem_of_mem_strip {c : Nat} (h : c ∈ strip s) : c ∈ s :=
  (List.dropWhile_sublist edge).subset ((List.rdropWhile_prefix edge _).subset h)

theorem safe_of_mem_cleaned {c : Nat} (h : c ∈ cleaned raw) : safe c := by
  obtain ⟨d, -, rfl⟩ := List.mem_map.1 (mem_of_mem_strip h)
  split
  · assumption
  · rfl

theorem safe_of_isHex {c : Nat} (h : Sha256.isHex c) : safe c := by
  simp only [Sha256.isHex, safe, Bool.or_eq_true, Bool.and_eq_true, decide_eq_true_eq] at h ⊢
  omega

theorem surrogate_of_safe {c : Nat} (h : safe c) : Sha256.surrogate c = false := by
  simp only [safe, Sha256.surrogate, Bool.or_eq_true, Bool.and_eq_true, decide_eq_true_eq,
    Bool.and_eq_false_iff, decide_eq_false_iff_not] at h ⊢
  omega

theorem readable_ne_nil (raw : Str) : readable raw ≠ [] := by
  unfold readable
  split
  · decide
  · assumption

theorem safe_of_mem_readable {c : Nat} (h : c ∈ readable raw) : safe c := by
  unfold readable at h
  split at h
  · exact List.all_eq_true.1 (by decide : (str "session").all safe) c h
  · exact safe_of_mem_cleaned h

theorem digest_isSome : (digest raw).isSome ↔ ∀ c ∈ raw, Sha256.surrogate c = false := by
  rw [digest, Option.isSome_map, Sha256.encode_isSome]

theorem digest_length {d : Str} (h : digest raw = some d) : d.length = digestChars := by
  obtain ⟨bytes, -, rfl⟩ := Option.map_eq_some_iff.1 h
  simp [Sha256.hexdigest_length, digestChars]

theorem safe_of_mem_digest {d : Str} {c : Nat} (h : digest raw = some d) (hc : c ∈ d) : safe c := by
  obtain ⟨bytes, -, rfl⟩ := Option.map_eq_some_iff.1 h
  exact safe_of_isHex (Sha256.isHex_of_mem (List.mem_of_mem_take hc))

theorem written_iff : Written p ↔ ∀ c ∈ p.joined, Sha256.surrogate c = false := by
  have hyph : Sha256.surrogate hyphen = false := rfl
  simp only [Written, Pair.joined, List.mem_append, List.mem_cons]
  constructor
  · rintro h c (hc | rfl | rfl | hc)
    exacts [h c (.inl hc), hyph, hyph, h c (.inr hc)]
  · rintro h c (hc | hc)
    exacts [h c (.inl hc), h c (.inr (.inr (.inr hc)))]

theorem Spelled.written (h : Spelled p) : Written p :=
  written_iff.2 fun _ hc => surrogate_of_safe (safe_of_mem_cleaned (h.symm ▸ hc))

theorem derive_spelled (h : Spelled p) : deriveRuntimeSessionId p = some p.joined :=
  (if_pos h).trans (congrArg some h)

theorem derive_coerced (h : ¬ Spelled p) :
    deriveRuntimeSessionId p = (digest p.joined).map (readable p.joined ++ hyphen :: ·) :=
  if_neg h

/-- An id is not empty and of the safe alphabet, and there is one where no surrogate stands. -/
theorem derived_safe : (∃ i, deriveRuntimeSessionId p = some i ∧ i ≠ [] ∧ ∀ c ∈ i, safe c) ↔
    Written p := by
  by_cases hp : Spelled p
  · refine iff_of_true ⟨p.joined, derive_spelled hp, by simp [Pair.joined], fun c hc => ?_⟩
      hp.written
    exact safe_of_mem_cleaned (hp.symm ▸ hc)
  · rw [derive_coerced hp, written_iff, ← digest_isSome]
    constructor
    · rintro ⟨i, hi, -⟩
      rw [← Option.isSome_map, hi]
      rfl
    · intro h
      obtain ⟨d, hd⟩ := Option.isSome_iff_exists.1 h
      refine ⟨_, congrArg (Option.map _) hd, by simp, fun c hc => ?_⟩
      rw [List.mem_append, List.mem_cons] at hc
      rcases hc with hc | rfl | hc
      · exact safe_of_mem_readable hc
      · rfl
      · exact safe_of_mem_digest hd hc

/-! ## Which pairs share one -/

/-- Where one of two names of the same joined text goes on past the other. -/
theorem shifted_of_append {t : Str} (ht : t ≠ []) (ha : q.agent = p.agent ++ t)
    (hc : hyphen :: hyphen :: p.conversationId = t ++ hyphen :: hyphen :: q.conversationId) :
    Shifted p q := by
  match t, ht with
  | [x], _ =>
    simp only [List.singleton_append, List.cons.injEq] at hc
    obtain ⟨rfl, -, hc⟩ := hc
    exact .inl ⟨ha, hc⟩
  | x :: y :: t, _ =>
    simp only [List.cons_append, List.cons.injEq] at hc
    obtain ⟨rfl, rfl, hc⟩ := hc
    exact .inr ⟨t, ha, hc⟩

/-- Different pairs make one text where the separator falls at another place in it. -/
theorem joined_inj : p.joined = q.joined ↔ p = q ∨ Shifted p q ∨ Shifted q p := by
  constructor
  · intro h
    obtain ⟨a, c⟩ := p
    obtain ⟨a', c'⟩ := q
    rcases List.append_eq_append_iff.1 h with ⟨t, rfl, ht⟩ | ⟨t, rfl, ht⟩ <;>
      rcases eq_or_ne t [] with rfl | hne
    · simp_all
    · exact .inr (.inl (shifted_of_append hne rfl ht))
    · simp_all
    · exact .inr (.inr (shifted_of_append hne rfl ht))
  · have shifted : ∀ {p q : Pair}, Shifted p q → p.joined = q.joined := by
      rintro ⟨a, c⟩ ⟨a', c'⟩ (⟨ha, hc⟩ | ⟨t, ha, hc⟩) <;> simp_all [Pair.joined]
    rintro (rfl | h | h)
    · rfl
    · exact shifted h
    · exact (shifted h).symm

theorem Shifted.ne (h : Shifted p q) : p ≠ q := by
  rintro rfl
  rcases h with ⟨h, -⟩ | ⟨t, h, -⟩ <;> simpa using congrArg List.length h

theorem Mimics.ne (h : Mimics p q) : p ≠ q := by
  rintro rfl
  exact h.2.1 h.1

/-- The id is one of the joined text. -/
theorem derive_joined (h : p.joined = q.joined) :
    deriveRuntimeSessionId p = deriveRuntimeSessionId q := by
  unfold deriveRuntimeSessionId
  rw [h]

/-- A spelled pair has the id of another where it is the same text, or reads as its digest does. -/
theorem shared_spelled (hp : Spelled p) (hq : Written q) :
    deriveRuntimeSessionId p = deriveRuntimeSessionId q ↔ p.joined = q.joined ∨ Mimics p q := by
  rw [derive_spelled hp]
  by_cases h : Spelled q
  · rw [derive_spelled h, Option.some_inj]
    exact ⟨.inl, fun hpq => hpq.resolve_right fun hm => hm.2.1 h⟩
  · obtain ⟨d, hd⟩ := Option.isSome_iff_exists.1 (digest_isSome.2 (written_iff.1 hq))
    rw [derive_coerced h, hd, Option.map_some, Option.some_inj]
    constructor
    · exact fun he => .inr ⟨hp, h, d, hd, he⟩
    · rintro (he | ⟨-, -, e, he, hm⟩)
      · exact absurd (show cleaned q.joined = q.joined from he ▸ hp) h
      · rw [hd] at he
        exact Option.some_inj.1 he ▸ hm

/-- Two coerced pairs share an id only where their digests agree. -/
theorem shared_coerced (hp : ¬ Spelled p) (hq : ¬ Spelled q) (hw : Written p)
    (h : deriveRuntimeSessionId p = deriveRuntimeSessionId q) :
    digest p.joined = digest q.joined := by
  rw [derive_coerced hp, derive_coerced hq] at h
  obtain ⟨d, hd⟩ := Option.isSome_iff_exists.1 (digest_isSome.2 (written_iff.1 hw))
  rw [hd, Option.map_some] at h
  obtain ⟨e, he, h⟩ := Option.map_eq_some_iff.1 h.symm
  rw [hd, he]
  have hlen : (hyphen :: e).length = (hyphen :: d).length := by
    simp [digest_length hd, digest_length he]
  exact congrArg some (List.cons.inj (List.append_inj_right' h hlen)).2.symm

/-- When two pairs have ids as the derivation promises them: neither has a lone surrogate, the
separator does not fall elsewhere in the same text, and neither is spelled as the other's name and
digest. -/
theorem separate_iff : Separate p q ↔ Written p ∧ Written q ∧ ¬ Shifted p q ∧ ¬ Shifted q p ∧
    ¬ Mimics p q ∧ ¬ Mimics q p := by
  rw [Separate, derived_safe, derived_safe]
  refine and_congr_right fun hp => and_congr_right fun hq => ⟨fun h => ?_, ?_⟩
  · have shift : ¬ Shifted p q ∧ ¬ Shifted q p := by
      rw [← not_or]
      intro hs
      have he : p.joined = q.joined := joined_inj.2 (.inr hs)
      have hne : p ≠ q := hs.elim Shifted.ne fun hs => hs.ne.symm
      exact (h hne (derive_joined he)).2.2.1 he
    exact ⟨shift.1, shift.2,
      fun hm => (h hm.ne ((shared_spelled hm.1 hq).2 (.inr hm))).1 hm.1,
      fun hm => (h hm.ne.symm ((shared_spelled hm.1 hp).2 (.inr hm)).symm).2.1 hm.1⟩
  · rintro ⟨hpq, hqp, mpq, mqp⟩ hne he
    have hj : p.joined ≠ q.joined := fun hj => by
      rcases joined_inj.1 hj with h | h | h
      exacts [hne h, hpq h, hqp h]
    have sp : ¬ Spelled p := fun hs => ((shared_spelled hs hq).1 he).elim hj mpq
    have sq : ¬ Spelled q := fun hs => ((shared_spelled hs hp).1 he.symm).elim (hj ·.symm) mqp
    exact ⟨sp, sq, hj, shared_coerced sp sq hp he⟩

namespace Sample

def pair (agent conversationId : String) : Pair := ⟨str agent, str conversationId⟩

end Sample

/-- Agent `a` in `b--c` and agent `a--b` in `c` share an id, and so do agent `a` in `b@` and in the
conversation spelled as that one's id. -/
theorem shared_ids :
    ¬ Separate (Sample.pair "a" "b--c") (Sample.pair "a--b" "c") ∧
    ¬ Separate (Sample.pair "a" "b-95796a616724") (Sample.pair "a" "b@") := by
  constructor
  · intro h
    exact (h.2.2 (by decide) (by decide)).1 (by decide)
  · intro h
    exact (h.2.2 (by decide) (by decide +kernel)).1 (by decide)

end SessionIds
