import ImpiAgent.Runtimes.Repeats
import Mathlib.Tactic.NormNum

/-!
# What the loop guard refuses

`Sound`: how often a family was called is how many calls of the turn joined it (`times`), while it
is unchanged all its answers are the one it knows (`same`), and once it reached its limit unchanged
so many of its calls were answered and its repetition was refused (`refused`), of which every ban
comes (`bans`). Every fair step keeps it (`sound_next`), and it makes every verdict on a fair call
right (`Sound.right`), and on no other (`Sound.fair`, `refused_as_loops`).
-/

namespace Repeats

variable {g : Guard} {said : Said} {s s' : Session} {callId text : String} {u : Unicode}
  {l : Limits}

/-! ## The family of a call -/

theorem overlap_self (w : Finset String) : overlap w w = 1 := by
  rw [overlap, Finset.inter_self, max_self]
  split
  · rfl
  · rename_i h
    have hw : (w.card : ℚ) ≠ 0 := fun h0 => h ⟨by exact_mod_cast h0, by exact_mod_cast h0⟩
    exact div_self hw

theorem alike_self (said : Said) : Alike said said := by
  refine ⟨rfl, ?_⟩
  rw [overlap_self, similar]
  norm_num

namespace Guard

/-- The family of a call before the call joins it. -/
def entry (g : Guard) (said : Said) : Family :=
  (g.families[g.place said]?).getD ⟨said.1, said.2, 0, none, true⟩

theorem place_le (g : Guard) (said : Said) : g.place said ≤ g.families.length :=
  List.findIdx_le_length

theorem alike_entry (g : Guard) (said : Said) : Alike (g.entry said).said said := by
  rw [entry]
  by_cases h : g.place said < g.families.length
  · rw [List.getElem?_eq_getElem h, Option.getD_some]
    exact of_decide_eq_true (List.findIdx_getElem (w := h))
  · rw [List.getElem?_eq_none (Nat.le_of_not_lt h), Option.getD_none]
    exact alike_self said

theorem getElem?_joined (g : Guard) (said : Said) (j : Nat) : (g.joined said)[j]? =
    if j = g.place said then some { g.entry said with times := (g.entry said).times + 1 }
    else g.families[j]? := by
  rw [joined, List.getElem?_modify, entry]
  by_cases h : g.place said < g.families.length
  · rw [if_pos h]
    by_cases hj : j = g.place said
    · subst hj
      simp [h]
    · simp [hj, Ne.symm hj]
  · have hp : g.place said = g.families.length := by
      have := g.place_le said
      omega
    rw [if_neg h, hp]
    by_cases hj : j = g.families.length
    · subst hj
      simp
    · by_cases hlt : j < g.families.length
      · simp [hj, Ne.symm hj, List.getElem?_append_left hlt]
      · have hone : (g.families ++ [⟨said.1, said.2, 0, none, true⟩])[j]? = none :=
          List.getElem?_eq_none (by simp; omega)
        rw [hone, if_neg hj, List.getElem?_eq_none (Nat.le_of_not_lt hlt)]
        rfl

theorem length_joined (g : Guard) (said : Said) :
    (g.joined said).length = max g.families.length (g.place said + 1) := by
  rw [joined, List.length_modify]
  have := g.place_le said
  split
  · omega
  · simp
    omega

/-! ## A call -/

/-- What a call that joins its family does, `f` being the family then. -/
inductive Judged (g : Guard) (said : Said) (f : Family) : Option Refusal → List Said → Prop
  | left : ¬(g.limits.repeats ≠ 0 ∧ f.unchanged = true ∧ g.limits.repeats ≤ f.times) →
      Judged g said f none g.banned
  | repeated (exactly : Bool) : g.limits.repeats ≠ 0 → f.unchanged = true →
      f.times = g.limits.repeats → Judged g said f (some (.repeated f.times exactly)) g.banned
  | banned (exactly : Bool) : g.limits.repeats ≠ 0 → f.unchanged = true →
      g.limits.repeats < f.times →
      Judged g said f (some (.nowBanned f.times exactly)) (g.banned ++ [f.said])

/-- What a call does. -/
inductive Called (g : Guard) (said : Said) (callId : String) : Option Refusal → Guard → Prop
  | banned {b : Said} : b ∈ g.banned → Alike b said → Called g said callId (some .banned) g
  | spent : (∀ b ∈ g.banned, ¬Alike b said) → g.limits.calls ≠ 0 ∧ g.limits.calls ≤ g.calls + 1 →
      Called g said callId (some .spent) { g with calls := g.calls + 1 }
  | joined {r : Option Refusal} {banned : List Said} : g.Admits said →
      Judged g said { g.entry said with times := (g.entry said).times + 1 } r banned →
      Called g said callId r { g with
        calls := g.calls + 1
        families := g.joined said
        pending :=
          if callId = "" then g.pending else Dict.assign callId (g.place said) g.pending
        banned := banned }

theorem judge_called (h : g.Admits said) :
    Called g said callId (g.judge said callId).1 (g.judge said callId).2 := by
  have hf : (g.joined said)[g.place said]? =
      some { g.entry said with times := (g.entry said).times + 1 } := by
    rw [getElem?_joined, if_pos rfl]
  have htool : (g.entry said).tool = said.1 := (g.alike_entry said).1
  rw [judge, hf]
  dsimp only
  split
  · rename_i hc
    obtain ⟨hr, hu, hle⟩ := hc
    split
    · rename_i hlt
      rw [← htool]
      exact .joined h (.banned _ hr hu hlt)
    · exact .joined h (.repeated _ hr hu (by dsimp only at *; omega))
  · rename_i hc
    exact .joined h (.left hc)

theorem callSaid_called (g : Guard) (said : Said) (callId : String) :
    Called g said callId (g.callSaid said callId).1 (g.callSaid said callId).2 := by
  rw [callSaid]
  split
  · rename_i hb
    obtain ⟨b, hb, ha⟩ := List.any_eq_true.1 hb
    exact .banned hb (of_decide_eq_true ha)
  · rename_i hb
    have hnot : ∀ b ∈ g.banned, ¬Alike b said := fun b hmem ha =>
      hb (List.any_eq_true.2 ⟨b, hmem, decide_eq_true ha⟩)
    split
    · rename_i hs
      exact .spent hnot hs
    · rename_i hs
      exact judge_called ⟨hnot, hs⟩

end Guard

/-! ## The latest call of an id -/

@[simp] theorem hear_callId (text : String) (m : Made) : (m.hear text).callId = m.callId := by
  unfold Made.hear
  split <;> rfl

@[simp] theorem hear_family (text : String) (m : Made) : (m.hear text).family = m.family := by
  unfold Made.hear
  split <;> rfl

theorem hear_of_none {m : Made} (h : m.answer = none) (text : String) :
    m.hear text = { m with answer := some text } := by
  rw [Made.hear, h]
  rfl

theorem hear_of_some {m : Made} {a : String} (h : m.answer = some a) (text : String) :
    m.hear text = m := by
  rw [Made.hear, h]
  rfl

/-- A result answers the latest call of its id, or nothing. -/
theorem answerLatest_cases (text callId : String) (made : List Made) :
    (answerLatest text callId made = made ∧
      ∀ m ∈ made.find? (·.callId = callId), m.answer.isSome) ∨
    ∃ m pre post, made.find? (·.callId = callId) = some m ∧ m.answer = none ∧
      made = pre ++ m :: post ∧
      answerLatest text callId made = pre ++ { m with answer := some text } :: post := by
  induction made with
  | nil => exact .inl ⟨rfl, by simp⟩
  | cons m made ih =>
    by_cases hm : m.callId = callId
    · rw [answerLatest, if_pos hm, List.find?_cons_of_pos (by simpa using hm)]
      cases ha : m.answer with
      | none => exact .inr ⟨m, [], made, rfl, ha, rfl, by rw [hear_of_none ha]; rfl⟩
      | some a => exact .inl ⟨by rw [hear_of_some ha], by simp [ha]⟩
    · rw [answerLatest, if_neg hm, List.find?_cons_of_neg (by simpa using hm)]
      rcases ih with ⟨he, hall⟩ | ⟨m', pre, post, hf, ha, he, he'⟩
      · exact .inl ⟨by rw [he], hall⟩
      · exact .inr ⟨m', m :: pre, post, hf, ha, by rw [he, List.cons_append], by
          rw [he', List.cons_append]⟩

theorem find?_answerLatest (text callId id : String) (made : List Made) :
    (answerLatest text callId made).find? (·.callId = id) =
      if id = callId then (made.find? (·.callId = id)).map (Made.hear text)
      else made.find? (·.callId = id) := by
  induction made with
  | nil => simp [answerLatest]
  | cons m made ih =>
    by_cases hm : m.callId = callId
    · rw [answerLatest, if_pos hm]
      by_cases hid : id = callId
      · subst hid
        rw [if_pos rfl, List.find?_cons_of_pos (by simpa using hm),
          List.find?_cons_of_pos (by simpa using hm)]
        rfl
      · rw [if_neg hid, List.find?_cons_of_neg (by simpa [hm] using Ne.symm hid),
          List.find?_cons_of_neg (by simpa [hm] using Ne.symm hid)]
    · rw [answerLatest, if_neg hm]
      by_cases hid : m.callId = id
      · have hne : id ≠ callId := fun h => hm (hid.trans h)
        rw [List.find?_cons_of_pos (by simpa using hid), if_neg hne,
          List.find?_cons_of_pos (by simpa using hid)]
      · rw [List.find?_cons_of_neg (by simpa using hid), ih,
          List.find?_cons_of_neg (by simpa using hid)]

/-! ## What every fair step keeps -/

/-- The call is out: the latest of its id, and not answered. -/
def Session.Out (s : Session) (callId : String) (i : Nat) : Prop :=
  callId ≠ "" ∧ ∃ m ∈ s.made.find? (·.callId = callId), m.family = i ∧ m.answer = none

structure Sound (s : Session) : Prop where
  times : ∀ i f, s.guard.families[i]? = some f → f.times = s.made.countP (·.family = i)
  bound : ∀ m ∈ s.made, m.family < s.guard.families.length
  pending : ∀ id i, s.guard.pending.lookup id = some i ↔ s.Out id i
  same : ∀ i f, s.guard.families[i]? = some f → f.unchanged = true →
    ∀ a ∈ s.answers i, f.answer = some a
  bans : ∀ b ∈ s.guard.banned, b ∈ s.refused
  refused : ∀ i f, s.guard.families[i]? = some f → f.unchanged = true →
    s.guard.limits.repeats ≠ 0 → s.guard.limits.repeats ≤ f.times →
      f.said ∈ s.refused ∧ s.guard.limits.repeats ≤ (s.answers i).length + 1

theorem length_answers (s : Session) (i : Nat)
    (h : ∀ m ∈ s.made, m.family = i → m.answer.isSome) :
    (s.answers i).length = s.made.countP (·.family = i) := by
  rw [Session.answers, List.countP_eq_length_filter, List.length_filterMap_eq_countP,
    List.countP_eq_length]
  intro m hm
  obtain ⟨hm, hi⟩ := List.mem_filter.1 hm
  exact h m hm (of_decide_eq_true hi)

/-- Before the first call of a turn. -/
theorem sound_none {refused : List Said} {answered : List (String × Nat)} {calls : Nat}
    {banned : List Said} (h : ∀ b ∈ banned, b ∈ refused) :
    Sound ⟨⟨l, calls, [], [], answered, banned⟩, [], refused⟩ :=
  ⟨nofun, nofun, fun _ _ => ⟨nofun, fun ⟨_, _, hm, _⟩ => nomatch hm⟩, nofun, h, nofun⟩

namespace Sound

variable (h : Sound s)

include h

/-- No call is of a family that is not there. -/
theorem none_past {i : Nat} (hi : s.guard.families.length ≤ i) :
    s.made.countP (·.family = i) = 0 ∧ s.answers i = [] := by
  have hnot : ∀ m ∈ s.made, m.family ≠ i := fun m hm he => by
    have := h.bound m hm
    omega
  constructor
  · exact List.countP_eq_zero.2 fun m hm => by simpa using hnot m hm
  · rw [Session.answers, List.filter_eq_nil_iff.2 fun m hm => by simpa using hnot m hm]
    rfl

/-- What is known of a call's family, there or not. -/
theorem entry (said : Said) :
    (s.guard.entry said).times = s.made.countP (·.family = s.guard.place said) ∧
    ((s.guard.entry said).unchanged = true →
      ∀ a ∈ s.answers (s.guard.place said), (s.guard.entry said).answer = some a) := by
  rw [Guard.entry]
  by_cases hlt : s.guard.place said < s.guard.families.length
  · have hf := List.getElem?_eq_getElem hlt
    rw [hf, Option.getD_some]
    exact ⟨h.times _ _ hf, h.same _ _ hf⟩
  · have hnone := h.none_past (Nat.le_of_not_lt hlt)
    rw [List.getElem?_eq_none (Nat.le_of_not_lt hlt), Option.getD_none, hnone.1, hnone.2]
    exact ⟨rfl, by simp⟩

/-- A call that brings its family to the limit, or past it, finds so many earlier ones answered. -/
theorem reached (hset : s.Settled said) (hadm : s.guard.Admits said)
    (hu : (s.guard.entry said).unchanged = true) (h0 : s.guard.limits.repeats ≠ 0)
    (hle : s.guard.limits.repeats ≤ (s.guard.entry said).times + 1) :
    s.guard.limits.repeats ≤ (s.answers (s.guard.place said)).length + 1 ∧
      ((s.guard.limits.repeats ≤ (s.guard.entry said).times) →
        (s.guard.entry said).said ∈ s.refused) := by
  by_cases hlt : s.guard.place said < s.guard.families.length
  · have hf := List.getElem?_eq_getElem hlt
    have he : s.guard.entry said = s.guard.families[s.guard.place said] := by
      rw [Guard.entry, hf, Option.getD_some]
    rw [he] at hu hle ⊢
    by_cases hpast : s.guard.limits.repeats ≤ (s.guard.families[s.guard.place said]).times
    · obtain ⟨hmem, hlen⟩ := h.refused _ _ hf hu h0 hpast
      exact ⟨hlen, fun _ => hmem⟩
    · have hall := hset hadm _ hf hu (by omega)
      have hlen := length_answers s _ hall
      have ht := h.times _ _ hf
      exact ⟨by omega, fun hp => absurd hp hpast⟩
  · have ht := (h.entry said).1
    have hnone := h.none_past (Nat.le_of_not_lt hlt)
    rw [hnone.1] at ht
    exact ⟨by omega, fun hp => by omega⟩

/-- A call joins its family. -/
theorem join {banned refused : List Said} (callId : String)
    (hset : s.Settled said) (hadm : s.guard.Admits said) (hkeep : ∀ b ∈ s.refused, b ∈ refused)
    (hbans : ∀ b ∈ banned, b ∈ refused)
    (hown : (s.guard.entry said).unchanged = true → s.guard.limits.repeats ≠ 0 →
      s.guard.limits.repeats ≤ (s.guard.entry said).times + 1 →
        (s.guard.entry said).said ∈ refused) :
    Sound ⟨{ s.guard with
        calls := s.guard.calls + 1
        families := s.guard.joined said
        pending := if callId = "" then s.guard.pending
          else Dict.assign callId (s.guard.place said) s.guard.pending
        banned := banned }, ⟨s.guard.place said, callId, none⟩ :: s.made, refused⟩ := by
  have hans : ∀ i, Session.answers ⟨s.guard, ⟨s.guard.place said, callId, none⟩ :: s.made,
      refused⟩ i = s.answers i := by
    intro i
    simp only [Session.answers, List.filter_cons]
    split <;> simp
  have hentry := h.entry said
  refine ⟨fun i f hf => ?_, fun m hm => ?_, fun id i => ?_, fun i f hf hu a ha => ?_, hbans,
    fun i f hf hu h0 hle => ?_⟩
  · rw [Guard.getElem?_joined] at hf
    rw [List.countP_cons]
    split at hf
    · rename_i hi
      cases hf
      subst hi
      simp [hentry.1]
    · rename_i hi
      simp [h.times i f hf, Ne.symm hi]
  · simp only [Guard.length_joined]
    rcases List.mem_cons.1 hm with rfl | hm
    · exact (Nat.lt_succ_self _).trans_le (Nat.le_max_right ..)
    · exact (h.bound m hm).trans_le (Nat.le_max_left ..)
  · have hout := h.pending id i
    by_cases hid : id = callId
    · subst hid
      by_cases h0 : id = ""
      · subst h0
        simpa [Session.Out] using hout
      · simp [Session.Out, h0, Dict.lookup_assign, eq_comm]
    · have hp : (if callId = "" then s.guard.pending
          else Dict.assign callId (s.guard.place said) s.guard.pending).lookup id =
          s.guard.pending.lookup id := by
        split
        · rfl
        · rw [Dict.lookup_assign, if_neg hid]
      dsimp only
      rw [hp, hout, Session.Out, Session.Out,
        List.find?_cons_of_neg (by simpa using Ne.symm hid)]
  · have ha' : a ∈ s.answers i := by rw [← hans i]; exact ha
    dsimp only at hf
    rw [Guard.getElem?_joined] at hf
    split at hf
    · rename_i hi
      cases hf
      subst hi
      exact hentry.2 hu a ha'
    · exact h.same i f hf hu a ha'
  · have hlen : (Session.answers ⟨s.guard, ⟨s.guard.place said, callId, none⟩ :: s.made, refused⟩
        i).length = (s.answers i).length := by rw [hans i]
    dsimp only at hf hle h0
    rw [Guard.getElem?_joined] at hf
    split at hf
    · rename_i hi
      cases hf
      subst hi
      refine ⟨hown hu h0 hle, ?_⟩
      have := (h.reached hset hadm hu h0 hle).1
      exact this.trans_eq (congrArg (· + 1) hlen.symm)
    · obtain ⟨hmem, hl⟩ := h.refused i f hf hu h0 hle
      exact ⟨hkeep _ hmem, hl.trans_eq (congrArg (· + 1) hlen.symm)⟩

theorem call (hset : s.Settled said) (callId : String) : Sound (s.call said callId) := by
  have hc := Guard.callSaid_called s.guard said callId
  rw [Session.call]
  generalize s.guard.callSaid said callId = r at hc
  obtain ⟨r, g⟩ := r
  have hown : ((s.guard.joined said)[s.guard.place said]?.map Family.said).toList =
      [(s.guard.entry said).said] := by
    rw [Guard.getElem?_joined, if_pos rfl]
    rfl
  cases hc with
  | banned => exact h
  | spent => exact ⟨h.times, h.bound, h.pending, h.same, h.bans, h.refused⟩
  | joined hadm hj =>
    cases hj with
    | left hnot =>
      refine h.join callId hset hadm (fun b hb => hb) h.bans fun hu h0 hle => ?_
      exact absurd ⟨h0, hu, hle⟩ hnot
    | repeated =>
      dsimp only [Refusal.repetition, Option.any, joins]
      rw [hown]
      exact h.join callId hset hadm (fun b hb => List.mem_cons_of_mem _ hb)
        (fun b hb => List.mem_cons_of_mem _ (h.bans b hb)) fun _ _ _ => List.mem_cons_self
    | banned =>
      dsimp only [Refusal.repetition, Option.any, joins]
      rw [hown]
      refine h.join callId hset hadm (fun b hb => List.mem_cons_of_mem _ hb) (fun b hb => ?_)
        fun _ _ _ => List.mem_cons_self
      rcases List.mem_append.1 hb with hb | hb
      · exact List.mem_cons_of_mem _ (h.bans b hb)
      · rw [List.mem_singleton.1 hb]
        exact List.mem_cons_self

/-- The call that is out under an id is answered. -/
theorem answer {i : Nat} (hout : s.Out callId i) (text : String) :
    Sound { s with
      guard := { s.guard with
        pending := Dict.remove callId s.guard.pending
        families := s.guard.families.modify i (Family.hear text) }
      made := answerLatest text callId s.made } := by
  obtain ⟨h0, m, hm, rfl, hnone⟩ := hout
  rcases answerLatest_cases text callId s.made with ⟨-, hall⟩ | ⟨m', pre, post, hf, ha, he, he'⟩
  · have := hall m hm
    rw [hnone] at this
    cases this
  obtain rfl : m = m' := Option.some.inj ((Option.mem_def.1 hm).symm.trans hf)
  have hans : ∀ i, ∃ a b, s.answers i = a ++ b ∧
      Session.answers ⟨s.guard, answerLatest text callId s.made, s.refused⟩ i =
        a ++ (if m.family = i then [text] else []) ++ b := by
    intro i
    refine ⟨(pre.filter (·.family = i)).filterMap (·.answer),
      (post.filter (·.family = i)).filterMap (·.answer), ?_, ?_⟩
    · simp only [Session.answers, he, List.filter_append, List.filterMap_append, List.filter_cons]
      split <;> simp [ha]
    · simp only [Session.answers, he', List.filter_append, List.filterMap_append,
        List.filter_cons, decide_eq_true_eq]
      split <;> simp
  have hcount : ∀ i, (answerLatest text callId s.made).countP (·.family = i) =
      s.made.countP (·.family = i) := by
    intro i
    rw [he', he]
    simp [List.countP_append, List.countP_cons]
  have hhear : ∀ f : Family, (f.hear text).times = f.times ∧ (f.hear text).said = f.said ∧
      ((f.hear text).unchanged = true → f.unchanged = true ∧ (f.hear text).answer = some text ∧
        ∀ a, f.answer = some a → a = text) := by
    intro f
    unfold Family.hear
    cases hfa : f.answer with
    | none => exact ⟨rfl, rfl, fun hu => ⟨hu, rfl, nofun⟩⟩
    | some a =>
      by_cases hat : a = text
      · subst hat
        simp [hfa]
      · simp [hat, Family.said]
  refine ⟨fun i f hi => ?_, fun n hn => ?_, fun id i => ?_, fun i f hi hu a hmem => ?_, h.bans,
    fun i f hi hu hr hle => ?_⟩
  · dsimp only at hi ⊢
    rw [hcount]
    rw [List.getElem?_modify] at hi
    obtain ⟨f', hf', rfl⟩ := Option.map_eq_some_iff.1 hi
    rw [← h.times i f' hf']
    split
    · exact (hhear f').1
    · rfl
  · dsimp only at hn ⊢
    rw [List.length_modify]
    rw [he'] at hn
    rcases List.mem_append.1 hn with hn | hn
    · exact h.bound n (he ▸ List.mem_append_left _ hn)
    · rcases List.mem_cons.1 hn with rfl | hn
      · exact h.bound m (List.mem_of_find?_eq_some hf)
      · exact h.bound n (he ▸ List.mem_append_right _ (List.mem_cons_of_mem _ hn))
  · have hout := h.pending id i
    dsimp only
    rw [Dict.lookup_remove, Session.Out]
    dsimp only
    rw [find?_answerLatest]
    by_cases hid : id = callId
    · subst hid
      rw [if_pos rfl, if_pos rfl, hf, Option.map_some, hear_of_none ha]
      simp
    · rw [if_neg hid, if_neg hid]
      exact hout
  · obtain ⟨x, y, hxy, hxy'⟩ := hans i
    have hmem' : a ∈ s.answers i ∨ (m.family = i ∧ a = text) := by
      rw [hxy]
      have : a ∈ x ++ (if m.family = i then [text] else []) ++ y := hxy' ▸ hmem
      simp only [List.mem_append] at this ⊢
      rcases this with (hx | ht) | hy
      · exact .inl (.inl hx)
      · split at ht
        · rename_i hi'
          exact .inr ⟨hi', List.mem_singleton.1 ht⟩
        · cases ht
      · exact .inl (.inr hy)
    dsimp only at hi
    rw [List.getElem?_modify] at hi
    obtain ⟨f', hf', rfl⟩ := Option.map_eq_some_iff.1 hi
    split at hu
    · rename_i hi'
      obtain ⟨hu', hnow, hold⟩ := (hhear f').2.2 hu
      rw [if_pos hi', hnow]
      rcases hmem' with hmem' | ⟨-, rfl⟩
      · rw [hold a (h.same i f' hf' hu' a hmem')]
      · rfl
    · rename_i hi'
      rw [if_neg hi']
      rcases hmem' with hmem' | ⟨hi'', -⟩
      · exact h.same i f' hf' hu a hmem'
      · exact absurd hi'' hi'
  · obtain ⟨x, y, hxy, hxy'⟩ := hans i
    have hlen : (s.answers i).length ≤
        (Session.answers ⟨s.guard, answerLatest text callId s.made, s.refused⟩ i).length := by
      rw [hxy, hxy']
      simp only [List.length_append]
      omega
    dsimp only at hi hr hle
    rw [List.getElem?_modify] at hi
    obtain ⟨f', hf', rfl⟩ := Option.map_eq_some_iff.1 hi
    have hback : f'.unchanged = true ∧
        (if m.family = i then f'.hear text else f').times = f'.times ∧
        (if m.family = i then f'.hear text else f').said = f'.said := by
      split at hu
      · rename_i hi'
        simp [hi', (hhear f').1, (hhear f').2.1, ((hhear f').2.2 hu).1]
      · rename_i hi'
        simp [hi', hu]
    rw [hback.2.1] at hle
    obtain ⟨hmem, hl⟩ := h.refused i f' hf' hback.1 hr hle
    rw [hback.2.2]
    exact ⟨hmem, hl.trans (Nat.add_le_add_right hlen 1)⟩

theorem result (tool text callId : String) : Sound { s with
    guard := (s.guard.result tool text callId).2
    made := if callId = "" then s.made else answerLatest text callId s.made } := by
  have hheard : Sound { s with
      guard := s.guard.hear text callId
      made := if callId = "" then s.made else answerLatest text callId s.made } := by
    rw [Guard.hear]
    by_cases h0 : callId = ""
    · simpa only [h0, if_true] using h
    · simp only [h0, if_false]
      cases hl : s.guard.pending.lookup callId with
      | some i => exact h.answer ((h.pending callId i).1 hl) text
      | none =>
        rcases answerLatest_cases text callId s.made with ⟨he, -⟩ | ⟨m, -, -, hf, ha, -, -⟩
        · rw [he]
          exact h
        · have := (h.pending callId m.family).2 ⟨h0, m, hf, rfl, ha⟩
          rw [hl] at this
          cases this
  rw [Guard.result]
  dsimp only
  split
  · exact hheard
  · exact ⟨hheard.times, hheard.bound, hheard.pending, hheard.same, hheard.bans, hheard.refused⟩

end Sound

theorem sound_next {e : Event} (h : Sound s) (hf : Fair u s e) (hn : next u s e = some s') :
    Sound s' := by
  cases e with
  | startTurn =>
    cases hn
    exact sound_none h.bans
  | call tool input callId =>
    cases hn
    exact h.call hf.1 callId
  | result tool text callId =>
    cases hn
    exact h.result tool text callId

/-! ## Verdicts -/

theorem Sound.right (h : Sound s) (hset : s.Settled said) (hapart : s.Apart said)
    (callId : String) : s.Right said callId := by
  obtain ⟨r, g, hc, hrefusal⟩ : ∃ r g, s.guard.Called said callId r g ∧
      s.refusal said callId = r := ⟨_, _, s.guard.callSaid_called said callId, rfl⟩
  have hentry := h.entry said
  cases hc with
  | banned hb ha =>
    refine ⟨fun r hr hrep => ?_, fun a hma b hmb hne => ?_, fun r hr _ => ⟨_, h.bans _ hb, ha⟩⟩
    · cases hrefusal.symm.trans hr
      cases hrep
    · exact absurd ha (hapart ⟨a, hma, b, hmb, hne⟩ _ hb)
  | spent =>
    refine ⟨fun r hr hrep => ?_, fun _ _ _ _ _ => .inr hrefusal, fun r hr hban => ?_⟩
    · cases hrefusal.symm.trans hr
      cases hrep
    · cases hrefusal.symm.trans hr
      cases hban
  | joined hadm hj =>
    have hsame : (s.guard.entry said).unchanged = true → ∀ a ∈ s.answers (s.guard.place said),
        a = (s.guard.entry said).answer.getD "" := fun hu a ha => by rw [hentry.2 hu a ha]; rfl
    have hone : (s.guard.entry said).unchanged = true →
        ∀ a ∈ s.answers (s.guard.place said), ∀ b ∈ s.answers (s.guard.place said), a = b :=
      fun hu a ha b hb => (hsame hu a ha).trans (hsame hu b hb).symm
    cases hj with
    | left =>
      refine ⟨fun r hr _ => ?_, fun _ _ _ _ _ => .inl hrefusal, fun r hr _ => ?_⟩
      · cases hrefusal.symm.trans hr
      · cases hrefusal.symm.trans hr
    | repeated exactly h0 hu heq =>
      have hre := h.reached hset hadm hu h0 heq.ge
      refine ⟨fun r hr _ => ⟨hre.1, _, hsame hu⟩, fun a ha b hb hne => ?_, fun r hr hban => ?_⟩
      · exact absurd (hone hu a ha b hb) hne
      · cases hrefusal.symm.trans hr
        cases hban
    | banned exactly h0 hu hlt =>
      have hre := h.reached hset hadm hu h0 hlt.le
      refine ⟨fun r hr _ => ⟨hre.1, _, hsame hu⟩, fun a ha b hb hne => ?_, fun r hr _ => ?_⟩
      · exact absurd (hone hu a ha b hb) hne
      · exact ⟨_, hre.2 (Nat.le_of_lt_succ hlt), s.guard.alike_entry said⟩

theorem answers_lt {i : Nat} {m : Made} (hm : m ∈ s.made) (hi : m.family = i)
    (hnone : m.answer = none) : (s.answers i).length < s.made.countP (·.family = i) := by
  rw [Session.answers, List.countP_eq_length_filter, List.length_filterMap_eq_countP]
  refine lt_of_le_of_ne List.countP_le_length fun he => ?_
  have := List.countP_eq_length.1 he m (List.mem_filter.2 ⟨hm, decide_eq_true hi⟩)
  rw [hnone] at this
  cases this

/-- A call that comes too early at its family's limit is refused, and one alike to a banned call. -/
theorem Sound.fair (h : Sound s) (hr : s.Right said callId) : s.Settled said ∧ s.Apart said := by
  obtain ⟨r, g, hc, hrefusal⟩ : ∃ r g, s.guard.Called said callId r g ∧
      s.refusal said callId = r := ⟨_, _, s.guard.callSaid_called said callId, rfl⟩
  constructor
  · intro hadm f hf hu ht m hm hi
    by_contra hnone
    have he : s.guard.entry said = f := by
      rw [Guard.entry, Option.mem_def.1 hf]
      rfl
    have hlt := answers_lt hm hi (Option.not_isSome_iff_eq_none.1 hnone)
    have hcount := h.times _ _ hf
    cases hc with
    | banned hb ha => exact hadm.1 _ hb ha
    | spent _ hs => exact hadm.2 hs
    | joined _ hj =>
      rw [he] at hj
      cases hj with
      | left hnot => exact hnot ⟨by omega, hu, ht.ge⟩
      | repeated =>
        have := (hr.repeated _ hrefusal rfl).1
        omega
      | banned =>
        have := (hr.repeated _ hrefusal rfl).1
        omega
  · rintro ⟨a, ha, b, hb, hne⟩ c hc' halike
    have hban : s.refusal said callId = some .banned := by
      rw [Session.refusal, Guard.callSaid,
        if_pos (List.any_eq_true.2 ⟨c, hc', decide_eq_true halike⟩)]
    rcases hr.moved a ha b hb hne with hnone | hspent
    · cases hban.symm.trans hnone
    · cases hban.symm.trans hspent

/-- After every run of fair calls the verdict on a call is right if and only if the call is fair. -/
theorem refused_as_loops (h : (lts u l).Reach (Fair u) s) (tool : String) (input : Value)
    (callId : String) :
    s.Right (tool, words u input) callId ↔ Fair u s (.call tool input callId) := by
  have hs : Sound s := h.inv (fun s h0 => h0 ▸ sound_none nofun) fun _ _ _ => sound_next
  exact ⟨fun hr => hs.fair hr, fun hf => hs.right hf.1 hf.2 callId⟩

namespace Sample

/-- Letters and digits are of a word, and the texts are in lower case. -/
def latin : Unicode := ⟨id, fun c => c.isAlphanum⟩

/-- A tool is asked for twice at most with one answer. -/
def twice : Limits := ⟨2, 0, 0⟩

def ask : String → Event := .call "search" (.object [("q", .str "x")])

def asked : Said := ("search", words latin (.object [("q", .str "x")]))

end Sample

/-- A call, its answer, and the same call again, which is refused. -/
theorem refused_after_answer : ∃ s, (lts Sample.latin Sample.twice).Reach (Fair Sample.latin) s ∧
    s.refusal Sample.asked "c2" = some (.repeated 2 true) ∧ s.Right Sample.asked "c2" := by
  have hrun : ((lts Sample.latin Sample.twice).check (fun s e => decide (Fair Sample.latin s e))
      ⟨⟨Sample.twice, 0, [], [], [], []⟩, [], []⟩
      [Sample.ask "c1", .result "search" "none" "c1"]).any (fun s =>
        decide (s.refusal Sample.asked "c2" = some (.repeated 2 true) ∧
          Fair Sample.latin s (Sample.ask "c2"))) = true := by
    decide +kernel
  obtain ⟨s, hs, hd⟩ := (Option.any_eq_true ..).1 hrun
  obtain ⟨hr, hf⟩ := of_decide_eq_true hd
  have h : (lts Sample.latin Sample.twice).Reach (Fair Sample.latin) s :=
    Lts.reach_of_check (fun _ _ => of_decide_eq_true) rfl hs
  exact ⟨s, h, hr, (refused_as_loops h ..).2 hf⟩

/-- The same call is made twice at once: the second is refused, and nothing was answered. -/
theorem refused_unanswered : ¬∀ (u : Unicode) (l : Limits) (s : Session) (said : Said)
    (callId : String), (lts u l).Reach Lts.Any s → s.Right said callId := by
  intro hall
  have hrun : ((lts Sample.latin Sample.twice).check (fun _ _ => true)
      ⟨⟨Sample.twice, 0, [], [], [], []⟩, [], []⟩ [Sample.ask "c1"]).any (fun s =>
        decide (s.refusal Sample.asked "c2" = some (.repeated 2 true) ∧
          s.answers (s.guard.place Sample.asked) = [] ∧ s.guard.limits.repeats = 2)) = true := by
    decide +kernel
  obtain ⟨s, hs, hd⟩ := (Option.any_eq_true ..).1 hrun
  obtain ⟨hr, hnone, hl⟩ := of_decide_eq_true hd
  have h : (lts Sample.latin Sample.twice).Reach Lts.Any s :=
    Lts.reach_of_check (fun _ _ _ => trivial) rfl hs
  have hlen := ((hall _ _ s Sample.asked "c2" h).repeated _ hr rfl).1
  rw [hnone, hl] at hlen
  exact absurd hlen (by decide)

end Repeats
