import ImpiAgent.Profiles.Proof.Entitled

/-!
# What several people share

`shared_entitlement` intersects the entries of its members as they are written; what an entry stands
for is looked up later (`Tools.declared`). So what is shared never goes beyond what each member may use
(`stands_of_shared`), and it is all of that exactly if the members spell each tool they all may use in
one way (`joint_iff`). The order of the members is of no consequence but to the order of the names
(`shared_perm`).
-/

namespace Entitled

open Tools

variable {r : Registry} {e : Entitlement} {es es' : List Entitlement} {n entry : String}

/-! ## What an entitlement allows -/

/-- The entry names the tool, or its family. -/
def Covers (r : Registry) (entry n : String) : Prop :=
  if isFamily entry then n ∈ r.names ∧ entry.toList.dropLast <+: n.toList else n = entry

/-- What an entitlement expands to: every tool, where it names none. -/
def Entitlement.Stands (r : Registry) (e : Entitlement) (n : String) : Prop :=
  ∀ l, e.tools = some l → n ∈ declared r l

/-- Every member that names tools has the entry. -/
def Common (es : List Entitlement) (entry : String) : Prop :=
  ∀ e ∈ es, ∀ l, e.tools = some l → entry ∈ l

/-- What is shared expands to what every member expands to. -/
def Joint (r : Registry) (es : List Entitlement) : Prop :=
  ∀ n, (sharedEntitlement es).Stands r n ↔ ∀ e ∈ es, e.Stands r n

/-- The same entitlement, but for the order of its names. -/
structure Same (e e' : Entitlement) : Prop where
  restricts : e.tools = none ↔ e'.tools = none
  tools : ∀ l l', e.tools = some l → e'.tools = some l' → ∀ t, t ∈ l ↔ t ∈ l'
  instructions : e.instructions = e'.instructions
  deferred : ∀ t, t ∈ e.deferred ↔ t ∈ e'.deferred

/-- A tool that every member may use is covered by an entry all those that name tools have. -/
def SpeltTogether (r : Registry) (es : List Entitlement) : Prop :=
  ∀ n, (∀ e ∈ es, ∀ l, e.tools = some l → ∃ entry ∈ l, Covers r entry n) →
    (∀ e ∈ es, e.tools = none) ∨ ∃ entry, Common es entry ∧ Covers r entry n

theorem mem_declared_entry : n ∈ declared r [entry] ↔ Covers r entry n := by
  unfold Covers
  by_cases hf : isFamily entry = true
  · have hs : "__*".toList.isSuffixOf entry.toList = true := hf
    rw [if_pos hf, declared_eq, List.foldl_cons, List.foldl_nil, declareStep, if_pos hs,
      List.nil_append, List.mem_filter]
    simp
  · rw [if_neg hf, mem_declared_singleton (by simpa using hf)]

theorem stands_iff : e.Stands r n ↔ ∀ l, e.tools = some l → ∃ entry ∈ l, Covers r entry n := by
  unfold Entitlement.Stands
  refine forall₂_congr fun l _ => ?_
  rw [mem_declared]
  simp only [mem_declared_entry]

/-! ## The intersection -/

theorem shared_none_iff : (sharedEntitlement es).tools = none ↔ ∀ e ∈ es, e.tools = none := by
  refine ⟨shared_tools_none, fun h => ?_⟩
  have hnil : es.filterMap (·.tools) = [] := List.filterMap_eq_nil_iff.2 h
  unfold sharedEntitlement
  dsimp only
  rw [hnil]

/-- What is shared is what some entry common to the members covers. -/
theorem stands_shared : (sharedEntitlement es).Stands r n ↔
    (∀ e ∈ es, e.tools = none) ∨ ∃ entry, Common es entry ∧ Covers r entry n := by
  rw [stands_iff]
  cases hs : (sharedEntitlement es).tools with
  | none => exact iff_of_true nofun (.inl (shared_none_iff.1 hs))
  | some l =>
    have hrestricts : ¬∀ e ∈ es, e.tools = none := fun h => nomatch hs.symm.trans (shared_none_iff.2 h)
    rw [or_iff_right hrestricts]
    constructor
    · intro h
      obtain ⟨entry, hm, hc⟩ := h l rfl
      exact ⟨entry, (mem_shared hs).1 hm, hc⟩
    · rintro ⟨entry, hcommon, hc⟩ l' hl
      cases hl
      exact ⟨entry, (mem_shared hs).2 hcommon, hc⟩

/-- What is shared is what every member may use. -/
theorem stands_of_shared (h : (sharedEntitlement es).Stands r n) : ∀ e ∈ es, e.Stands r n := by
  intro e he
  rw [stands_iff]
  intro l hl
  obtain hnone | ⟨entry, hcommon, hc⟩ := stands_shared.1 h
  · exact nomatch hl.symm.trans (hnone e he)
  · exact ⟨entry, hcommon e he l hl, hc⟩

theorem joint_iff_spelt : Joint r es ↔ SpeltTogether r es := by
  constructor
  · intro h n hall
    exact stands_shared.1 ((h n).2 fun e he => stands_iff.2 (hall e he))
  · intro h n
    refine ⟨stands_of_shared, fun hall => stands_shared.2 (h n fun e he => ?_)⟩
    exact stands_iff.1 (hall e he)

/-- Members that name no family spell a tool in one way only. -/
theorem spelt_of_plain (h : ∀ e ∈ es, ∀ l, e.tools = some l → ∀ entry ∈ l, isFamily entry = false) :
    SpeltTogether r es := by
  intro n hall
  have hplain : ∀ e ∈ es, ∀ l, e.tools = some l → n ∈ l := by
    intro e he l hl
    obtain ⟨entry, hm, hc⟩ := hall e he l hl
    rw [Covers, if_neg (by simp [h e he l hl entry hm])] at hc
    exact hc ▸ hm
  refine Classical.or_iff_not_imp_left.2 fun hsome => ⟨n, hplain, ?_⟩
  have hmem : ∃ e ∈ es, ∃ l, e.tools = some l := by
    simpa [Option.eq_none_iff_forall_ne_some] using hsome
  obtain ⟨e, he, l, hl⟩ := hmem
  rw [Covers, if_neg (by simp [h e he l hl n (hplain e he l hl)])]

/-! ## The order of the members -/

theorem shared_instructions {text : String} (hne : text ≠ "") :
    (sharedEntitlement es).instructions = text ↔ es ≠ [] ∧ ∀ e ∈ es, e.instructions = text := by
  unfold sharedEntitlement
  cases es with
  | nil => simp [hne.symm]
  | cons e others =>
    dsimp only
    by_cases hall : (others.all fun o => o.instructions = e.instructions) = true
    · rw [if_pos hall]
      have hsame : ∀ o ∈ others, o.instructions = e.instructions := by simpa using hall
      refine ⟨fun h => ⟨nofun, List.forall_mem_cons.2 ⟨h, fun o ho => (hsame o ho).trans h⟩⟩,
        fun h => h.2 e List.mem_cons_self⟩
    · rw [if_neg hall]
      refine iff_of_false hne.symm fun h => hall ?_
      have := h.2
      simp_all

theorem shared_perm (h : es.Perm es') : Same (sharedEntitlement es) (sharedEntitlement es') where
  restricts := by
    rw [shared_none_iff, shared_none_iff]
    exact forall_congr' fun e => by rw [h.mem_iff]
  tools l l' hl hl' t := by
    rw [mem_shared hl, mem_shared hl']
    exact forall_congr' fun e => by rw [h.mem_iff]
  instructions := by
    have htext : ∀ text : String, text ≠ "" → ((sharedEntitlement es).instructions = text ↔
        (sharedEntitlement es').instructions = text) := by
      intro text hne
      rw [shared_instructions hne, shared_instructions hne]
      refine and_congr ?_ (forall_congr' fun e => by rw [h.mem_iff])
      exact not_congr ⟨fun he => (he ▸ h).nil_eq.symm, fun he => (he ▸ h).eq_nil⟩
    by_cases hne : (sharedEntitlement es).instructions = ""
    · by_cases hne' : (sharedEntitlement es').instructions = ""
      · rw [hne, hne']
      · exact (htext _ hne').2 rfl
    · exact ((htext _ hne).1 rfl).symm
  deferred t := by
    change t ∈ distinct (es.flatMap (·.deferred)) ↔ t ∈ distinct (es'.flatMap (·.deferred))
    rw [mem_distinct, mem_distinct, List.mem_flatMap, List.mem_flatMap]
    exact exists_congr fun e => by rw [h.mem_iff]

/-- What several people share expands to what each of them may use, in whatever order they come,
exactly if each tool they all may use is covered by one entry that they have in common. -/
theorem joint_iff : (Joint r es ∧ ∀ es', es.Perm es' →
    Joint r es' ∧ Same (sharedEntitlement es) (sharedEntitlement es')) ↔ SpeltTogether r es := by
  refine ⟨fun h => joint_iff_spelt.1 h.1, fun h => ?_⟩
  have hj := joint_iff_spelt.2 h
  refine ⟨hj, fun es' hp => ⟨fun n => ?_, shared_perm hp⟩⟩
  have hsame : (sharedEntitlement es').Stands r n ↔ (sharedEntitlement es).Stands r n := by
    rw [stands_shared, stands_shared]
    refine or_congr (forall_congr' fun e => by rw [hp.mem_iff]) (exists_congr fun entry => ?_)
    exact and_congr_left fun _ => forall_congr' fun e => by rw [hp.mem_iff]
  rw [hsame, hj n]
  exact forall_congr' fun e => by rw [hp.mem_iff]

namespace Sample

def pinned : Registry := [⟨"mcp__git__read", "", "{}", ∅, false, false, false, false⟩]

/-- One person's answer names a server's tools whole, the other's names one of them. -/
def mixed : List Entitlement :=
  [⟨some ["mcp__git__*"], "", []⟩, ⟨some ["mcp__git__read"], "", []⟩]

end Sample

/-- Two people who both may use a tool share none of it. -/
theorem joint_lost : (∀ e ∈ Sample.mixed, e.Stands Sample.pinned "mcp__git__read") ∧
    (sharedEntitlement Sample.mixed).tools = some [] ∧ ¬Joint Sample.pinned Sample.mixed := by
  have hall : ∀ e ∈ Sample.mixed, e.Stands Sample.pinned "mcp__git__read" := by
    refine List.forall_mem_cons.2 ⟨fun l hl => ?_, List.forall_mem_cons.2 ⟨fun l hl => ?_, nofun⟩⟩ <;>
      cases hl
    · decide
    · decide
  refine ⟨hall, by decide, fun h => ?_⟩
  have hmem := (h "mcp__git__read").2 hall [] (by decide)
  exact absurd hmem List.not_mem_nil

end Entitled
