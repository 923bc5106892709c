import ImpiAgent.Containers.Seccomp

/-!
# What the browser's profile lets through

The profile allows what the one it is derived from allows (`judged_of_upstream`), and beside it
`clone` and `unshare` for the namespaces a browser needs alone (`judged_patched`): every other call
is judged as before (`patch_effect`). A profile that was patched is not patched again.
-/

namespace Seccomp

variable {profile patched : Profile} {rule : Rule} {box : Container} {call : Call} {action : Action}

/-! ## Masks -/

theorem mask_split (flags : Nat) :
    flags &&& upstreamMask = 0 ↔ flags &&& relaxedMask = 0 ∧ flags &&& chromeNeeds = 0 := by
  have hor : upstreamMask = relaxedMask ||| chromeNeeds := by decide
  rw [hor, Nat.and_or_distrib_left, Nat.or_eq_zero_iff]

theorem relaxed_ne : relaxedMask ≠ upstreamMask := by decide

/-! ## One rule -/

@[simp] theorem Rule.patch_names (rule : Rule) : rule.patch.names = rule.names := by
  unfold Rule.patch
  split <;> rfl

@[simp] theorem Rule.patch_action (rule : Rule) : rule.patch.action = rule.action := by
  unfold Rule.patch
  split <;> rfl

theorem Rule.patch_applies (rule : Rule) (box : Container) :
    rule.patch.Applies box ↔ rule.Applies box := by
  unfold Rule.patch
  split <;> rfl

theorem isUpstream_iff {arg : Arg} :
    arg.isUpstream = true ↔ arg.op = .maskedEq ∧ arg.value = upstreamMask := by
  rw [Arg.isUpstream, Bool.and_eq_true, decide_eq_true_eq, decide_eq_true_eq]

theorem Arg.patch_matches {arg : Arg} (h0 : arg.isUpstream = true → arg.valueTwo = 0)
    (h : arg.Matches call) : arg.patch.Matches call := by
  unfold Arg.patch
  split
  · next hup =>
    have hzero := h0 hup
    obtain ⟨hop, hvalue⟩ := isUpstream_iff.1 hup
    unfold Arg.Matches at h ⊢
    rw [hop] at h ⊢
    simp only [hvalue, hzero] at h ⊢
    exact ((mask_split _).1 h).1
  · exact h

/-- What matches only now asks for a namespace it may have. -/
theorem Arg.matches_of_patch {arg : Arg} (h0 : arg.isUpstream = true → arg.valueTwo = 0)
    (h : arg.patch.Matches call) :
    arg.Matches call ∨ arg.isUpstream = true ∧ Browsers (call.args arg.index) := by
  unfold Arg.patch at h
  split at h
  · next hup =>
    have hzero := h0 hup
    obtain ⟨hop, hvalue⟩ := isUpstream_iff.1 hup
    unfold Arg.Matches at h ⊢
    simp only [hop, hvalue, hzero] at h ⊢
    by_cases hneeds : call.args arg.index &&& chromeNeeds = 0
    · exact .inl ((mask_split _).2 ⟨h, hneeds⟩)
    · exact .inr ⟨hup, h, hneeds⟩
  · exact .inl h

theorem Rule.Judges.patch (h0 : "clone" ∈ rule.names → ∀ arg ∈ rule.args,
    arg.isUpstream = true → arg.valueTwo = 0) (h : rule.Judges box call) :
    rule.patch.Judges box call := by
  refine ⟨(rule.patch_applies box).2 h.applies, by rw [Rule.patch_names]; exact h.named, ?_⟩
  unfold Rule.patch
  split
  · exact h.matched
  · next hclone =>
    intro arg' ha'
    obtain ⟨arg, ha, rfl⟩ := List.mem_map.1 ha'
    exact Arg.patch_matches (h0 (not_not.1 hclone) arg ha) (h.matched arg ha)

theorem Rule.judges_of_patch (h0 : "clone" ∈ rule.names → ∀ arg ∈ rule.args,
    arg.isUpstream = true → arg.valueTwo = 0) (h : rule.patch.Judges box call) :
    rule.Judges box call ∨
      rule.Clones box call ∧
        ∃ arg ∈ rule.args, arg.isUpstream = true ∧ Browsers (call.args arg.index) := by
  have happlies := (rule.patch_applies box).1 h.applies
  have hnamed : call.name ∈ rule.names := by simpa using h.named
  by_cases hclone : "clone" ∈ rule.names
  · have hargs : rule.patch.args = rule.args.map Arg.patch := by
      rw [Rule.patch, if_neg (not_not.2 hclone)]
    have hmatched := h.matched
    rw [hargs, List.forall_mem_map] at hmatched
    by_cases hall : ∀ arg ∈ rule.args, arg.Matches call
    · exact .inl ⟨happlies, hnamed, hall⟩
    · push Not at hall
      obtain ⟨arg, ha, hno⟩ := hall
      exact .inr ⟨⟨hclone, happlies, hnamed⟩, arg, ha,
        (Arg.matches_of_patch (h0 hclone arg ha) (hmatched arg ha)).resolve_left hno⟩
  · have hsame : rule.patch = rule := if_pos hclone
    exact .inl (hsame ▸ h)

/-! ## The profile -/

theorem patch_some (h : patch profile = some patched) :
    (profile.syscalls.map Rule.patched).sum = 2 ∧ patched =
      { profile with syscalls := profile.syscalls.map Rule.patch ++ [unshareRule] } := by
  unfold patch at h
  split at h
  · cases h
  · next hsum => exact ⟨not_not.1 hsum, (Option.some.inj h).symm⟩

theorem judges_unshare_iff : unshareRule.Judges box call ↔ Unshares box call := by
  have happlies : unshareRule.Applies box ↔ "CAP_SYS_ADMIN" ∉ box.caps := by
    simp [Rule.Applies, unshareRule]
  have hmatched : (∀ arg ∈ unshareRule.args, arg.Matches call) ↔
      call.args 0 &&& relaxedMask = 0 := by
    simp [unshareRule, Arg.Matches]
  have hnamed : call.name ∈ unshareRule.names ↔ call.name = "unshare" := List.mem_singleton
  constructor
  · intro h
    exact ⟨hnamed.1 h.named, happlies.1 h.applies, hmatched.1 h.matched⟩
  · intro h
    exact ⟨happlies.2 h.unprivileged, hnamed.2 h.named, hmatched.2 h.flags⟩

theorem judged_patched {rules : List Rule} {default : Action} :
    Profile.Judged ⟨default, rules.map Rule.patch ++ [unshareRule]⟩ box call action ↔
      (∃ rule ∈ rules, rule.patch.Judges box call ∧ rule.action = action) ∨
        Unshares box call ∧ action = .allow := by
  unfold Profile.Judged
  simp only [List.mem_append, List.mem_map, List.mem_singleton, or_and_right, exists_or]
  refine or_congr ⟨?_, ?_⟩ ⟨?_, ?_⟩
  · rintro ⟨_, ⟨rule, hr, rfl⟩, hj, ha⟩
    exact ⟨rule, hr, hj, by rwa [Rule.patch_action] at ha⟩
  · rintro ⟨rule, hr, hj, ha⟩
    exact ⟨_, ⟨rule, hr, rfl⟩, hj, by rwa [Rule.patch_action]⟩
  · rintro ⟨_, rfl, hj, ha⟩
    exact ⟨judges_unshare_iff.1 hj, ha.symm⟩
  · rintro ⟨hu, ha⟩
    exact ⟨_, rfl, judges_unshare_iff.2 hu, ha.symm⟩

theorem Rule.Clones.patch_judges (h : rule.Clones box call)
    (hall : ∀ arg ∈ rule.args, arg.isUpstream = true ∧ call.args arg.index &&& relaxedMask = 0)
    (h0 : ∀ arg ∈ rule.args, arg.isUpstream = true → arg.valueTwo = 0) :
    rule.patch.Judges box call := by
  refine ⟨(rule.patch_applies box).2 h.applies, by rw [Rule.patch_names]; exact h.named, ?_⟩
  rw [Rule.patch, if_neg (not_not.2 h.clone)]
  intro arg' ha'
  obtain ⟨arg, ha, rfl⟩ := List.mem_map.1 ha'
  obtain ⟨hup, hflags⟩ := hall arg ha
  have hzero := h0 arg ha hup
  rw [Arg.patch, if_pos hup]
  unfold Arg.Matches
  simp only [(isUpstream_iff.1 hup).1, hzero]
  exact hflags

/-- No masked condition is left that could be patched. -/
theorem Rule.patched_patch (rule : Rule) : rule.patch.patched = 0 := by
  unfold Rule.patched
  rw [Rule.patch_names]
  split
  · rfl
  · next hclone =>
    rw [Rule.patch, if_neg hclone, List.countP_eq_zero]
    intro arg' ha'
    obtain ⟨arg, ha, rfl⟩ := List.mem_map.1 ha'
    unfold Arg.patch
    split
    · rw [isUpstream_iff]
      exact fun h => relaxed_ne h.2
    · assumption

/-- The derived profile lets through what the other does, and the namespaces a browser needs. -/
theorem patch_relaxes (hup : profile.Upstream) (h : patch profile = some patched) :
    Relaxes profile patched := by
  obtain ⟨-, rfl⟩ := patch_some h
  refine ⟨fun box call action hj => ?_, fun box call action hj => ?_,
    fun box call rule hr hc hall => ?_, fun box call hu => ?_, rfl, ?_⟩
  · obtain ⟨rule, hr, hj, ha⟩ := hj
    exact judged_patched.2 (.inl ⟨rule, hr, hj.patch (hup rule hr), ha⟩)
  · rcases judged_patched.1 hj with ⟨rule, hr, hj, ha⟩ | hu
    · rcases rule.judges_of_patch (hup rule hr) hj with hj | ⟨hc, harg⟩
      · exact .inl ⟨rule, hr, hj, ha⟩
      · exact .inr (.inl ⟨rule, hr, hc, ha, harg⟩)
    · exact .inr (.inr hu)
  · exact judged_patched.2 (.inl ⟨rule, hr, hc.patch_judges hall (hup rule hr hc.clone), rfl⟩)
  · exact judged_patched.2 (.inr ⟨hu, rfl⟩)
  · have hnone : ∀ n ∈ (profile.syscalls.map Rule.patch ++ [unshareRule]).map Rule.patched,
        n = 0 := by
      rw [List.map_append, List.map_map, List.forall_mem_append, List.forall_mem_map]
      exact ⟨fun rule _ => rule.patched_patch, by decide⟩
    have hsum := List.sum_eq_zero_iff_forall_eq_nat.2 hnone
    rw [patch, if_pos (by rw [hsum]; decide)]

namespace Sample

/-- `clone`, as two kinds of machines order its arguments. -/
def containers : Profile where
  defaultAction := .errno (some 1)
  syscalls := [
    ⟨["read"], .allow, [], ⟨[], [], none⟩, ⟨[], [], none⟩⟩,
    ⟨["clone"], .allow, [⟨0, upstreamMask, 0, .maskedEq⟩], ⟨[], [], none⟩, ⟨[], ["s390x"], none⟩⟩,
    ⟨["clone"], .allow, [⟨1, upstreamMask, 0, .maskedEq⟩], ⟨[], ["s390x"], none⟩, ⟨[], [], none⟩⟩]

def browser : Profile where
  defaultAction := .errno (some 1)
  syscalls := [
    ⟨["read"], .allow, [], ⟨[], [], none⟩, ⟨[], [], none⟩⟩,
    ⟨["clone"], .allow, [⟨0, 234881024, 0, .maskedEq⟩], ⟨[], [], none⟩, ⟨[], ["s390x"], none⟩⟩,
    ⟨["clone"], .allow, [⟨1, 234881024, 0, .maskedEq⟩], ⟨[], ["s390x"], none⟩, ⟨[], [], none⟩⟩,
    ⟨["unshare"], .allow, [⟨0, 234881024, 0, .maskedEq⟩], ⟨[], [], none⟩,
      ⟨["CAP_SYS_ADMIN"], [], none⟩⟩]

end Sample

theorem patch_relaxes_sample : Relaxes Sample.containers Sample.browser :=
  patch_relaxes (by unfold Profile.Upstream; decide) (by decide)

end Seccomp
