import ImpiAgent.Containers.Sync

/-!
# What agents' containers have in common

A service holds what is its agent's own (`Own`) or may be had in common (`uses_cases`); two agents
have nothing of their own alike (`own_inj`), for a token is made once (`Minted.own`). So over any
runs of `sync` the agents share what is meant to be shared, and each host holds the token that the
engine looks up (`share_common`). Whatever a service names is declared (`declared`).
-/

namespace Containers

open Text (Str)

variable {mint : Nat → Str} {s s' : State} {d : Deployment} {a b : AgentBuild} {x y : Name}
  {r : Resource}

/-! ## An agent's own -/

def profilePath (x : Name) : Str := agentsMountSource ++ Text.str "/agents/" ++ x

def envPath (x : Name) : Str := home ++ Text.str "/conf/agents/" ++ x ++ Text.str ".env"

def Own (s : State) (x : Name) : Resource → Prop
  | .volume v => v ∈ ownVolumes x
  | .path p => p = profilePath x ∨ p = certFile certs x crt ∨ p = certFile certs x key
  | .network n => n = serviceName x
  | .named p => p = certFile certsMount x crt ∨ p = certFile certsMount x key
  | .envFile p => p = envPath x
  | .token t => s.envFiles x = some t

theorem volumes_cases {m : Mount} (h : m ∈ (agentService b d).volumes) :
    Own s b.name m.source.resource ∨ Common b b m.source.resource := by
  simp only [agentService, List.mem_append, List.mem_ite_nil_right, List.mem_cons,
    List.not_mem_nil, or_false] at h
  rcases h with ((((rfl | rfl | rfl | rfl) | ⟨hs, rfl⟩) | rfl) | ⟨-, rfl⟩) | ⟨-, rfl | rfl | rfl⟩
  · exact .inl (.inl rfl)
  · exact .inr .library
  · exact .inl (List.mem_cons_self)
  · exact .inl (List.mem_cons_of_mem _ List.mem_cons_self)
  · exact .inr (.shared hs hs)
  · exact .inr .login
  · exact .inr .extensions
  · exact .inl (.inr (.inl rfl))
  · exact .inl (.inr (.inr rfl))
  · exact .inr .authority

/-- What a service holds is its agent's own, or may be had in common. -/
theorem uses_cases (h : r ∈ uses s d b) : Own s b.name r ∨ Common b b r := by
  simp only [uses, List.mem_append, List.mem_ite_nil_right] at h
  rcases h with (((h | h) | h) | h) | ⟨-, h⟩
  · obtain ⟨m, hm, rfl⟩ := List.mem_map.1 h
    exact volumes_cases hm
  · obtain ⟨n, hn, rfl⟩ := List.mem_map.1 h
    exact .inl (List.mem_singleton.1 hn)
  · rw [List.mem_singleton.1 h]
    exact .inl rfl
  · obtain ⟨t, ht, rfl⟩ := List.mem_map.1 h
    exact .inl (Option.mem_toList.1 ht)
  · simp only [List.mem_cons, List.not_mem_nil, or_false] at h
    rcases h with rfl | rfl | rfl
    · exact .inl (.inl rfl)
    · exact .inl (.inr rfl)
    · exact .inr .authorityNamed

theorem serviceName_inj (h : serviceName x = serviceName y) : x = y := by
  simpa [serviceName, Subtype.ext_iff] using h

/-- The volumes of two agents are theirs by name and by kind. -/
theorem ownVolumes_inj {v : Str} (hx : v ∈ ownVolumes x) (hy : v ∈ ownVolumes y) : x = y := by
  have hkind : ∀ u w : Str, u ++ Text.str "-sessions" ≠ w ++ Text.str "-files" := by
    intro u w h
    have := congrArg (fun l : Str => l.reverse.take 2) h
    simp [Text.str] at this
  simp only [ownVolumes, List.mem_cons, List.not_mem_nil, or_false] at hx hy
  rcases hx with rfl | rfl
  · rcases hy with h | h
    · exact serviceName_inj (by simpa using h)
    · exact absurd h (hkind _ _)
  · rcases hy with h | h
    · exact absurd h.symm (hkind _ _)
    · exact serviceName_inj (by simpa using h)

theorem certFile_inj {dir u w ending : Str} (h : certFile dir u ending = certFile dir w ending) :
    u = w := by
  simpa [certFile] using h

theorem crt_ne_key {dir u w : Str} : certFile dir u crt ≠ certFile dir w key := by
  intro h
  have := congrArg (fun l : Str => l.reverse.take 1) h
  simp [certFile, crt, key, Text.str] at this

theorem profile_ne_cert {w ending : Str} : profilePath x ≠ certFile certs w ending := by
  intro h
  have := congrArg (List.take 8) h
  simp [profilePath, agentsMountSource, certFile, certs, home, Text.str] at this

theorem own_inj (htoken : ∀ t, s.envFiles x = some t → s.envFiles y = some t → x = y)
    (hx : Own s x r) (hy : Own s y r) : x = y := by
  cases r with
  | volume v => exact ownVolumes_inj hx hy
  | path p =>
    rcases hx with rfl | rfl | rfl
    · rcases hy with h | h | h
      · simpa [profilePath, Subtype.ext_iff] using h
      · exact absurd h profile_ne_cert
      · exact absurd h profile_ne_cert
    · rcases hy with h | h | h
      · exact absurd h.symm profile_ne_cert
      · exact Subtype.ext (certFile_inj h)
      · exact absurd h crt_ne_key
    · rcases hy with h | h | h
      · exact absurd h.symm profile_ne_cert
      · exact absurd h.symm crt_ne_key
      · exact Subtype.ext (certFile_inj h)
  | network n => exact serviceName_inj (hx.symm.trans hy)
  | named p =>
    rcases hx with rfl | rfl
    · rcases hy with h | h
      · exact Subtype.ext (certFile_inj h)
      · exact absurd h crt_ne_key
    · rcases hy with h | h
      · exact absurd h.symm crt_ne_key
      · exact Subtype.ext (certFile_inj h)
  | envFile p =>
    have h := hx.symm.trans hy
    simpa [envPath, Subtype.ext_iff] using h
  | token t => exact htoken t hx hy

theorem own_ne_shared (h : Own s x r) : r ≠ .volume sharedVolume := by
  rintro rfl
  simp only [Own, ownVolumes, List.mem_cons, List.not_mem_nil, or_false] at h
  rcases h with h | h <;> simp [sharedVolume, serviceName, Text.str] at h

/-- But for the volume of shared directories, what one agent has in common with others each has. -/
theorem Common.of_ne {a' b' : AgentBuild} (h : Common a b r) (hne : r ≠ .volume sharedVolume) :
    Common a' b' r := by
  cases h with
  | shared => exact absurd rfl hne
  | library => exact .library
  | extensions => exact .extensions
  | login => exact .login
  | authority => exact .authority
  | authorityNamed => exact .authorityNamed

/-- Two agents have in common what is meant to be. -/
theorem common_of_uses (htoken : ∀ t, s.envFiles a.name = some t → s.envFiles b.name = some t →
    a.name = b.name) (hne : a.name ≠ b.name) (ha : r ∈ uses s d a) (hb : r ∈ uses s d b) :
    Common a b r := by
  rcases uses_cases ha with ha | ha
  · rcases uses_cases hb with hb | hb
    · exact absurd (own_inj htoken ha hb) hne
    · -- of an agent whose certificate is named as the authority's
      exact hb.of_ne (own_ne_shared ha)
  · rcases uses_cases hb with hb | hb
    · exact ha.of_ne (own_ne_shared hb)
    · by_cases hr : r = .volume sharedVolume
      · subst hr
        cases ha with
        | shared h _ =>
          cases hb with
          | shared h' _ => exact .shared h h'
      · exact ha.of_ne hr

/-! ## Tokens -/

/-- Each token was made once, for one agent. -/
structure Minted (mint : Nat → Str) (s : State) : Prop where
  made : ∀ x t, s.envFiles x = some t → ∃ i < s.minted, t = mint i
  own : ∀ x y t, s.envFiles x = some t → s.envFiles y = some t → x = y

/-- The agent's token is in its env file, and in the `.env` under its key. -/
def Held (s : State) (x : Name) : Prop :=
  ∃ t, s.envFiles x = some t ∧ s.dotenv.lookup (agentEnvKey x) = some t

theorem Minted.ensureToken (hmint : Function.Injective mint) (h : Minted mint s) :
    Minted mint (ensureToken mint s x) := by
  cases hx : s.envFiles x with
  | some t =>
    simp only [Containers.ensureToken, hx]
    exact ⟨h.made, h.own⟩
  | none =>
    have hfresh : ∀ y, s.envFiles y ≠ some (mint s.minted) := by
      intro y hy
      obtain ⟨i, hi, ht⟩ := h.made y _ hy
      have := hmint ht
      omega
    simp only [Containers.ensureToken, hx]
    refine ⟨fun y t ht => ?_, fun y z t hy hz => ?_⟩
    · simp only [Function.update_apply] at ht
      split at ht
      · exact ⟨s.minted, Nat.lt_succ_self _, (Option.some.inj ht).symm⟩
      · obtain ⟨i, hi, rfl⟩ := h.made y t ht
        exact ⟨i, Nat.lt_succ_of_lt hi, rfl⟩
    · simp only [Function.update_apply] at hy hz
      split at hy
      · split at hz
        · simp [*]
        · cases hy
          exact absurd hz (hfresh z)
      · split at hz
        · cases hz
          exact absurd hy (hfresh y)
        · exact h.own y z t hy hz

theorem held_ensureToken : Held (ensureToken mint s x) x := by
  cases hx : s.envFiles x with
  | some t => exact ⟨t, by simp [ensureToken, hx], by simp [ensureToken, hx, Dict.lookup_assign]⟩
  | none =>
    exact ⟨mint s.minted, by simp [ensureToken, hx], by simp [ensureToken, hx, Dict.lookup_assign]⟩

/-- An agent with another key keeps its token. -/
theorem Held.ensureToken (hne : agentEnvKey x ≠ agentEnvKey y) (h : Held s x) :
    Held (ensureToken mint s y) x := by
  obtain ⟨t, ht, hl⟩ := h
  have hxy : x ≠ y := fun e => hne (e ▸ rfl)
  refine ⟨t, ?_, ?_⟩ <;>
    cases hy : s.envFiles y <;>
    simp [Containers.ensureToken, Dict.lookup_assign, *]

theorem Minted.foldl (hmint : Function.Injective mint) {l : List Name} (h : Minted mint s) :
    Minted mint (l.foldl (Containers.ensureToken mint) s) := by
  induction l generalizing s with
  | nil => exact h
  | cons x l ih => exact ih (h.ensureToken hmint)

theorem Held.foldl {l : List Name} (hx : agentEnvKey x ∉ l.map agentEnvKey) (h : Held s x) :
    Held (l.foldl (Containers.ensureToken mint) s) x := by
  induction l generalizing s with
  | nil => exact h
  | cons y l ih =>
    simp only [List.map_cons, List.mem_cons, not_or] at hx
    exact ih hx.2 (h.ensureToken hx.1)

/-- Agents told apart by their keys each have their own once the last has its token. -/
theorem held_foldl {l : List Name} (h : (l.map agentEnvKey).Nodup) (hx : x ∈ l) :
    Held (l.foldl (ensureToken mint) s) x := by
  induction l generalizing s with
  | nil => cases hx
  | cons y l ih =>
    obtain ⟨hy, h⟩ := List.nodup_cons.1 h
    rcases List.mem_cons.1 hx with hx | hx
    · rw [hx, List.foldl_cons]
      exact held_ensureToken.foldl hy
    · exact ih h hx

/-- What is on disk after some runs: whatever agents the compose file was written for, each has its
token under its key. -/
structure Sound (mint : Nat → Str) (s : State) : Prop extends Minted mint s where
  held : ∀ d, s.deployment = some d → ∀ b ∈ d.builds, Held s b.name

theorem sound_init (h : (system mint).init s) : Sound mint s := by
  obtain ⟨hfiles, -, hnone⟩ := h
  refine ⟨⟨?_, ?_⟩, ?_⟩ <;> simp [hfiles, hnone]

theorem Sound.sync (hmint : Function.Injective mint) {r : Sync} (h : Sound mint s) (hr : Told r) :
    Sound mint (sync mint s r) := by
  have hm := h.toMinted.foldl hmint (l := r.builds.map (·.name))
  refine ⟨⟨hm.made, hm.own⟩, fun d hd b hb => ?_⟩
  cases hd
  exact held_foldl (by simpa [Told, Function.comp_def] using hr) (List.mem_map_of_mem hb)

theorem sound (hmint : Function.Injective mint)
    (h : (system mint).Reach (fun _ r => Told r) s) : Sound mint s := by
  refine h.inv (fun _ => sound_init) fun s r s' hs hr hn => ?_
  cases hn
  exact hs.sync hmint hr

/-! ## The compose file -/

/-- Whatever network or volume a service names is declared. -/
theorem declared {service : Service} (h : service ∈ (renderCompose d).agents) :
    (∀ n ∈ service.networks, n ∈ (renderCompose d).networks) ∧
      ∀ m ∈ service.volumes, ∀ v, m.source = .volume v → v ∈ (renderCompose d).volumes := by
  obtain ⟨b, hb, rfl⟩ := List.mem_map.1 h
  refine ⟨fun n hn => ?_, fun m hm v hv => ?_⟩
  · rw [List.mem_singleton.1 hn]
    exact List.mem_append_right _ (List.mem_map_of_mem hb)
  · have hres : m.source.resource = .volume v := by rw [hv]; rfl
    rcases volumes_cases (s := ⟨fun _ => none, [], 0, none⟩) hm with h | h
    · rw [hres] at h
      exact List.mem_append_right _ (List.mem_flatMap.2 ⟨b, hb, h⟩)
    · rw [hres] at h
      cases h with
      | shared hs _ =>
        have : namesSharedDirs d = true := by simpa [namesSharedDirs] using ⟨b, hb, hs⟩
        simp [renderCompose, this]

/-- Agents' containers have in common what they are meant to and the certificate of the broker's
authority, and the token that the engine looks up, where its own environment sets none, is the one
the host holds: after any runs of `sync`, each of agents with keys of their own. -/
theorem share_common (hmint : Function.Injective mint)
    (h : (system mint).Reach (fun _ r => Told r) s) (hd : s.deployment = some d) :
    (∀ a ∈ d.builds, ∀ b ∈ d.builds, a.name ≠ b.name →
      ∀ r ∈ uses s d a, r ∈ uses s d b → Common a b r) ∧
    ∀ b ∈ d.builds, ∃ t, s.envFiles b.name = some t ∧ ∀ environ : Str → Option Str,
      (environ (agentEnvKey b.name)).getD [] = [] →
      lookup environ s (agentEnvKey b.name) = t := by
  have hs := sound hmint h
  refine ⟨fun a _ b _ hne r ha hb => ?_, fun b hb => ?_⟩
  · exact common_of_uses (fun t => hs.own _ _ t) hne ha hb
  · obtain ⟨t, ht, hl⟩ := hs.held d hd b hb
    refine ⟨t, ht, fun environ he => ?_⟩
    simp [lookup, he, hl]

namespace Sample

def clerk : AgentBuild where
  name := ⟨Text.str "clerk", by simp [Plain, isServiceChar, Text.str]⟩
  sharedDirs := [Text.str "notes"]

def scout : AgentBuild where
  name := ⟨Text.str "scout-2", by simp [Plain, isServiceChar, Text.str]⟩
  sharedDirs := []

def run : Sync := ⟨[clerk, scout], true, false, false, [], some fun _ => true⟩

/-- Each token is longer than the one before. -/
def longer (i : Nat) : Str := List.replicate (i + 1) 'a'

theorem longer_injective : Function.Injective longer := by
  intro i j h
  simpa [longer] using congrArg List.length h

def fresh : State := ⟨fun _ => none, [], 0, none⟩

def synced : State := sync longer fresh run

theorem told_run : Told run := by
  show (List.map _ _).Nodup
  decide

theorem reach_synced : (system longer).Reach (fun _ r => Told r) synced :=
  .step (.init ⟨rfl, rfl, rfl⟩) told_run rfl

end Sample

open Sample in
theorem share_common_sample :
    (∀ r ∈ uses synced run.deployment clerk, r ∈ uses synced run.deployment scout →
      Common clerk scout r) ∧
    ∃ t, synced.envFiles scout.name = some t ∧
      lookup (fun _ => none) synced (agentEnvKey scout.name) = t := by
  obtain ⟨hcommon, htoken⟩ := share_common longer_injective reach_synced rfl
  obtain ⟨t, ht, hl⟩ := htoken scout (by simp [Sync.deployment, run])
  exact ⟨hcommon clerk (by simp [Sync.deployment, run]) scout (by simp [Sync.deployment, run])
    (by decide), t, ht, hl _ rfl⟩

/-- Two agents with identities have more than the four in common. -/
theorem authority_shared :
    ¬ ∀ (mint : Nat → Str) (s : State) (d : Deployment), Function.Injective mint →
      (system mint).Reach (fun _ r => Told r) s → s.deployment = some d →
      ∀ a ∈ d.builds, ∀ b ∈ d.builds, a.name ≠ b.name →
      ∀ r ∈ uses s d a, r ∈ uses s d b →
        (a.sharedDirs ≠ [] ∧ b.sharedDirs ≠ [] ∧ r = .volume sharedVolume) ∨
        r = .path skillsSource ∨ r = .path extensionsSource ∨ r = .path authFile := by
  intro h
  have := h Sample.longer Sample.synced Sample.run.deployment Sample.longer_injective
    Sample.reach_synced rfl Sample.clerk (by simp [Sync.deployment, Sample.run]) Sample.scout
    (by simp [Sync.deployment, Sample.run]) (by decide) (.path authority)
    (by decide) (by decide)
  revert this
  decide

end Containers
