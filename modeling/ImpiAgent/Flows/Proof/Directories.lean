import ImpiAgent.Flows.Attachments
import Mathlib.Data.List.DropRight

/-!
# A directory is one conversation's

`conversation_dir` names a directory after the id, as it stands where `safe_name` leaves it alone,
else cleaned and with a digest of it. Each is one component under the agent's tree (`Under`).

An id may be spelled like what another one is cleaned to, digest included (`Spells`), and then
stands for the same directory; so do the empty id and `misc`, and any ids of two agents whose names
`safe_name` takes for one. Nothing else makes two pairs share a directory (`directories_apart`), but
for digests that collide.
-/

namespace Attachments

open Text

/-- One component of a path. -/
structure Component (name : Str) : Prop where
  ne : name ≠ []
  flat : '/' ∉ name
  here : name ≠ ['.']
  parent : name ≠ ['.', '.']

/-! ## A cleaned name is a component -/

theorem slash_not_mem_safeName (name : Str) : '/' ∉ safeName name := fun h =>
  absurd (safeChar_of_mem_safeName h) (by decide)

/-- What is stripped begins with none of the characters. -/
theorem head_stripOf {chars s : Str} {c : Char} (h : (stripOf chars s).head? = some c) :
    c ∉ chars := by
  obtain ⟨t, ht⟩ : stripOf chars s <+: s.dropWhile (· ∈ chars) :=
    List.rdropWhile_prefix (fun c => decide (c ∈ chars)) _
  have hd := List.head?_dropWhile_not (fun c => decide (c ∈ chars)) s
  rw [← ht, List.head?_append, h] at hd
  simpa using hd

theorem Component.of_length {name : Str} (h : 2 < name.length) (hf : '/' ∉ name) :
    Component name where
  ne e := by simp [e] at h
  flat := hf
  here e := by simp [e] at h
  parent e := by simp [e] at h

theorem component_safeName (name : Str) : Component (safeName name) := by
  have hflat := slash_not_mem_safeName name
  rw [safeName] at hflat ⊢
  generalize hc : stripOf _ _ = cleaned at hflat ⊢
  split
  · exact .of_length (by decide) (by decide)
  · next hne =>
    rw [if_neg hne] at hflat
    split
    · next hle =>
      rw [if_pos hle] at hflat
      have hdot : cleaned.head? ≠ some '.' := fun h => by
        rw [← hc] at h
        exact head_stripOf h (by decide)
      exact ⟨hne, hflat, fun e => hdot (by rw [e]; rfl), fun e => hdot (by rw [e]; rfl)⟩
    · next hlt =>
      rw [if_neg hlt] at hflat
      have hlen : 80 < cleaned.length := by simpa [maxName] using hlt
      refine .of_length ?_ hflat
      split
      · next stem ext hp =>
        split
        · have hs : cleaned.length = stem.length + (ext.length + 1) := by
            rw [rpartition_eq hp, List.length_append, List.length_cons]
          simp only [List.length_append, List.length_take, List.length_cons, maxName]
          omega
        · simp only [List.length_take, maxName]
          omega
      · simp only [List.length_take, maxName]
        omega

/-! ## The name of a conversation's directory -/

/-- The id as it is read: an empty one is `misc`. -/
def raw (conversationId : Str) : Str := if conversationId = [] then str "misc" else conversationId

/-- `safe_name` changes the id. -/
def Cleaned (conversationId : Str) : Prop := safeName (raw conversationId) ≠ raw conversationId

instance (c : Str) : Decidable (Cleaned c) := inferInstanceAs (Decidable (_ ≠ _))

namespace AttachmentStore

variable (store : AttachmentStore)

/-- `dir_for`. -/
def dirFor (agent : Str) : Str := store.root ++ '/' :: safeName agent

def digest (id : Str) : Str := ((store.sha256 id).map Envelope.hexDigit).take 12

def cleanedName (conversationId : Str) : Str :=
  (safeName (raw conversationId)).take (maxName - 12 - 1) ++ '-' :: store.digest (raw conversationId)

def dirName (conversationId : Str) : Str :=
  if Cleaned conversationId then store.cleanedName conversationId else raw conversationId

theorem conversationDir_eq (agent c : Str) :
    store.conversationDir agent c = store.dirFor agent ++ '/' :: store.dirName c := by
  have hu : store.conversationDir agent c =
      if safeName (raw c) = raw c then store.dirFor agent ++ '/' :: safeName (raw c)
      else store.dirFor agent ++ '/' :: (safeName (raw c)).take (maxName - 12 - 1) ++
        '-' :: store.digest (raw c) := rfl
  rw [hu]
  unfold dirName
  by_cases h : Cleaned c
  · rw [if_pos h, if_neg h, cleanedName, List.append_assoc]
    rfl
  · have hr : safeName (raw c) = raw c := not_not.1 h
    rw [if_neg h, if_pos hr, hr]

theorem hyphen_not_mem_digest (id : Str) : '-' ∉ store.digest id := fun h => by
  obtain ⟨n, -, hn⟩ := List.mem_map.1 (List.mem_of_mem_take h)
  exact (by decide : ∀ n, Envelope.hexDigit n ≠ '-') n hn

theorem slash_not_mem_digest (id : Str) : '/' ∉ store.digest id := fun h => by
  obtain ⟨n, -, hn⟩ := List.mem_map.1 (List.mem_of_mem_take h)
  exact (by decide : ∀ n, Envelope.hexDigit n ≠ '/') n hn

theorem component_dirName (c : Str) : Component (store.dirName c) := by
  unfold dirName
  split
  · have hyphen : '-' ∈ store.cleanedName c := List.mem_append_right _ List.mem_cons_self
    refine ⟨fun e => ?_, fun h => ?_, fun e => ?_, fun e => ?_⟩
    · rw [e] at hyphen
      cases hyphen
    · rcases List.mem_append.1 h with h | h
      · exact slash_not_mem_safeName _ (List.mem_of_mem_take h)
      · rcases List.mem_cons.1 h with h | h
        · exact absurd h (by decide)
        · exact store.slash_not_mem_digest _ h
    · rw [e] at hyphen
      exact absurd hyphen (by decide)
    · rw [e] at hyphen
      exact absurd hyphen (by decide)
  · next h =>
    have hr : safeName (raw c) = raw c := not_not.1 h
    rw [← hr]
    exact component_safeName _

/-! ## Two conversations -/

/-- The truncated digests of two cleaned ids are the same. -/
def DigestsCollide (c c' : Str) : Prop :=
  Cleaned c ∧ Cleaned c' ∧ raw c ≠ raw c' ∧ store.digest (raw c) = store.digest (raw c')

/-- A directory directly under the agent's tree. -/
def Under (agent dir : Str) : Prop :=
  ∃ name, dir = store.dirFor agent ++ '/' :: name ∧ Component name

/-- The directories of two conversations do not collide. -/
structure Apart (a c a' c' : Str) : Prop where
  under : store.Under a (store.conversationDir a c) ∧ store.Under a' (store.conversationDir a' c')
  tree : store.dirFor a = store.dirFor a' → a = a'
  dir : store.conversationDir a c = store.conversationDir a' c' →
    (a, c) = (a', c') ∨ store.DigestsCollide c c'
  asItStands : ¬Cleaned c → Cleaned c' →
    store.conversationDir a c ≠ store.conversationDir a' c'

/-- An id used as it stands that is spelled like the name of a cleaned one. -/
def Spells (c c' : Str) : Prop := ¬Cleaned c ∧ Cleaned c' ∧ raw c = store.cleanedName c'

variable {store} {a c a' c' : Str}

theorem dirFor_inj : store.dirFor a = store.dirFor a' ↔ safeName a = safeName a' := by
  simp [dirFor]

theorem dir_inj : store.conversationDir a c = store.conversationDir a' c' ↔
    safeName a = safeName a' ∧ store.dirName c = store.dirName c' := by
  rw [conversationDir_eq, conversationDir_eq]
  constructor
  · intro h
    obtain ⟨ht, hn⟩ := append_cons_inj (store.component_dirName c).flat
      (store.component_dirName c').flat h
    exact ⟨dirFor_inj.1 ht, hn⟩
  · rintro ⟨ht, hn⟩
    rw [dirFor_inj.2 ht, hn]

/-- What two directories of one name come from. -/
theorem dirName_eq (h : store.dirName c = store.dirName c') :
    raw c = raw c' ∨ store.Spells c c' ∨ store.Spells c' c ∨ store.DigestsCollide c c' := by
  unfold dirName at h
  by_cases hr : raw c = raw c'
  · exact .inl hr
  by_cases hc : Cleaned c <;> by_cases hc' : Cleaned c'
  · rw [if_pos hc, if_pos hc'] at h
    obtain ⟨-, hd⟩ := append_cons_inj (store.hyphen_not_mem_digest _)
      (store.hyphen_not_mem_digest _) h
    exact .inr (.inr (.inr ⟨hc, hc', hr, hd⟩))
  · rw [if_pos hc, if_neg hc'] at h
    exact .inr (.inr (.inl ⟨hc', hc, h.symm⟩))
  · rw [if_neg hc, if_pos hc'] at h
    exact .inr (.inl ⟨hc, hc', h⟩)
  · rw [if_neg hc, if_neg hc'] at h
    exact .inl h

theorem Spells.dirName (h : store.Spells c c') : store.dirName c = store.dirName c' := by
  unfold AttachmentStore.dirName
  rw [if_neg h.1, if_pos h.2.1, h.2.2]

theorem dirName_of_raw (h : raw c = raw c') : store.dirName c = store.dirName c' := by
  have hc : Cleaned c ↔ Cleaned c' := by
    unfold Cleaned
    rw [h]
  unfold dirName cleanedName
  simp only [hc, h]

/-- Two conversations have directories of their own if and only if the names of their agents clean
to two, and their ids are not one as they are read, nor one of them what the other is cleaned to. -/
theorem directories_apart : store.Apart a c a' c' ↔
    (safeName a = safeName a' → a = a') ∧
      (a = a' → (c ≠ c' → raw c ≠ raw c') ∧ ¬store.Spells c c' ∧ ¬store.Spells c' c) := by
  constructor
  · intro h
    refine ⟨fun hs => h.tree (dirFor_inj.2 hs), fun ha => ⟨fun hc hr => ?_, fun hs => ?_, fun hs => ?_⟩⟩
    · rcases h.dir (dir_inj.2 ⟨congrArg safeName ha, dirName_of_raw hr⟩) with he | hd
      · exact hc (Prod.mk.inj he).2
      · exact hd.2.2.1 hr
    · exact h.asItStands hs.1 hs.2.1 (dir_inj.2 ⟨congrArg safeName ha, hs.dirName⟩)
    · rcases h.dir (dir_inj.2 ⟨congrArg safeName ha, hs.dirName.symm⟩) with he | hd
      · rw [(Prod.mk.inj he).2] at hs
        exact hs.1 hs.2.1
      · exact hs.1 hd.2.1
  · rintro ⟨ht, hid⟩
    refine ⟨⟨?_, ?_⟩, fun h => ht (dirFor_inj.1 h), fun h => ?_, fun hc hc' h => ?_⟩
    · exact ⟨_, store.conversationDir_eq a c, store.component_dirName c⟩
    · exact ⟨_, store.conversationDir_eq a' c', store.component_dirName c'⟩
    · obtain ⟨hs, hn⟩ := dir_inj.1 h
      have ha := ht hs
      obtain ⟨hr, hcc', hc'c⟩ := hid ha
      rcases dirName_eq hn with hraw | hsp | hsp | hd
      · refine .inl (Prod.ext ha ?_)
        by_contra hc
        exact hr hc hraw
      · exact absurd hsp hcc'
      · exact absurd hsp hc'c
      · exact .inr hd
    · obtain ⟨hs, hn⟩ := dir_inj.1 h
      refine (hid (ht hs)).2.1 ⟨hc, hc', ?_⟩
      unfold dirName at hn
      rwa [if_neg hc, if_pos hc'] at hn

namespace Sample

/-- `sha256` of `a:b`. -/
def digits : List (Fin 16) :=
  [6, 7, 8, 3, 10, 3, 1, 14, 10, 11, 15, 6, 8, 12, 12, 0, 6, 6, 0, 15, 9, 3, 5, 12, 0, 8, 2, 6,
    2, 8, 2, 11, 13, 13, 2, 2, 4, 1, 15, 3, 10, 8, 0, 10, 9, 15, 2, 13, 1, 0, 13, 5, 9, 10, 14,
    10, 9, 14, 11, 11, 5, 13, 8]

def files : AttachmentStore where
  root := str "/data/attachments"
  sha256 id := if id = str "a:b" then digits else []

def agent : Str := str "assistant"

end Sample

/-- The id `a_b-6783a31eabf6` is used as it stands, and names the directory of `a:b`. -/
theorem directory_forged : ¬∀ (store : AttachmentStore) (a c a' c' : Str), store.Apart a c a' c' := by
  intro h
  have hs : Sample.files.conversationDir Sample.agent (str "a_b-6783a31eabf6") =
      Sample.files.conversationDir Sample.agent (str "a:b") := by decide
  exact (h Sample.files Sample.agent (str "a_b-6783a31eabf6") Sample.agent (str "a:b")).asItStands
    (by decide) (by decide) hs

end AttachmentStore

end Attachments
