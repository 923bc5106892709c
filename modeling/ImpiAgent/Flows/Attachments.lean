import ImpiAgent.Flows.Envelope

/-!
# Where a file is saved

`AttachmentStore.save`: the path of a file, made of names that `safeName` has cleaned. Whoever names
the file, the agent or the conversation, the path breaks no line of the prompt (`plain_path`).
-/

namespace Attachments

open Text Containment

/-- The complement of `_UNSAFE`. -/
def safeChar (c : Char) : Bool := c.isAlphanum || c = '.' || c = '_' || c = '-' || c = ' '

/-- `Path(..).name`. -/
def pathName (path : Str) : Str :=
  ((path.splitOn '/').filter fun part => part ≠ [] ∧ part ≠ ['.']).getLast?.getD []

/-- `_UNSAFE.sub`: every run of unsafe characters is one `_`. `run` while in such a run. -/
def replaceUnsafe : Bool → Str → Str
  | _, [] => []
  | run, c :: s =>
    if safeChar c then c :: replaceUnsafe false s
    else if run then replaceUnsafe true s
    else '_' :: replaceUnsafe true s

/-- `str.strip` of the characters given. -/
def stripOf (chars : Str) (s : Str) : Str :=
  ((s.dropWhile (· ∈ chars)).reverse.dropWhile (· ∈ chars)).reverse

def maxName : Nat := 80

/-- `str.rpartition` at a dot, when there is one. -/
def rpartition (s : Str) : Option (Str × Str) :=
  match (s.reverse.span (· ≠ '.')) with
  | (ext, _ :: stem) => some (stem.reverse, ext.reverse)
  | (_, []) => none

/-- `safe_name`. -/
def safeName (name : Str) : Str :=
  let base := rstrip (lstrip (pathName (name.map fun c => if c = '\\' then '/' else c)))
  let cleaned := stripOf ['.', '_', ' '] (replaceUnsafe false base)
  if cleaned = [] then str "file"
  else if cleaned.length ≤ maxName then cleaned
  else
    match rpartition cleaned with
    | some (stem, ext) =>
      if ext.length ≤ 8 then stem.take (maxName - ext.length - 1) ++ '.' :: ext
      else cleaned.take maxName
    | none => cleaned.take maxName

/-- `sha256` gives the digits of a digest in hexadecimal. -/
structure AttachmentStore where
  root : Str
  sha256 : Str → List (Fin 16)

namespace AttachmentStore

variable (store : AttachmentStore)

/-- `conversation_dir`. -/
def conversationDir (agent conversationId : Str) : Str :=
  let raw := if conversationId = [] then str "misc" else conversationId
  let cleaned := safeName raw
  let dir := store.root ++ '/' :: safeName agent
  if cleaned = raw then dir ++ '/' :: cleaned
  else
    let digest := ((store.sha256 raw).map Envelope.hexDigit).take 12
    dir ++ '/' :: cleaned.take (maxName - 12 - 1) ++ '-' :: digest

/-- The path `save` gives a file; `stamp` is the platform's key of it, or the time. -/
def path (agent conversationId stamp name : Str) : Str :=
  store.conversationDir agent conversationId ++ '/' :: safeName stamp ++ '-' :: safeName name

end AttachmentStore

/-! ## A cleaned name is on one line -/

theorem not_break_of_safeChar {c : Char} (h : safeChar c) : isBreak c = false := by
  simp only [safeChar, Bool.or_eq_true, decide_eq_true_eq] at h
  rcases h with (((h | rfl) | rfl) | rfl) | rfl
  · exact not_break_of_isAlphanum h
  all_goals rfl

theorem safeChar_of_mem_replaceUnsafe {c : Char} {run : Bool} {s : Str}
    (h : c ∈ replaceUnsafe run s) : safeChar c := by
  induction s generalizing run with
  | nil => cases h
  | cons d s ih =>
    rw [replaceUnsafe] at h
    split at h
    · next hd =>
      rcases List.mem_cons.1 h with rfl | h
      · exact hd
      · exact ih h
    · split at h
      · exact ih h
      · rcases List.mem_cons.1 h with rfl | h
        · rfl
        · exact ih h

theorem mem_of_mem_stripOf {c : Char} {chars s : Str} (h : c ∈ stripOf chars s) : c ∈ s := by
  rw [stripOf] at h
  have h := (List.dropWhile_sublist _).subset (List.mem_reverse.1 h)
  exact (List.dropWhile_sublist _).subset (List.mem_reverse.1 h)

theorem rpartition_eq {s stem ext : Str} (h : rpartition s = some (stem, ext)) :
    s = stem ++ '.' :: ext := by
  have hs : s.reverse = s.reverse.takeWhile (· ≠ '.') ++ s.reverse.dropWhile (· ≠ '.') :=
    List.takeWhile_append_dropWhile.symm
  rw [rpartition, List.span_eq_takeWhile_dropWhile] at h
  split at h
  · next d rest hsplit =>
    obtain ⟨rfl, rfl⟩ := Prod.mk.inj (Option.some.inj h)
    obtain ⟨ht, hd⟩ := Prod.mk.inj hsplit
    have hdot : d = '.' := by
      have hnot := List.head?_dropWhile_not (fun c => decide (c ≠ '.')) s.reverse
      rw [hd] at hnot
      simpa using hnot
    rw [ht, hd, hdot] at hs
    rw [← List.reverse_reverse s, hs]
    simp
  · cases h

theorem safeChar_of_mem_safeName {c : Char} {name : Str} (h : c ∈ safeName name) : safeChar c := by
  rw [safeName] at h
  generalize hs : stripOf _ _ = cleaned at h
  have hsafe : ∀ c ∈ cleaned, safeChar c := fun c h => by
    subst hs
    exact safeChar_of_mem_replaceUnsafe (mem_of_mem_stripOf h)
  have htake (h : c ∈ cleaned.take maxName) : safeChar c := hsafe c (List.mem_of_mem_take h)
  split at h
  · exact List.all_eq_true.1 (by decide : (str "file").all safeChar = true) c h
  · split at h
    · exact hsafe c h
    · split at h
      · next stem ext hp =>
        split at h
        · refine hsafe c ?_
          rw [rpartition_eq hp]
          rcases List.mem_append.1 h with h | h
          · exact List.mem_append_left _ (List.mem_of_mem_take h)
          · exact List.mem_append_right _ h
        · exact htake h
      · exact htake h

theorem unbroken_safeName (name : Str) : Unbroken (safeName name) := fun _ h =>
  not_break_of_safeChar (safeChar_of_mem_safeName h)

/-- A path the store makes is on one line, where its root is. -/
theorem plain_path {store : AttachmentStore} (h : Unbroken store.root)
    (agent conversationId stamp name : Str) :
    Plain (store.path agent conversationId stamp name) := by
  have hb : isBreak '/' = false ∧ isBreak '-' = false := by decide
  have hhex : ∀ raw, Unbroken (((store.sha256 raw).map Envelope.hexDigit).take 12) := by
    have hd : ∀ n, isBreak (Envelope.hexDigit n) = false := by decide
    intro raw c hc
    obtain ⟨n, -, rfl⟩ := List.mem_map.1 (List.mem_of_mem_take hc)
    exact hd n
  have htake : ∀ raw n, Unbroken ((safeName raw).take n) := fun raw n c hc =>
    unbroken_safeName raw c (List.mem_of_mem_take hc)
  have hdir : Unbroken (store.conversationDir agent conversationId) := by
    simp only [AttachmentStore.conversationDir]
    generalize ite (conversationId = []) _ _ = raw
    split
    · simp only [unbroken_append, unbroken_cons, unbroken_safeName, h, hb, and_self]
    · simp only [unbroken_append, unbroken_cons, unbroken_safeName, htake, hhex, h, hb, and_self]
  refine plain_of_unbroken ?_
  simp only [AttachmentStore.path, unbroken_append, unbroken_cons, unbroken_safeName, hdir, hb,
    and_self]

/-- A message whose files the store saved, about no event or one with no heading of its own, puts
nothing into a line that breaks it. -/
theorem sound_of_saved {store : AttachmentStore} (h : Unbroken store.root)
    {m : Envelope.IncomingMessage} (hlabel : ∀ e ∈ m.event, e.label = [])
    (hpath : ∀ a ∈ m.attachments, ∃ agent conversationId stamp name,
      a.path = store.path agent conversationId stamp name) : m.Sound := by
  refine ⟨fun e he => ?_, fun a ha => ?_⟩
  · rw [hlabel e he]
    exact plain_of_unbroken unbroken_nil
  · obtain ⟨agent, conversationId, stamp, name, hp⟩ := hpath a ha
    exact hp ▸ plain_path h agent conversationId stamp name

end Attachments
