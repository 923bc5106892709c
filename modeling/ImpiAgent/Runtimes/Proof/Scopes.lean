import ImpiAgent.Runtimes.Scopes

/-!
# A scratch directory lives as long as its processes

`Sound`: the directories of every scope that is being put together or held are there, the hold
counts are the numbers of holders, and a conversation's scratch that nobody holds was last modified
when it was released. `Swept` is all a sweep does.

A scratch directory is made before its call asks for the files of the conversation and counted
after it: a sweep in between that finds it a day old takes it (`scratch_lost`). Where no release
sweeps the directory of a call that is asking, and no session id reads as a memoryless run's
(`Clear`), directories live as long as their processes (`scratch_kept`).
-/

namespace ProcessScopes

open Text (Str)

variable {c : Settings} {s s' : State} {b b' b₁ : Scopes} {p q dir scratch : Path} {d d' : Draft}
  {now t : Time} {i j : Nat} {k : Point} {scope₀ : ProcessScope}

/-! ## Session ids -/

/-- A session id is one component of a path. -/
theorem isSessionChar_of_mem_safeSessionId {hexdigest : Str → Str} {raw : Str}
    (h : ∀ a ∈ hexdigest raw, isSessionChar a = true) :
    ∀ a ∈ safeSessionId hexdigest raw, isSessionChar a = true := by
  have hcoerced : ∀ a ∈ raw.map fun a => if isSessionChar a then a else '-',
      isSessionChar a = true := by
    intro a ha
    obtain ⟨x, -, rfl⟩ := List.mem_map.1 ha
    split
    · assumption
    · decide
  have hcleaned : ∀ a ∈ (((raw.map fun a => if isSessionChar a then a else '-').dropWhile
      isEdge).reverse.dropWhile isEdge).reverse, isSessionChar a = true := fun a ha =>
    hcoerced a ((List.dropWhile_sublist _).mem
      (List.mem_reverse.1 ((List.dropWhile_sublist _).mem (List.mem_reverse.1 ha))))
  intro a ha
  unfold safeSessionId at ha
  dsimp only at ha
  split at ha
  · exact hcleaned a ha
  · rcases List.mem_append.1 ha with ha | ha
    · split at ha
      · exact List.all_eq_true.1 (show (Text.str "session").all isSessionChar = true by decide) a ha
      · exact hcleaned a ha
    · rcases List.mem_cons.1 ha with rfl | ha
      · decide
      · exact h a (List.mem_of_mem_take ha)

/-! ## The sweep -/

theorem eq_of_suffix (hp : p <:+ q) (hs : scratch <:+ q) (hl : p.length = scratch.length) :
    p = scratch :=
  (List.suffix_of_suffix_length_le hp hs hl.le).eq_of_length hl

theorem length_of_tail (hp : p ≠ []) (ht : p.tail = dir) : p.length = dir.length + 1 := by
  cases p with
  | nil => exact absurd rfl hp
  | cons n p =>
    cases ht
    rfl

/-- What a sweep of `dir` does. -/
structure Swept (dir : Path) (now : Time) (b b' : Scopes) : Prop where
  inUse : b'.inUse = b.inUse
  has : ∀ q, b'.tree.Has q → b.tree.Has q
  mtime : ∀ q, q ≠ dir → b'.tree.Has q → b'.tree.mtime q = b.tree.mtime q
  kept : ∀ q, b.tree.Has q →
    (∀ p, p ≠ [] → p.tail = dir → p <:+ q → b.stale now p = false) → b'.tree.Has q
  ended : ∀ p t, b'.ended.lookup p = some t → b.ended.lookup p = some t ∧
    (p.length = dir.length + 1 → ∀ q, p <:+ q → b.tree.Has q → b'.tree.Has q)

theorem Swept.refl (b : Scopes) : Swept dir now b b :=
  ⟨rfl, fun _ h => h, fun _ _ _ => rfl, fun _ h _ => h, fun _ _ h => ⟨h, fun _ _ _ h => h⟩⟩

theorem Swept.rmtree (hp : p ≠ []) (ht : p.tail = dir) (hs : b.stale now p = true) :
    Swept dir now b (b.rmtree p now) := by
  have hlen := length_of_tail hp ht
  refine ⟨rfl, fun q hq => (DirTree.has_rmtree.1 hq).1, fun q hne hq => ?_, fun q hq hk => ?_,
    fun r t he => ?_⟩
  · exact DirTree.mtime_rmtree (DirTree.has_rmtree.1 hq).2 (ht ▸ hne)
  · refine DirTree.has_rmtree.2 ⟨hq, fun hsuf => ?_⟩
    rw [hk p hp ht hsuf] at hs
    cases hs
  · have he : (Dict.remove p b.ended).lookup r = some t := he
    rw [Dict.lookup_remove] at he
    split at he
    · cases he
    · rename_i hne
      refine ⟨he, fun hr q hsuf hq => DirTree.has_rmtree.2 ⟨hq, fun hsuf' => hne ?_⟩⟩
      exact eq_of_suffix hsuf hsuf' (hr.trans hlen.symm)

theorem Swept.stale (h : Swept dir now b b') (hp : p ≠ []) (ht : p.tail = dir)
    (hs : b.stale now p = false) : b'.stale now p = false := by
  by_cases hq : b'.tree.Has p
  · have hne : p ≠ dir := fun he => by
      have := length_of_tail hp ht
      rw [he] at this
      omega
    unfold Scopes.stale at *
    rw [h.inUse, h.mtime p hne hq, hs]
  · unfold Scopes.stale
    rw [Option.not_isSome_iff_eq_none.1 hq]
    simp

theorem Swept.trans (h : Swept dir now b b₁) (h' : Swept dir now b₁ b') : Swept dir now b b' := by
  refine ⟨h'.inUse.trans h.inUse, fun q hq => h.has q (h'.has q hq), fun q hne hq => ?_,
    fun q hq hk => ?_, fun r t he => ?_⟩
  · exact (h'.mtime q hne hq).trans (h.mtime q hne (h'.has q hq))
  · exact h'.kept q (h.kept q hq hk) fun p hp ht hsuf => h.stale hp ht (hk p hp ht hsuf)
  · obtain ⟨he₁, hk'⟩ := h'.ended r t he
    obtain ⟨he₀, hk⟩ := h.ended r t he₁
    exact ⟨he₀, fun hr q hsuf hq => hk' hr q hsuf (hk hr q hsuf hq)⟩

theorem swept (b : Scopes) (dir : Path) (now : Time) :
    Swept dir now b (b.clearStaleScratch dir now) := by
  have key : ∀ (l : List Path) (b : Scopes), (∀ p ∈ l, p ≠ [] ∧ p.tail = dir) → Swept dir now b
      (l.foldl (fun b path => if b.stale now path then b.rmtree path now else b) b) := by
    intro l
    induction l with
    | nil => exact fun b _ => .refl b
    | cons p l ih =>
      intro b hl
      obtain ⟨hp, ht⟩ := hl p List.mem_cons_self
      rw [List.foldl_cons]
      refine Swept.trans ?_ (ih _ fun p hp => hl p (List.mem_cons_of_mem _ hp))
      split
      · exact .rmtree hp ht ‹_›
      · exact .refl b
  exact key _ b fun p hp => (DirTree.mem_children.1 hp).2

/-! ## The scratch of a scope -/

/-- The directories the scope owns. -/
def Draft.dirs (d : Draft) : List Path :=
  [d.scratch, Text.str "tmp" :: d.scratch, Text.str "home" :: d.scratch]

structure Draft.Sound (c : Settings) (t : DirTree Str Time) (d : Draft) : Prop where
  place : d.level = .agent ∧ d.run = false ∧ (∃ a, d.scratch = a :: c.scratchRoot) ∨
    d.level ≠ .agent ∧ ∃ n a, d.scratch = n :: a :: c.scratchRoot ∧ (runPrefix <+: n ↔ d.run = true)
  tmp : d.env.lookup tmpdir = some (Text.str "tmp" :: d.scratch)
  home : d.env.lookup home = some (Text.str "home" :: d.scratch)
  has : ∀ q ∈ d.dirs, t.Has q

/-- What a directory two levels below the root is to a scope whose directories lie beneath it. -/
theorem Draft.Sound.above {tr : DirTree Str Time} (h : d.Sound c tr)
    (hp : p.length = c.scratchRoot.length + 2) (hq : q ∈ d.dirs) (hs : p <:+ q) :
    d.level ≠ .agent ∧ p = d.scratch ∨ p.headD [] ∈ agentScratch := by
  have hcases : q = d.scratch ∨ q = Text.str "tmp" :: d.scratch ∨
      q = Text.str "home" :: d.scratch := by
    simpa [Draft.dirs] using hq
  have hlen := hs.length_le
  rcases h.place with ⟨-, -, a, ha⟩ | ⟨hl, n, a, ha, -⟩
  · right
    rcases hcases with rfl | rfl | rfl
    · simp [ha] at hlen
      omega
    · rw [hs.eq_of_length (by simp [ha, hp])]
      exact List.mem_cons_self
    · rw [hs.eq_of_length (by simp [ha, hp])]
      exact List.mem_cons_of_mem _ List.mem_cons_self
  · left
    have hscratch : d.scratch <:+ q := by
      rcases hcases with rfl | rfl | rfl
      · exact List.suffix_refl _
      · exact List.suffix_cons _ _
      · exact List.suffix_cons _ _
    exact ⟨hl, eq_of_suffix hs hscratch (by simp [ha, hp])⟩

theorem Draft.Sound.mono {tr tr' : DirTree Str Time} (h : d.Sound c tr)
    (hm : ∀ q ∈ d.dirs, tr'.Has q) : d.Sound c tr' := ⟨h.place, h.tmp, h.home, hm⟩

theorem lookup_foldl_shared {e : List (Str × Path)} {name : Str} (l : List (Str × Path))
    (h : ∀ dir, sharedDirEnv c.sharedDirEnvPrefix dir ≠ name) :
    (l.foldl (fun d x => Dict.assign (sharedDirEnv c.sharedDirEnvPrefix x.1) x.2 d) e).lookup name =
      e.lookup name := by
  induction l generalizing e with
  | nil => rfl
  | cons x l ih => rw [List.foldl_cons, ih, Dict.lookup_assign, if_neg (h x.1).symm]

theorem scope_tmpdir (d : Draft) (files : Option Path) :
    (d.scope c files).env.lookup tmpdir = d.env.lookup tmpdir := by
  unfold Draft.scope
  dsimp only
  split
  · rfl
  · rw [Dict.lookup_assign, if_neg c.filesDirEnv_ne.1.symm]

theorem scope_home (d : Draft) (files : Option Path) :
    (d.scope c files).env.lookup home = d.env.lookup home := by
  unfold Draft.scope
  dsimp only
  split
  · rfl
  · rw [Dict.lookup_assign, if_neg c.filesDirEnv_ne.2.symm]

/-- A path and the directories of a scope that has it as its scratch. -/
def Settled (tr : DirTree Str Time) (p : Path) : Prop :=
  tr.Has p ∧ tr.Has (Text.str "tmp" :: p) ∧ tr.Has (Text.str "home" :: p)

theorem has_dirs {tr : DirTree Str Time} : (∀ q ∈ d.dirs, tr.Has q) ↔ Settled tr d.scratch := by
  simp [Draft.dirs, Settled]

/-- What making the directories of a scope does. -/
structure Drafted (c : Settings) (agent name : Str) (b b' : Scopes) (d : Draft) : Prop where
  sound : d.Sound c b'.tree
  run : d.run = true → d.scratch = (runPrefix ++ name) :: agent :: c.scratchRoot
  inUse : b'.inUse = b.inUse
  ended : b'.ended = b.ended
  has : ∀ q, b.tree.Has q → b'.tree.Has q
  mtime : ∀ q, q.length = c.scratchRoot.length + 2 → Settled b.tree q →
    b'.tree.mtime q = b.tree.mtime q

theorem drafted {agent name : Str} {spec : Option AgentSpec} {id : Option Str} {level : Level}
    (hl : level ≠ .off) (hid : ∀ n, id = some n → level = .conversation → ¬runPrefix <+: n) :
    Drafted c agent name b (b.draft c agent spec id level name now).1
      (b.draft c agent spec id level name now).2 := by
  obtain ⟨tr, scratch, run, hq, htr, hm, hplace, hrun⟩ : ∃ tr scratch run,
      b.scratchFor c agent id level name now = (tr, scratch, run) ∧
      (∀ q, b.tree.Has q ∨ q = scratch → tr.Has q) ∧
      (∀ q, q.length = c.scratchRoot.length + 2 → Settled b.tree q →
        tr.mtime q = b.tree.mtime q) ∧
      (level = .agent ∧ run = false ∧ (∃ a, scratch = a :: c.scratchRoot) ∨
        level ≠ .agent ∧ ∃ n a, scratch = n :: a :: c.scratchRoot ∧
          (runPrefix <+: n ↔ run = true)) ∧
      (run = true → scratch = (runPrefix ++ name) :: agent :: c.scratchRoot) := by
    have hdir : ∀ q, q.length = c.scratchRoot.length + 2 → Settled b.tree q →
        (b.tree.mkdir now (agent :: c.scratchRoot)).mtime q = b.tree.mtime q := by
      intro q hlen hs
      refine DirTree.mtime_mkdir hs.1 fun n hn => ?_
      have := hn.length_le
      simp at this
      omega
    have hsub : ∀ n q, q.length = c.scratchRoot.length + 2 → Settled b.tree q →
        ((b.tree.mkdir now (agent :: c.scratchRoot)).mkdir now
          (n :: agent :: c.scratchRoot)).mtime q = b.tree.mtime q := by
      intro n q hlen hs
      rw [DirTree.mtime_mkdir hs.1.mkdir, hdir q hlen hs]
      intro m hm
      have := hm.length_le
      simp at this
      omega
    have hhas : ∀ n q, b.tree.Has q ∨ q = n :: agent :: c.scratchRoot →
        ((b.tree.mkdir now (agent :: c.scratchRoot)).mkdir now
          (n :: agent :: c.scratchRoot)).Has q := by
      rintro n q (hq | rfl)
      · exact hq.mkdir.mkdir
      · exact DirTree.has_mkdir_self (List.cons_ne_nil _ _)
    have hrunDir : runPrefix <+: runPrefix ++ name := List.prefix_append _ _
    unfold Scopes.scratchFor
    dsimp only
    split
    · refine ⟨_, _, _, rfl, ?_, hdir, .inl ⟨rfl, rfl, agent, rfl⟩, (by simp)⟩
      rintro q (hq | rfl)
      · exact hq.mkdir
      · exact DirTree.has_mkdir_self (List.cons_ne_nil _ _)
    · rename_i a id hne
      have hconv : level = .conversation := by
        cases level with
        | conversation => rfl
        | agent => exact absurd rfl hne
        | off => exact absurd rfl hl
      refine ⟨_, _, _, rfl, hhas _, hsub _, .inr ⟨hne, _, agent, rfl, ?_⟩, (by simp)⟩
      exact ⟨fun h => absurd h (hid _ rfl hconv), (by simp)⟩
    · rename_i hne _
      refine ⟨_, _, _, rfl, hhas _, hsub _, .inr ⟨hne, _, agent, rfl, ?_⟩, fun _ => rfl⟩
      exact ⟨fun _ => rfl, fun _ => hrunDir⟩
  unfold Scopes.draft
  rw [hq]
  dsimp only
  refine ⟨⟨hplace, ?_, ?_, ?_⟩, hrun, rfl, rfl, fun q hq => (htr q (.inl hq)).mkdir.mkdir,
    fun q hlen hs => ?_⟩
  · dsimp only
    split
    · rfl
    · rw [lookup_foldl_shared _ fun dir => (c.sharedDirEnv_ne dir).1]
      rfl
  · dsimp only
    split
    · rfl
    · rw [lookup_foldl_shared _ fun dir => (c.sharedDirEnv_ne dir).2]
      rfl
  · exact has_dirs.2 ⟨(htr _ (.inr rfl)).mkdir.mkdir,
      (DirTree.has_mkdir_self (List.cons_ne_nil _ _)).mkdir,
      DirTree.has_mkdir_self (List.cons_ne_nil _ _)⟩
  · have hlen' : scratch.length ≤ q.length := by
      rcases hplace with ⟨-, -, a, rfl⟩ | ⟨-, n, a, rfl, -⟩ <;> simp [hlen]
    -- a child of `q` on the way to a directory of the scope is that directory
    have hchild : ∀ (n m : Str), m :: q <:+ n :: scratch → m = n := fun n m hm => by
      have he := hm.eq_of_length (by have := hm.length_le; simp at this ⊢; omega)
      exact (List.cons.inj he).1
    rw [DirTree.mtime_mkdir (htr q (.inl hs.1)).mkdir, DirTree.mtime_mkdir (htr q (.inl hs.1)),
      hm q hlen hs]
    · intro m hm
      rw [hchild _ m hm]
      exact htr _ (.inl hs.2.1)
    · intro m hm
      rw [hchild _ m hm]
      exact (htr _ (.inl hs.2.2)).mkdir

/-! ## Holding and releasing -/

/-- The directories the call has made, until they are taken back. -/
def Point.draft? : Point → Option Draft
  | .asking d | .holding d _ => some d
  | _ => none

/-- The call counts as a holder of the directory. -/
def Point.holds (p : Path) : Point → Bool
  | .holding d _ => decide (d.level ≠ .agent ∧ d.scratch = p)
  | _ => false

structure Sound (c : Settings) (s : State) : Prop where
  drafts : ∀ i k d, s.At i k → k.draft? = some d → d.Sound c s.store.tree
  scopes : ∀ i d scope, s.At i (.holding d scope) → ∃ files, scope = d.scope c files
  /-- A memoryless run shares its scratch with nobody. -/
  sole : ∀ i j k k' d d', s.At i k → k.draft? = some d → s.At j k' → k'.draft? = some d' →
    d.run = true → d'.scratch = d.scratch → j = i
  counts : ∀ p, (s.store.inUse.lookup p).getD 0 = s.count (·.holds p)
  counted : ∀ p, s.store.inUse.lookup p ≠ some 0
  /-- What was released and not taken is there, as it was left when its last holder went. -/
  ended : ∀ p t, s.store.ended.lookup p = some t → Settled s.store.tree p ∧
    (∃ n a, p = n :: a :: c.scratchRoot ∧ ¬runPrefix <+: n) ∧
    (s.store.inUse.lookup p = none → s.store.tree.mtime p = some t)

theorem Draft.Sound.length {tr : DirTree Str Time} (h : d.Sound c tr) (hl : d.level ≠ .agent) :
    d.scratch.length = c.scratchRoot.length + 2 := by
  rcases h.place with ⟨he, -⟩ | ⟨-, n, a, he, -⟩
  · exact absurd he hl
  · simp [he]

theorem Draft.Sound.level_of_run {tr : DirTree Str Time} (h : d.Sound c tr) (hr : d.run = true) :
    d.level ≠ .agent ∧ runPrefix <+: d.scratch.headD [] := by
  rcases h.place with ⟨-, he, -⟩ | ⟨hl, n, a, he, hn⟩
  · rw [hr] at he
    cases he
  · rw [he]
    exact ⟨hl, hn.2 hr⟩

theorem inUse_hold : (b.hold d).inUse.lookup p =
    if d.level ≠ .agent ∧ p = d.scratch then some ((b.inUse.lookup d.scratch).getD 0 + 1)
    else b.inUse.lookup p := by
  unfold Scopes.hold
  by_cases hl : d.level = .agent
  · simp [hl]
  · rw [if_neg hl, Dict.lookup_assign]
    simp [hl]

@[simp] theorem hold_tree : (b.hold d).tree = b.tree := by
  unfold Scopes.hold
  split <;> rfl

@[simp] theorem hold_ended : (b.hold d).ended = b.ended := by
  unfold Scopes.hold
  split <;> rfl

/-- The store counts one holder more. -/
theorem Sound.held (h : Sound c s) {n : Nat} {scope : ProcessScope}
    (hn : n = s.count (·.holds p) + (Point.holds p (.holding d scope)).toNat) :
    ((s.store.hold d).inUse.lookup p).getD 0 = n ∧ (s.store.hold d).inUse.lookup p ≠ some 0 := by
  rw [inUse_hold, hn]
  by_cases hp : d.level ≠ .agent ∧ p = d.scratch
  · rw [if_pos hp, h.counts, hp.2]
    simp [Point.holds, hp.1]
  · have hf : Point.holds p (.holding d scope) = false := by
      refine decide_eq_false fun he => hp ⟨he.1, he.2.symm⟩
    rw [if_neg hp, hf]
    exact ⟨h.counts p, h.counted p⟩

theorem Sound.asking (h : Sound c s) (hk : s.At i (.asking d)) (files : Option Path) :
    Sound c (s.put i (s.store.hold d) (.holding d (d.scope c files))) := by
  -- the call keeps its directories
  have back : ∀ j k d', (s.put i (s.store.hold d) (.holding d (d.scope c files))).At j k →
      k.draft? = some d' → ∃ k₀, s.At j k₀ ∧ k₀.draft? = some d' := by
    intro j k d' hj hd
    rcases (Pool.at_put hk).1 hj with ⟨rfl, rfl⟩ | ⟨-, hj⟩
    · exact ⟨_, hk, hd⟩
    · exact ⟨k, hj, hd⟩
  have hcount : ∀ p, (s.put i (s.store.hold d) (.holding d (d.scope c files))).count (·.holds p) =
      s.count (·.holds p) + (Point.holds p (.holding d (d.scope c files))).toNat := fun p =>
    Pool.count_put (Point.holds p) hk
  refine ⟨fun j k d' hj hd => ?_, fun j d' scope hj => ?_, fun j j' k k' d' d'' hj hd hj' hd' => ?_,
    fun p => (h.held (hcount p)).1, fun p => (h.held (hcount p)).2,
    fun p t he => ?_⟩
  · obtain ⟨k₀, hj₀, hd₀⟩ := back j k d' hj hd
    rw [Pool.put_store, hold_tree]
    exact h.drafts j k₀ d' hj₀ hd₀
  · rcases (Pool.at_put hk).1 hj with ⟨-, he⟩ | ⟨-, hj⟩
    · cases he
      exact ⟨files, rfl⟩
    · exact h.scopes j d' scope hj
  · obtain ⟨k₀, hj₀, hd₀⟩ := back j k d' hj hd
    obtain ⟨k₁, hj₁, hd₁⟩ := back j' k' d'' hj' hd'
    exact h.sole j j' k₀ k₁ d' d'' hj₀ hd₀ hj₁ hd₁
  · rw [Pool.put_store, hold_ended] at he
    obtain ⟨hs, hp, hm⟩ := h.ended p t he
    rw [Pool.put_store, hold_tree]
    refine ⟨hs, hp, fun hu => hm ?_⟩
    rw [inUse_hold] at hu
    split at hu
    · cases hu
    · exact hu

theorem Sound.fail (h : Sound c s) (hk : s.At i (.asking d)) :
    Sound c (s.put i s.store .failed) := by
  have back : ∀ j k d', (s.put i s.store .failed).At j k → k.draft? = some d' → s.At j k := by
    intro j k d' hj hd
    rcases (Pool.at_put hk).1 hj with ⟨-, rfl⟩ | ⟨-, hj⟩
    · cases hd
    · exact hj
  have hcount : ∀ p, (s.put i s.store .failed).count (·.holds p) = s.count (·.holds p) := fun p =>
    Pool.count_put (Point.holds p) hk
  exact ⟨fun j k d' hj hd => h.drafts j k d' (back j k d' hj hd) hd,
    fun j d' scope hj => h.scopes j d' scope (back j _ d' hj rfl),
    fun j j' k k' d' d'' hj hd hj' hd' => h.sole j j' k k' d' d'' (back j k d' hj hd) hd
      (back j' k' d'' hj' hd') hd',
    fun p => (h.counts p).trans (hcount p).symm, h.counted, h.ended⟩

/-- Making the directories of a scope. -/
theorem Sound.grow {agent name : Str} (h : Sound c s) (hd : Drafted c agent name s.store b' d) :
    Sound c { s with store := b' } := by
  refine ⟨fun j k d' hj hd' => ?_, h.scopes, h.sole, fun p => ?_, fun p => ?_, fun p t he => ?_⟩
  · have hs := h.drafts j k d' hj hd'
    exact hs.mono fun q hq => hd.has q (hs.has q hq)
  · show (b'.inUse.lookup p).getD 0 = _
    rw [hd.inUse]
    exact h.counts p
  · show b'.inUse.lookup p ≠ _
    rw [hd.inUse]
    exact h.counted p
  · have he : b'.ended.lookup p = some t := he
    rw [hd.ended] at he
    obtain ⟨hs, ⟨n, a, hp, hn⟩, hm⟩ := h.ended p t he
    refine ⟨⟨hd.has _ hs.1, hd.has _ hs.2.1, hd.has _ hs.2.2⟩, ⟨n, a, hp, hn⟩, fun hu => ?_⟩
    have hu : b'.inUse.lookup p = none := hu
    rw [hd.inUse] at hu
    exact (hd.mtime p (by simp [hp]) hs).trans (hm hu)

/-- A call that has none of the directories to itself. -/
theorem Sound.start (h : Sound c s) (hk : k.draft? = none) : Sound c (s.start k) := by
  have back : ∀ j k' d', (s.start k).At j k' → k'.draft? = some d' → s.At j k' := by
    intro j k' d' hj hd
    rcases Pool.at_start.1 hj with hj | ⟨-, rfl⟩
    · exact hj
    · rw [hk] at hd
      cases hd
  have hcount : ∀ p, (s.start k).count (·.holds p) = s.count (·.holds p) := by
    intro p
    have hf : Point.holds p k = false := by
      cases k with
      | holding d scope => cases hk
      | _ => rfl
    rw [Pool.count_start, hf]
    rfl
  exact ⟨fun j k d' hj hd => h.drafts j k d' (back j k d' hj hd) hd,
    fun j d' scope hj => h.scopes j d' scope (back j _ d' hj rfl),
    fun j j' k k' d' d'' hj hd hj' hd' => h.sole j j' k k' d' d'' (back j k d' hj hd) hd
      (back j' k' d'' hj' hd') hd',
    fun p => (h.counts p).trans (hcount p).symm, h.counted, h.ended⟩

theorem Sound.ask (h : Sound c s) (hd : d.Sound c s.store.tree)
    (hnew : d.run = true → ∀ j k d', s.At j k → k.draft? = some d' → d'.scratch ≠ d.scratch) :
    Sound c (s.start (.asking d)) := by
  have other : ∀ j k d', s.At j k → k.draft? = some d' → d'.run = true →
      d'.scratch ≠ d.scratch := by
    intro j k d' hj hd' hr he
    have hs := h.drafts j k d' hj hd'
    have hp := hs.level_of_run hr
    have hl := hs.length hp.1
    rcases hd.place with ⟨-, -, a, ha⟩ | ⟨-, n, a, ha, hn⟩
    · rw [he, ha] at hl
      simp at hl
    · rw [he, ha] at hp
      exact hnew (hn.1 hp.2) j k d' hj hd' he
  have hcount : ∀ p, (s.start (.asking d)).count (·.holds p) = s.count (·.holds p) := fun p =>
    Pool.count_start _
  refine ⟨fun j k d' hj hd' => ?_, fun j d' scope hj => ?_,
    fun j j' k k' d' d'' hj hd' hj' hd'' hr he => ?_,
    fun p => (h.counts p).trans (hcount p).symm, h.counted, h.ended⟩
  · rcases Pool.at_start.1 hj with hj | ⟨-, rfl⟩
    · exact h.drafts j k d' hj hd'
    · cases hd'
      exact hd
  · rcases Pool.at_start.1 hj with hj | ⟨-, he⟩
    · exact h.scopes j d' scope hj
    · cases he
  · rcases Pool.at_start.1 hj with hj | ⟨ej, rfl⟩ <;>
      rcases Pool.at_start.1 hj' with hj' | ⟨ej', rfl⟩
    · exact h.sole j j' k k' d' d'' hj hd' hj' hd'' hr he
    · cases hd''
      exact absurd he.symm (other j k d' hj hd' hr)
    · cases hd'
      exact absurd he (hnew hr j' k' d'' hj' hd'')
    · exact ej'.trans ej.symm

/-- A call that is handed its scope at once. -/
theorem Sound.hold (h : Sound c s) (hd : d.Sound c s.store.tree)
    (hnew : d.run = true → ∀ j k d', s.At j k → k.draft? = some d' → d'.scratch ≠ d.scratch)
    (files : Option Path) :
    Sound c ({ s with store := s.store.hold d }.start (.holding d (d.scope c files))) := by
  have hk : (s.start (.asking d)).At s.calls.length (.asking d) := Pool.at_start.2 (.inr ⟨rfl, rfl⟩)
  have hs := (h.ask hd hnew).asking hk files
  simpa [Pool.put, Pool.start] using hs

theorem Sound.scopeFor {agent : Str} {spec : Option AgentSpec} {id : Option Str}
    {files : Option Path} {name : Str} {ok : Bool} (h : Sound c s)
    (hf : s.store.Fresh c agent name)
    (hid : c.levelFor agent spec = some .conversation → ∀ n, id = some n → ¬runPrefix <+: n) :
    Sound c ({ s with store := (ProcessScopes.scopeFor c s.store agent spec id files name ok now).1
      }.start (ProcessScopes.scopeFor c s.store agent spec id files name ok now).2) := by
  unfold ProcessScopes.scopeFor
  cases hv : c.levelFor agent spec with
  | none => exact h.start rfl
  | some level =>
    by_cases hoff : level = .off
    · subst hoff
      exact h.start rfl
    have hd : Drafted c agent name s.store (s.store.draft c agent spec id level name now).1
        (s.store.draft c agent spec id level name now).2 :=
      drafted hoff fun n hn hc => hid (hv.trans (congrArg some hc)) n hn
    have hs := h.grow hd
    have hnew : (s.store.draft c agent spec id level name now).2.run = true → ∀ j k d', s.At j k →
        k.draft? = some d' →
        d'.scratch ≠ (s.store.draft c agent spec id level name now).2.scratch := by
      intro hr j k d' hj hd' he
      rw [hd.run hr] at he
      exact hf (he ▸ (h.drafts j k d' hj hd').has _ List.mem_cons_self)
    cases ok with
    | false =>
      cases level with
      | off => exact absurd rfl hoff
      | _ => exact hs.start rfl
    | true =>
      cases level with
      | off => exact absurd rfl hoff
      | agent => exact hs.hold hd.sound hnew files
      | conversation =>
        cases id with
        | none => exact hs.hold hd.sound hnew none
        | some id => exact hs.ask hd.sound hnew

theorem release_eq (h : Sound c s) (hk : s.At i (.holding d scope₀)) :
    s.store.release scope₀ now =
      if (s.store.inUse.lookup d.scratch).getD 0 = 0 then s.store
      else if 1 < (s.store.inUse.lookup d.scratch).getD 0 then
        { s.store with
          inUse := Dict.assign d.scratch ((s.store.inUse.lookup d.scratch).getD 0 - 1) s.store.inUse
          ended := Dict.assign d.scratch now s.store.ended }
      else (s.store.giveBack d.scratch now).clearStaleScratch d.scratch.tail now := by
  obtain ⟨files, rfl⟩ := h.scopes i d scope₀ hk
  unfold Scopes.release
  rw [scope_tmpdir, (h.drafts i _ d hk rfl).tmp]
  rfl

/-- A release that leaves the directories of the others. -/
theorem Sound.put (h : Sound c s) (hk : s.At i (.holding d scope₀))
    (hcounts : ∀ p, (b'.inUse.lookup p).getD 0 + (Point.holds p (.holding d scope₀)).toNat =
      s.count (·.holds p))
    (hcounted : ∀ p, b'.inUse.lookup p ≠ some 0)
    (hhas : ∀ j k d', j ≠ i → s.At j k → k.draft? = some d' → ∀ q ∈ d'.dirs, b'.tree.Has q)
    (hended : ∀ p t, b'.ended.lookup p = some t → Settled b'.tree p ∧
      (∃ n a, p = n :: a :: c.scratchRoot ∧ ¬runPrefix <+: n) ∧
      (b'.inUse.lookup p = none → b'.tree.mtime p = some t)) :
    Sound c (s.put i b' (.released d)) := by
  have back : ∀ j k d', (s.put i b' (.released d)).At j k → k.draft? = some d' →
      j ≠ i ∧ s.At j k := by
    intro j k d' hj hd
    rcases (Pool.at_put hk).1 hj with ⟨-, rfl⟩ | hj
    · cases hd
    · exact hj
  refine ⟨fun j k d' hj hd => ?_, fun j d' scope hj => h.scopes j d' scope (back j _ d' hj rfl).2,
    fun j j' k k' d' d'' hj hd hj' hd' => h.sole j j' k k' d' d'' (back j k d' hj hd).2 hd
      (back j' k' d'' hj' hd').2 hd', fun p => ?_, hcounted, hended⟩
  · obtain ⟨hne, hj₀⟩ := back j k d' hj hd
    exact (h.drafts j k d' hj₀ hd).mono (hhas j k d' hne hj₀ hd)
  · have hc : (s.put i b' (.released d)).count (·.holds p) +
        (Point.holds p (.holding d scope₀)).toNat = s.count (·.holds p) :=
      Pool.count_put (Point.holds p) hk
    have := hcounts p
    rw [Pool.put_store]
    omega

/-- The scopes of the agent level are not counted. -/
theorem Sound.unheld_iff (h : Sound c s) (hk : s.At i k) (hd : k.draft? = some d) :
    (s.store.inUse.lookup d.scratch).getD 0 = 0 ↔
      d.level = .agent ∨ ∀ j d' scope, s.At j (.holding d' scope) → d'.scratch ≠ d.scratch := by
  rw [h.counts, Pool.count_eq_zero]
  constructor
  · intro hz
    by_cases hl : d.level = .agent
    · exact .inl hl
    · refine .inr fun j d' scope hj he => ?_
      have hs := h.drafts j _ d' hj rfl
      have hl' : d'.level ≠ .agent := by
        rcases hs.place with ⟨-, -, a, ha⟩ | ⟨hl', -⟩
        · have := (h.drafts i k d hk hd).length hl
          rw [← he, ha] at this
          simp at this
        · exact hl'
      have := hz j _ hj
      simp [Point.holds, hl', he] at this
  · rintro (hl | hno) j k' hj
    · cases k' with
      | holding d' scope =>
        refine decide_eq_false fun he => ?_
        have hlen := (h.drafts j _ d' hj rfl).length he.1
        rcases (h.drafts i k d hk hd).place with ⟨-, -, a, ha⟩ | ⟨hl', -⟩
        · rw [he.2, ha] at hlen
          simp at hlen
        · exact hl' hl
      | _ => rfl
    · cases k' with
      | holding d' scope => exact decide_eq_false fun he => hno j d' scope hj he.2
      | _ => rfl

/-! ### The last holder -/

theorem giveBack_inUse : (b.giveBack scratch now).inUse.lookup p =
    if p = scratch then none else b.inUse.lookup p := by
  unfold Scopes.giveBack
  dsimp only
  split <;> exact Dict.lookup_remove

theorem giveBack_has : (b.giveBack scratch now).tree.Has q ↔
    b.tree.Has q ∧ ¬(runPrefix <+: scratch.headD [] ∧ scratch <:+ q) := by
  unfold Scopes.giveBack
  dsimp only
  split
  · rename_i hr
    show DirTree.Has (DirTree.rmtree _ _ _) q ↔ _
    rw [DirTree.has_rmtree]
    simp only [hr, true_and]
  · rename_i hr
    rw [DirTree.has_touch]
    simp only [hr, false_and, not_false_eq_true, and_true]

/-- Of the directories that stay, the scratch and its parent alone are modified. -/
theorem giveBack_mtime (hq : (b.giveBack scratch now).tree.Has q) (hne : q ≠ scratch)
    (ht : q ≠ scratch.tail) : (b.giveBack scratch now).tree.mtime q = b.tree.mtime q := by
  have hh := giveBack_has.1 hq
  unfold Scopes.giveBack
  dsimp only
  split
  · exact DirTree.mtime_rmtree (fun hs => hh.2 ⟨‹_›, hs⟩) ht
  · exact DirTree.mtime_touch_ne hne

theorem giveBack_mtime_self (hh : b.tree.Has scratch) (hr : ¬runPrefix <+: scratch.headD []) :
    (b.giveBack scratch now).tree.mtime scratch = some now := by
  unfold Scopes.giveBack
  dsimp only
  rw [if_neg hr]
  exact DirTree.mtime_touch_self hh

theorem giveBack_ended (he : (b.giveBack scratch now).ended.lookup p = some t) :
    p = scratch ∧ t = now ∧ ¬runPrefix <+: scratch.headD [] ∨
      p ≠ scratch ∧ b.ended.lookup p = some t := by
  unfold Scopes.giveBack at he
  dsimp only at he
  split at he
  · have he : (Dict.remove scratch b.ended).lookup p = some t := he
    rw [Dict.lookup_remove] at he
    split at he
    · cases he
    · exact .inr ⟨‹_›, he⟩
  · rw [Dict.lookup_assign] at he
    split at he
    · cases he
      exact .inl ⟨‹_›, rfl, ‹_›⟩
    · exact .inr ⟨‹_›, he⟩

/-- The scratch itself was modified now, or is gone. -/
theorem giveBack_stale_self (hh : b.tree.Has scratch) :
    (b.giveBack scratch now).stale now scratch = false := by
  unfold Scopes.stale
  by_cases hr : runPrefix <+: scratch.headD []
  · have hn : ¬(b.giveBack scratch now).tree.Has scratch := fun hq =>
      (giveBack_has.1 hq).2 ⟨hr, List.suffix_refl _⟩
    rw [Option.not_isSome_iff_eq_none.1 hn]
    simp
  · have hnow : decide (now < now - scratchKept) = false :=
      decide_eq_false (Int.not_lt.2 (Int.sub_le_self now (by decide)))
    rw [giveBack_mtime_self hh hr, Option.any_some, hnow, Bool.and_false]

theorem giveBack_stale (hl : p.length = scratch.length) (hne : p ≠ scratch)
    (hs : b.stale now p = false) : (b.giveBack scratch now).stale now p = false := by
  unfold Scopes.stale at *
  rw [giveBack_inUse, if_neg hne]
  by_cases hq : (b.giveBack scratch now).tree.Has p
  · have ht : p ≠ scratch.tail := fun he => by
      have := congrArg List.length he
      cases scratch with
      | nil => exact hne (by simpa using hl)
      | cons n scratch => simp at hl this; omega
    rw [giveBack_mtime hq hne ht, hs]
  · rw [Option.not_isSome_iff_eq_none.1 hq]
    simp

/-! ## Runs -/

/-- No session id reads as a memoryless run's, and no sweep takes the directory of a call that asks
for its conversation's files. -/
def Clear (c : Settings) (s : State) : Label → Prop
  | .scopeFor agent spec raw _ _ _ _ => c.levelFor agent spec = some .conversation →
      ∀ n, c.safeId raw = some n → ¬runPrefix <+: n
  | .release i now => ∀ d scope j d', s.At i (.holding d scope) →
      (s.store.inUse.lookup d.scratch).getD 0 = 1 → s.At j (.asking d') →
      d'.scratch.tail = d.scratch.tail → d'.scratch ≠ d.scratch →
      s.store.stale now d'.scratch = false
  | _ => True

/-- The scratch of a memoryless run has one holder. -/
theorem Sound.held_run (h : Sound c s) (hk : s.At i (.holding d scope₀)) (hr : d.run = true) :
    (s.store.inUse.lookup d.scratch).getD 0 = 1 := by
  have hl := ((h.drafts i _ d hk rfl).level_of_run hr).1
  have hc : (s.put i s.store .failed).count (·.holds d.scratch) +
      (Point.holds d.scratch (.holding d scope₀)).toNat = s.count (·.holds d.scratch) :=
    Pool.count_put (Point.holds d.scratch) hk
  have hz : (s.put i s.store .failed).count (·.holds d.scratch) = 0 := by
    refine (Pool.count_eq_zero _).2 fun j k hj => ?_
    rcases (Pool.at_put hk).1 hj with ⟨-, rfl⟩ | ⟨hne, hj⟩
    · rfl
    · cases k with
      | holding d' scope =>
        exact decide_eq_false fun he => hne (h.sole i j _ _ d d' hk rfl hj rfl hr he.2)
      | _ => rfl
  have hself : Point.holds d.scratch (.holding d scope₀) = true := decide_eq_true ⟨hl, rfl⟩
  rw [h.counts, ← hc, hz, hself]
  rfl

/-- What a last release leaves of the directories of the others. -/
theorem Sound.left (h : Sound c s) (hc : Clear c s (.release i now))
    (hk : s.At i (.holding d scope₀)) (hl : d.level ≠ .agent)
    (hone : (s.store.inUse.lookup d.scratch).getD 0 = 1) {d' : Draft} (hne : j ≠ i)
    (hj : s.At j k) (hd' : k.draft? = some d') (hq : q ∈ d'.dirs) :
    ((s.store.giveBack d.scratch now).clearStaleScratch d.scratch.tail now).tree.Has q := by
  have hs := h.drafts i _ d hk rfl
  have hs' := h.drafts j k d' hj hd'
  have hlen := hs.length hl
  have hstay : (s.store.giveBack d.scratch now).tree.Has q := by
    refine giveBack_has.2 ⟨hs'.has q hq, fun ⟨hr, hsuf⟩ => ?_⟩
    have hrun : d.run = true := by
      rcases hs.place with ⟨he, -⟩ | ⟨-, n, a, he, hn⟩
      · exact absurd he hl
      · rw [he] at hr
        exact hn.1 hr
    rcases hs'.above hlen hq hsuf with ⟨-, he⟩ | hm
    · exact hne (h.sole i j _ k d d' hk rfl hj hd' hrun he.symm)
    · unfold agentScratch at hm
      rcases List.mem_cons.1 hm with he | hm
      · rw [he] at hr
        exact absurd hr (by decide)
      · rw [List.mem_singleton.1 hm] at hr
        exact absurd hr (by decide)
  refine (swept _ _ now).kept q hstay fun p hp ht hsuf => ?_
  have hplen : p.length = d.scratch.length := by
    have := length_of_tail hp ht
    rw [this, List.length_tail]
    omega
  rcases hs'.above (hplen.trans hlen) hq hsuf with ⟨hl', rfl⟩ | hm
  · by_cases he : d'.scratch = d.scratch
    · rw [he]
      exact giveBack_stale_self (hs.has _ List.mem_cons_self)
    · refine giveBack_stale hplen he ?_
      cases k with
      | asking d₁ =>
        cases hd'
        exact hc d scope₀ j d' hk hone hj ht he
      | holding d₁ scope =>
        cases hd'
        have hu : (s.store.inUse.lookup d'.scratch).getD 0 ≠ 0 := fun hz => by
          rcases (h.unheld_iff hj rfl).1 hz with hz | hz
          · exact hl' hz
          · exact hz j d' scope hj rfl
        unfold Scopes.stale
        cases hv : s.store.inUse.lookup d'.scratch with
        | none => exact absurd (by rw [hv]; rfl) hu
        | some n => rw [Option.isNone_some, Bool.and_false, Bool.false_and]
      | _ => cases hd'
  · have hf : decide (p.headD [] ∉ agentScratch) = false := decide_eq_false fun hn => hn hm
    unfold Scopes.stale
    rw [hf]
    rfl

theorem Sound.release (h : Sound c s) (hc : Clear c s (.release i now))
    (hk : s.At i (.holding d scope₀)) :
    Sound c (s.put i (s.store.release scope₀ now) (.released d)) := by
  have hs := h.drafts i _ d hk rfl
  rw [release_eq h hk]
  split
  · -- a scope of the agent level
    rename_i hz
    have hl : d.level = .agent :=
      ((h.unheld_iff hk rfl).1 hz).resolve_right fun hno => hno i d scope₀ hk rfl
    refine h.put hk (fun p => ?_) h.counted
      (fun j k d' _ hj hd' => (h.drafts j k d' hj hd').has) h.ended
    have hf : Point.holds p (.holding d scope₀) = false := decide_eq_false fun he => he.1 hl
    rw [hf]
    exact h.counts p
  rename_i hz
  have hl : d.level ≠ .agent := fun hl => hz ((h.unheld_iff hk rfl).2 (.inl hl))
  have hholds : ∀ p, Point.holds p (.holding d scope₀) = decide (p = d.scratch) := fun p =>
    decide_eq_decide.2 ⟨fun he => he.2.symm, fun he => ⟨hl, he.symm⟩⟩
  have hplace : ∃ n a, d.scratch = n :: a :: c.scratchRoot ∧ (runPrefix <+: n ↔ d.run = true) := by
    rcases hs.place with ⟨he, -⟩ | ⟨-, hp⟩
    · exact absurd he hl
    · exact hp
  split
  · -- others hold it too
    rename_i hmany
    have hrun : d.run ≠ true := fun hr => by
      rw [h.held_run hk hr] at hmany
      omega
    refine h.put hk (fun p => ?_) (fun p => ?_)
      (fun j k d' _ hj hd' => (h.drafts j k d' hj hd').has) fun p t he => ?_
    · have hp := h.counts p
      rw [hholds]
      show (List.lookup p (Dict.assign _ _ _)).getD 0 + _ = _
      rw [Dict.lookup_assign]
      by_cases he : p = d.scratch
      · subst he
        simp only [if_true, Option.getD_some, decide_true, Bool.toNat_true]
        omega
      · rw [if_neg he, hp, decide_eq_false he]
        rfl
    · show List.lookup p (Dict.assign _ _ _) ≠ _
      rw [Dict.lookup_assign]
      split
      · intro he
        have := Option.some.inj he
        omega
      · exact h.counted p
    · have he : (Dict.assign d.scratch now s.store.ended).lookup p = some t := he
      show Settled s.store.tree p ∧ _ ∧ ((Dict.assign _ _ _).lookup p = none → _)
      rw [Dict.lookup_assign] at he ⊢
      by_cases hp : p = d.scratch
      · obtain ⟨n, a, hn, hr⟩ := hplace
        rw [if_pos hp, hp]
        exact ⟨has_dirs.1 hs.has, ⟨n, a, hn, fun hpre => hrun (hr.1 hpre)⟩, nofun⟩
      · rw [if_neg hp] at he ⊢
        exact h.ended p t he
  · -- the last
    rename_i hmany
    have hone : (s.store.inUse.lookup d.scratch).getD 0 = 1 := by omega
    have hlen := hs.length hl
    have hsw := swept (s.store.giveBack d.scratch now) d.scratch.tail now
    refine h.put hk (fun p => ?_) (fun p => ?_)
      (fun j k d' hne hj hd' q hq => h.left hc hk hl hone hne hj hd' hq) fun p t he => ?_
    · have hp := h.counts p
      rw [hsw.inUse, giveBack_inUse, hholds]
      by_cases he : p = d.scratch
      · subst he
        simp only [if_true, Option.getD_none, decide_true, Bool.toNat_true]
        omega
      · rw [if_neg he, hp, decide_eq_false he]
        rfl
    · rw [hsw.inUse, giveBack_inUse]
      split
      · nofun
      · exact h.counted p
    · obtain ⟨he₁, hstay⟩ := hsw.ended p t he
      have hroot : ∀ n a, p = n :: a :: c.scratchRoot → p.length = d.scratch.tail.length + 1 ∧
          p ≠ d.scratch.tail := by
        rintro n a rfl
        refine ⟨by rw [List.length_tail, hlen]; simp, fun he => ?_⟩
        have := congrArg List.length he
        rw [List.length_tail, hlen] at this
        simp at this
      rcases giveBack_ended he₁ with ⟨rfl, rfl, hr⟩ | ⟨hne, he₀⟩
      · obtain ⟨n, a, hn, -⟩ := hplace
        obtain ⟨hpl, hpt⟩ := hroot n a hn
        have hall : ∀ q, d.scratch <:+ q → s.store.tree.Has q → _ := fun q hsuf hq =>
          hstay hpl q hsuf (giveBack_has.2 ⟨hq, fun hp => hr hp.1⟩)
        obtain ⟨h₀, h₁, h₂⟩ := has_dirs.1 hs.has
        refine ⟨⟨hall _ (List.suffix_refl _) h₀, hall _ (List.suffix_cons _ _) h₁,
          hall _ (List.suffix_cons _ _) h₂⟩, ⟨n, a, hn, by rw [hn] at hr; exact hr⟩, fun _ => ?_⟩
        rw [hsw.mtime _ hpt (hall _ (List.suffix_refl _) h₀), giveBack_mtime_self h₀ hr]
      · obtain ⟨⟨h₀, h₁, h₂⟩, ⟨n, a, hn, hpre⟩, hm⟩ := h.ended p t he₀
        obtain ⟨hpl, hpt⟩ := hroot n a hn
        have hgive : ∀ q, p <:+ q → s.store.tree.Has q →
            (s.store.giveBack d.scratch now).tree.Has q := fun q hsuf hq =>
          giveBack_has.2 ⟨hq, fun hp => hne (eq_of_suffix hsuf hp.2 (by rw [hlen, hn]; rfl))⟩
        have hall : ∀ q, p <:+ q → s.store.tree.Has q → _ := fun q hsuf hq =>
          hstay hpl q hsuf (hgive q hsuf hq)
        refine ⟨⟨hall _ (List.suffix_refl _) h₀, hall _ (List.suffix_cons _ _) h₁,
          hall _ (List.suffix_cons _ _) h₂⟩, ⟨n, a, hn, hpre⟩, fun hu => ?_⟩
        rw [hsw.inUse, giveBack_inUse, if_neg hne] at hu
        rw [hsw.mtime _ hpt (hall _ (List.suffix_refl _) h₀),
          giveBack_mtime (hgive _ (List.suffix_refl _) h₀) hne hpt, hm hu]

theorem Sound.next {l : Label} (h : Sound c s) (hc : Clear c s l) (hn : next c s l = some s') :
    Sound c s' := by
  cases l with
  | scopeFor agent spec raw files name ok now =>
    simp only [ProcessScopes.next] at hn
    split at hn <;> cases hn
    exact h.scopeFor ‹_› hc
  | answer i files =>
    simp only [ProcessScopes.next] at hn
    split at hn <;> cases hn
    exact h.asking ‹_› files
  | fail i =>
    simp only [ProcessScopes.next] at hn
    split at hn <;> cases hn
    exact h.fail ‹_›
  | release i now =>
    simp only [ProcessScopes.next] at hn
    split at hn <;> cases hn
    exact h.release hc ‹_›

theorem sound (hr : (lts c).Reach (Clear c) s) : Sound c s := by
  refine hr.inv (fun s hs => ?_) fun s s' l h hc hn => h.next hc hn
  cases hs
  refine ⟨fun i k d hi => absurd hi.lt (Nat.not_lt_zero i),
    fun i d scope hi => absurd hi.lt (Nat.not_lt_zero i),
    fun i j k k' d d' hi => absurd hi.lt (Nat.not_lt_zero i), fun p => rfl, nofun, nofun⟩

/-- What `AgentProcessScopes` keeps, in a state and over its next step. -/
structure Kept (c : Settings) (s : State) : Prop where
  /-- The directories of a scope that was returned are there until it is released. -/
  held : ∀ i d scope, s.At i (.holding d scope) → ∀ name ∈ [tmpdir, home],
    ∃ p, scope.env.lookup name = some p ∧ s.store.tree.Has p
  /-- A conversation's scratch is not taken until a day after its last release. -/
  day : ∀ l s' p t, next c s l = some s' → s.store.ended.lookup p = some t →
    s.store.tree.Has p → ¬s'.store.tree.Has p →
    ∃ i now, l = .release i now ∧ t < now - scratchKept
  /-- A memoryless run's goes with its release. -/
  run : ∀ i d scope now s', s.At i (.holding d scope) → d.run = true →
    next c s (.release i now) = some s' → ¬s'.store.tree.Has d.scratch
  /-- With every scope released, nothing counts as held. -/
  unheld : (∀ i d scope, ¬s.At i (.holding d scope)) → s.store.inUse = []

theorem scopeFor_has {agent : Str} {spec : Option AgentSpec} {id : Option Str}
    {files : Option Path} {name : Str} {ok : Bool} (hq : b.tree.Has q) :
    (scopeFor c b agent spec id files name ok now).1.tree.Has q := by
  have hdraft : ∀ level, (b.draft c agent spec id level name now).1.tree.Has q := by
    intro level
    have hs : (b.scratchFor c agent id level name now).1.Has q := by
      unfold Scopes.scratchFor
      dsimp only
      split
      · exact hq.mkdir
      · exact hq.mkdir.mkdir
      · exact hq.mkdir.mkdir
    exact hs.mkdir.mkdir
  unfold scopeFor
  split
  · exact hq
  · exact hq
  · dsimp only
    split
    · exact hdraft _
    · split
      · rw [hold_tree]
        exact hdraft _
      · rw [hold_tree]
        exact hdraft _
      · exact hdraft _

/-- A release takes what nobody has held for a day. -/
theorem Sound.release_day (h : Sound c s) (hk : s.At i (.holding d scope₀))
    (he : s.store.ended.lookup p = some t) (hp : s.store.tree.Has p)
    (hn : ¬(s.store.release scope₀ now).tree.Has p) : t < now - scratchKept := by
  have hs := h.drafts i _ d hk rfl
  obtain ⟨-, ⟨n, a, hpn, hpre⟩, hm⟩ := h.ended p t he
  rw [release_eq h hk] at hn
  split at hn
  · exact absurd hp hn
  rename_i hz
  split at hn
  · exact absurd hp hn
  have hl : d.level ≠ .agent := fun hl => hz ((h.unheld_iff hk rfl).2 (.inl hl))
  have hlen : p.length = d.scratch.length := by
    rw [hs.length hl, hpn]
    rfl
  have hgive : (s.store.giveBack d.scratch now).tree.Has p := by
    refine giveBack_has.2 ⟨hp, fun h => hpre ?_⟩
    obtain ⟨hr, hsuf⟩ := h
    have hd := hsuf.eq_of_length hlen.symm
    rw [hd, hpn] at hr
    exact hr
  by_contra hlt
  refine hn ((swept _ _ now).kept p hgive fun x hx ht hsuf => ?_)
  have hxl := length_of_tail hx ht
  rw [List.length_tail, hs.length hl] at hxl
  have hxp : x = p := hsuf.eq_of_length (by rw [hxl, hlen, hs.length hl]; rfl)
  rw [hxp]
  by_cases hd : p = d.scratch
  · rw [hd]
    exact giveBack_stale_self (hs.has _ List.mem_cons_self)
  · refine giveBack_stale hlen hd ?_
    unfold Scopes.stale
    cases hv : s.store.inUse.lookup p with
    | some m => rw [Option.isNone_some, Bool.and_false, Bool.false_and]
    | none => rw [hm hv, Option.any_some, decide_eq_false hlt, Bool.and_false]

theorem Sound.release_run (h : Sound c s) (hk : s.At i (.holding d scope₀)) (hr : d.run = true) :
    ¬(s.store.release scope₀ now).tree.Has d.scratch := by
  have hone := h.held_run hk hr
  rw [release_eq h hk, hone, if_neg Nat.one_ne_zero, if_neg (Nat.lt_irrefl 1)]
  intro hq
  have hgive := giveBack_has.1 ((swept _ _ now).has _ hq)
  exact hgive.2 ⟨((h.drafts i _ d hk rfl).level_of_run hr).2, List.suffix_refl _⟩

theorem Sound.unheld (h : Sound c s) (hno : ∀ i d scope, ¬s.At i (.holding d scope)) :
    s.store.inUse = [] := by
  have hnone : ∀ p, s.store.inUse.lookup p = none := by
    intro p
    have hz : s.count (·.holds p) = 0 := by
      refine (Pool.count_eq_zero _).2 fun j k hj => ?_
      cases k with
      | holding d scope => exact absurd hj (hno j d scope)
      | _ => rfl
    have hc := (h.counts p).trans hz
    cases hv : s.store.inUse.lookup p with
    | none => rfl
    | some n =>
      rw [hv] at hc
      exact absurd (hv.trans (congrArg some hc)) (h.counted p)
  cases hu : s.store.inUse with
  | nil => rfl
  | cons x l =>
    have hx := hnone x.1
    rw [hu, List.lookup_cons_self] at hx
    cases hx

/-- In every run where no session id reads as a memoryless run's, and no sweep takes the directory
of a call that asks for its conversation's files. -/
theorem scratch_kept (hr : (lts c).Reach (Clear c) s) : Kept c s := by
  have h := sound hr
  refine ⟨fun i d scope hi name hname => ?_, fun l s' p t hn he hp hgone => ?_,
    fun i d scope now s' hi hrun hn => ?_, h.unheld⟩
  · have hd := h.drafts i _ d hi rfl
    obtain ⟨h₀, h₁, h₂⟩ := has_dirs.1 hd.has
    obtain ⟨files, rfl⟩ := h.scopes i d scope hi
    rcases List.mem_cons.1 hname with rfl | hname
    · exact ⟨_, (scope_tmpdir d files).trans hd.tmp, h₁⟩
    · rw [List.mem_singleton.1 hname]
      exact ⟨_, (scope_home d files).trans hd.home, h₂⟩
  · cases l with
    | scopeFor agent spec raw files name ok now =>
      simp only [next] at hn
      split at hn <;> cases hn
      exact absurd (scopeFor_has hp) hgone
    | answer i files =>
      simp only [next] at hn
      split at hn <;> cases hn
      rw [Pool.put_store, hold_tree] at hgone
      exact absurd hp hgone
    | fail i =>
      simp only [next] at hn
      split at hn <;> cases hn
      exact absurd hp hgone
    | release i now =>
      simp only [next] at hn
      split at hn <;> cases hn
      exact ⟨i, now, rfl, h.release_day ‹_› he hp hgone⟩
  · simp only [next, show s.calls[i]? = some (some (.holding d scope)) from hi] at hn
    cases hn
    exact h.release_run hi hrun

namespace Sample

/-- The application's own variables, its directories, and ids that need no digest. -/
def settings : Settings where
  defaultLevel := .conversation
  filesDirEnv := Text.str "AGENT_FILES_DIR"
  skillsRoot := none
  scratchRoot := [Text.str "scratch"]
  unconfinedByDefault := []
  networkPorts := []
  sharedRoot := none
  sharedDirEnvPrefix := Text.str "AGENT_SHARED_DIR__"
  hexdigest := fun raw => raw
  filesDirEnv_ne := by decide
  sharedDirEnv_ne := fun _ => ⟨fun h => absurd (List.cons.inj h).1 (by decide),
    fun h => absurd (List.cons.inj h).1 (by decide)⟩

def assistant : Str := Text.str "assistant"

def ask (id : String) (now : Time) : Label :=
  .scopeFor assistant none (some (Text.str id)) none [] true now

/-- A conversation's process and a memoryless run, each released, and the conversation's again. -/
def kept : List Label :=
  [ask "assistant--c1" 0, .answer 0 none, .scopeFor assistant none none none (Text.str "a") true 1,
    .release 0 2, .release 1 3, ask "assistant--c1" 4, .answer 2 none]

/-- The conversation's next process starts two days later, while another's is released. -/
def lost : List Label :=
  [ask "assistant--c1" 0, .answer 0 none, .release 0 1, ask "assistant--c2" 2, .answer 1 none,
    ask "assistant--c1" 180000, .release 1 180001, .answer 2 none]

def clear (s : State) : Label → Bool
  | .scopeFor _ _ raw _ _ _ _ => (settings.safeId raw).all fun n => !decide (runPrefix <+: n)
  | .release _ now => s.calls.all fun k =>
    match k with
    | some (.asking d) => !s.store.stale now d.scratch
    | _ => true
  | _ => true

/-- The third scope names a directory that is not there. -/
def unfounded (s : State) : Bool :=
  match s.calls[2]? with
  | some (some (Point.holding _ scope)) =>
    (scope.env.lookup tmpdir).any fun p => !decide (s.store.tree.Has p)
  | _ => false

theorem clear_of_clear (s : State) (l : Label) (h : clear s l = true) : Clear settings s l := by
  cases l with
  | scopeFor agent spec raw files name ok now =>
    intro _ n hn
    simpa [clear, hn] using h
  | release i now =>
    intro d scope j d' _ _ hj _ _
    unfold clear at h
    simpa using List.all_eq_true.1 h _ hj.mem
  | answer i files => trivial
  | fail i => trivial

end Sample

/-- The run's directory is gone, and the conversation's there for its second process. -/
theorem scratch_kept_run : ∃ s, (lts Sample.settings).Reach (Clear Sample.settings) s ∧
    s.store.inUse = [([Text.str "assistant--c1", Sample.assistant, Text.str "scratch"], 1)] ∧
    Kept Sample.settings s := by
  have hs : ((lts Sample.settings).check Sample.clear ⟨⟨[], [], []⟩, []⟩ Sample.kept).any
      (fun s => s.store.inUse =
        [([Text.str "assistant--c1", Sample.assistant, Text.str "scratch"], 1)]) = true := by
    decide
  obtain ⟨s, hc, hp⟩ := (Option.any_eq_true _ _).1 hs
  have hr := Lts.reach_of_check Sample.clear_of_clear rfl hc
  exact ⟨s, hr, of_decide_eq_true hp, scratch_kept hr⟩

/-- A scope is handed out whose directories were swept. -/
theorem scratch_lost : ¬∀ (c : Settings) (s : State), (lts c).Reach Lts.Any s → Kept c s := by
  intro h
  have hs : ((lts Sample.settings).check (fun _ _ => true) ⟨⟨[], [], []⟩, []⟩ Sample.lost).any
      Sample.unfounded = true := by
    decide
  obtain ⟨s, hc, hp⟩ := (Option.any_eq_true _ _).1 hs
  have hr := Lts.reach_of_check (L := lts Sample.settings) (C := Lts.Any)
    (fun _ _ _ => trivial) rfl hc
  unfold Sample.unfounded at hp
  split at hp
  · rename_i d scope hi
    obtain ⟨p, hl, hq⟩ := (h _ s hr).held 2 d scope hi tmpdir List.mem_cons_self
    rw [hl] at hp
    simp [hq] at hp
  · cases hp

end ProcessScopes
