import ImpiAgent.Tools.Wiring

/-!
# The doors move together

An allowlist holds tools of the registry that are not withdrawn, and an agent's manifest lists its
allowlist, until an enrolment gates the agent anew and leaves the manifest to the next operation that
writes it.
-/

namespace Tools

/-! ## The registry -/

theorem mem_names {r : Registry} {n : String} : n ∈ r.names ↔ ∃ t ∈ r, t.name = n := by
  rw [Registry.names, List.mem_insertionSort, List.mem_map]

theorem get_of_mem {r : Registry} {n : String} (h : n ∈ r.names) :
    ∃ t, r.get n = some t ∧ t.name = n := by
  obtain ⟨t, ht, hn⟩ := mem_names.1 h
  cases hg : r.get n with
  | none =>
    have := List.find?_eq_none.1 hg t ht
    simp [hn] at this
  | some t' => exact ⟨t', rfl, by simpa using List.find?_some hg⟩

theorem mem_of_get {r : Registry} {n : String} {t : Tool} (h : r.get n = some t) : n ∈ r.names :=
  mem_names.2 ⟨t, List.mem_of_find?_eq_some h, by simpa using List.find?_some h⟩

/-- A manifest of tools the registry has lists just these. -/
theorem manifest_names {r : Registry} {allowed : List String} (h : ∀ n ∈ allowed, n ∈ r.names) :
    (r.manifest allowed).map (·.name) = allowed := by
  induction allowed with
  | nil => rfl
  | cons n allowed ih =>
    obtain ⟨hn, ht⟩ := List.forall_mem_cons.1 h
    obtain ⟨t, hg, hname⟩ := get_of_mem hn
    rw [Registry.manifest, List.filterMap_cons, hg, Option.map_some, List.map_cons]
    exact congrArg₂ List.cons hname (ih ht)

theorem mem_gateTools {r : Registry} {tools : List String} {caps withdrawn : Finset String}
    {n : String} (h : n ∈ gateTools r tools caps withdrawn) : n ∈ r.names ∧ n ∉ withdrawn := by
  obtain ⟨-, h⟩ := List.mem_filter.1 h
  split at h
  · cases h
  · next t hg => exact ⟨mem_of_get hg, (of_decide_eq_true h).1⟩

theorem redefine_names (r : Registry) (name description parameters : String) :
    (redefine r name description parameters).names = r.names := by
  unfold Registry.names redefine
  rw [List.map_map]
  congr 2
  funext t
  dsimp only [Function.comp]
  split <;> rfl

/-! ## The invariant -/

/-- What an agent's two copies hold. -/
structure Aligned (s : State) (agent : String) : Prop where
  known : ∀ n, s.passes agent n → n ∈ s.registry.names ∧ n ∉ s.withdrawn
  shown : s.behind agent = false → ∀ n, n ∈ s.listed agent ↔ s.passes agent n

/-- An agent an operation has nothing to do with, where no tool was withdrawn. -/
theorem Aligned.same {s s' : State} {agent : String} (h : Aligned s agent)
    (hr : s'.registry.names = s.registry.names) (hw : s'.withdrawn = s.withdrawn)
    (ha : s'.allowlists agent = s.allowlists agent) (hm : s'.manifests agent = s.manifests agent)
    (hb : s'.behind agent = s.behind agent) : Aligned s' agent where
  known n hn := by
    rw [hr, hw]
    exact h.known n (by rwa [State.passes, ← ha])
  shown hs n := by
    rw [State.listed, State.passes, hm, ha]
    exact h.shown (hb ▸ hs) n

/-- An agent whose allowlist was gated, whether its manifest was written or not. -/
theorem Aligned.gated {s' : State} {agent : String} {tools : List String} {caps : Finset String}
    (ha : s'.allowlists agent =
      some (gateTools s'.registry tools caps s'.withdrawn).toFinset)
    (hm : s'.behind agent = false →
      s'.manifests agent =
        some (s'.registry.manifest (gateTools s'.registry tools caps s'.withdrawn))) :
    Aligned s' agent where
  known n hn := by
    rw [State.passes, ha] at hn
    exact mem_gateTools (List.mem_toFinset.1 hn)
  shown hb n := by
    rw [State.listed, State.passes, ha, hm hb, Option.getD_some, Option.getD_some,
      manifest_names fun n hn => (mem_gateTools hn).1, List.mem_toFinset]

variable {baseCaps : Finset String} {s s' : State}

theorem aligned_enroll (h : ∀ a, Aligned s a) (agent : String) (tools : List String) (admin : Bool)
    (extraCaps deniedCaps : Finset String) (gateway a : String) :
    Aligned (enroll baseCaps s agent tools admin extraCaps deniedCaps gateway) a := by
  by_cases hag : a = agent
  · subst hag
    have hb : (enroll baseCaps s a tools admin extraCaps deniedCaps gateway).behind a = true :=
      Function.update_self ..
    exact .gated (Function.update_self ..) fun hb' => nomatch hb.symm.trans hb'
  · exact (h a).same rfl rfl (Function.update_of_ne hag ..) rfl (Function.update_of_ne hag ..)

theorem aligned_advertise (h : ∀ a, Aligned s a) (agent : String) (tools : List String)
    (a : String) : Aligned (advertise s agent tools) a := by
  by_cases hag : a = agent
  · subst hag
    exact .gated (Function.update_self ..) fun _ => Function.update_self ..
  · exact (h a).same rfl rfl (Function.update_of_ne hag ..) (Function.update_of_ne hag ..)
      (Function.update_of_ne hag ..)

theorem aligned_profileEnv (h : ∀ a, Aligned s a) (agent : String) (tools : List String)
    (a : String) : Aligned (profileEnv s agent tools) a := by
  have h' : ∀ a, Aligned { s with specs := Function.update s.specs agent (some tools) } a :=
    fun a => (h a).same rfl rfl rfl rfl rfl
  unfold profileEnv
  dsimp only
  split
  · exact (aligned_advertise h' agent tools a).same rfl rfl rfl rfl rfl
  · exact h' a

theorem aligned_withdraw (h : ∀ a, Aligned s a) (gone : Finset String) (a : String) :
    Aligned (withdraw s gone) a := by
  by_cases hit : (s.allowlists a).any (fun allowed => (allowed ∩ gone).Nonempty) = true
  · have ha : (withdraw s gone).allowlists a =
        some (s.registry.names.filter (· ∈ (s.allowlists a).getD ∅ \ gone)).toFinset := if_pos hit
    have hm : (withdraw s gone).manifests a =
        some (s.registry.manifest
          (s.registry.names.filter (· ∈ (s.allowlists a).getD ∅ \ gone))) := if_pos hit
    constructor
    · intro n hn
      rw [State.passes, ha, Option.getD_some, List.mem_toFinset, List.mem_filter,
        decide_eq_true_eq, Finset.mem_sdiff] at hn
      obtain ⟨hr, hold, hgone⟩ := hn
      refine ⟨hr, fun hw => ?_⟩
      exact (Finset.mem_union.1 hw).elim ((h a).known n hold).2 hgone
    · intro _ n
      rw [State.listed, State.passes, ha, hm, Option.getD_some, Option.getD_some,
        manifest_names fun n hn => (List.mem_filter.1 hn).1, List.mem_toFinset]
  · have ha : (withdraw s gone).allowlists a = s.allowlists a := if_neg hit
    have hm : (withdraw s gone).manifests a = s.manifests a := if_neg hit
    have hb : (withdraw s gone).behind a = s.behind a := if_neg hit
    constructor
    · intro n hn
      rw [State.passes, ha] at hn
      obtain ⟨hr, hw⟩ := (h a).known n hn
      refine ⟨hr, fun hw' => (Finset.mem_union.1 hw').elim hw fun hg => hit ?_⟩
      cases hal : s.allowlists a with
      | none =>
        rw [hal] at hn
        exact absurd hn (Finset.notMem_empty n)
      | some allowed =>
        rw [hal] at hn
        exact decide_eq_true ⟨n, Finset.mem_inter.2 ⟨hn, hg⟩⟩
    · intro hs n
      rw [State.listed, State.passes, ha, hm]
      exact (h a).shown (hb ▸ hs) n

theorem aligned_restore (h : ∀ a, Aligned s a) (names : Finset String) (a : String) :
    Aligned (restore s names) a := by
  cases hsp : s.specs a with
  | none =>
    have ha : (restore s names).allowlists a = s.allowlists a := by simp [restore, hsp]
    have hm : (restore s names).manifests a = s.manifests a := by simp [restore, hsp]
    have hb : (restore s names).behind a = s.behind a := by simp [restore, hsp]
    constructor
    · intro n hn
      rw [State.passes, ha] at hn
      obtain ⟨hr, hw⟩ := (h a).known n hn
      exact ⟨hr, fun hw' => hw (Finset.mem_sdiff.1 hw').1⟩
    · intro hs n
      rw [State.listed, State.passes, ha, hm]
      exact (h a).shown (hb ▸ hs) n
  | some tools =>
    have ha : (restore s names).allowlists a = some (gateTools (restore s names).registry tools
        (s.caps a) (restore s names).withdrawn).toFinset := by
      simp [restore, hsp]
    exact .gated ha fun _ => by simp [restore, hsp]

theorem aligned_refresh (h : ∀ a, Aligned s a) (a : String) : Aligned (refreshManifests s) a := by
  refine ⟨(h a).known, fun hb n => ?_⟩
  cases hal : s.allowlists a with
  | none =>
    have hm : (refreshManifests s).manifests a = s.manifests a := by
      simp [refreshManifests, hal]
    have hb' : s.behind a = false := by simpa [refreshManifests, hal] using hb
    rw [State.listed, hm]
    exact (h a).shown hb' n
  | some allowed =>
    have hm : (refreshManifests s).manifests a =
        some (s.registry.manifest (s.registry.names.filter (· ∈ allowed))) := by
      simp [refreshManifests, hal]
    have hal' : (refreshManifests s).allowlists a = some allowed := hal
    rw [State.listed, State.passes, hm, hal', Option.getD_some, Option.getD_some,
      manifest_names fun n hn => (List.mem_filter.1 hn).1, List.mem_filter, decide_eq_true_eq]
    refine and_iff_right_of_imp fun hn => ((h a).known n ?_).1
    rwa [State.passes, hal]

theorem aligned_sessionEnv (h : ∀ a, Aligned s a) (agent session : String)
    (tools : Option (List String)) (a : String) : Aligned (sessionEnv s agent session tools) a := by
  cases tools with
  | none => exact (h a).same rfl rfl rfl rfl rfl
  | some tools => exact (h a).same rfl rfl rfl rfl rfl

theorem aligned_step {e : Event} (h : ∀ a, Aligned s a) (hn : next baseCaps s e = some s')
    (a : String) : Aligned s' a := by
  cases e with
  | enroll agent tools admin extraCaps deniedCaps gateway =>
    cases hn
    exact aligned_enroll h ..
  | withdraw names =>
    cases hn
    split
    · exact h a
    · exact aligned_withdraw h names a
  | restore names =>
    cases hn
    split
    · exact h a
    · exact aligned_restore h names a
  | refreshManifests =>
    cases hn
    exact aligned_refresh h a
  | profileEnv agent tools =>
    cases hn
    exact aligned_profileEnv h agent tools a
  | sessionEnv agent session tools =>
    cases hn
    exact aligned_sessionEnv h agent session tools a
  | moves name description parameters =>
    cases hn
    exact (h a).same (redefine_names ..) rfl rfl rfl rfl

theorem aligned_reach {C : State → Event → Prop} (h : (lts baseCaps).Reach C s) :
    ∀ a, Aligned s a := by
  refine h.inv (I := fun s => ∀ a, Aligned s a) ?_ fun _ _ _ hs _ hn => aligned_step hs hn
  rintro s ⟨r, rfl⟩ a
  exact ⟨fun n hn => absurd hn (Finset.notMem_empty n),
    fun _ n => iff_of_false (List.not_mem_nil) (Finset.notMem_empty n)⟩

/-! ## Runs -/

/-- No operation hands `name` back. -/
def NotRestored (name : String) (_ : State) : Event → Prop
  | .restore names => name ∉ names
  | _ => True

/-- No operation sets what the conversation may call. -/
def NotSet (session : String) (_ : State) : Event → Prop
  | .sessionEnv _ session' _ => session' ≠ session
  | _ => True

theorem withdrawn_step {e : Event} {name : String} (h : name ∈ s.withdrawn)
    (hc : NotRestored name s e) (hn : next baseCaps s e = some s') : name ∈ s'.withdrawn := by
  cases e with
  | withdraw names =>
    cases hn
    split
    · exact h
    · exact Finset.mem_union_left _ h
  | restore names =>
    cases hn
    split
    · exact h
    · exact Finset.mem_sdiff.2 ⟨h, hc⟩
  | profileEnv agent tools =>
    cases hn
    unfold profileEnv
    dsimp only
    split <;> exact h
  | sessionEnv agent session tools =>
    cases hn
    cases tools <;> exact h
  | enroll | refreshManifests | moves =>
    cases hn
    exact h

theorem set_step {e : Event} {session : String} (hc : NotSet session s e)
    (hn : next baseCaps s e = some s') :
    s'.sessionAllowlists session = s.sessionAllowlists session := by
  cases e with
  | withdraw names =>
    cases hn
    split <;> rfl
  | restore names =>
    cases hn
    split <;> rfl
  | profileEnv agent tools =>
    cases hn
    unfold profileEnv
    dsimp only
    split <;> rfl
  | sessionEnv agent session' tools =>
    cases hn
    cases tools <;> exact Function.update_of_ne (Ne.symm hc) ..
  | enroll | refreshManifests | moves =>
    cases hn
    rfl

theorem withdrawn_closed {agent name : String} (h : Aligned s agent) (hw : name ∈ s.withdrawn) :
    ¬s.passes agent name := fun hp => (h.known name hp).2 hw

/-- A withdrawn tool passes no door until it is restored; a conversation calls what its last
`session_env` admitted and its agent still has; and an agent that was not enrolled again since its
manifest was written is shown, with its unrestricted conversations, exactly what they may call. -/
theorem doors_together (baseCaps : Finset String) :
    (∀ s names s₁ name es s', (lts baseCaps).Reach Lts.Any s →
      (lts baseCaps).next s (.withdraw names) = some s₁ → name ∈ names →
      (lts baseCaps).Run (NotRestored name) s₁ es s' →
      ∀ agent session, ¬s'.passes agent name ∧ ¬s'.callable agent session name) ∧
    (∀ s agent session tools s₁ es s', (lts baseCaps).Reach Lts.Any s →
      (lts baseCaps).next s (.sessionEnv agent session tools) = some s₁ →
      (lts baseCaps).Run (NotSet session) s₁ es s' →
      ∀ a name, s'.callable a session name →
        s'.passes a name ∧ ∀ l, tools = some l → name ∈ admitted s agent l) ∧
    ∀ s, (lts baseCaps).Reach Lts.Any s → ∀ agent, s.behind agent = false →
      (∀ name, name ∈ s.listed agent ↔ s.passes agent name) ∧
      ∀ session, s.sessionAllowlists session = none →
        ∀ name, name ∈ s.listed agent ↔ s.callable agent session name := by
  refine ⟨?_, ?_, ?_⟩
  · intro s names s₁ name es s' hr hn hmem hrun agent session
    have hr₁ : (lts baseCaps).Reach Lts.Any s₁ := hr.step trivial hn
    have hw₁ : name ∈ s₁.withdrawn := by
      cases hn
      rw [if_neg (Finset.ne_empty_of_mem hmem)]
      exact Finset.mem_union_right _ hmem
    have hw : name ∈ s'.withdrawn :=
      hrun.inv_of (I := fun s => name ∈ s.withdrawn) hr₁ (fun _ _ _ => trivial) hw₁
        fun _ _ _ _ hw hc hn => withdrawn_step hw hc hn
    have hclosed := withdrawn_closed (aligned_reach (hr₁.run hrun.any) agent) hw
    exact ⟨hclosed, fun hcall => hclosed hcall.1⟩
  · intro s agent session tools s₁ es s' hr hn hrun a name hcall
    refine ⟨hcall.1, fun l hl => ?_⟩
    subst hl
    have hset₁ : s₁.sessionAllowlists session = some (admitted s agent l).toFinset := by
      cases hn
      exact Function.update_self ..
    have hset : s'.sessionAllowlists session = s₁.sessionAllowlists session :=
      hrun.inv_of (I := fun s => s.sessionAllowlists session = s₁.sessionAllowlists session)
        (hr.step trivial hn) (fun _ _ _ => trivial) rfl
        fun _ _ _ _ heq hc hn => (set_step hc hn).trans heq
    exact List.mem_toFinset.1 (hcall.2 _ (hset.trans hset₁))
  · intro s hr agent hb
    have hshown := (aligned_reach hr agent).shown hb
    refine ⟨hshown, fun session hnone name => (hshown name).trans ?_⟩
    exact ⟨fun hp => ⟨hp, fun set hs => nomatch hnone.symm.trans hs⟩, And.left⟩

namespace Sample

def tool (name : String) (requires : Finset String) : Tool :=
  ⟨name, "", "\x7b\x7d", requires, false, false, false, false⟩

def registry : Registry := [tool "list_agents" ∅, tool "create_channel" {capChatAdmin}]

def tools : List String := ["list_agents", "create_channel"]

/-- An agent enrolled on a gateway, shown its tools, and enrolled on another one that can do more. -/
def enrolledTwice : List Event :=
  [.enroll "a" tools false ∅ ∅ "http", .profileEnv "a" tools,
    .enroll "a" tools true ∅ ∅ "mattermost"]

/-- An agent enrolled, and a conversation of its own set. -/
def shown : State :=
  sessionEnv (profileEnv (enroll ∅ (State.start registry) "a" tools false ∅ ∅ "http") "a" tools)
    "a" "c" (some ["list_agents"])

theorem shown_reach : (lts ∅).Reach Lts.Any shown :=
  .step (e := .sessionEnv "a" "c" (some ["list_agents"]))
    (.step (e := .profileEnv "a" tools)
      (.step (e := .enroll "a" tools false ∅ ∅ "http") (.init ⟨registry, rfl⟩) trivial rfl)
      trivial rfl) trivial rfl

/-- It lost a tool, and was set and reloaded again. -/
def withdrawn : State :=
  profileEnv (sessionEnv (withdraw shown {"list_agents"}) "a" "c" (some ["list_agents"])) "a" tools

end Sample

/-- A tool is withdrawn; neither a reload nor a set that names it hands it back. -/
theorem doors_together_run :
    (∀ agent session, ¬Sample.withdrawn.passes agent "list_agents" ∧
      ¬Sample.withdrawn.callable agent session "list_agents") ∧
    (∀ name, Sample.withdrawn.callable "a" "c" name → Sample.withdrawn.passes "a" name) ∧
    ∀ name, name ∈ Sample.withdrawn.listed "a" ↔ Sample.withdrawn.passes "a" name := by
  have hn : (lts ∅).next Sample.shown (.withdraw {"list_agents"}) =
    some (withdraw Sample.shown {"list_agents"}) := rfl
  have hw : (lts ∅).Reach Lts.Any (withdraw Sample.shown {"list_agents"}) :=
    Sample.shown_reach.step trivial hn
  have hset : (lts ∅).next (withdraw Sample.shown {"list_agents"})
    (.sessionEnv "a" "c" (some ["list_agents"])) = some _ := rfl
  have hrun : (lts ∅).Run (NotSet "c") _ [.profileEnv "a" Sample.tools] Sample.withdrawn :=
    .cons trivial rfl .nil
  have hall : (lts ∅).Run (NotRestored "list_agents") (withdraw Sample.shown {"list_agents"})
      [.sessionEnv "a" "c" (some ["list_agents"]), .profileEnv "a" Sample.tools]
      Sample.withdrawn := .cons trivial rfl (.cons trivial rfl .nil)
  refine ⟨(doors_together ∅).1 _ _ _ _ _ _ Sample.shown_reach hn (Finset.mem_singleton_self _) hall,
    fun name hc => ((doors_together ∅).2.1 _ _ _ _ _ _ _ hw hset hrun "a" name hc).1,
    ((doors_together ∅).2.2 _ (hw.run hall.any) "a" (by decide)).1⟩

/-- The door has opened, and the manifest the agent was pointed at does not say so. -/
theorem enrolled_unshown : ∃ s, (lts ∅).Reach Lts.Any s ∧ s.pointed "a" = true ∧
    s.passes "a" "create_channel" ∧ "create_channel" ∉ s.listed "a" := by
  have h : ((lts ∅).check (fun _ _ => true) (State.start Sample.registry)
      Sample.enrolledTwice).any (fun s => decide (s.pointed "a" = true ∧
        "create_channel" ∈ (s.allowlists "a").getD ∅ ∧ "create_channel" ∉ s.listed "a")) =
      true := by
    decide
  obtain ⟨s, hs, hq⟩ := (Option.any_eq_true _ _).1 h
  obtain ⟨hp, ha, hl⟩ := of_decide_eq_true hq
  exact ⟨s, Lts.reach_of_check (fun _ _ _ => trivial) ⟨_, rfl⟩ hs, hp, ha, hl⟩

end Tools
