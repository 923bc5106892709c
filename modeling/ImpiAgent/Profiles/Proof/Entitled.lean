import ImpiAgent.Profiles.Entitled
import ImpiAgent.Tools.Proof.Wiring

/-!
# What a conversation's process is offered

Over any run of the wiring an agent's allowlist is its profile gated as the registry stands
(`gated_reach`), so the narrowed `--tools`, less what is withdrawn or not served, is what the doors
admit, unless the profile and the entitlement spell one tool in two ways.
-/

namespace Tools

variable {r : Registry} {n : String}

/-- One step of `declared`'s fold. -/
def declareStep (r : Registry) (names : List String) (entry : String) : List String :=
  if "__*".toList.isSuffixOf entry.toList then
    names ++ r.names.filter fun n => entry.toList.dropLast.isPrefixOf n.toList ∧ n ∉ names
  else if entry ∉ names then names ++ [entry]
  else names

theorem declared_eq (r : Registry) (tools : List String) :
    declared r tools = tools.foldl (declareStep r) [] := rfl

theorem mem_declareStep {acc : List String} {e : String} :
    n ∈ declareStep r acc e ↔ n ∈ acc ∨ n ∈ declareStep r [] e := by
  by_cases hn : n ∈ acc
  · refine iff_of_true ?_ (Or.inl hn)
    unfold declareStep
    split
    · exact List.mem_append_left _ hn
    · split
      · exact List.mem_append_left _ hn
      · exact hn
  · rw [or_iff_right hn]
    unfold declareStep
    split
    · simp [hn]
    · split
      · simp [hn]
      · next he =>
        refine iff_of_false hn fun h => he fun hmem => hn ?_
        simp only [List.not_mem_nil, not_false_eq_true, if_true, List.nil_append,
          List.mem_singleton] at h
        rwa [h]

/-- A list declares what its entries declare, each by itself. -/
theorem mem_declared {tools : List String} :
    n ∈ declared r tools ↔ ∃ e ∈ tools, n ∈ declared r [e] := by
  have hfold : ∀ (tools acc : List String), n ∈ tools.foldl (declareStep r) acc ↔
      n ∈ acc ∨ ∃ e ∈ tools, n ∈ declareStep r [] e := by
    intro tools
    induction tools with
    | nil => simp
    | cons e tools ih =>
      intro acc
      rw [List.foldl_cons, ih, mem_declareStep, List.exists_mem_cons_iff, or_assoc]
  rw [declared_eq, hfold, or_iff_right List.not_mem_nil]
  rfl

/-- An entry that is no family declares itself. -/
theorem mem_declared_singleton {e : String} (he : Entitled.isFamily e = false) :
    n ∈ declared r [e] ↔ n = e := by
  rw [declared_eq, List.foldl_cons, List.foldl_nil, declareStep, if_neg]
  · simp
  · exact Bool.eq_false_iff.1 he

theorem get_redefine {name description parameters : String} :
    (redefine r name description parameters).get n = (r.get n).map fun t =>
      if t.name = name then { t with description := description, parameters := parameters }
      else t := by
  unfold Registry.get redefine
  rw [List.find?_map]
  congr 2
  funext t
  dsimp only [Function.comp]
  split <;> rfl

theorem declared_redefine {name description parameters : String} {tools : List String} :
    declared (redefine r name description parameters) tools = declared r tools := by
  unfold declared
  rw [redefine_names]

theorem mem_gateTools_iff {tools : List String} {caps withdrawn : Finset String} :
    n ∈ gateTools r tools caps withdrawn ↔ n ∈ declared r tools ∧
      ∃ tool, r.get n = some tool ∧ n ∉ withdrawn ∧ tool.missing caps = ∅ := by
  rw [gateTools, List.mem_filter]
  refine and_congr_right fun _ => ?_
  cases hg : r.get n with
  | none => simp
  | some tool => simp

end Tools

namespace Entitled

open Tools

/-! ## What a source answers -/

theorem mem_distinct {names : List String} {t : String} : t ∈ distinct names ↔ t ∈ names := by
  have hfold : ∀ (names seen : List String),
      t ∈ names.foldl (fun seen n => if n ∈ seen then seen else seen ++ [n]) seen ↔
        t ∈ seen ∨ t ∈ names := by
    intro names
    induction names with
    | nil => simp
    | cons n names ih =>
      intro seen
      rw [List.foldl_cons, ih]
      split
      · next hn =>
        rw [List.mem_cons]
        exact ⟨fun h => h.imp_right Or.inr, fun h => h.elim .inl fun h => h.elim
          (fun heq => .inl (heq ▸ hn)) .inr⟩
      · rw [List.mem_append, List.mem_singleton, List.mem_cons, or_assoc]
  exact (hfold names []).trans (or_iff_right List.not_mem_nil)

/-- What several entitlements share is what each of those that name tools names. -/
theorem mem_shared {entitlements : List Entitlement} {l : List String} {t : String}
    (h : (sharedEntitlement entitlements).tools = some l) :
    t ∈ l ↔ ∀ e ∈ entitlements, ∀ own, e.tools = some own → t ∈ own := by
  have hall : (∀ e ∈ entitlements, ∀ own, e.tools = some own → t ∈ own) ↔
      ∀ own ∈ entitlements.filterMap (·.tools), t ∈ own := by
    simp only [List.mem_filterMap]
    exact ⟨fun h own ⟨e, he, ho⟩ => h e he own ho, fun h e he own ho => h own ⟨e, he, ho⟩⟩
  rw [hall]
  unfold sharedEntitlement at h
  dsimp only at h
  split at h
  · cases h
  · next first others heq =>
    cases h
    rw [heq, mem_distinct, List.mem_filter, List.forall_mem_cons]
    simp

theorem shared_tools_none {entitlements : List Entitlement}
    (h : (sharedEntitlement entitlements).tools = none) : ∀ e ∈ entitlements, e.tools = none := by
  unfold sharedEntitlement at h
  dsimp only at h
  split at h
  · next heq => simpa [List.filterMap_eq_nil_iff] using heq
  · cases h

variable {spec : Option (List (String × List String))} {gateway : String}
  {tools : Option (List String)} {inner : Option (Option (List String) → Entitlement)}
  {l : List String} {t : String}

theorem mem_gatewayOwn (h : ∀ l, (gatewayOwn spec gateway tools).tools = some l → t ∈ l) :
    (∀ own, (spec.bind fun byGateway => toolsOn byGateway gateway) = some own → t ∈ own) ∧
      ∀ ceiling, tools = some ceiling → t ∈ ceiling := by
  cases tools with
  | none => exact ⟨h, nofun⟩
  | some ceiling =>
    unfold gatewayOwn at h
    dsimp only at h
    cases hs : (sharedEntitlement [⟨spec.bind fun byGateway => toolsOn byGateway gateway, "", []⟩,
        ⟨some ceiling, "", []⟩]).tools with
    | none => exact absurd (shared_tools_none hs ⟨some ceiling, "", []⟩ (by simp)) nofun
    | some l =>
      have hall := (mem_shared hs).1 (h l hs)
      exact ⟨hall _ (List.mem_cons_self ..), hall ⟨some ceiling, "", []⟩ (by simp)⟩

/-- A conversation's set is no wider than the ceiling given for it and than its gateway's list. -/
theorem mem_gatewayEntitlement (h : (gatewayEntitlement spec gateway tools inner).tools = some l)
    (ht : t ∈ l) :
    (∀ own, (spec.bind fun byGateway => toolsOn byGateway gateway) = some own → t ∈ own) ∧
      ∀ ceiling, tools = some ceiling → t ∈ ceiling := by
  refine mem_gatewayOwn fun l' hl' => ?_
  cases inner with
  | none => exact Option.some.inj (h.symm.trans hl') ▸ ht
  | some inner => exact (mem_shared h).1 ht _ (List.mem_cons_self ..) l' hl'

/-! ## The agent's door over any run -/

/-- An enrolled agent's allowlist is its profile, gated by the registry and its capabilities. -/
def Gated (s : State) (agent : String) : Prop :=
  s.envs agent = true → ∃ tools, s.specs agent = some tools ∧
    ∀ n, s.passes agent n ↔ n ∈ declared s.registry tools ∧ served s agent n

theorem Gated.of_gateTools {s : State} {agent : String} {tools : List String}
    (hs : s.specs agent = some tools)
    (ha : s.allowlists agent =
      some (gateTools s.registry tools (s.caps agent) s.withdrawn).toFinset) : Gated s agent := by
  refine fun _ => ⟨tools, hs, fun n => ?_⟩
  rw [State.passes, ha, Option.getD_some, List.mem_toFinset]
  exact mem_gateTools_iff

/-- An agent an operation has nothing to do with. -/
theorem Gated.same {s s' : State} {agent : String} (h : Gated s agent)
    (he : s'.envs agent = s.envs agent) (hs : s'.specs agent = s.specs agent)
    (ha : s'.allowlists agent = s.allowlists agent) (hc : s'.caps agent = s.caps agent)
    (hr : s'.registry = s.registry) (hw : s'.withdrawn = s.withdrawn) : Gated s' agent := by
  intro he'
  obtain ⟨tools, hspec, hp⟩ := h (he ▸ he')
  refine ⟨tools, hs.trans hspec, fun n => ?_⟩
  rw [State.passes, ha, served, hr, hw, hc]
  exact hp n

variable {baseCaps : Finset String} {s s' : State} {a : String}

theorem gated_enroll (h : ∀ a, Gated s a) (agent : String) (tools : List String) (admin : Bool)
    (extraCaps deniedCaps : Finset String) (gateway a : String) :
    Gated (enroll baseCaps s agent tools admin extraCaps deniedCaps gateway) a := by
  by_cases hag : a = agent
  · subst hag
    refine .of_gateTools (Function.update_self ..) ?_
    simp [enroll]
  · exact (h a).same (Function.update_of_ne hag ..) (Function.update_of_ne hag ..)
      (Function.update_of_ne hag ..) (Function.update_of_ne hag ..) rfl rfl

theorem gated_profileEnv (h : ∀ a, Gated s a) (agent : String) (tools : List String)
    (a : String) : Gated (profileEnv s agent tools) a := by
  unfold profileEnv
  dsimp only
  split
  · next henv =>
    by_cases hag : a = agent
    · subst hag
      exact .of_gateTools (Function.update_self ..) (Function.update_self ..)
    · exact (h a).same rfl (Function.update_of_ne hag ..) (Function.update_of_ne hag ..) rfl rfl rfl
  · next henv =>
    by_cases hag : a = agent
    · subst hag
      exact fun he => absurd he henv
    · exact (h a).same rfl (Function.update_of_ne hag ..) rfl rfl rfl rfl

/-- What a withdrawal leaves an agent is what gating without the withdrawn tools would. -/
theorem passes_withdraw (ha : Aligned s a) (gone : Finset String) (n : String) :
    (withdraw s gone).passes a n ↔ s.passes a n ∧ n ∉ gone := by
  by_cases hit : (s.allowlists a).any (fun allowed => (allowed ∩ gone).Nonempty) = true
  · have hal : (withdraw s gone).allowlists a =
        some (s.registry.names.filter (· ∈ (s.allowlists a).getD ∅ \ gone)).toFinset := if_pos hit
    rw [State.passes, hal, Option.getD_some, List.mem_toFinset, List.mem_filter,
      decide_eq_true_eq, Finset.mem_sdiff]
    exact and_iff_right_of_imp fun hn => (ha.known n hn.1).1
  · have hal : (withdraw s gone).allowlists a = s.allowlists a := if_neg hit
    rw [State.passes, hal]
    refine (and_iff_left_of_imp fun hn hg => hit ?_).symm
    cases hs : s.allowlists a with
    | none =>
      rw [hs] at hn
      exact absurd hn (Finset.notMem_empty n)
    | some allowed =>
      rw [hs] at hn
      exact decide_eq_true ⟨n, Finset.mem_inter.2 ⟨hn, hg⟩⟩

theorem gated_withdraw (h : ∀ a, Gated s a) (ha : ∀ a, Aligned s a) (gone : Finset String)
    (a : String) : Gated (withdraw s gone) a := by
  intro he
  obtain ⟨tools, hs, hp⟩ := h a he
  refine ⟨tools, hs, fun n => ?_⟩
  rw [passes_withdraw (ha a), hp n, and_assoc]
  refine and_congr_right fun _ => ⟨?_, ?_⟩
  · rintro ⟨⟨tool, hg, hw, hm⟩, hgone⟩
    exact ⟨tool, hg, fun hu => (Finset.mem_union.1 hu).elim hw hgone, hm⟩
  · rintro ⟨tool, hg, hw, hm⟩
    exact ⟨⟨tool, hg, fun hw' => hw (Finset.mem_union_left _ hw'), hm⟩,
      fun hg' => hw (Finset.mem_union_right _ hg')⟩

theorem gated_restore (h : ∀ a, Gated s a) (names : Finset String) (a : String) :
    Gated (restore s names) a := by
  intro he
  obtain ⟨tools, hs, -⟩ := h a he
  refine Gated.of_gateTools (s := restore s names) hs ?_ he
  simp [restore, hs]

/-- Definitions that move change neither what a list declares nor who is served. -/
theorem gated_moves (h : Gated s a) (name description parameters : String) :
    Gated { s with registry := redefine s.registry name description parameters } a := by
  intro he
  obtain ⟨tools, hs, hp⟩ := h he
  refine ⟨tools, hs, fun n => ?_⟩
  rw [declared_redefine]
  refine (hp n).trans (and_congr_right fun _ => ?_)
  unfold served
  dsimp only
  rw [get_redefine]
  cases s.registry.get n with
  | none => simp
  | some tool =>
    have hm : ∀ caps, (if tool.name = name then
        { tool with description := description, parameters := parameters }
        else tool).missing caps = tool.missing caps := by
      intro caps
      split <;> rfl
    simp [hm]

theorem gated_step {e : Event} (h : ∀ a, Gated s a) (ha : ∀ a, Aligned s a)
    (hn : next baseCaps s e = some s') (a : String) : Gated s' a := by
  cases e with
  | enroll agent tools admin extraCaps deniedCaps gateway =>
    cases hn
    exact gated_enroll h agent tools admin extraCaps deniedCaps gateway a
  | withdraw names =>
    cases hn
    split
    · exact h a
    · exact gated_withdraw h ha names a
  | restore names =>
    cases hn
    split
    · exact h a
    · exact gated_restore h names a
  | refreshManifests =>
    cases hn
    exact (h a).same rfl rfl rfl rfl rfl rfl
  | profileEnv agent tools =>
    cases hn
    exact gated_profileEnv h agent tools a
  | sessionEnv agent session tools =>
    cases hn
    cases tools with
    | none => exact (h a).same rfl rfl rfl rfl rfl rfl
    | some tools => exact (h a).same rfl rfl rfl rfl rfl rfl
  | moves name description parameters =>
    cases hn
    exact gated_moves (h a) name description parameters

theorem gated_reach {C : State → Event → Prop} (h : (lts baseCaps).Reach C s) :
    ∀ a, Gated s a := by
  have hboth : (∀ a, Gated s a) ∧ ∀ a, Aligned s a := by
    refine h.inv (I := fun s => (∀ a, Gated s a) ∧ ∀ a, Aligned s a) ?_
      fun _ _ _ hs _ hn => ⟨gated_step hs.1 hs.2 hn, aligned_step hs.2 hn⟩
    intro s hi
    have hreach : (lts baseCaps).Reach Lts.Any s := .init hi
    refine ⟨fun a he => ?_, aligned_reach hreach⟩
    obtain ⟨r, rfl⟩ := hi
    cases he
  exact hboth.1

/-! ## The narrowed profile -/

theorem mem_keptTools {profile : List String} {tools : Option (List String)} {t : String} :
    t ∈ keptTools profile tools ↔ t ∈ profile ∧ ∀ l, tools = some l → t ∈ l := by
  cases tools with
  | none => simp [keptTools]
  | some allowed => simp [keptTools]

/-- A profile's list keeps what the entitlement has entries for, as they are written, and
`tool_search` when something of it is held back. -/
theorem mem_narrow {profile : PiProfile} {tools : Option (List String)} {instructions : String}
    {env : List (String × String)} {manifest : ManifestPath} {deferred : List String} {t : String} :
    t ∈ (narrowPiProfile profile tools instructions env manifest deferred).tools ↔
      t ∈ keptTools profile.tools tools ∨
      (t = toolSearch ∧ ∃ d ∈ keptTools profile.tools tools, d ∈ deferred) := by
  have hheld : (keptTools profile.tools tools).filter (· ∈ deferred) ≠ [] ↔
      ∃ d ∈ keptTools profile.tools tools, d ∈ deferred := by
    rw [ne_eq, List.filter_eq_nil_iff]
    simp
  unfold narrowPiProfile
  dsimp only
  rw [← hheld]
  split
  · next h => simp [h.1]
  · next h =>
    refine (or_iff_left_of_imp ?_).symm
    rintro ⟨rfl, hne⟩
    exact not_not.1 fun hk => h ⟨hne, hk⟩

/-! ## What a session is built -/

section

variable {agent session n : String} {profile : PiProfile} {entitlement : Entitlement}
  {envs : String → List (String × String)}

theorem build_registry :
    (build envs s agent profile entitlement session).1.registry = s.registry := by
  dsimp only [build]
  cases entitlement.tools <;> rfl

theorem build_served :
    served (build envs s agent profile entitlement session).1 agent n ↔ served s agent n := by
  dsimp only [build]
  cases entitlement.tools <;> rfl

theorem build_callable :
    (build envs s agent profile entitlement session).1.callable agent session n ↔
      s.passes agent n ∧ ∀ l, entitlement.tools = some l → n ∈ declared s.registry l := by
  dsimp only [build, State.callable]
  cases entitlement.tools with
  | none => simp [sessionEnv, State.passes]
  | some l =>
    simp only [sessionEnv, State.passes, Function.update_self, Option.some.injEq, forall_eq',
      List.mem_toFinset, admitted, List.mem_filter, decide_eq_true_eq]
    exact ⟨fun h => ⟨h.1, h.2.1⟩, fun h => ⟨h.1, h.2, h.1⟩⟩

/-- The manifest of the env lists what both doors admit. -/
theorem manifest_callable (ha : Aligned s agent)
    (hb : entitlement.tools = none → s.behind agent = false) :
    ∃ path, (build envs s agent profile entitlement session).2.manifest = some path ∧
      ∀ n, n ∈ listedAt (build envs s agent profile entitlement session).1 path ↔
        (build envs s agent profile entitlement session).1.callable agent session n := by
  refine ⟨_, rfl, fun n => ?_⟩
  rw [build_callable]
  cases ht : entitlement.tools with
  | none =>
    have hlisted : listedAt (build envs s agent profile entitlement session).1 (.agent agent) =
        s.listed agent := by simp [build, listedAt, ht, sessionEnv, State.listed]
    rw [hlisted, ha.shown (hb ht)]
    simp
  | some l =>
    have hlisted : listedAt (build envs s agent profile entitlement session).1
        (.session agent session) = (s.registry.manifest (admitted s agent l)).map (·.name) := by
      simp [build, listedAt, ht, sessionEnv]
    have hadmitted : ∀ n, n ∈ admitted s agent l ↔
        n ∈ declared s.registry l ∧ s.passes agent n := by
      simp [admitted, State.passes]
    have hknown : ∀ n ∈ admitted s agent l, n ∈ s.registry.names := fun n hn =>
      (ha.known n ((hadmitted n).1 hn).2).1
    rw [hlisted, manifest_names hknown, hadmitted, and_comm]
    simp

end

/-- What the list of a session stands for beside `tool_search`. -/
theorem standsFor_build {agent session n : String} {profile : PiProfile}
    {entitlement : Entitlement} {envs : String → List (String × String)} (hne : n ≠ toolSearch) :
    standsFor s.registry (build envs s agent profile entitlement session).2.tools n ↔
      n ∈ s.registry.names ∧ ∃ e ∈ profile.tools, (∀ l, entitlement.tools = some l → e ∈ l) ∧
        n ∈ declared s.registry [e] := by
  have hsearch : n ∉ declared s.registry [toolSearch] := by
    rw [mem_declared_singleton (by decide)]
    exact hne
  refine and_congr_right fun _ => ?_
  rw [mem_declared]
  simp only [build, mem_narrow, mem_keptTools]
  constructor
  · rintro ⟨e, ⟨he, hl⟩ | ⟨rfl, -⟩, hn⟩
    · exact ⟨e, he, hl, hn⟩
    · exact absurd hn hsearch
  · rintro ⟨e, he, hl, hn⟩
    exact ⟨e, .inl ⟨he, hl⟩, hn⟩

/-- For an enrolled agent's profile, as it was last advertised: the manifest a session's env names
lists what both doors admit; these are the tools its `--tools` stands for that are not withdrawn and
are served, where the profile and the entitlement spell them alike, and never more; and of its
entries, the built-ins among them, it keeps those both name, with `tool_search` when a tool is held
back. -/
theorem offered_admitted (envs : String → List (String × String)) (agent session : String)
    (profile : PiProfile) (entitlement : Entitlement) (hr : (lts baseCaps).Reach Lts.Any s)
    (he : s.envs agent = true) (hs : s.specs agent = some profile.tools)
    (hb : entitlement.tools = none → s.behind agent = false) :
    let q := build envs s agent profile entitlement session
    (∃ path, q.2.manifest = some path ∧
      ∀ n, n ∈ listedAt q.1 path ↔ q.1.callable agent session n) ∧
    (∀ n, n ≠ toolSearch → standsFor q.1.registry q.2.tools n → served q.1 agent n →
      q.1.callable agent session n) ∧
    (∀ n, q.1.callable agent session n →
      (∀ l, entitlement.tools = some l → SpeltAlike q.1.registry profile.tools l n) →
      standsFor q.1.registry q.2.tools n ∧ served q.1 agent n) ∧
    (∀ t, t ≠ toolSearch →
      (t ∈ q.2.tools ↔ t ∈ profile.tools ∧ ∀ l, entitlement.tools = some l → t ∈ l)) ∧
    (toolSearch ∈ q.2.tools ↔
      (toolSearch ∈ profile.tools ∧ ∀ l, entitlement.tools = some l → toolSearch ∈ l) ∨
      ∃ d ∈ profile.tools, (∀ l, entitlement.tools = some l → d ∈ l) ∧
        d ∈ entitlement.deferred ∧ (q.1.registry.get d).isSome = true) := by
  intro q
  have hreg : q.1.registry = s.registry := build_registry
  have hpass : ∀ n, s.passes agent n ↔ n ∈ declared s.registry profile.tools ∧
      served s agent n := by
    obtain ⟨tools, hs', hp⟩ := gated_reach hr agent he
    obtain rfl := Option.some.inj (hs.symm.trans hs')
    exact hp
  have hsearch : ∀ n, n ∈ q.2.tools ↔ n ∈ keptTools profile.tools entitlement.tools ∨
      (n = toolSearch ∧ ∃ d ∈ keptTools profile.tools entitlement.tools,
        d ∈ entitlement.deferred.filter fun n => (s.registry.get n).isSome) := fun n => mem_narrow
  rw [hreg]
  refine ⟨manifest_callable (aligned_reach hr agent) hb, fun n hne hst hsv => ?_,
    fun n hc hsp => ?_, fun t hne => ?_, ?_⟩
  · obtain ⟨-, e, hprof, hl, hn⟩ := (standsFor_build hne).1 hst
    rw [build_callable]
    refine ⟨(hpass n).2 ⟨mem_declared.2 ⟨e, hprof, hn⟩, build_served.1 hsv⟩, fun l ht => ?_⟩
    exact mem_declared.2 ⟨e, hl l ht, hn⟩
  · obtain ⟨hp, hent⟩ := build_callable.1 hc
    obtain ⟨hprof, hsv⟩ := (hpass n).1 hp
    refine ⟨⟨((aligned_reach hr agent).known n hp).1, ?_⟩, build_served.2 hsv⟩
    -- an entry of the profile that stands for `n` and that the entitlement has too
    obtain ⟨e, heprof, hel, hen⟩ : ∃ e ∈ profile.tools,
        (∀ l, entitlement.tools = some l → e ∈ l) ∧ n ∈ declared s.registry [e] := by
      cases ht : entitlement.tools with
      | none =>
        obtain ⟨e, he, hen⟩ := mem_declared.1 hprof
        exact ⟨e, he, nofun, hen⟩
      | some l =>
        obtain ⟨e, he, hel, hen⟩ := hsp l ht hprof (hent l ht)
        exact ⟨e, he, fun l' hl' => by cases hl'; exact hel, hen⟩
    exact mem_declared.2 ⟨e, (hsearch e).2 (.inl (mem_keptTools.2 ⟨heprof, hel⟩)), hen⟩
  · rw [hsearch, mem_keptTools]
    exact or_iff_left fun h => hne h.1
  · rw [hsearch, mem_keptTools]
    simp [mem_keptTools, and_assoc]

namespace Sample

def tool (name : String) (requires : Finset String) : Tool :=
  ⟨name, "", "\x7b\x7d", requires, false, false, false, false⟩

def registry : Registry := [tool "create_channel" {capChatAdmin}, tool "mcp__notes__search" ∅]

def profile : PiProfile := ⟨["read", "mcp__notes__*", "create_channel"], "", [], none⟩

/-- An agent enrolled on a gateway that cannot administer, and shown its tools. -/
def shown : State :=
  profileEnv (enroll ∅ (State.start registry) "a" profile.tools false ∅ ∅ "http") "a" profile.tools

theorem shown_reach : (lts ∅).Reach Lts.Any shown :=
  .step (e := .profileEnv "a" profile.tools)
    (.step (e := .enroll "a" profile.tools false ∅ ∅ "http") (.init ⟨registry, rfl⟩) trivial rfl)
    trivial rfl

/-- Of the agent's list, its notes, held back until they are searched for. -/
def notes : Entitlement := ⟨some ["bash", "mcp__notes__*"], "", ["mcp__notes__search"]⟩

end Sample

/-- A conversation that may use the notes is offered them. -/
theorem offered_admitted_run :
    (build (fun _ => []) Sample.shown "a" Sample.profile Sample.notes "c").1.callable "a" "c"
      "mcp__notes__search" ∧
    standsFor Sample.registry
      (build (fun _ => []) Sample.shown "a" Sample.profile Sample.notes "c").2.tools
      "mcp__notes__search" := by
  have hall := offered_admitted (fun _ => []) "a" "c" Sample.profile Sample.notes
    Sample.shown_reach rfl rfl nofun
  have hc : (build (fun _ => []) Sample.shown "a" Sample.profile Sample.notes "c").1.callable
      "a" "c" "mcp__notes__search" := by
    refine build_callable.2 ⟨?_, ?_⟩
    · show _ ∈ (Sample.shown.allowlists "a").getD ∅
      decide
    · rintro l ⟨⟩
      decide
  refine ⟨hc, (hall.2.2.1 _ hc ?_).1⟩
  rintro l ⟨⟩ _ _
  exact ⟨"mcp__notes__*", by decide, by decide, by decide⟩

/-- A tool the agent has no gateway for stays in the list. -/
theorem offered_ungated :
    ¬∀ (s : State), (lts ∅).Reach Lts.Any s → ∀ (agent session : String) (profile : PiProfile)
      (entitlement : Entitlement), s.envs agent = true → s.specs agent = some profile.tools →
      s.behind agent = false → ∀ n,
        standsFor s.registry
          (build (fun _ => []) s agent profile entitlement session).2.tools n ↔
        (build (fun _ => []) s agent profile entitlement session).1.callable agent session n := by
  intro h
  have hiff := h Sample.shown Sample.shown_reach "a" "c" Sample.profile ⟨none, "", []⟩ rfl rfl rfl
    "create_channel"
  have hst : standsFor Sample.shown.registry
      (build (fun _ => []) Sample.shown "a" Sample.profile ⟨none, "", []⟩ "c").2.tools
      "create_channel" := by
    have hreg : "create_channel" ∈ Sample.registry.names :=
      mem_names.2 ⟨Sample.tool "create_channel" {capChatAdmin}, by simp [Sample.registry], rfl⟩
    exact (standsFor_build (by decide)).2
      ⟨hreg, "create_channel", by decide, nofun, (mem_declared_singleton (by decide)).2 rfl⟩
  have hclosed : "create_channel" ∉ (Sample.shown.allowlists "a").getD ∅ := by decide
  exact hclosed (build_callable.1 (hiff.1 hst)).1

end Entitled
