import ImpiAgent.Profiles.Reload

/-!
# A failed reload

The stores are reloaded one after another and checked for duplicates afterwards: a store that does
not read leaves the ones before it reloaded, a duplicate all of them. `reload_settled` says exactly
when a reload either takes the new profiles or changes nothing (`Whole`).
-/

namespace Profiles

open Json

variable {σ : Type} {L : Loader σ} {disk : Disk} {mishap : String → Mishap} {e e' : Engine σ}
  {stores stores' : List (Store σ)} {store : Store σ} {tools tools' : Tools.State}
  {unit unit' : AgentUnit σ} {units units' : List (AgentUnit σ)} {failed : List String}
  {name : String}

/-! ## What a reload is to do -/

/-- Flow, unit, store and door of an agent have one spec. -/
def Agrees (e : Engine σ) (unit : AgentUnit σ) : Prop :=
  ∃ spec, get e.stores unit.spec.name = some spec ∧ unit.spec = spec ∧ unit.profile = spec ∧
    e.tools.specs unit.spec.name = some spec.tools ∧
    e.tools.allowlists unit.spec.name = some (Tools.gateTools e.tools.registry spec.tools
      (e.tools.caps unit.spec.name) e.tools.withdrawn).toFinset

variable (L disk) in
/-- Every store holds what its directory reads as. -/
def Renewed (stores stores' : List (Store σ)) : Prop :=
  List.Forall₂ (fun store store' => store'.root = store.root ∧
    scan L (disk store.root) = .ok store'.specs) stores stores'

/-- A reload took the new profiles, or changed nothing. -/
def Settled (L : Loader σ) (disk : Disk) (e e' : Engine σ) : Outcome → Prop
  | .reloaded failed => Renewed L disk e.stores e'.stores ∧
      ∀ unit ∈ e'.units, unit.spec.name ∉ failed → Agrees e' unit
  | .refused | .raised =>
    e'.stores.map (·.specs) = e.stores.map (·.specs) ∧ e'.units = e.units ∧ e'.tools = e.tools

variable (L disk) in
/-- The directory reads as what the store holds. -/
def Unedited (store : Store σ) : Prop := scan L (disk store.root) = .ok store.specs

/-- The stores before one that does not read are unedited; so are all, where each reads and a name
is in two. -/
def Whole (L : Loader σ) (disk : Disk) (stores : List (Store σ)) : Prop :=
  (∀ before store after fault, stores = before ++ store :: after →
    (∀ x ∈ before, ∃ specs, scan L (disk x.root) = .ok specs) →
    scan L (disk store.root) = .error fault → ∀ x ∈ before, Unedited L disk x) ∧
  ∀ stores', Renewed L disk stores stores' → duplicated stores' = true →
    ∀ x ∈ stores, Unedited L disk x

/-! ## The stores -/

theorem reloadStores_cases (L : Loader σ) (disk : Disk) (stores : List (Store σ)) :
    (∃ stores', reloadStores L disk stores = (stores', none) ∧ Renewed L disk stores stores') ∨
    ∃ before store after fault before', stores = before ++ store :: after ∧
      Renewed L disk before before' ∧ scan L (disk store.root) = .error fault ∧
      reloadStores L disk stores = (before' ++ store :: after, some fault) := by
  induction stores with
  | nil => exact .inl ⟨[], rfl, .nil⟩
  | cons store stores ih =>
    cases hs : scan L (disk store.root) with
    | error fault =>
      refine .inr ⟨[], store, stores, fault, [], rfl, .nil, hs, ?_⟩
      rw [reloadStores, hs]
      rfl
    | ok specs =>
      rcases ih with ⟨stores', hr, hn⟩ | ⟨before, st, after, fault, before', he, hn, hf, hr⟩
      · refine .inl ⟨{ store with specs := specs } :: stores', ?_, .cons ⟨rfl, hs⟩ hn⟩
        rw [reloadStores, hs]
        dsimp only
        rw [hr]
      · refine .inr ⟨store :: before, st, after, fault, { store with specs := specs } :: before',
          by rw [he]; rfl, .cons ⟨rfl, hs⟩ hn, hf, ?_⟩
        rw [reloadStores, hs]
        dsimp only
        rw [hr]
        rfl

/-- Stores that read as they are stay as they are, and no others. -/
theorem renewed_same (h : Renewed L disk stores stores') :
    stores'.map (·.specs) = stores.map (·.specs) ↔ ∀ x ∈ stores, Unedited L disk x := by
  induction h with
  | nil => simp
  | @cons store store' stores stores' hs _ ih =>
    rw [List.map_cons, List.map_cons, List.cons.injEq, ih, List.forall_mem_cons]
    refine and_congr_left fun _ => ?_
    unfold Unedited
    rw [hs.2]
    exact ⟨fun he => by rw [he], fun he => Except.ok.inj he⟩

theorem renewed_unique {stores''} (h : Renewed L disk stores stores')
    (h' : Renewed L disk stores stores'') : stores' = stores'' := by
  induction h generalizing stores'' with
  | nil => cases h'; rfl
  | @cons store store' stores stores' hs _ ih =>
    obtain ⟨store'', rest, hs', hr, rfl⟩ := List.forall₂_cons_left_iff.1 h'
    rw [ih hr]
    have hspecs : store'.specs = store''.specs := Except.ok.inj (hs.2.symm.trans hs'.2)
    cases store'
    cases store''
    obtain ⟨rfl, -⟩ := hs
    obtain ⟨rfl, -⟩ := hs'
    cases hspecs
    rfl

theorem ok_of_renewed (h : Renewed L disk stores stores') :
    ∀ x ∈ stores, ∃ specs, scan L (disk x.root) = .ok specs := by
  induction h with
  | nil => exact nofun
  | cons hs _ ih => exact List.forall_mem_cons.2 ⟨⟨_, hs.2⟩, ih⟩

/-! ## The units -/

theorem name_of_get {spec : AgentSpec σ} (h : get stores name = some spec) : spec.name = name := by
  unfold get at h
  obtain ⟨store, -, hs⟩ := List.exists_of_findSome?_eq_some h
  simpa using List.find?_some hs

/-- What a turn of the loop keeps of the doors. -/
structure Doors (tools tools' : Tools.State) : Prop where
  registry : tools'.registry = tools.registry
  caps : tools'.caps = tools.caps
  withdrawn : tools'.withdrawn = tools.withdrawn

/-- The doors of the agent have the spec. -/
def Shown (tools : Tools.State) (name : String) (spec : AgentSpec σ) : Prop :=
  tools.specs name = some spec.tools ∧
    tools.allowlists name = some (Tools.gateTools tools.registry spec.tools
      (tools.caps name) tools.withdrawn).toFinset

theorem Doors.refl (tools : Tools.State) : Doors tools tools := ⟨rfl, rfl, rfl⟩

theorem doors_profileEnv (ts : List String) : Doors tools (Tools.profileEnv tools name ts) := by
  unfold Tools.profileEnv
  dsimp only
  split <;> exact ⟨rfl, rfl, rfl⟩

theorem shown_profileEnv {spec : AgentSpec σ} (h : tools.envs name = true) :
    Shown (Tools.profileEnv tools name spec.tools) name spec := by
  unfold Shown Tools.profileEnv
  simp [h, Tools.advertise, Tools.writeManifest]

theorem profileEnv_other {other : String} (h : other ≠ name) (ts : List String) :
    (Tools.profileEnv tools name ts).specs other = tools.specs other ∧
      (Tools.profileEnv tools name ts).allowlists other = tools.allowlists other := by
  unfold Tools.profileEnv
  dsimp only
  split <;> simp [Tools.advertise, Tools.writeManifest, Function.update_of_ne h]

/-- One turn of the loop: an agent that did not fail has the new spec everywhere, and the doors of
the others are as they were. -/
theorem reloadUnit_spec (mishap : String → Mishap) (stores : List (Store σ)) (tools : Tools.State)
    (unit : AgentUnit σ) :
    Doors tools (reloadUnit stores mishap tools unit).1 ∧
    (reloadUnit stores mishap tools unit).2.1.spec.name = unit.spec.name ∧
    (∀ other, other ≠ unit.spec.name →
      (reloadUnit stores mishap tools unit).1.specs other = tools.specs other ∧
      (reloadUnit stores mishap tools unit).1.allowlists other = tools.allowlists other) ∧
    ((reloadUnit stores mishap tools unit).2.2 = false →
      ∃ spec, get stores unit.spec.name = some spec ∧
        (reloadUnit stores mishap tools unit).2.1 = ⟨spec, spec⟩ ∧
        Shown (reloadUnit stores mishap tools unit).1 unit.spec.name spec) := by
  unfold reloadUnit
  dsimp only
  split
  · exact ⟨.refl _, rfl, fun _ _ => ⟨rfl, rfl⟩, nofun⟩
  · rename_i spec hg
    split
    · exact ⟨.refl _, rfl, fun _ _ => ⟨rfl, rfl⟩, nofun⟩
    · exact ⟨doors_profileEnv _, rfl, fun _ h => profileEnv_other h _, nofun⟩
    · exact ⟨⟨(doors_profileEnv spec.tools).registry, (doors_profileEnv spec.tools).caps,
        (doors_profileEnv spec.tools).withdrawn⟩, rfl, fun _ h => profileEnv_other h spec.tools,
        nofun⟩
    · exact ⟨doors_profileEnv _, name_of_get hg, fun _ h => profileEnv_other h _, nofun⟩
    · rename_i henv
      exact ⟨doors_profileEnv _, name_of_get hg, fun _ h => profileEnv_other h _,
        fun _ => ⟨spec, hg, rfl, shown_profileEnv henv⟩⟩

theorem Shown.profileEnv {spec : AgentSpec σ} (h : Shown tools name spec) :
    Shown (Tools.profileEnv tools name spec.tools) name spec := by
  cases henv : tools.envs name with
  | true => exact shown_profileEnv henv
  | false =>
    unfold Shown Tools.profileEnv
    simp [henv, h.2]

/-- A turn of the loop leaves the doors that have the store's spec with it. -/
theorem Shown.reloadUnit {spec : AgentSpec σ} (h : Shown tools name spec)
    (hg : get stores name = some spec) (unit : AgentUnit σ) :
    Shown (Profiles.reloadUnit stores mishap tools unit).1 name spec := by
  by_cases hn : unit.spec.name = name
  · subst hn
    unfold Profiles.reloadUnit
    dsimp only
    rw [hg]
    dsimp only
    split
    · exact h
    · exact h.profileEnv
    · exact h.profileEnv
    · exact h.profileEnv
    · exact h.profileEnv
  · obtain ⟨hd, -, hother, -⟩ := reloadUnit_spec mishap stores tools unit
    obtain ⟨hs, ha⟩ := hother name (Ne.symm hn)
    unfold Shown
    rw [hs, ha, hd.registry, hd.caps, hd.withdrawn]
    exact h

theorem Shown.reloadUnits {spec : AgentSpec σ} (h : Shown tools name spec)
    (hg : get stores name = some spec) (units : List (AgentUnit σ)) :
    Shown (Profiles.reloadUnits stores mishap tools units).1 name spec := by
  induction units generalizing tools with
  | nil => exact h
  | cons unit units ih => exact ih (h.reloadUnit hg unit)

/-- After the loop, an agent that did not fail has the new spec everywhere. -/
theorem reloadUnits_spec (stores : List (Store σ)) (tools : Tools.State)
    (units : List (AgentUnit σ)) :
    ∀ unit ∈ (reloadUnits stores mishap tools units).2.1,
      unit.spec.name ∉ (reloadUnits stores mishap tools units).2.2 →
      ∃ spec, get stores unit.spec.name = some spec ∧ unit.spec = spec ∧ unit.profile = spec ∧
        Shown (reloadUnits stores mishap tools units).1 unit.spec.name spec := by
  induction units generalizing tools with
  | nil => exact nofun
  | cons unit units ih =>
    obtain ⟨-, hname, -, hnew⟩ := reloadUnit_spec mishap stores tools unit
    rw [reloadUnits]
    dsimp only
    intro u hu hf
    rcases List.mem_cons.1 hu with rfl | hu
    · cases hfail : (reloadUnit stores mishap tools unit).2.2 with
      | true =>
        rw [hfail, if_pos rfl, hname] at hf
        exact absurd List.mem_cons_self hf
      | false =>
        obtain ⟨spec, hg, he, hs⟩ := hnew hfail
        rw [hname]
        exact ⟨spec, hg, by rw [he], by rw [he], hs.reloadUnits hg units⟩
    · refine ih _ u hu fun hm => hf ?_
      split
      · exact List.mem_cons_of_mem _ hm
      · exact hm

/-! ## The whole -/

/-- A reload takes the new profiles or changes nothing, exactly where the directories read before
the failure are unedited. -/
theorem reload_settled (L : Loader σ) (disk : Disk) (mishap : String → Mishap) (e : Engine σ) :
    Settled L disk e (reload L disk mishap e).1 (reload L disk mishap e).2 ↔
      Whole L disk e.stores := by
  rcases reloadStores_cases L disk e.stores with
    ⟨stores', hr, hn⟩ | ⟨before, store, after, fault, before', he, hn, hf, hr⟩
  · have hq : compositeReload L disk e.stores =
        (stores', if duplicated stores' then some .profileError else none) := by
      rw [compositeReload, hr]
    have hfirst : ∀ before store after fault, e.stores = before ++ store :: after →
        (∀ x ∈ before, ∃ specs, scan L (disk x.root) = .ok specs) →
        scan L (disk store.root) = .error fault → ∀ x ∈ before, Unedited L disk x := by
      intro before store after fault he _ hf
      obtain ⟨specs, hs⟩ := ok_of_renewed hn store (by rw [he]; simp)
      rw [hf] at hs
      cases hs
    cases hd : duplicated stores' with
    | true =>
      have hreload : reload L disk mishap e = ({ e with stores := stores' }, .refused) := by
        rw [reload, hq, hd]
        rfl
      rw [hreload]
      show stores'.map (·.specs) = _ ∧ e.units = e.units ∧ e.tools = e.tools ↔ _
      rw [renewed_same hn]
      constructor
      · exact fun h => ⟨hfirst, fun _ _ _ => h.1⟩
      · exact fun h => ⟨h.2 stores' hn hd, rfl, rfl⟩
    | false =>
      have hreload : reload L disk mishap e =
          (⟨stores', (reloadUnits stores' mishap e.tools e.units).2.1,
            (reloadUnits stores' mishap e.tools e.units).1⟩,
            .reloaded (reloadUnits stores' mishap e.tools e.units).2.2) := by
        rw [reload, hq, hd]
        rfl
      rw [hreload]
      refine ⟨fun _ => ⟨hfirst, fun stores'' hn' hd' => ?_⟩, fun _ => ⟨hn, fun unit hu hfail => ?_⟩⟩
      · rw [renewed_unique hn' hn, hd] at hd'
        cases hd'
      · obtain ⟨spec, hg, hs, hp, hsh⟩ := reloadUnits_spec stores' e.tools e.units unit hu hfail
        exact ⟨spec, hg, hs, hp, hsh.1, hsh.2⟩
  · have hsame : (before' ++ store :: after).map (·.specs) = e.stores.map (·.specs) ↔
        ∀ x ∈ before, Unedited L disk x := by
      rw [he, List.map_append, List.map_append, List.append_left_inj]
      exact renewed_same hn
    have hwhole : Whole L disk e.stores ↔ ∀ x ∈ before, Unedited L disk x := by
      refine ⟨fun h => h.1 before store after fault he (ok_of_renewed hn) hf, fun h => ⟨?_, ?_⟩⟩
      · intro before₁ store₁ after₁ fault₁ he₁ hok₁ hf₁ x hx
        rcases List.append_eq_append_iff.1 (he.symm.trans he₁) with
          ⟨mid, hb, hm⟩ | ⟨mid, hb, -⟩
        · -- the store that did not read would be among those that did
          cases mid with
          | nil => exact h x (by simpa [hb] using hx)
          | cons y mid =>
            obtain ⟨specs, hs⟩ := hok₁ y (by rw [hb]; simp)
            rw [List.cons_append, List.cons.injEq] at hm
            rw [← hm.1, hf] at hs
            cases hs
        · exact h x (by rw [hb]; exact List.mem_append_left _ hx)
      · intro stores'' hn''
        obtain ⟨specs, hs⟩ := ok_of_renewed hn'' store (by rw [he]; simp)
        rw [hf] at hs
        cases hs
    have hreload : ∃ outcome, reload L disk mishap e =
        ({ e with stores := before' ++ store :: after }, outcome) ∧
        (outcome = .refused ∨ outcome = .raised) := by
      unfold reload compositeReload
      rw [hr]
      cases fault with
      | profileError => exact ⟨.refused, rfl, .inl rfl⟩
      | other => exact ⟨.raised, rfl, .inr rfl⟩
    obtain ⟨outcome, hreload, ho⟩ := hreload
    rw [hreload, hwhole, ← hsame]
    rcases ho with rfl | rfl
    · exact ⟨fun h => h.1, fun h => ⟨h, rfl, rfl⟩⟩
    · exact ⟨fun h => h.1, fun h => ⟨h, rfl, rfl⟩⟩

namespace Sample

/-- Files whose first line is the name and whose second is the role. -/
def loader : Loader Unit where
  safeLoad s := match Text.split '\n' s with
    | [name, role] => .value (.dict [(.str "name", .str name), (.str "role", .str role)])
    | _ => .yamlError
  settings _ := .ok ([], ())

def support : Store Unit := ⟨"engine", [⟨"support", "helper", [], ()⟩]⟩

def people : Store Unit := ⟨"agents", [⟨"assistant", "helper", [], ()⟩]⟩

def engine : Engine Unit := ⟨[support, people], [], Tools.State.start []⟩

/-- The engine's own profile was edited, and the other file is not text. -/
def edited : Disk := fun root =>
  if root = "engine" then some [⟨"support", .text "support\noperator"⟩]
  else some [⟨"assistant", .notText⟩]

end Sample

/-- The first store is reloaded, and the call raises. -/
theorem reload_half : ¬∀ (L : Loader Unit) (disk : Disk) (mishap : String → Mishap)
    (e : Engine Unit), Settled L disk e (reload L disk mishap e).1 (reload L disk mishap e).2 := by
  intro h
  have hs := h Sample.loader Sample.edited (fun _ => .none) Sample.engine
  have hr : (reload Sample.loader Sample.edited (fun _ => .none) Sample.engine).2 = .raised := by
    decide
  rw [hr] at hs
  exact absurd hs.1 (by decide)

end Profiles
