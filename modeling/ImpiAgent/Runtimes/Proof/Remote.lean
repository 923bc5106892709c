import ImpiAgent.Runtimes.Proof.Frame

/-!
# What arrives of a spawn request

A skill and a writable path are read as the place their mount has them at (`skill_arrives`,
`writable_arrives`), the scope as `confined`, which is what the process would have had exactly if no
directory it is handed has two names (`scoped_iff`). The frame is JSON (`plain_spawnPayload`);
`record_arrives` is the whole of what is accepted of it, and `spawn_carried` says when that is what
the local host would have started. `parse_contained` is about any frame.
-/

namespace Remote

open Json Posix
open Internal (record)
open Attempt

/-! ## A path from one side to the other -/

section Mounted

variable {e h : FileSystem} {host : RemoteHost} {config : Relay.HostConfig} {request : SpawnRequest}

theorem within_eq_some {root : Option Resolved} {p r : Resolved} :
    within root p = some r ↔ root = some r ∧ isRelativeTo p r = true :=
  Option.filter_eq_some_iff

theorem variableName_arrives {names : List String} {v : Option String}
    {items : List (String × PyValue)} (hitems : items.lookup "variable" = none) :
    Relay.variableName (Relay.get "variable" (record (items ++ RemoteHost.pointing names))) =
        .ok v ↔ (∀ name, names.head? = some name → Relay.isEnvName name = true) ∧
          v = names.head? := by
  have hlook : (items ++ RemoteHost.pointing names).lookup "variable" =
      (RemoteHost.pointing names).lookup "variable" := by
    rw [List.lookup_append, hitems, Option.none_or]
  rw [get_record, hlook]
  cases names with
  | nil =>
    show Except.ok none = .ok v ↔ _
    simp [@eq_comm _ v]
  | cons name names =>
    show (if Relay.isEnvName name then Except.ok (some name) else
      Except.error (Relay.SpawnRejected.notAVariable (.str name))) = .ok v ↔ _
    by_cases hn : Relay.isEnvName name = true
    · simp [hn, @eq_comm _ v]
    · simp [hn]

/-- A reference to a skill is read as the skill's place under the mount. -/
theorem skill_reference {root dir : Resolved} {name : String} {path : PurePath}
    (m : Mount e h root dir) (hroot : Relay.root config (.str name) = .ok (name, dir))
    (hin : isRelativeTo (e.resolve path) root = true) :
    ∃ place, Seen root dir (e.resolve path) place ∧
      ∀ q, Relay.skill h config (record (reference name (e.resolve path) root)) = .ok q ↔
        e.exist (e.resolve path) = true ∧ q = place := by
  obtain ⟨rel, hp, hset, hres⟩ := m.resolve_relative hin
  refine ⟨dir ++ rel, ⟨rel, hp, rfl⟩, fun q => ?_⟩
  have hplace : Relay.resolved h dir (relative (e.resolve path) root) = dir ++ rel := hres
  have hex : h.exist (dir ++ rel) = e.exist (e.resolve path) := by rw [hp]; exact m.exist rel hset
  rw [skill_ok]
  constructor
  · rintro ⟨-, relative', name', dir', hrel, hr, rfl, -, hexq⟩
    cases hrel
    obtain ⟨rfl, rfl⟩ := Prod.mk.inj (Except.ok.inj (hroot.symm.trans hr))
    rw [hplace] at hexq ⊢
    exact ⟨hex ▸ hexq, rfl⟩
  · rintro ⟨hexp, rfl⟩
    exact ⟨rfl, _, name, dir, rfl, hroot, hplace.symm, isRelativeTo_iff.2 ⟨rel, rfl⟩,
      hex.trans hexp⟩

/-- A reference to a writable path is read as its place under the mount, with the first of the
variables that name it. -/
theorem writable_reference {root dir : Resolved} {name : String} {path : PurePath}
    {names : List String} (m : Mount e h root dir)
    (hroot : Relay.writableRoot config (.str name) = .ok (name, dir))
    (hin : isRelativeTo (e.resolve path) root = true) :
    Seen root dir (e.resolve path) (dir ++ (e.resolve path).drop root.length) ∧
      ∀ y, Relay.writable h config (record (reference name (e.resolve path) root ++
          RemoteHost.pointing names)) = .ok y ↔
        (∀ v, names.head? = some v → Relay.isEnvName v = true) ∧
          y = (dir ++ (e.resolve path).drop root.length, names.head?) := by
  obtain ⟨rel, hp, -, hres⟩ := m.resolve_relative hin
  have hdrop : (e.resolve path).drop root.length = rel := by rw [hp, List.drop_left]
  have hplace : Relay.resolved h dir (relative (e.resolve path) root) = dir ++ rel := hres
  rw [hdrop]
  refine ⟨⟨rel, hp, rfl⟩, fun y => ?_⟩
  rw [writable_ok, variableName_arrives rfl]
  constructor
  · rintro ⟨-, relative', name', dir', hr, hrel, hy, -, hnames, hv⟩
    cases hrel
    obtain ⟨rfl, rfl⟩ := Prod.mk.inj (Except.ok.inj (hroot.symm.trans hr))
    exact ⟨hnames, Prod.ext (hy.trans hplace) hv⟩
  · rintro ⟨hnames, rfl⟩
    exact ⟨rfl, _, name, dir, hroot, rfl, hplace.symm, isRelativeTo_iff.2 ⟨rel, rfl⟩, hnames, rfl⟩

theorem skill_arrives (m : Mounts e h host config request) {skill : String} {ref : PyValue}
    (hs : host.skillRef e request skill = .ok ref) :
    ∃ place, SkillAt e host config request (e.resolve (.ofText skill)) place ∧
      ∀ q, Relay.skill h config ref = .ok q ↔
        e.exist (e.resolve (.ofText skill)) = true ∧ q = place := by
  unfold RemoteHost.skillRef at hs
  simp only at hs
  split at hs
  · rename_i hin
    cases hs
    have hr : Relay.root config (.str "profile") = .ok ("profile", config.profileDir) := rfl
    obtain ⟨place, hseen, hq⟩ := skill_reference m.profile hr hin
    exact ⟨place, .inl hseen, hq⟩
  · split at hs
    · rename_i root hroot
      cases hs
      obtain ⟨hlib, hin⟩ := within_eq_some.1 hroot
      obtain ⟨dir, hdir, hmount⟩ := m.library root hlib
      have hr : Relay.root config (.str "library") = .ok ("library", dir) :=
        root_ok.2 (.inr ⟨rfl, rfl, hdir⟩)
      obtain ⟨place, hseen, hq⟩ := skill_reference hmount hr hin
      exact ⟨place, .inr ⟨root, hlib, dir, hdir, hseen⟩, hq⟩
    · cases hs

/-- Where the relay has a path it is handed to write. -/
def place (host : RemoteHost) (config : Relay.HostConfig) (p : Resolved) : Option Resolved :=
  match within host.filesRoot p, within host.sharedRoot p with
  | some root, _ => config.filesDir.map (· ++ p.drop root.length)
  | none, some root => config.sharedDir.map (· ++ p.drop root.length)
  | none, none => none

/-- What the relay makes of a writable path: its place, and the variable it points there. -/
def handed (e : FileSystem) (host : RemoteHost) (config : Relay.HostConfig) (scope : ProcessScope)
    (w : PurePath) : Option (Resolved × Option String) :=
  (place host config (e.resolve w)).map fun m =>
    (m, (RemoteHost.named e scope (e.resolve w)).head?)

theorem handed_iff {p : Resolved} : Handed host p ↔
    (∃ root, within host.filesRoot p = some root) ∨
      ∃ root, within host.sharedRoot p = some root := by
  simp only [within_eq_some]
  rfl

/-- A path the relay cannot be handed has no reference. -/
theorem not_handed {p : Resolved} (hp : ¬Handed host p) :
    within host.filesRoot p = none ∧ within host.sharedRoot p = none := by
  rw [handed_iff, not_or] at hp
  constructor
  · exact Option.eq_none_iff_forall_not_mem.2 fun r hr => hp.1 ⟨r, hr⟩
  · exact Option.eq_none_iff_forall_not_mem.2 fun r hr => hp.2 ⟨r, hr⟩

theorem writableRef_none (config : Relay.HostConfig) (scope : ProcessScope) {w : PurePath}
    (hw : ¬Handed host (e.resolve w)) :
    host.writableRef e scope w = none ∧ place host config (e.resolve w) = none := by
  obtain ⟨hf, hs⟩ := not_handed hw
  constructor
  · simp only [RemoteHost.writableRef, hf, hs]
  · simp only [place, hf, hs]

theorem writable_arrives (m : Mounts e h host config request) (scope : ProcessScope) {w : PurePath}
    (hw : Handed host (e.resolve w)) :
    ∃ ref dir, host.writableRef e scope w = some ref ∧ Plain ref ∧
      place host config (e.resolve w) = some dir ∧ WritableAt host config (e.resolve w) dir ∧
      ∀ y, Relay.writable h config ref = .ok y ↔
        (∀ v, (RemoteHost.named e scope (e.resolve w)).head? = some v →
          Relay.isEnvName v = true) ∧
        y = (dir, (RemoteHost.named e scope (e.resolve w)).head?) := by
  have hplain : ∀ name root, Plain (record (reference name (e.resolve w) root ++
      RemoteHost.pointing (RemoteHost.named e scope (e.resolve w)))) := by
    intro name root
    cases RemoteHost.named e scope (e.resolve w) with
    | nil =>
      have hkeys : (["root", "path"] : List String).Nodup := by decide
      exact plain_record (by simp [reference, RemoteHost.pointing, Plain]) hkeys
    | cons v vs =>
      have hkeys : (["root", "path", "variable"] : List String).Nodup := by decide
      exact plain_record (by simp [reference, RemoteHost.pointing, Plain]) hkeys
  cases hf : within host.filesRoot (e.resolve w) with
  | some root =>
    obtain ⟨hroot, hin⟩ := within_eq_some.1 hf
    obtain ⟨dir, hdir, hmount⟩ := m.files root hroot
    have hr : Relay.writableRoot config (.str "files") = .ok ("files", dir) :=
      writableRoot_ok.2 (.inl ⟨rfl, rfl, hdir⟩)
    obtain ⟨hseen, hy⟩ := writable_reference hmount hr hin
    refine ⟨_, _, ?_, hplain "files" root, ?_, .inl ⟨root, hroot, dir, hdir, hseen⟩, hy⟩
    · simp only [RemoteHost.writableRef, hf]
    · simp only [place, hf, hdir, Option.map_some]
  | none =>
    cases hs : within host.sharedRoot (e.resolve w) with
    | some root =>
      obtain ⟨hroot, hin⟩ := within_eq_some.1 hs
      obtain ⟨dir, hdir, hmount⟩ := m.shared root hroot
      have hr : Relay.writableRoot config (.str "shared") = .ok ("shared", dir) :=
        writableRoot_ok.2 (.inr ⟨rfl, rfl, hdir⟩)
      obtain ⟨hseen, hy⟩ := writable_reference hmount hr hin
      refine ⟨_, _, ?_, hplain "shared" root, ?_, .inr ⟨root, hroot, dir, hdir, hseen⟩, hy⟩
      · simp only [RemoteHost.writableRef, hf, hs]
      · simp only [place, hf, hs, hdir, Option.map_some]
    | none =>
      rw [handed_iff, hf, hs] at hw
      rcases hw with ⟨_, hn⟩ | ⟨_, hn⟩ <;> cases hn

/-- The writable paths arrive one by one. -/
theorem writables_arrive (m : Mounts e h host config request) {scope : ProcessScope} :
    ∀ {ws : List PurePath} {ys : List (Resolved × Option String)},
      (ws.filterMap (host.writableRef e scope)).mapM (Relay.writable h config) = .ok ys ↔
        (∀ w ∈ ws, Handed host (e.resolve w) →
          ∀ v, (RemoteHost.named e scope (e.resolve w)).head? = some v →
            Relay.isEnvName v = true) ∧
        ys = ws.filterMap (handed e host config scope) := by
  intro ws
  induction ws with
  | nil =>
    intro ys
    rw [mapM_ok]
    simp
  | cons w ws ih =>
    intro ys
    by_cases hw : Handed host (e.resolve w)
    · obtain ⟨ref, dir, href, -, hplace, -, hy⟩ := writable_arrives m scope hw
      have hhanded : handed e host config scope w =
          some (dir, (RemoteHost.named e scope (e.resolve w)).head?) := by
        rw [handed, hplace, Option.map_some]
      rw [List.filterMap_cons_some href, List.filterMap_cons_some hhanded, mapM_ok,
        List.forall₂_cons_left_iff]
      constructor
      · rintro ⟨y, zs, hyr, hzs, rfl⟩
        obtain ⟨hname, rfl⟩ := (hy y).1 hyr
        obtain ⟨hnames, rfl⟩ := ih.1 (mapM_ok.2 hzs)
        exact ⟨List.forall_mem_cons.2 ⟨fun _ => hname, hnames⟩, rfl⟩
      · rintro ⟨hnames, rfl⟩
        obtain ⟨hname, hrest⟩ := List.forall_mem_cons.1 hnames
        exact ⟨_, _, (hy _).2 ⟨hname hw, rfl⟩, mapM_ok.1 (ih.2 ⟨hrest, rfl⟩), rfl⟩
    · obtain ⟨href, hplace⟩ := writableRef_none config scope hw
      have hhanded : handed e host config scope w = none := by
        rw [handed, hplace, Option.map_none]
      rw [List.filterMap_cons_none href, List.filterMap_cons_none hhanded, ih]
      simp [hw]

/-- What the confinement of a scope is read as. -/
def confined (e : FileSystem) (host : RemoteHost) (config : Relay.HostConfig)
    (scope : ProcessScope) : Relay.Confinement :=
  let given := scope.writable.filterMap (handed e host config scope)
  { writable := given.map Prod.fst
    scopeVariables := Dict.ofPairs (given.filterMap fun x => x.2.map fun name => (name, x.1))
    tcpPorts := unique scope.tcpPorts }

/-- The frame's item of a scope. -/
def confinementItem (e : FileSystem) (host : RemoteHost) (scope : ProcessScope) : PyValue :=
  record (("writable", .list (scope.writable.filterMap (host.writableRef e scope))) ::
    if scope.tcpPorts = [] then [] else [("ports", .list (scope.tcpPorts.map .int))])

/-- The scope's names and ports are those the relay accepts. -/
structure Spelt (e : FileSystem) (host : RemoteHost) (scope : ProcessScope) : Prop where
  variableNames : ∀ w ∈ scope.writable, Handed host (e.resolve w) →
    ∀ v, (RemoteHost.named e scope (e.resolve w)).head? = some v → Relay.isEnvName v = true
  ports : ∀ port ∈ scope.tcpPorts, 0 < port ∧ port < 65536

theorem confinement_arrives (m : Mounts e h host config request) {scope : ProcessScope}
    {c : Option Relay.Confinement} :
    Relay.confinement h config (confinementItem e host scope) = .ok c ↔
      Spelt e host scope ∧ c = some (confined e host config scope) := by
  have hwritable : Relay.sequence (Relay.get "writable" (confinementItem e host scope)) =
      .ok (scope.writable.filterMap (host.writableRef e scope)) := by
    rw [confinementItem, get_record]
    rfl
  have hports : Relay.sequence (Relay.get "ports" (confinementItem e host scope)) =
      .ok (scope.tcpPorts.map .int) := by
    rw [confinementItem, get_record]
    by_cases hp : scope.tcpPorts = []
    · rw [hp]
      rfl
    · rw [if_neg hp]
      rfl
  have hobject : ∃ items, confinementItem e host scope = .dict items := ⟨_, rfl⟩
  generalize confinementItem e host scope = item at hwritable hports hobject ⊢
  obtain ⟨items, rfl⟩ := hobject
  unfold Relay.confinement
  simp only [bind_ok, hwritable, hports, Except.ok.injEq, exists_eq_left',
    writables_arrive m, ports_arrive, pure, Except.pure]
  constructor
  · rintro ⟨given, ⟨hnames, rfl⟩, ports, ⟨hrange, rfl⟩, rfl⟩
    exact ⟨⟨hnames, hrange⟩, rfl⟩
  · rintro ⟨hspelt, rfl⟩
    exact ⟨_, ⟨hspelt.variableNames, rfl⟩, _, ⟨hspelt.ports, rfl⟩, rfl⟩

theorem plain_confinementItem (m : Mounts e h host config request) (scope : ProcessScope) :
    Plain (confinementItem e host scope) := by
  have hrefs : Plain (.list (scope.writable.filterMap (host.writableRef e scope))) := by
    refine plain_list fun ref href => ?_
    obtain ⟨w, -, hw⟩ := List.mem_filterMap.1 href
    by_cases hh : Handed host (e.resolve w)
    · obtain ⟨ref', _, href', hplain, -⟩ := writable_arrives m scope hh
      cases href'.symm.trans hw
      exact hplain
    · rw [(writableRef_none config scope hh).1] at hw
      cases hw
  have hports : Plain (.list (scope.tcpPorts.map .int)) := by
    refine plain_list fun x hx => ?_
    obtain ⟨n, -, rfl⟩ := List.mem_map.1 hx
    trivial
  unfold confinementItem
  by_cases hp : scope.tcpPorts = []
  · rw [if_pos hp]
    exact plain_record (by simpa using hrefs) (List.nodup_singleton _)
  · have hkeys : (["writable", "ports"] : List String).Nodup := by decide
    rw [if_neg hp]
    exact plain_record (by simpa using ⟨hrefs, hports⟩) hkeys

/-! ## The variables of a scope -/

theorem mem_named {scope : ProcessScope} {p : Resolved} {name : String} :
    name ∈ RemoteHost.named e scope p ↔ ∃ value, (name, value) ∈ scope.env ∧
      Names e (name, value) p := by
  simp only [RemoteHost.named, List.mem_map, List.mem_filter, decide_eq_true_eq]
  constructor
  · rintro ⟨⟨_, value⟩, ⟨hx, hp⟩, rfl⟩
    exact ⟨value, hx, hp⟩
  · rintro ⟨value, hx, hp⟩
    exact ⟨(name, value), ⟨hx, hp⟩, rfl⟩

theorem mem_confined_writable {scope : ProcessScope} {q : Resolved} :
    q ∈ (confined e host config scope).writable ↔
      ∃ w ∈ scope.writable, place host config (e.resolve w) = some q := by
  simp only [confined, handed, List.mem_map, List.mem_filterMap, Option.map_eq_some_iff]
  constructor
  · rintro ⟨_, ⟨w, hw, q, hq, rfl⟩, rfl⟩
    exact ⟨w, hw, hq⟩
  · rintro ⟨w, hw, hq⟩
    exact ⟨_, ⟨w, hw, q, hq, rfl⟩, rfl⟩

/-- The variables the relay points are the first ones to name a path it was handed. -/
theorem mem_scopeVariables {scope : ProcessScope} {x : String × Resolved} :
    x ∈ (((scope.writable.filterMap (handed e host config scope)).filterMap fun y =>
        y.2.map fun name => (name, y.1))) ↔
      ∃ w ∈ scope.writable, place host config (e.resolve w) = some x.2 ∧
        (RemoteHost.named e scope (e.resolve w)).head? = some x.1 := by
  simp only [handed, List.mem_filterMap, Option.map_eq_some_iff]
  constructor
  · rintro ⟨_, ⟨w, hw, q, hq, rfl⟩, name, hname, rfl⟩
    exact ⟨w, hw, hq, hname⟩
  · rintro ⟨w, hw, hq, hname⟩
    exact ⟨_, ⟨w, hw, x.2, hq, rfl⟩, x.1, hname, rfl⟩

/-- A variable has one value. -/
theorem names_of_mem_named {scope : ProcessScope} {p : Resolved} {x : String × String}
    (hx : x ∈ scope.env) (hp : x.1 ∈ RemoteHost.named e scope p) : Names e x p := by
  obtain ⟨value, hvalue, hnames⟩ := mem_named.1 hp
  have heq : value = x.2 := scope.env_distinct.eq hvalue hx
  rw [heq] at hnames
  exact hnames

theorem place_writable (m : Mounts e h host config request) {w : PurePath} {q : Resolved}
    (hq : place host config (e.resolve w) = some q) : WritableAt host config (e.resolve w) q := by
  have scope : ProcessScope := ⟨[], [], [], List.nodup_nil⟩
  by_cases hw : Handed host (e.resolve w)
  · obtain ⟨_, dir, -, -, hplace, hat, -⟩ := writable_arrives m scope hw
    cases hplace.symm.trans hq
    exact hat
  · rw [(writableRef_none config scope hw).2] at hq
    cases hq

/-- The relay points a variable at a place of the path the scope gives it. -/
theorem pointed_place {scope : ProcessScope} {x : String × String} {q : Resolved}
    (hx : x ∈ scope.env) (hq : (x.1, q) ∈ (confined e host config scope).scopeVariables) :
    place host config (e.resolve (.ofText x.2)) = some q ∧
      (RemoteHost.named e scope (e.resolve (.ofText x.2))).head? = some x.1 := by
  obtain ⟨w, -, hplace, hhead⟩ := mem_scopeVariables.1 (Dict.mem_ofPairs hq)
  have hnames : Names e x (e.resolve w) := names_of_mem_named hx (List.mem_of_head? hhead)
  rw [hnames]
  exact ⟨hplace, hhead⟩

/-- A variable that alone names a path comes first. -/
theorem head_named {scope : ProcessScope} {p : Resolved} {x : String × String} (hx : x ∈ scope.env)
    (hxp : Names e x p) (hone : ∀ y ∈ scope.env, Names e y p → y = x) :
    (RemoteHost.named e scope p).head? = some x.1 := by
  have hmem : x.1 ∈ RemoteHost.named e scope p := mem_named.2 ⟨x.2, hx, hxp⟩
  obtain ⟨v, hv⟩ := Option.ne_none_iff_exists'.1 (mt List.head?_eq_none_iff.1
    (List.ne_nil_of_mem hmem))
  obtain ⟨value, hvalue, hvp⟩ := mem_named.1 (List.mem_of_head? hv)
  rw [hv, ← hone (v, value) hvalue hvp]

/-- The relay gives the process the scope exactly if no directory it hands over has two names. -/
theorem scoped_iff (m : Mounts e h host config request) {scope : ProcessScope} :
    Scoped e host config scope (confined e host config scope) ↔
      ∀ w ∈ scope.writable, Handed host (e.resolve w) → ∀ x ∈ scope.env,
        Names e x (e.resolve w) → ∀ y ∈ scope.env, Names e y (e.resolve w) → y = x := by
  constructor
  · intro hs w hw hh x hx hxw y hy hyw
    have hfirst : ∀ z ∈ scope.env, Names e z (e.resolve w) →
        (RemoteHost.named e scope (e.resolve w)).head? = some z.1 := by
      intro z hz hzw
      obtain ⟨q, -, hlook, -⟩ := hs.pointed z hz w hw hh hzw
      rw [← show e.resolve (.ofText z.2) = e.resolve w from hzw]
      exact (pointed_place hz (Dict.mem_of_lookup hlook)).2
    have hkey : y.1 = x.1 := Option.some.inj ((hfirst y hy hyw).symm.trans (hfirst x hx hxw))
    exact Prod.ext hkey (scope.env_distinct.eq (k := x.1) (hkey ▸ hy) hx)
  · intro hone
    refine ⟨fun w hw hh => ?_, fun q hq => ?_, fun x hx w hw hh hxw => ?_, fun x hx => ?_,
      fun port => mem_unique⟩
    · obtain ⟨_, dir, -, -, hplace, hat, -⟩ := writable_arrives m scope hh
      exact ⟨dir, mem_confined_writable.2 ⟨w, hw, hplace⟩, hat⟩
    · obtain ⟨w, hw, hplace⟩ := mem_confined_writable.1 hq
      exact ⟨w, hw, place_writable m hplace⟩
    · obtain ⟨_, dir, -, -, hplace, hat, -⟩ := writable_arrives m scope hh
      have hfirst := head_named hx hxw (hone w hw hh x hx hxw)
      obtain ⟨q, hlook, -⟩ := Dict.lookup_ofPairs
        (mem_scopeVariables.2 ⟨w, hw, hplace, hfirst⟩ : (x.1, dir) ∈ _)
      have hq : place host config (e.resolve w) = some q := by
        rw [← show e.resolve (.ofText x.2) = e.resolve w from hxw]
        exact (pointed_place hx (Dict.mem_of_lookup hlook)).1
      cases hplace.symm.trans hq
      exact ⟨dir, mem_confined_writable.2 ⟨w, hw, hplace⟩, hlook, hat⟩
    · obtain ⟨w, -, hplace, hhead⟩ := mem_scopeVariables.1 (Dict.mem_ofPairs hx)
      obtain ⟨value, hvalue, hvw⟩ := mem_named.1 (List.mem_of_head? hhead)
      refine ⟨value, hvalue, ?_⟩
      rw [show e.resolve (.ofText value) = e.resolve w from hvw]
      exact place_writable m hplace

/-! ## The frame of a request -/

/-- The items of a frame that every request has. -/
def items (request : SpawnRequest) (refs : List PyValue) (contents : List (String × String)) :
    List (String × PyValue) := [
  ("type", .str "spawn"),
  ("v", .int protocolVersion),
  ("agent", .str request.agent),
  ("session_id", Internal.optional .str request.sessionId),
  ("tools", .list (request.tools.map .str)),
  ("skills", .list refs),
  ("provider", Internal.optional .str request.provider),
  ("model", Internal.optional .str request.model),
  ("thinking", .str request.thinking),
  ("append_system_prompt", .str request.appendSystemPrompt),
  ("env", record (request.env.map fun x => (x.1, .str x.2))),
  ("env_files", record (contents.map fun x => (x.1, .str x.2)))]

/-- The contents are those of the files. -/
def Reads (e : FileSystem) (request : SpawnRequest) (contents : List (String × String)) : Prop :=
  List.Forall₂ (fun x y => y.1 = x.1 ∧ e.read x.2 = some y.2) request.envFiles contents

theorem spawnPayload_ok {payload : PyValue} (hp : host.spawnPayload e request = .ok payload) :
    ∃ refs contents, request.skills.mapM (host.skillRef e request) = .ok refs ∧
      Reads e request contents ∧
      payload = record (items request refs contents ++ host.confinementPayload e request) := by
  obtain ⟨refs, hrefs, hp⟩ := bind_ok.1 hp
  obtain ⟨files, hfiles, hp⟩ := bind_ok.1 hp
  obtain ⟨contents, rfl, hreads⟩ := readEnvFiles_ok hfiles
  exact ⟨refs, contents, hrefs, hreads, (Except.ok.inj hp).symm⟩

theorem confinementPayload_some {scope : ProcessScope} (hs : request.processScope = some scope) :
    host.confinementPayload e request = [("confinement", confinementItem e host scope)] := by
  unfold RemoteHost.confinementPayload
  rw [hs]
  rfl

theorem confinementPayload_none (hs : request.processScope = none) :
    host.confinementPayload e request = [] := by
  unfold RemoteHost.confinementPayload
  rw [hs]

theorem plain_skillRef {skill : String} {ref : PyValue}
    (hs : host.skillRef e request skill = .ok ref) : Plain ref := by
  have hkeys : (["root", "path"] : List String).Nodup := by decide
  have hplain : ∀ name p root, Plain (record (reference name p root)) := fun name p root =>
    plain_record (by simp [reference, Plain]) hkeys
  unfold RemoteHost.skillRef at hs
  simp only at hs
  split at hs
  · cases hs
    exact hplain ..
  · split at hs
    · cases hs
      exact hplain ..
    · cases hs

theorem distinct_contents {contents : List (String × String)} (hr : Reads e request contents) :
    Dict.Distinct contents := by
  unfold Dict.Distinct
  rw [keys_contents hr]
  exact request.envFiles_distinct

theorem plain_spawnPayload (m : Mounts e h host config request) {payload : PyValue}
    (hp : host.spawnPayload e request = .ok payload) : Plain payload := by
  obtain ⟨refs, contents, hrefs, hreads, rfl⟩ := spawnPayload_ok hp
  have hlist : Plain (.list refs) := by
    refine plain_list fun ref href => ?_
    obtain ⟨skill, -, hskill⟩ := mem_mapM hrefs href
    exact plain_skillRef hskill
  have hitems : ∀ x ∈ items request refs contents, Plain x.2 := by
    simp only [items, List.forall_mem_cons]
    exact ⟨trivial, trivial, trivial, plain_optional _, plain_strings _, hlist, plain_optional _,
      plain_optional _, trivial, trivial, plain_env request.env_distinct,
      plain_env (distinct_contents hreads), by simp⟩
  have hkeys : ((items request refs contents).map Prod.fst ++ ["confinement"]).Nodup := by
    show (["type", "v", "agent", "session_id", "tools", "skills", "provider", "model", "thinking",
      "append_system_prompt", "env", "env_files", "confinement"] : List String).Nodup
    decide
  cases hs : request.processScope with
  | none =>
    rw [confinementPayload_none hs, List.append_nil]
    exact plain_record hitems hkeys.of_append_left
  | some scope =>
    rw [confinementPayload_some hs]
    refine plain_record (fun x hx => ?_) hkeys
    rcases List.mem_append.1 hx with hx | hx
    · exact hitems x hx
    · rw [List.mem_singleton.1 hx]
      exact plain_confinementItem m scope

/-! ## What is accepted, and as what -/

/-- What the relay asks of a request. -/
structure Accepted (e : FileSystem) (host : RemoteHost) (request : SpawnRequest) : Prop where
  sessionId : ∀ id, request.sessionId = some id → Relay.isSessionId id = true
  thinking : request.thinking = "" ∨ request.thinking ∈ thinkingLevels
  env : ∀ x ∈ request.env, Relay.isEnvName x.1 = true
  envFiles : ∀ x ∈ request.envFiles, Relay.isEnvName x.1 = true
  skills : ∀ skill ∈ request.skills, e.exist (e.resolve (.ofText skill)) = true
  scope : ∀ scope, request.processScope = some scope → Spelt e host scope

/-- The spawn a request is read as. -/
def arrived (e : FileSystem) (host : RemoteHost) (config : Relay.HostConfig)
    (request : SpawnRequest) (places : List Resolved) (contents : List (String × String)) :
    Relay.Spawn where
  sessionId := request.sessionId
  tools := request.tools
  skills := places.map fun path => (PurePath.real path).text
  provider := request.provider.filter (· ≠ "")
  model := request.model.filter (· ≠ "")
  thinking := request.thinking
  appendSystemPrompt := request.appendSystemPrompt
  env := request.env
  envFiles := contents
  confinement := request.processScope.map (confined e host config)

/-- The skills arrive one by one. -/
theorem skills_arrive (m : Mounts e h host config request) : ∀ {skills : List String}
    {refs : List PyValue}, skills.mapM (host.skillRef e request) = .ok refs →
    ∃ places, List.Forall₂ (fun skill q => SkillAt e host config request
        (e.resolve (.ofText skill)) q) skills places ∧
      ∀ qs, refs.mapM (Relay.skill h config) = .ok qs ↔
        (∀ skill ∈ skills, e.exist (e.resolve (.ofText skill)) = true) ∧ qs = places := by
  intro skills refs hrefs
  have hall := mapM_ok.1 hrefs
  clear hrefs
  induction hall with
  | nil =>
    refine ⟨[], .nil, fun qs => ?_⟩
    rw [mapM_ok]
    simp
  | @cons skill ref skills refs hskill _ ih =>
    obtain ⟨places, hat, hqs⟩ := ih
    obtain ⟨place, hplace, hq⟩ := skill_arrives m hskill
    refine ⟨place :: places, .cons hplace hat, fun qs => ?_⟩
    rw [mapM_ok, List.forall₂_cons_left_iff]
    constructor
    · rintro ⟨q, rest, hread, hrest, rfl⟩
      obtain ⟨hex, rfl⟩ := (hq q).1 hread
      obtain ⟨hexs, rfl⟩ := (hqs rest).1 (mapM_ok.2 hrest)
      exact ⟨List.forall_mem_cons.2 ⟨hex, hexs⟩, rfl⟩
    · rintro ⟨hexs, rfl⟩
      obtain ⟨hex, hrest⟩ := List.forall_mem_cons.1 hexs
      exact ⟨place, places, (hq _).2 ⟨hex, rfl⟩, mapM_ok.1 ((hqs _).2 ⟨hrest, rfl⟩), rfl⟩

theorem confinement_read (m : Mounts e h host config request) {refs : List PyValue}
    {contents : List (String × String)} {c : Option Relay.Confinement} :
    Relay.confinement h config (Relay.get "confinement" (record (items request refs contents ++
        host.confinementPayload e request))) = .ok c ↔
      (∀ scope, request.processScope = some scope → Spelt e host scope) ∧
        c = request.processScope.map (confined e host config) := by
  have hlook : (items request refs contents).lookup "confinement" = none := rfl
  rw [get_record, List.lookup_append, hlook, Option.none_or]
  cases hs : request.processScope with
  | none =>
    rw [confinementPayload_none hs]
    show Except.ok none = .ok c ↔ _
    simp [@eq_comm _ c]
  | some scope =>
    rw [confinementPayload_some hs]
    show Relay.confinement h config (confinementItem e host scope) = .ok c ↔ _
    rw [confinement_arrives m]
    simp

/-- What is accepted, and as what. -/
theorem record_arrives (m : Mounts e h host config request) (shown : PyValue → String)
    {payload : PyValue} (hp : host.spawnPayload e request = .ok payload) :
    ∃ places contents, List.Forall₂ (fun skill q => SkillAt e host config request
        (e.resolve (.ofText skill)) q) request.skills places ∧ Reads e request contents ∧
      ∀ spawn, Relay.parse h config shown payload = .ok spawn ↔
        Accepted e host request ∧ spawn = arrived e host config request places contents := by
  obtain ⟨refs, contents, hrefs, hreads, rfl⟩ := spawnPayload_ok hp
  obtain ⟨places, hplaces, hskills⟩ := skills_arrive m hrefs
  refine ⟨places, contents, hplaces, hreads, fun spawn => ?_⟩
  have hitem : ∀ key v, (items request refs contents).lookup key = some v →
      Relay.get key (record (items request refs contents ++
        host.confinementPayload e request)) = v := by
    intro key v hv
    rw [get_record, List.lookup_append, hv]
    rfl
  have hfiles : (∀ x ∈ contents, Relay.isEnvName x.1 = true) ↔
      ∀ x ∈ request.envFiles, Relay.isEnvName x.1 = true := by
    have hkeys := keys_contents hreads
    rw [← List.forall_mem_map (f := Prod.fst) (P := fun name => Relay.isEnvName name = true), hkeys,
      List.forall_mem_map]
  rw [parse_ok]
  constructor
  · intro p
    have hsession := p.sessionId
    have htools := p.tools
    obtain ⟨refs', hrefs', qs, hqs, hskill⟩ := p.skills
    have hprovider := p.provider
    have hmodel := p.model
    have hthinking := p.thinking
    have hsuffix := p.appendSystemPrompt
    have henv := p.env
    have henvFiles := p.envFiles
    rw [hitem _ _ rfl] at hsession htools hrefs' hprovider hmodel hthinking hsuffix henv henvFiles
    obtain ⟨hid, hsession⟩ := sessionId_arrives.1 hsession
    obtain ⟨hlevel, hthinking⟩ := thinking_arrives.1 hthinking
    obtain ⟨hnames, henv⟩ := (env_arrives request.env_distinct).1 henv
    obtain ⟨hfileNames, henvFiles⟩ := (env_arrives (distinct_contents hreads)).1 henvFiles
    obtain ⟨hspelt, hconf⟩ := (confinement_read m).1 p.confinement
    cases hrefs'
    obtain ⟨hexist, rfl⟩ := (hskills qs).1 hqs
    refine ⟨⟨hid, hlevel, hnames, hfiles.1 hfileNames, hexist, hspelt⟩, ?_⟩
    cases spawn
    simp only [arrived, Relay.Spawn.mk.injEq]
    exact ⟨hsession, strings_arrive.1 htools, hskill, optionalStr_arrives.1 hprovider,
      optionalStr_arrives.1 hmodel, hthinking, hsuffix, henv, henvFiles, hconf⟩
  · rintro ⟨a, rfl⟩
    refine ⟨rfl, ?_, ?_, ?_, ?_, ?_, ?_, ?_, ?_, ?_, ?_, ?_, (confinement_read m).2 ⟨a.scope, rfl⟩⟩
    all_goals rw [hitem _ _ rfl]
    · rfl
    · simp [Relay.isAgent, m.agent]
    · exact sessionId_arrives.2 ⟨a.sessionId, rfl⟩
    · exact strings_arrive.2 rfl
    · exact ⟨refs, rfl, places, (hskills places).2 ⟨a.skills, rfl⟩, rfl⟩
    · exact optionalStr_arrives.2 rfl
    · exact optionalStr_arrives.2 rfl
    · exact thinking_arrives.2 ⟨a.thinking, rfl⟩
    · rfl
    · exact (env_arrives request.env_distinct).2 ⟨a.env, rfl⟩
    · exact (env_arrives (distinct_contents hreads)).2 ⟨hfiles.2 a.envFiles, rfl⟩

/-- A request that can be carried is accepted, and given its scope. -/
theorem carried_iff (m : Mounts e h host config request) : Carried e host request ↔
    Accepted e host request ∧ ∀ scope, request.processScope = some scope →
      Scoped e host config scope (confined e host config scope) := by
  constructor
  · intro c
    refine ⟨⟨c.sessionId, c.thinking, c.env, c.envFiles, c.skills, fun scope hs =>
      ⟨fun w hw hh v hv => ?_, c.ports scope hs⟩⟩, fun scope hs => (scoped_iff m).2 ?_⟩
    · obtain ⟨value, hvalue, hvw⟩ := mem_named.1 (List.mem_of_head? hv)
      exact (c.variableNames scope hs w hw hh (v, value) hvalue hvw).1
    · exact fun w hw hh x hx hxw => (c.variableNames scope hs w hw hh x hx hxw).2
  · rintro ⟨a, hscoped⟩
    refine ⟨a.sessionId, a.thinking, a.env, a.envFiles, a.skills, fun scope hs =>
      (a.scope scope hs).ports, fun scope hs w hw hh x hx hxw => ?_⟩
    have hone := (scoped_iff m).1 (hscoped scope hs) w hw hh x hx hxw
    exact ⟨(a.scope scope hs).variableNames w hw hh x.1 (head_named hx hxw hone), hone⟩

theorem flag_filter (name : String) (o : Option String) :
    Local.flag name ((o.filter (· ≠ "")).getD "") = Local.flag name (o.getD "") := by
  cases o with
  | none => rfl
  | some s => by_cases hs : s = "" <;> simp [Option.filter, hs]

/-- The two command lines. -/
theorem commandArgs_arrived (places : List Resolved) (contents : List (String × String))
    (sessionDir : Option PurePath) :
    Relay.commandArgs (arrived e host config request places contents) config sessionDir =
      Local.commandArgs
        { request with
          skills := (arrived e host config request places contents).skills
          extensions := config.extensions.map PurePath.text } sessionDir := by
  have hprovider : Local.flag "--provider" ((arrived e host config request places
      contents).provider.getD "") = Local.flag "--provider" (request.provider.getD "") :=
    flag_filter ..
  have hmodel : Local.flag "--model" ((arrived e host config request places
      contents).model.getD "") = Local.flag "--model" (request.model.getD "") := flag_filter ..
  unfold Relay.commandArgs Local.commandArgs Local.profileArgs
  rw [hprovider, hmodel, List.flatMap_map]
  simp only [arrived, List.append_assoc]

theorem same_iff {places : List Resolved}
    {contents : List (String × String)} (hplaces : List.Forall₂ (fun skill q =>
      SkillAt e host config request (e.resolve (.ofText skill)) q) request.skills places)
    (hreads : Reads e request contents) :
    Same e host config request (arrived e host config request places contents) ↔
      ∀ scope, request.processScope = some scope →
        Scoped e host config scope (confined e host config scope) := by
  constructor
  · intro s scope hs
    obtain ⟨c, hc, hscoped⟩ := s.confined scope hs
    simp only [arrived, hs, Option.map_some, Option.some.injEq] at hc
    rw [hc]
    exact hscoped
  · intro hscoped
    refine ⟨rfl, rfl, rfl, rfl, rfl, rfl, rfl, hreads, ?_, fun hs => ?_, fun scope hs => ?_,
      commandArgs_arrived places contents⟩
    · show List.Forall₂ _ _ (places.map _)
      rw [List.forall₂_map_right_iff]
      exact hplaces.imp fun skill q hq => ⟨q, rfl, hq⟩
    · simp only [arrived, hs, Option.map_none]
    · exact ⟨_, by simp only [arrived, hs, Option.map_some], hscoped scope hs⟩

end Mounted

/-! ## Any frame -/

theorem parse_contained {h : FileSystem} {config : Relay.HostConfig} {shown : PyValue → String}
    {frame : PyValue} {spawn : Relay.Spawn}
    (hp : Relay.parse h config shown frame = .ok spawn) : Contained h config frame spawn := by
  have p := parse_ok.1 hp
  obtain ⟨refs, hrefs, paths, hpaths, hskills⟩ := p.skills
  have hconf : ∀ c, spawn.confinement = some c → ∃ refs given,
      Relay.sequence (Relay.get "writable" (Relay.get "confinement" frame)) = .ok refs ∧
        refs.mapM (Relay.writable h config) = .ok given ∧ c.writable = given.map Prod.fst ∧
        c.scopeVariables = Dict.ofPairs
          (given.filterMap fun x => x.2.map fun name => (name, x.1)) := by
    intro c hc
    have hread := p.confinement
    rw [hc] at hread
    unfold Relay.confinement at hread
    split at hread
    · cases hread
    · rename_i items hitems
      obtain ⟨refs, hrefs, hread⟩ := bind_ok.1 hread
      obtain ⟨given, hgiven, hread⟩ := bind_ok.1 hread
      obtain ⟨raw, -, hread⟩ := bind_ok.1 hread
      obtain ⟨ports, -, hread⟩ := bind_ok.1 hread
      cases hread
      exact ⟨refs, given, hrefs, hgiven, rfl, rfl⟩
    · cases hread
  refine ⟨⟨refs, hrefs, ?_⟩, fun c hc => ?_, fun c hc x hx => ?_⟩
  · rw [hskills, List.forall₂_map_right_iff]
    exact (mapM_ok.1 hpaths).imp fun ref path hpath => ⟨path, rfl, skill_declared hpath⟩
  · obtain ⟨refs, given, hrefs, hgiven, hwritable, -⟩ := hconf c hc
    refine ⟨refs, hrefs, ?_⟩
    rw [hwritable, List.forall₂_map_right_iff]
    exact (mapM_ok.1 hgiven).imp fun ref y hy => writable_declared hy
  · obtain ⟨refs, given, -, -, hwritable, hvariables⟩ := hconf c hc
    rw [hvariables] at hx
    obtain ⟨y, hy, hyx⟩ := List.mem_filterMap.1 (Dict.mem_ofPairs hx)
    obtain ⟨name, -, rfl⟩ := Option.map_eq_some_iff.1 hyx
    rw [hwritable]
    exact List.mem_map_of_mem hy

/-! ## The scope of a remote process -/

/-- A relay that has the engine's roots mounted starts the process the local host would have started
exactly if the request can be carried; and whatever the frame, it accepts no path outside the root
the frame declares for it. -/
theorem spawn_carried (e h : FileSystem) (host : RemoteHost) (config : Relay.HostConfig)
    (shown : PyValue → String) :
    (∀ request payload, Mounts e h host config request →
      host.spawnPayload e request = .ok payload →
        ((∃ frame spawn, reload payload = some frame ∧
            Relay.parse h config shown frame = .ok spawn ∧ Same e host config request spawn) ↔
          Carried e host request)) ∧
      ∀ frame spawn, Relay.parse h config shown frame = .ok spawn →
        Contained h config frame spawn := by
  refine ⟨fun request payload m hp => ?_, fun frame spawn => parse_contained⟩
  obtain ⟨places, contents, hplaces, hreads, hparse⟩ := record_arrives m shown hp
  have hplain : reload payload = some payload := (reload_iff payload).2 (plain_spawnPayload m hp)
  rw [carried_iff m, ← same_iff hplaces hreads]
  constructor
  · rintro ⟨frame, spawn, hframe, hspawn, hsame⟩
    cases hplain.symm.trans hframe
    obtain ⟨a, rfl⟩ := (hparse spawn).1 hspawn
    exact ⟨a, hsame⟩
  · rintro ⟨a, hsame⟩
    exact ⟨payload, _, hplain, (hparse _).2 ⟨a, rfl⟩, hsame⟩

namespace Sample

/-- Neither side has links, and every path is there. -/
def fs : FileSystem := plain (fun _ => true) fun _ => some "[]"

def host : RemoteHost where
  libraryRoot := some ["srv", "skills"]
  filesRoot := some ["srv", "files", "ann"]
  sharedRoot := none

def config : Relay.HostConfig where
  agent := "ann"
  profileDir := ["agent"]
  extensions := [PurePath.ofText "/app/bridge/index.ts"]
  libraryDir := some ["skills"]
  filesDir := some ["files"]
  sharedDir := none

/-- The scope of a conversation, with one more variable or none. -/
def scope (more : List (String × String)) (distinct : Dict.Distinct
    (("FILES_DIR", "/srv/files/ann/c1") :: ("TMPDIR", "/tmp/c1") :: more)) : ProcessScope where
  writable := [PurePath.ofText "/tmp/c1", PurePath.ofText "/srv/files/ann/c1"]
  tcpPorts := [443, 443]
  env := ("FILES_DIR", "/srv/files/ann/c1") :: ("TMPDIR", "/tmp/c1") :: more
  env_distinct := distinct

def request (scope : ProcessScope) : SpawnRequest where
  agent := "ann"
  profileDir := PurePath.ofText "/srv/agents/ann"
  sessionId := some "c1"
  tools := ["read", "bash"]
  skills := ["/srv/agents/ann/skills/notes", "/srv/skills/mail"]
  provider := some "anthropic"
  model := none
  thinking := "high"
  appendSystemPrompt := "Answer in Markdown."
  env := [("TOOLS_URL", "http://engine:8080")]
  envFiles := [("TOOLS_MANIFEST", PurePath.ofText "/tmp/tools.json")]
  extensions := []
  processScope := some scope
  env_distinct := List.nodup_singleton _
  envFiles_distinct := List.nodup_singleton _

def single : ProcessScope := scope [] (by unfold Dict.Distinct; decide)

/-- The agent's shared notes are kept with its files. -/
def double : ProcessScope :=
  scope [("NOTES_DIR", "/srv/files/ann/c1")] (by unfold Dict.Distinct; decide)

theorem mounts (scope : ProcessScope) : Mounts fs fs host config (request scope) where
  agent := rfl
  profile := plain_mount (by decide) fun _ => rfl
  library root _ := ⟨["skills"], rfl, plain_mount (by decide) fun _ => rfl⟩
  files root _ := ⟨["files"], rfl, plain_mount (by decide) fun _ => rfl⟩
  shared root h := nomatch h

theorem spawnPayload_isOk (scope : ProcessScope) :
    ∃ payload, host.spawnPayload fs (request scope) = .ok payload := ⟨_, rfl⟩

theorem carried : Carried fs host (request single) where
  sessionId id h := by
    cases h
    decide
  thinking := by decide
  env := by decide
  envFiles := by decide
  skills := fun _ _ => rfl
  ports scope h := by
    cases h
    decide
  variableNames scope h w _ _ x hx hxw := by
    cases h
    have hnames : ∀ x ∈ single.env, Relay.isEnvName x.1 = true := by decide
    have hapart : ∀ x ∈ single.env, ∀ y ∈ single.env,
        fs.resolve (.ofText y.2) = fs.resolve (.ofText x.2) → y = x := by decide
    exact ⟨hnames x hx, fun y hy hyw => hapart x hx y hy (hyw.trans hxw.symm)⟩

theorem accepted : Accepted fs host (request double) where
  sessionId id h := by
    cases h
    decide
  thinking := by decide
  env := by decide
  envFiles := by decide
  skills := fun _ _ => rfl
  scope scope h := by
    cases h
    refine ⟨fun w _ _ v hv => ?_, by decide⟩
    have hnames : ∀ x ∈ double.env, Relay.isEnvName x.1 = true := by decide
    obtain ⟨value, hvalue, -⟩ := mem_named.1 (List.mem_of_head? hv)
    exact hnames (v, value) hvalue

end Sample

/-- The request of a conversation with a files directory, a skill of its own and one of the
library's. -/
theorem spawn_carried_mounted :
    ∃ payload frame spawn, Sample.host.spawnPayload Sample.fs (Sample.request Sample.single) =
        .ok payload ∧ reload payload = some frame ∧
      Relay.parse Sample.fs Sample.config (fun _ => "") frame = .ok spawn ∧
      Same Sample.fs Sample.host Sample.config (Sample.request Sample.single) spawn := by
  obtain ⟨payload, hp⟩ := Sample.spawnPayload_isOk Sample.single
  obtain ⟨frame, spawn, hframe, hspawn, hsame⟩ := ((spawn_carried Sample.fs Sample.fs Sample.host
    Sample.config fun _ => "").1 _ payload (Sample.mounts _) hp).2 Sample.carried
  exact ⟨payload, frame, spawn, hp, hframe, hspawn, hsame⟩

/-- The second variable that names a directory does not cross. -/
theorem second_name_lost :
    ¬∀ request payload, Mounts Sample.fs Sample.fs Sample.host Sample.config request →
      Sample.host.spawnPayload Sample.fs request = .ok payload →
        Accepted Sample.fs Sample.host request →
          ∃ frame spawn, reload payload = some frame ∧
            Relay.parse Sample.fs Sample.config (fun _ => "") frame = .ok spawn ∧
            Same Sample.fs Sample.host Sample.config request spawn := by
  intro hall
  have m := Sample.mounts Sample.double
  obtain ⟨payload, hp⟩ := Sample.spawnPayload_isOk Sample.double
  obtain ⟨frame, spawn, hframe, hspawn, hsame⟩ := hall _ payload m hp Sample.accepted
  obtain ⟨places, contents, hplaces, hreads, hparse⟩ := record_arrives m (fun _ => "") hp
  cases ((reload_iff payload).2 (plain_spawnPayload m hp)).symm.trans hframe
  obtain ⟨-, rfl⟩ := (hparse spawn).1 hspawn
  have hscoped := (same_iff hplaces hreads).1 hsame Sample.double rfl
  have hhanded : Handed Sample.host (Sample.fs.resolve (PurePath.ofText "/srv/files/ann/c1")) :=
    .inl ⟨_, rfl, by decide⟩
  have hone := (scoped_iff m).1 hscoped (PurePath.ofText "/srv/files/ann/c1") (by decide) hhanded
    ("FILES_DIR", "/srv/files/ann/c1") (by decide) rfl ("NOTES_DIR", "/srv/files/ann/c1")
    (by decide) rfl
  exact absurd hone (by decide)

end Remote
