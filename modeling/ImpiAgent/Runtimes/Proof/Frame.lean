import ImpiAgent.Lib.Attempt
import ImpiAgent.Runtimes.Remote

/-!
# Reading a frame

Each value the engine writes is read back as it was written or refused (`sessionId_arrives` …
`ports_arrive`); `skill_ok` and `writable_ok` are what the relay makes of a reference, and
`parse_ok` puts the parts of an accepted frame together.
-/

namespace Remote

open Json Posix
open Internal (record)
open Attempt

/-! ## Records -/

theorem plainItems_map : ∀ {xs : List (String × PyValue)}, (∀ x ∈ xs, Plain x.2) →
    PlainItems (xs.map fun x => (.str x.1, x.2))
  | [], _ => trivial
  | x :: _, h => ⟨trivial, h x List.mem_cons_self,
      plainItems_map fun y hy => h y (List.mem_cons_of_mem _ hy)⟩

theorem plain_record {xs : List (String × PyValue)} (h : ∀ x ∈ xs, Plain x.2)
    (hd : Dict.Distinct xs) : Plain (record xs) := by
  refine ⟨plainItems_map h, ?_⟩
  have hkeys : (xs.map fun x => (Key.str x.1, x.2)).map Prod.fst =
      (xs.map Prod.fst).map Key.str := by simp
  unfold Dict.Distinct
  rw [hkeys]
  exact List.Nodup.map (fun _ _ h => Key.str.inj h) hd

theorem plain_list : ∀ {xs : List PyValue}, (∀ x ∈ xs, Plain x) → Plain (.list xs)
  | [], _ => trivial
  | x :: _, h => ⟨h x List.mem_cons_self, plain_list fun y hy => h y (List.mem_cons_of_mem _ hy)⟩

theorem plain_strings (xs : List String) : Plain (.list (xs.map .str)) := by
  refine plain_list fun x hx => ?_
  obtain ⟨s, -, rfl⟩ := List.mem_map.1 hx
  trivial

theorem plain_optional (o : Option String) : Plain (Internal.optional .str o) := by
  cases o <;> trivial

theorem plain_env {xs : List (String × String)} (hd : Dict.Distinct xs) :
    Plain (record (xs.map fun x => (x.1, .str x.2))) := by
  refine plain_record (fun x hx => ?_) ?_
  · obtain ⟨y, -, rfl⟩ := List.mem_map.1 hx
    trivial
  · have hkeys : (xs.map fun x => (x.1, PyValue.str x.2)).map Prod.fst = xs.map Prod.fst := by
      rw [List.map_map]
      rfl
    unfold Dict.Distinct
    rw [hkeys]
    exact hd

@[simp] theorem get_record (key : String) (xs : List (String × PyValue)) :
    Relay.get key (record xs) = (xs.lookup key).getD .null := Internal.getD_record ..

/-! ## An accepted frame -/

section Parse

variable {fs : FileSystem} {config : Relay.HostConfig} {shown : PyValue → String} {frame : PyValue}
  {spawn : Relay.Spawn}

open Relay in
/-- What an accepted frame holds, part by part. -/
structure Parsed (fs : FileSystem) (config : Relay.HostConfig) (shown : PyValue → String)
    (frame : PyValue) (spawn : Spawn) : Prop where
  object : isObject frame = true
  version : isVersion (get "v" frame) = true
  agent : isAgent config (get "agent" frame) = true
  sessionId : Relay.sessionId (get "session_id" frame) = .ok spawn.sessionId
  tools : strings "tools" (get "tools" frame) = .ok spawn.tools
  skills : ∃ refs, sequence (get "skills" frame) = .ok refs ∧
    ∃ paths, refs.mapM (skill fs config) = .ok paths ∧
      spawn.skills = paths.map fun path => (PurePath.real path).text
  provider : optionalStr "provider" (get "provider" frame) = .ok spawn.provider
  model : optionalStr "model" (get "model" frame) = .ok spawn.model
  thinking : Relay.thinking (get "thinking" frame) = .ok spawn.thinking
  appendSystemPrompt : spawn.appendSystemPrompt = suffix shown (get "append_system_prompt" frame)
  env : Relay.env "env" (get "env" frame) = .ok spawn.env
  envFiles : Relay.env "env_files" (get "env_files" frame) = .ok spawn.envFiles
  confinement : Relay.confinement fs config (get "confinement" frame) = .ok spawn.confinement

theorem parse_ok : Relay.parse fs config shown frame = .ok spawn ↔
    Parsed fs config shown frame spawn := by
  unfold Relay.parse
  simp only [unless_ok, bind_ok, pure, Except.pure, Except.ok.injEq]
  constructor
  · rintro ⟨ho, hv, ha, sid, hsid, tools, htools, refs, hrefs, paths, hpaths, provider, hprovider,
      model, hmodel, level, hlevel, env, henv, files, hfiles, conf, hconf, rfl⟩
    exact ⟨ho, hv, ha, hsid, htools, ⟨refs, hrefs, paths, hpaths, rfl⟩, hprovider, hmodel, hlevel,
      rfl, henv, hfiles, hconf⟩
  · intro p
    obtain ⟨refs, hrefs, paths, hpaths, hskills⟩ := p.skills
    refine ⟨p.object, p.version, p.agent, _, p.sessionId, _, p.tools, refs, hrefs, paths, hpaths, _,
      p.provider, _, p.model, _, p.thinking, _, p.env, _, p.envFiles, _, p.confinement, ?_⟩
    rw [← hskills, ← p.appendSystemPrompt]

end Parse

/-! ## What has no path in it -/

theorem sessionId_arrives {o o' : Option String} :
    Relay.sessionId (Internal.optional .str o) = .ok o' ↔
      (∀ id, o = some id → Relay.isSessionId id = true) ∧ o' = o := by
  cases o with
  | none =>
    show Except.ok none = .ok o' ↔ _
    simp [@eq_comm _ o']
  | some id =>
    show (if Relay.isSessionId id then Except.ok (some id) else
      Except.error (Relay.SpawnRejected.sessionId (.str id))) = .ok o' ↔ _
    by_cases h : Relay.isSessionId id = true
    · simp [h, @eq_comm _ o']
    · simp [h]

theorem strings_arrive {field : String} {xs ys : List String} :
    Relay.strings field (.list (xs.map .str)) = .ok ys ↔ ys = xs := by
  have hmap : ∀ s ∈ xs, ∀ y, Relay.string (.mustBeStrings field) (.str s) = .ok y ↔
      True ∧ y = id s := fun s _ y => by simp [Relay.string, @eq_comm _ y]
  have hlist : (xs.map PyValue.str).mapM (Relay.string (.mustBeStrings field)) = .ok ys ↔ _ :=
    mapM_map_ok hmap
  simpa [Relay.strings, Relay.sequence, bind_ok] using hlist

theorem optionalStr_arrives {field : String} {o o' : Option String} :
    Relay.optionalStr field (Internal.optional .str o) = .ok o' ↔ o' = o.filter (· ≠ "") := by
  cases o with
  | none =>
    show Except.ok none = .ok o' ↔ _
    simp [@eq_comm _ o']
  | some s =>
    show Except.ok (if s = "" then none else some s) = .ok o' ↔ _
    by_cases h : s = "" <;> simp [h, Option.filter, @eq_comm _ o']

theorem thinking_arrives {level level' : String} : Relay.thinking (.str level) = .ok level' ↔
    (level = "" ∨ level ∈ thinkingLevels) ∧ level' = level := by
  have hvalue : (if level = "" then none else some level : Option String).getD "" = level := by
    by_cases h : level = "" <;> simp [h]
  unfold Relay.thinking Relay.optionalStr
  simp only [bind_ok, Except.ok.injEq, exists_eq_left', hvalue]
  by_cases h : level = "" ∨ level ∈ thinkingLevels
  · have hn : ¬(level ≠ "" ∧ level ∉ thinkingLevels) := by tauto
    rw [if_neg hn]
    simp [h, pure, Except.pure, @eq_comm _ level']
  · have hn : level ≠ "" ∧ level ∉ thinkingLevels := by tauto
    rw [if_pos hn]
    simp [h, throw, throwThe, MonadExceptOf.throw, bind, Except.bind]

theorem env_arrives {field : String} {xs ys : List (String × String)} (hd : Dict.Distinct xs) :
    Relay.env field (record (xs.map fun x => (x.1, .str x.2))) = .ok ys ↔
      (∀ x ∈ xs, Relay.isEnvName x.1 = true) ∧ ys = xs := by
  have hentry : ∀ x ∈ xs, ∀ y, Relay.envEntry field (Key.str x.1, PyValue.str x.2) = .ok y ↔
      Relay.isEnvName x.1 = true ∧ y = id x := by
    intro x _ y
    by_cases h : Relay.isEnvName x.1 = true
    · simp [Relay.envEntry, Relay.string, h, Except.map, @eq_comm _ y]
    · simp [Relay.envEntry, h]
  unfold Relay.env record
  simp only [List.map_map, map_ok]
  constructor
  · rintro ⟨zs, hzs, rfl⟩
    obtain ⟨hgood, rfl⟩ := (mapM_map_ok hentry).1 hzs
    exact ⟨hgood, by rw [List.map_id, Dict.ofPairs_of_distinct hd]⟩
  · rintro ⟨hgood, rfl⟩
    exact ⟨_, (mapM_map_ok hentry).2 ⟨hgood, rfl⟩, by rw [List.map_id, Dict.ofPairs_of_distinct hd]⟩

/-- What is shipped is what the files hold. -/
theorem readEnvFiles_ok {fs : FileSystem} {request : SpawnRequest} {items : List (String × PyValue)}
    (h : RemoteHost.readEnvFiles fs request = .ok items) :
    ∃ contents, items = contents.map (fun x => (x.1, .str x.2)) ∧
      List.Forall₂ (fun (x : String × PurePath) (y : String × String) => y.1 = x.1 ∧
        fs.read x.2 = some y.2) request.envFiles contents := by
  have hread := mapM_ok.1 h
  clear h
  generalize request.envFiles = files at hread
  induction hread with
  | nil => exact ⟨[], rfl, .nil⟩
  | @cons x y files items hxy _ ih =>
    obtain ⟨contents, rfl, hall⟩ := ih
    cases hx : fs.read x.2 with
    | none =>
      rw [hx] at hxy
      cases hxy
    | some content =>
      rw [hx] at hxy
      cases hxy
      exact ⟨(x.1, content) :: contents, rfl, .cons ⟨rfl, hx⟩ hall⟩

theorem keys_contents {fs : FileSystem} {files : List (String × PurePath)}
    {contents : List (String × String)}
    (h : List.Forall₂ (fun x y => y.1 = x.1 ∧ fs.read x.2 = some y.2) files contents) :
    contents.map Prod.fst = files.map Prod.fst := by
  induction h with
  | nil => rfl
  | cons hxy _ ih => rw [List.map_cons, List.map_cons, hxy.1, ih]

theorem mem_unique {n : Int} {ns : List Int} : n ∈ unique ns ↔ n ∈ ns := by
  have key : ∀ ns kept : List Int, n ∈ ns.foldl (fun kept n => if n ∈ kept then kept
      else kept ++ [n]) kept ↔ n ∈ kept ∨ n ∈ ns := by
    intro ns
    induction ns with
    | nil => simp
    | cons m ns ih =>
      intro kept
      rw [List.foldl_cons, ih, List.mem_cons]
      by_cases h : m ∈ kept
      · rw [if_pos h]
        constructor
        · exact Or.imp_right .inr
        · rintro (hn | rfl | hn)
          · exact .inl hn
          · exact .inl h
          · exact .inr hn
      · rw [if_neg h, List.mem_append, List.mem_singleton, or_assoc]
  simpa [unique] using key ns []

theorem ports_arrive {ns ports : List Int} : (ns.map PyValue.int).mapM Relay.port = .ok ports ↔
    (∀ n ∈ ns, 0 < n ∧ n < 65536) ∧ ports = ns := by
  have hport : ∀ n ∈ ns, ∀ y, Relay.port (.int n) = .ok y ↔ (0 < n ∧ n < 65536) ∧ y = id n := by
    intro n _ y
    by_cases h : 0 < n ∧ n < 65536 <;> simp [Relay.port, h, @eq_comm _ y]
  have hlist : (ns.map PyValue.int).mapM Relay.port = .ok ports ↔ _ := mapM_map_ok hport
  simpa using hlist

/-! ## A path the relay resolves -/

section Paths

variable {fs : FileSystem} {config : Relay.HostConfig} {ref : PyValue}

theorem root_ok {name : PyValue} {s : String} {dir : Resolved} :
    Relay.root config name = .ok (s, dir) ↔
      name = .str "profile" ∧ s = "profile" ∧ config.profileDir = dir ∨
        name = .str "library" ∧ s = "library" ∧ config.libraryDir = some dir := by
  unfold Relay.root
  split
  · simp [eq_comm]
  · cases config.libraryDir <;> simp [eq_comm]
  · simp_all

theorem writableRoot_ok {name : PyValue} {s : String} {dir : Resolved} :
    Relay.writableRoot config name = .ok (s, dir) ↔
      name = .str "files" ∧ s = "files" ∧ config.filesDir = some dir ∨
        name = .str "shared" ∧ s = "shared" ∧ config.sharedDir = some dir := by
  unfold Relay.writableRoot
  split
  · cases config.filesDir <;> simp [eq_comm]
  · cases config.sharedDir <;> simp [eq_comm]
  · simp_all

theorem skill_ok {path : Resolved} : Relay.skill fs config ref = .ok path ↔
    Relay.isObject ref = true ∧ ∃ relative name dir, Relay.get "path" ref = .str relative ∧
      Relay.root config (Relay.get "root" ref) = .ok (name, dir) ∧
      path = Relay.resolved fs dir relative ∧ isRelativeTo path dir = true ∧
      fs.exist path = true := by
  unfold Relay.skill
  split
  · split
    · rename_i relative hrel
      simp only [bind_ok, unless_ok, pure, Except.pure, Except.ok.injEq]
      constructor
      · rintro ⟨⟨name, dir⟩, hroot, hin, hex, rfl⟩
        exact ⟨rfl, relative, name, dir, hrel, hroot, rfl, hin, hex⟩
      · rintro ⟨-, relative', name, dir, hrel', hroot, rfl, hin, hex⟩
        cases hrel.symm.trans hrel'
        exact ⟨(name, dir), hroot, hin, hex, rfl⟩
    · rename_i hrel
      constructor
      · exact fun h => nomatch h
      · rintro ⟨-, relative, name, dir, hrel', -⟩
        exact absurd hrel' (hrel relative)
  · rename_i hobj
    constructor
    · exact fun h => nomatch h
    · rintro ⟨h, -⟩
      cases ref with
      | dict items => exact absurd rfl (hobj items)
      | _ => cases h

theorem writable_ok {y : Resolved × Option String} : Relay.writable fs config ref = .ok y ↔
    Relay.isObject ref = true ∧ ∃ relative name dir,
      Relay.writableRoot config (Relay.get "root" ref) = .ok (name, dir) ∧
      Relay.get "path" ref = .str relative ∧ y.1 = Relay.resolved fs dir relative ∧
      isRelativeTo y.1 dir = true ∧ Relay.variableName (Relay.get "variable" ref) = .ok y.2 := by
  unfold Relay.writable
  split
  · simp only [bind_ok]
    constructor
    · rintro ⟨⟨name, dir⟩, hroot, h⟩
      split at h
      · rename_i relative hrel
        simp only [bind_ok, unless_ok, pure, Except.pure, Except.ok.injEq] at h
        obtain ⟨hin, v, hv, rfl⟩ := h
        exact ⟨rfl, relative, name, dir, hroot, hrel, rfl, hin, hv⟩
      · cases h
    · rintro ⟨-, relative, name, dir, hroot, hrel, hy, hin, hv⟩
      refine ⟨(name, dir), hroot, ?_⟩
      rw [hrel]
      simp only [bind_ok, unless_ok, pure, Except.pure, Except.ok.injEq]
      rw [hy] at hin
      exact ⟨hin, y.2, hv, Prod.ext hy.symm rfl⟩
  · rename_i hobj
    constructor
    · exact fun h => nomatch h
    · rintro ⟨h, -⟩
      cases ref with
      | dict items => exact absurd rfl (hobj items)
      | _ => cases h

/-- A skill of any frame lies inside the root its reference declares. -/
theorem skill_declared {path : Resolved} (h : Relay.skill fs config ref = .ok path) :
    Declared fs config ref path := by
  obtain ⟨-, relative, name, dir, hrel, hroot, rfl, hin, -⟩ := skill_ok.1 h
  refine ⟨dir, relative, hrel, rfl, hin, ?_⟩
  rcases root_ok.1 hroot with ⟨hname, -, hdir⟩ | ⟨hname, -, hdir⟩
  · exact .inl ⟨hname, hdir⟩
  · exact .inr (.inl ⟨hname, hdir⟩)

/-- A writable path of any frame lies inside the root its reference declares. -/
theorem writable_declared {y : Resolved × Option String}
    (h : Relay.writable fs config ref = .ok y) : Declared fs config ref y.1 := by
  obtain ⟨-, relative, name, dir, hroot, hrel, hy, hin, -⟩ := writable_ok.1 h
  refine ⟨dir, relative, hrel, hy, hin, ?_⟩
  rcases writableRoot_ok.1 hroot with ⟨hname, -, hdir⟩ | ⟨hname, -, hdir⟩
  · exact .inr (.inr (.inl ⟨hname, hdir⟩))
  · exact .inr (.inr (.inr ⟨hname, hdir⟩))

end Paths

end Remote
