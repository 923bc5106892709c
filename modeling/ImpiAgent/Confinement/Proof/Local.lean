import ImpiAgent.Confinement.Local
import ImpiAgent.Confinement.Proof.Launcher

/-!
# What a runtime process can reach

What a process is pointed at, by its environment, its skills or the files it is handed, widens what
it reads and which ports it connects to, and never what it writes (`process_reach`).
-/

namespace Confinement

open Posix (PurePath)

variable {other : Char → Option Nat} {found : String → Found} {abi : Nat} {netlocOk : Text.Str → Bool}

theorem mem_reachOne {ports : List Int} {value : String} {port : Int} :
    port ∈ reachOne netlocOk ports value ↔ port ∈ ports ∨ urlPort netlocOk value = some port := by
  unfold reachOne
  cases hv : urlPort netlocOk value with
  | none => simp
  | some p =>
    dsimp only
    by_cases hp : p ∈ ports
    · rw [if_pos hp, Option.some.injEq]
      exact ⟨.inl, fun h => h.elim id fun h => h ▸ hp⟩
    · rw [if_neg hp, List.mem_append, List.mem_singleton, Option.some.injEq, eq_comm (a := port)]

theorem mem_foldl_reachOne {values : List String} : ∀ {ports : List Int} {port : Int},
    port ∈ values.foldl (reachOne netlocOk) ports ↔
      port ∈ ports ∨ ∃ value ∈ values, urlPort netlocOk value = some port := by
  induction values with
  | nil => simp
  | cons value values ih =>
    intro ports port
    rw [List.foldl_cons, ih, mem_reachOne, List.exists_mem_cons_iff, or_assoc]

/-- A restricted network is left with the ports of the scope and those the environment names. -/
theorem mem_reach {ports : List Int} (hp : ports ≠ []) {env : List (String × String)} {port : Int} :
    port ∈ reach netlocOk ports env ↔
      port ∈ ports ∨ ∃ entry ∈ env, urlPort netlocOk entry.2 = some port := by
  rw [reach, if_neg hp, mem_foldl_reachOne]
  refine or_congr_right ⟨?_, ?_⟩
  · rintro ⟨value, hm, hv⟩
    obtain ⟨entry, he, rfl⟩ := List.mem_map.1 hm
    exact ⟨entry, he, hv⟩
  · rintro ⟨entry, he, hv⟩
    exact ⟨entry.2, List.mem_map_of_mem he, hv⟩

theorem reach_eq_nil {ports : List Int} {env : List (String × String)} :
    reach netlocOk ports env = [] ↔ ports = [] := by
  constructor
  · intro h
    by_contra hp
    obtain ⟨port, hm⟩ := List.exists_mem_of_ne_nil ports hp
    have hkept : port ∈ reach netlocOk ports env := (mem_reach hp).2 (.inl hm)
    rw [h] at hkept
    cases hkept
  · rintro rfl
    rfl

theorem mem_paths {installRoots : List PurePath} {isFile : PurePath → Bool} {agentDir : PurePath}
    {request : Request} {sessionDir : Option PurePath} {env : List (String × String)}
    {rule : Opt × PurePath} (hr : rule.1 ≠ .readable) :
    rule ∈ (runtimeProcessScope netlocOk installRoots isFile agentDir request sessionDir
      env).paths ↔ rule ∈ request.written agentDir sessionDir := by
  simp only [ProcessScope.paths, runtimeProcessScope, Request.written, List.append_assoc]
  rw [List.mem_append, or_iff_right]
  intro hm
  obtain ⟨path, -, rfl⟩ := List.mem_map.1 hm
  exact hr rfl

/-- What is given to be read is given for nothing else. -/
theorem not_readable {o : Opt} {isDir : Bool} {right : Right} (h : o.Grants isDir right)
    (hright : right ∉ [.execute, .readFile, .readDir]) : o ≠ .readable := by
  rintro rfl
  cases isDir with
  | true => exact hright h
  | false =>
    refine hright ?_
    rcases List.mem_cons.1 h with rfl | h
    · simp
    · obtain rfl := List.mem_singleton.1 h
      simp

/-- A runtime process writes what the application's scope lets it write, its conversation's memory
and the devices, and beside its credential it makes directories; on a restricted network it reaches
the ports of the scope and those of the addresses in its environment, and binds none. -/
theorem process_reach {installRoots : List PurePath} {isFile : PurePath → Bool}
    {agentDir : PurePath} {request : Request} {sessionDir : Option PurePath}
    {env : List (String × String)} {command cmd : List String} {python launcher : String}
    {d : Domain}
    (h : main other found abi (launched (confinedCommand
      (runtimeProcessScope netlocOk installRoots isFile agentDir request sessionDir env)
      command python launcher)) = .started (some d) cmd) :
    cmd = command ∧
    (∀ right place, right.Known abi → right ∉ [.execute, .readFile, .readDir] →
      (d.Permits (.path right place) ↔ ∃ rule ∈ request.written agentDir sessionDir,
        ∃ root isDir, found rule.2.text = .here root isDir ∧ root <+: place ∧
          rule.1.Grants isDir right)) ∧
    (netAbi ≤ abi → request.processScope.tcpPorts ≠ [] →
      (∀ port : Nat, d.Permits (.connect port) ↔ (port : Int) ∈ request.processScope.tcpPorts ∨
        ∃ entry ∈ env, urlPort netlocOk entry.2 = some (port : Int)) ∧
      ∀ port, ¬d.Permits (.bind port)) := by
  obtain ⟨rfl, ⟨-, hd⟩ | ⟨d', habi, hd, hnamed⟩⟩ := started_named h
  · cases hd
  · cases hd
    refine ⟨rfl, fun right place hknown hright => ?_, fun h4 hp => ⟨fun port => ?_, fun port => ?_⟩⟩
    · rw [hnamed, ProcessScope.Named]
      constructor
      · intro h
        obtain ⟨rule, hm, root, isDir, hf, hroot, hg⟩ := h hknown
        exact ⟨rule, (mem_paths (not_readable hg hright)).1 hm, root, isDir, hf, hroot, hg⟩
      · rintro ⟨rule, hm, root, isDir, hf, hroot, hg⟩ -
        exact ⟨rule, (mem_paths (not_readable hg hright)).2 hm, root, isDir, hf, hroot, hg⟩
    · rw [hnamed, ProcessScope.Named, ← mem_reach hp]
      exact ⟨fun h => h h4 (mt reach_eq_nil.1 hp), fun h _ _ => h⟩
    · rw [hnamed, ProcessScope.Named]
      exact fun h => hp (reach_eq_nil.1 (h h4))

namespace Sample

/-- A process with a memory, pointed at one service. -/
def request : Request where
  profileDir := .ofText "/agents/ada"
  skills := []
  extensions := []
  env := []
  envFiles := []
  processScope := scope

def started : Domain where
  fs := ⟨2 ^ 16 - 1, [⟨["usr"], 13⟩, ⟨["usr"], 13⟩, ⟨["work"], 2 ^ 16 - 1⟩]⟩
  net := 3
  ports := [(443, 2), (8080, 2)]
  scopes := 3

end Sample

theorem process_reach_sample : ["pi"] = ["pi"] ∧
    (∀ right place, right.Known 6 → right ∉ [.execute, .readFile, .readDir] →
      (Sample.started.Permits (.path right place) ↔
        ∃ rule ∈ Sample.request.written (.ofText "/pi") none, ∃ root isDir,
          Sample.files rule.2.text = .here root isDir ∧ root <+: place ∧
            rule.1.Grants isDir right)) ∧
    (netAbi ≤ 6 → Sample.request.processScope.tcpPorts ≠ [] →
      (∀ port : Nat, Sample.started.Permits (.connect port) ↔
        (port : Int) ∈ Sample.request.processScope.tcpPorts ∨
          ∃ entry ∈ [("TOOL_URL", "http://tools:8080/")],
            urlPort (fun _ => true) entry.2 = some (port : Int)) ∧
      ∀ port, ¬Sample.started.Permits (.bind port)) := by
  have h : main (fun _ => none) Sample.files 6 (launched (confinedCommand
      (runtimeProcessScope (fun _ => true) [] (fun _ => false) (.ofText "/pi") Sample.request none
        [("TOOL_URL", "http://tools:8080/")]) ["pi"] "python3" "launcher.py")) =
      .started (some Sample.started) ["pi"] := by decide +kernel
  exact process_reach h

end Confinement
