import ImpiAgent.Lib.Json
import ImpiAgent.Lib.Text
import ImpiAgent.Tools.Wiring

/-!
# Reading the profiles again

`FsProfileStore.reload`, `CompositeProfileStore.reload` and `ProfileReloader.reload`, on whatever is
on disk. `Loader` is what `_parse` is made of besides the fields modelled here: YAML, and the checks
of the settings under `runtime`. An exception is a `ProfileError` or another; what each says is for
the log. `Mishap` is what goes wrong with one agent once its profile is read.
-/

namespace Profiles

open Json

/-! ## One profile -/

inductive Fault
  | profileError
  | other
  deriving DecidableEq

/-- What `read_text` gives of a file. -/
inductive Content
  | unreadable
  | notText
  | text (s : String)
  deriving DecidableEq

/-- `agents/<dir>/agent.yaml`. -/
structure Manifest where
  dir : String
  content : Content
  deriving DecidableEq

structure AgentSpec (σ : Type) where
  name : String
  role : String
  tools : List String
  settings : σ
  deriving DecidableEq

/-- What `yaml.safe_load` comes to. -/
inductive Loaded
  | value (v : PyValue)
  | yamlError
  | raises

structure Loader (σ : Type) where
  safeLoad : String → Loaded
  settings : List (Key × PyValue) → Except Fault (List String × σ)

/-- `data.get`. -/
def item (data : List (Key × PyValue)) (key : String) : Option PyValue := data.lookup (.str key)

/-- `require_str`. -/
def requireStr (data : List (Key × PyValue)) (key : String) : Except Fault String :=
  match item data key with
  | some (.str value) =>
    if Text.strip value = "" then .error .profileError else .ok (Text.strip value)
  | _ => .error .profileError

/-- `data.get("runtime") or {}` is a mapping. -/
def isRuntime : Option PyValue → Bool
  | none | some .null | some (.bool false) | some (.int 0) | some (.str "") => true
  | some (.float r) => r = "0.0" || r = "-0.0"
  | some (.list xs) => xs.isEmpty
  | some (.dict _) => true
  | _ => false

/-- `data.get("headless", False)` is true or false. -/
def isHeadless : Option PyValue → Bool
  | none | some (.bool _) => true
  | _ => false

section

variable {σ : Type} (L : Loader σ)

/-- `_parse`. -/
def parse (m : Manifest) : Except Fault (AgentSpec σ) :=
  match m.content with
  -- `OSError` and `UnicodeDecodeError` are not caught
  | .unreadable | .notText => .error .other
  | .text s =>
    match L.safeLoad s with
    | .raises => .error .other
    | .yamlError => .error .profileError
    | .value (.dict data) => do
      let name ← requireStr data "name"
      if name ≠ m.dir then throw .profileError
      if !isRuntime (item data "runtime") then throw .profileError
      if !isHeadless (item data "headless") then throw .profileError
      let settings ← L.settings data
      let role ← requireStr data "role"
      return ⟨name, role, settings.1, settings.2⟩
    | .value _ => .error .profileError

/-! ## The stores -/

/-- `FsProfileStore`, with its directory. -/
structure Store (σ : Type) where
  root : String
  specs : List (AgentSpec σ)
  deriving DecidableEq

/-- The profiles under each root, by their paths; none where there is no `agents/`. -/
abbrev Disk := String → Option (List Manifest)

/-- `specs[spec.name] = spec`. -/
def put (specs : List (AgentSpec σ)) (spec : AgentSpec σ) : List (AgentSpec σ) :=
  if specs.any (·.name = spec.name) then
    specs.map fun old => if old.name = spec.name then spec else old
  else specs ++ [spec]

/-- The profiles of one directory. -/
def scan : Option (List Manifest) → Except Fault (List (AgentSpec σ))
  | none => .error .profileError
  | some manifests => do
    let specs ← manifests.foldlM (fun specs m => (parse L m).map (put specs)) []
    if specs.isEmpty then throw .profileError else return specs

variable (disk : Disk)

/-- `store.reload()` of each store in turn; none of them after one that raises. -/
def reloadStores : List (Store σ) → List (Store σ) × Option Fault
  | [] => ([], none)
  | store :: stores =>
    match scan L (disk store.root) with
    | .ok specs =>
      let q := reloadStores stores
      ({ store with specs := specs } :: q.1, q.2)
    | .error fault => (store :: stores, some fault)

/-- `list`. -/
def list (stores : List (Store σ)) : List (AgentSpec σ) := stores.flatMap (·.specs)

/-- `get`. -/
def get (stores : List (Store σ)) (name : String) : Option (AgentSpec σ) :=
  stores.findSome? fun store => store.specs.find? (·.name = name)

/-- `_reject_duplicate_names` raises. -/
def duplicated (stores : List (Store σ)) : Bool := !decide ((list stores).map (·.name)).Nodup

/-- `CompositeProfileStore.reload`. -/
def compositeReload (stores : List (Store σ)) : List (Store σ) × Option Fault :=
  let q := reloadStores L disk stores
  (q.1, match q.2 with
    | some fault => some fault
    | none => if duplicated q.1 then some .profileError else none)

/-! ## The reloader -/

/-- `profile` is the spec the flow's profile was built from. -/
structure AgentUnit (σ : Type) where
  spec : AgentSpec σ
  profile : AgentSpec σ
  deriving DecidableEq

structure Engine (σ : Type) where
  stores : List (Store σ)
  units : List (AgentUnit σ)
  tools : Tools.State

/-- Where one agent's reload raises. -/
inductive Mishap
  | none
  /-- In `build_pi_profile`. -/
  | build
  /-- In `write_manifest`, the allowlist set. -/
  | manifest
  /-- In `drop_agent_sessions`. -/
  | drop
  deriving DecidableEq

/-- One turn of the loop over the units, and whether it raised. -/
def reloadUnit (stores : List (Store σ)) (mishap : String → Mishap) (tools : Tools.State)
    (unit : AgentUnit σ) : Tools.State × AgentUnit σ × Bool :=
  let name := unit.spec.name
  match get stores name with
  | none => (tools, unit, true)
  | some spec =>
    let tools' := Tools.profileEnv tools name spec.tools
    match mishap name, tools.envs name with
    | .build, _ => (tools, unit, true)
    -- the agent was never enrolled
    | _, false => (tools', unit, true)
    | .manifest, true =>
      ({ tools' with manifests := tools.manifests, pointed := tools.pointed }, unit, true)
    | .drop, true => (tools', ⟨spec, spec⟩, true)
    | .none, true => (tools', ⟨spec, spec⟩, false)

/-- The loop: the units, and the agents that failed. -/
def reloadUnits (stores : List (Store σ)) (mishap : String → Mishap) :
    Tools.State → List (AgentUnit σ) → Tools.State × List (AgentUnit σ) × List String
  | tools, [] => (tools, [], [])
  | tools, unit :: units =>
    let a := reloadUnit stores mishap tools unit
    let r := reloadUnits stores mishap a.1 units
    (r.1, a.2.1 :: r.2.1, if a.2.2 then unit.spec.name :: r.2.2 else r.2.2)

inductive Outcome
  | reloaded (failed : List String)
  | refused
  | raised
  deriving DecidableEq

/-- `ProfileReloader.reload`. -/
def reload (mishap : String → Mishap) (e : Engine σ) : Engine σ × Outcome :=
  let q := compositeReload L disk e.stores
  match q.2 with
  | some .profileError => ({ e with stores := q.1 }, .refused)
  | some .other => ({ e with stores := q.1 }, .raised)
  | none =>
    let r := reloadUnits q.1 mishap e.tools e.units
    (⟨q.1, r.2.1, r.1⟩, .reloaded r.2.2)

end

end Profiles
