import ImpiAgent.Lib.Double
import ImpiAgent.Profiles.Allowlist
import ImpiAgent.Profiles.Reload
import ImpiAgent.Runtimes.Scopes

/-!
# What a profile says

`FsProfileStore._parse` past YAML: every field it reads of `agent.yaml`, in its order, with every
exception. `str` of a value raises where it holds an integer of more than 4300 digits, `float` of an
integer beyond the largest float; both are no `ProfileError`, nor is the `TypeError` where keys that
are no strings are sorted and joined for a message.
-/

namespace AgentYaml

open Json (PyValue Key)
open Profiles (Fault requireStr isRuntime isHeadless)

abbrev Items := List (Key × PyValue)

/-- What is outside the file: what floats are, how Python prints a value, and the file system,
where a path may not be resolved. -/
structure World where
  float : String → Double
  str : PyValue → String
  resolve : String → Option String

/-- What the store was built with. -/
structure Store where
  defaultTimeout : Double
  defaultProvider : String
  defaultModel : String
  skillsOverride : String → Option (List String)
  /-- None where it raises. -/
  inheritOverride : String → Option (Option (List String))
  confinementOverride : String → Option (Option ProcessScopes.Level)
  defaultFallbackModels : List String
  fallbackModelsOverride : String → Option (Option (List String))
  library : Option (String → Option String)
  appSecretPrefixes : List String

/-! ## Reading values -/

/-- `runtime.get(key)`. -/
def get (key : String) (d : Items) : PyValue := (d.lookup (.str key)).getD .null

def refuse {α : Type} : Except Fault α := .error .profileError

/-- A check whose failure is a `ProfileError`. -/
def check (b : Bool) : Except Fault Unit := if b then .ok () else refuse

/-- The most digits of an integer that is printed. -/
def maxStrDigits : Nat := 4300

mutual

/-- `str` of it does not raise. -/
def printable : PyValue → Bool
  | .int n => n.natAbs < 10 ^ maxStrDigits
  | .list xs | .tuple xs => printableAll xs
  | .dict xs => printableItems xs
  | _ => true

def printableAll : List PyValue → Bool
  | [] => true
  | x :: xs => printable x && printableAll xs

def printableItems : List (Key × PyValue) → Bool
  | [] => true
  | (k, x) :: xs => printableKey k && printable x && printableItems xs

def printableKey : Key → Bool
  | .int n => n.natAbs < 10 ^ maxStrDigits
  | _ => true

end

/-- `str(v)`. -/
def strOf (w : World) : PyValue → Except Fault String
  | .str s => .ok s
  | v => if printable v then .ok (w.str v) else .error .other

/-- `runtime.get(key) or []`, a list of strings that pass. -/
def stringsOf (p : String → Bool) (key : String) (runtime : Items) : Except Fault (List String) :=
  match if Internal.truthy (get key runtime) then get key runtime else .list [] with
  | .list xs =>
    match xs.mapM Internal.flag with
    | some names => if names.all p then .ok names else refuse
    | none => refuse
  | _ => refuse

/-- `set(d) - set(keys)`; what is left is sorted and joined for the message. -/
def known (keys : List String) (d : Items) : Except Fault Unit :=
  let unknown := (d.map Prod.fst).filter fun k => keys.all fun key => k ≠ .str key
  if unknown.isEmpty then .ok ()
  else if unknown.all fun k => match k with | .str _ => true | _ => false then refuse
  else .error .other

/-- `list(dict.fromkeys(xs))`. -/
def fromKeys {α : Type} [DecidableEq α] (xs : List α) : List α :=
  xs.foldl (fun seen x => if x ∈ seen then seen else seen ++ [x]) []

/-! ## Numbers -/

inductive Number
  | int (n : Int)
  | float (d : Double)

/-- An instance of `int` or `float`, which a boolean is. -/
def numberOf (w : World) : PyValue → Option Number
  | .int n => some (.int n)
  | .bool b => some (.int (if b then 1 else 0))
  | .float r => some (.float (w.float r))
  | _ => none

namespace Number

/-- What it is to a comparison. -/
def value : Number → Double
  | int n => .finite n
  | float d => d

/-- `float(n)`. -/
def toFloat : Number → Except Fault Double
  | int n =>
    match Double.ofInt n with
    | some d => .ok d
    | none => .error .other
  | float d => .ok d

/-- It is printed in a message. -/
def printable : Number → Bool
  | int n => AgentYaml.printable (.int n)
  | float _ => true

end Number

/-! ## The fields -/

structure TrustedAgent where
  name : String
  secrets : List String
  connections : Bool
  context : String

def nonBlank (s : String) : Bool := Text.strip s ≠ ""

/-- `connections`, true or false. -/
def connectionsOf (body : Items) : Except Fault Bool :=
  match (body.lookup (.str "connections")).getD (.bool false) with
  | .bool b => .ok b
  | _ => refuse

/-- One entry of `_trusted_agents`. -/
def trustedAgent (w : World) (entry : String × Items) : Except Fault TrustedAgent := do
  known ["secrets", "connections", "context"] entry.2
  let secrets ← stringsOf nonBlank "secrets" entry.2
  let connections ← connectionsOf entry.2
  let context := get "context" entry.2
  let context ← strOf w (if Internal.truthy context then context else .str "task")
  check (["task", "conversation"].contains context)
  return { name := entry.1, secrets := fromKeys (secrets.map Text.strip), connections, context }

/-- The entries of `_trusted_agents`. -/
def trustedEntries : PyValue → Except Fault (List (String × Items))
  | .null => .ok []
  | .list xs =>
    match xs.mapM Internal.flag with
    | some names =>
      if names.all nonBlank then .ok (names.map fun n => (Text.strip n, [])) else refuse
    | none => refuse
  | .dict items => items.mapM fun
    | (.str name, body) =>
      if !nonBlank name then refuse
      else
        match body with
        | .null => .ok (Text.strip name, [])
        | .dict body => .ok (Text.strip name, body)
        | _ => refuse
    | _ => refuse
  | _ => refuse

/-- `_trusted_agents`. -/
def trustedAgents (w : World) (runtime : Items) : Except Fault (List TrustedAgent) := do
  let entries ← trustedEntries (get "trusted_agents" runtime)
  let agents ← entries.mapM (trustedAgent w)
  return (Dict.ofPairs (agents.map fun a => (a.name, a))).map Prod.snd

structure Budget where
  tokensPerTurn : Int := 0
  tokensPerDay : Int := 0
  usdPerDay : Double := .zero
  tokensPerDayPerPerson : Int := 0
  usdPerDayPerPerson : Double := .zero

/-- A limit of whole tokens. -/
def tokens : PyValue → Except Fault Int
  | .int n => if n < 0 then refuse else .ok n
  | _ => refuse

/-- A limit of dollars. -/
def usd (w : World) : PyValue → Except Fault Double
  | .int n => if n < 0 then refuse else (Number.int n).toFloat
  | .float r => if (w.float r).lt .zero then refuse else .ok (w.float r)
  | _ => refuse

/-- One item of `_budget`. -/
def limit (w : World) (b : Budget) : Key × PyValue → Except Fault Budget
  | (.str "tokens_per_turn", v) => do return { b with tokensPerTurn := ← tokens v }
  | (.str "tokens_per_day", v) => do return { b with tokensPerDay := ← tokens v }
  | (.str "usd_per_day", v) => do return { b with usdPerDay := ← usd w v }
  | (.str "tokens_per_day_per_person", v) => do
    return { b with tokensPerDayPerPerson := ← tokens v }
  | (.str "usd_per_day_per_person", v) => do return { b with usdPerDayPerPerson := ← usd w v }
  | _ => .ok b

def budgetKeys : List String :=
  ["tokens_per_turn", "tokens_per_day", "usd_per_day", "tokens_per_day_per_person",
    "usd_per_day_per_person"]

/-- `_budget`. -/
def budget (w : World) (runtime : Items) : Except Fault Budget :=
  match get "budget" runtime with
  | .null => .ok {}
  | .dict items => do
    known budgetKeys items
    items.foldlM (limit w) {}
  | _ => refuse

def delegationSession (w : World) (runtime : Items) : Except Fault String := do
  let session := get "delegation_session" runtime
  let session ← strOf w (if Internal.truthy session then session else .str "per_task")
  check (["per_task", "per_conversation"].contains session)
  return session

/-- The tools; the message on a gateway that is none prints its key. -/
def toolsOf (runtime : Items) : Except Fault Allowlist.Profile :=
  match Allowlist.parse runtime with
  | .ok profile => .ok profile
  | .error (.gateway key) => if printableKey key then refuse else .error .other
  | .error _ => refuse

/-- A path of the profile's directory, made absolute. -/
def absolute (w : World) (p : String) : Except Fault String :=
  if p.toList.head? = some '/' then .ok p
  else
    match w.resolve p with
    | some path => .ok path
    | none => .error .other

/-- `_resolve_skill`. -/
def resolveSkill (w : World) (store : Store) (ref : String) : Except Fault String :=
  if "registry:".toList.isPrefixOf ref.toList then
    match store.library with
    | none => refuse
    | some library =>
      match library (Text.strip (.ofList (ref.toList.drop 9))) with
      | some path => .ok path
      | none => refuse
  else if !ref.toList.contains '/' && !ref.toList.contains '\\' then .ok ref
  else absolute w ref

/-- The paths of the skills. -/
def skillsOf (w : World) (store : Store) (name : String) (runtime : Items) :
    Except Fault (List String) := do
  let skills ← stringsOf (fun _ => true) "skills" runtime
  ((store.skillsOverride name).getD skills).mapM (resolveSkill w store)

/-! ## Names, levels and models -/

/-- `[A-Za-z_]`. -/
def isNameStart (c : Char) : Bool := c.isAlpha || c = '_'

/-- `[A-Za-z0-9_]`. -/
def isNameChar (c : Char) : Bool := c.isAlphanum || c = '_'

/-- The name of a variable. -/
def isName : Text.Str → Bool
  | c :: s => isNameStart c && s.all isNameChar
  | [] => false

def reservedPrefixes : List String :=
  ["AGENTS_", "MATTERMOST_", "SLACK_", "TOOL_", "INTEGRATIONS_", "HTTP_CALLER_", "WS_SERVICE_",
    "COMMAND_TOKENS", "DB_", "LLM_", "REPLICA_", "MCP_"]

/-- `check_inherited_env`. -/
def checkInheritedEnv (reserved : List String) (pattern : String) : Bool :=
  let start := pattern.toList.dropLast
  isName pattern.toList ||
    pattern.toList.getLast? = some '*' && isName start && 3 ≤ start.length &&
      !(reservedPrefixes ++ reserved).any fun r =>
        r.toList.isPrefixOf start || start.isPrefixOf r.toList

def envOf (store : Store) (name : String) (runtime : Items) : Except Fault (List String) := do
  let names ← stringsOf (fun _ => true) "env" runtime
  match store.inheritOverride name with
  | none => refuse
  | some (some inherit) => return inherit
  | some none =>
    check (names.all (checkInheritedEnv store.appSecretPrefixes))
    return names

def confinementOf (w : World) (store : Store) (name : String) (runtime : Items) :
    Except Fault (Option ProcessScopes.Level) :=
  match store.confinementOverride name with
  | none => refuse
  | some (some level) => .ok (some level)
  | some none =>
    match get "confinement" runtime with
    | .null => .ok none
    | v =>
      -- the `ValueError` of `str` is caught with that of the check
      match strOf w v with
      | .error _ => refuse
      | .ok s =>
        match ProcessScopes.checkConfinementLevel s.toList with
        | some level => .ok (some level)
        | none => refuse

/-- `_confinement_paths`. -/
def confinementPaths (w : World) (key : String) (runtime : Items) : Except Fault (List String) := do
  let paths ← stringsOf nonBlank key runtime
  paths.mapM (absolute w)

/-- A TCP port. -/
def port : PyValue → Option Int
  | .int p => if 0 < p ∧ p < 65536 then some p else none
  | _ => none

/-- `_network_ports`. -/
def networkPorts (runtime : Items) : Except Fault (List Int) :=
  let raw := get "network_ports" runtime
  match if Internal.truthy raw then raw else .list [] with
  | .list xs =>
    match xs.mapM port with
    | some ports => .ok (fromKeys ports)
    | none => refuse
  | _ => refuse

/-- `SHARED_DIR_NAME.match`; `$` also matches before a line feed that ends the text. -/
def isSharedDirName (name : String) : Bool :=
  match name.toList with
  | c :: s => Allowlist.isAlnum c &&
      (s.dropWhile Allowlist.isWord = [] || s.dropWhile Allowlist.isWord = ['\n'])
  | [] => false

/-- `_shared_dirs`. -/
def sharedDirs (runtime : Items) : Except Fault (List String) := do
  return fromKeys (← stringsOf isSharedDirName "shared_dirs" runtime)

/-- `check_model_ref`, none where it raises. -/
def checkModelRef (value : String) : Option String :=
  let ref := Text.strip value
  let provider := ref.toList.takeWhile (· ≠ '/')
  let model := (ref.toList.dropWhile (· ≠ '/')).drop 1
  if nonBlank (.ofList provider) && nonBlank (.ofList model) && !ref.toList.contains ' ' then
    some ref
  else none

/-- A provider or a model, stripped; blank is unset. -/
def modelOf (w : World) (key default : String) (runtime : Items) : Except Fault String := do
  let raw := get key runtime
  let own ← if Internal.truthy raw then (strOf w raw).map Text.strip else .ok ""
  return if own = "" then Text.strip default else own

/-- `_fallback_models`. -/
def fallbackModels (store : Store) (name : String) (runtime : Items) :
    Except Fault (List String) := do
  let refs ← match store.fallbackModelsOverride name with
    | none => refuse
    | some (some refs) => pure refs
    | some none =>
      match get "fallback_models" runtime with
      | .null => pure store.defaultFallbackModels
      | .list xs =>
        match xs.mapM Internal.flag with
        | some refs => pure refs
        | none => refuse
      | _ => refuse
  match refs.mapM checkModelRef with
  | some refs => return refs
  | none => refuse

inductive LoopGuard
  | off
  | defaults
  | limits (items : List (String × Int))

/-- `_loop_guard`. -/
def loopGuard (runtime : Items) : Except Fault LoopGuard :=
  match get "loop_guard" runtime with
  | .null | .bool false => .ok .off
  | .bool true => .ok .defaults
  | .dict items =>
    match items.mapM fun
      | (.str k, .int v) => if 0 ≤ v then some (k, v) else none
      | _ => none with
    | some limits => .ok (if limits = [] then .defaults else .limits limits)
    | none => refuse
  | _ => refuse

def thinkingLevels : List String := ["off", "minimal", "low", "medium", "high", "xhigh", "max"]

/-- The level of thinking; the `ValueError` of `str` is caught with that of the check. -/
def thinkingOf (w : World) (runtime : Items) : Except Fault String :=
  match get "thinking" runtime with
  | .null => .ok ""
  | v =>
    match strOf w v with
    | .error _ => refuse
    | .ok s =>
      let level := (Text.strip s).map Char.toLower
      if thinkingLevels.contains level then .ok level else refuse

/-! ## The clocks of a turn -/

/-- The three numbers of seconds. -/
structure Clocks where
  timeout : Number
  idleTimeout : Number
  wrapUpAfter : Number

/-- A number of the file, or the default; one that fails the check is refused. -/
def secondsOf (w : World) (key : String) (default : Double) (ok : Double → Bool)
    (runtime : Items) : Except Fault Number :=
  match ((runtime.lookup (.str key)).map (numberOf w)).getD (some (.float default)) with
  | some n => if ok n.value then .ok n else refuse
  | none => refuse

/-- `timeout <= 0` is refused, -/
def timeoutOf (w : World) (store : Store) (runtime : Items) : Except Fault Number :=
  secondsOf w "timeout" store.defaultTimeout (fun d => !d.le .zero) runtime

def defaultIdleTimeoutS : Double := .finite 120

/-- and of the others what is below zero. -/
def idleTimeoutOf (w : World) (runtime : Items) : Except Fault Number :=
  secondsOf w "idle_timeout" defaultIdleTimeoutS (fun d => !d.lt .zero) runtime

def wrapUpAfterOf (w : World) (timeout : Number) (runtime : Items) : Except Fault Number := do
  let after ← secondsOf w "wrap_up_after" .zero (fun d => !d.lt .zero) runtime
  if after.value ≠ .zero ∧ timeout.value.le after.value then
    -- the message prints both
    if after.printable && timeout.printable then refuse else .error .other
  else return after

/-! ## The profile -/

structure AgentSpec where
  name : String
  displayName : String
  role : String
  description : String
  provider : String
  model : String
  timeout : Double
  idleTimeout : Double
  wrapUpAfter : Double
  loopGuard : LoopGuard
  thinking : String
  tools : List String
  toolsByGateway : List (Key × List String)
  skills : List String
  inherit : List String
  confinement : Option ProcessScopes.Level
  confinementReadable : List String
  confinementWritable : List String
  networkPorts : List Int
  sharedDirs : List String
  fallbackModels : List String
  headless : Bool
  trustedAgents : List TrustedAgent
  delegationSession : String
  budget : Budget

/-- `str(data.get(key) or default)`. -/
def textOf (w : World) (key default : String) (data : Items) : Except Fault String :=
  strOf w (if Internal.truthy (get key data) then get key data else .str default)

/-- `data.get("runtime") or {}`. -/
def runtimeOf (data : Items) : Items :=
  match get "runtime" data with
  | .dict runtime => runtime
  | _ => []

/-- `_parse`, of the mapping that YAML reads in the directory `dir`. -/
def parse (w : World) (store : Store) (dir : String) (data : Items) : Except Fault AgentSpec := do
  let name ← requireStr data "name"
  check (name = dir)
  check (isRuntime (Profiles.item data "runtime"))
  let runtime := runtimeOf data
  check (isHeadless (Profiles.item data "headless"))
  let trustedAgents ← trustedAgents w runtime
  let budget ← budget w runtime
  let delegationSession ← delegationSession w runtime
  let tools ← toolsOf runtime
  let skills ← skillsOf w store name runtime
  let inherit ← envOf store name runtime
  let confinement ← confinementOf w store name runtime
  let readable ← confinementPaths w "confinement_read" runtime
  let writable ← confinementPaths w "confinement_write" runtime
  let networkPorts ← networkPorts runtime
  let sharedDirs ← sharedDirs runtime
  let timeout ← timeoutOf w store runtime
  let provider ← modelOf w "provider" store.defaultProvider runtime
  let model ← modelOf w "model" store.defaultModel runtime
  check (!nonBlank provider || nonBlank model)
  let fallbackModels ← fallbackModels store name runtime
  let idleTimeout ← idleTimeoutOf w runtime
  let wrapUpAfter ← wrapUpAfterOf w timeout runtime
  let loopGuard ← loopGuard runtime
  let thinking ← thinkingOf w runtime
  let displayName ← textOf w "display_name" name data
  let role ← requireStr data "role"
  let description ← textOf w "description" "" data
  let timeout ← timeout.toFloat
  let idleTimeout ← idleTimeout.toFloat
  let wrapUpAfter ← wrapUpAfter.toFloat
  return {
    name, displayName, role, description, provider, model, timeout, idleTimeout, wrapUpAfter,
    loopGuard, thinking, tools := tools.tools, toolsByGateway := tools.byGateway, skills, inherit,
    confinement, confinementReadable := readable, confinementWritable := writable, networkPorts,
    sharedDirs, fallbackModels, headless := (Profiles.item data "headless").elim false
      Internal.truthy, trustedAgents, delegationSession, budget }

/-! ## What a profile has to be -/

/-- The application's `SHARED_DIR_ENV_PREFIX`. -/
def sharedDirEnvPrefix : Text.Str := Text.str "AGENT_SHARED_DIR__"

end AgentYaml
