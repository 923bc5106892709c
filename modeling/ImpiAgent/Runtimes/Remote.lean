import ImpiAgent.Gateways.Internal
import ImpiAgent.Lib.Posix

/-!
# A process on a host of its own

The engine's `RemoteHost` writes a `SpawnRequest` as a frame (`spawnPayload`), the relay reads it
(`Relay.parse`) and builds the command line (`Relay.commandArgs`), as `Local.commandArgs` does for a
process of the engine's own. Each side has its file system; the paths a frame carries are relative
to roots the relay has mounted.

`str` of a system prompt suffix that is no string is a parameter (`shown`). A frame is a value of
`json.loads`, where a float is its `repr`.
-/

namespace Remote

open Json Posix
open Internal (record optional truthy)

/-- A list with each entry once, where it is first. -/
def unique (ns : List Int) : List Int :=
  ns.foldl (fun kept n => if n ∈ kept then kept else kept ++ [n]) []

/-- What an application says a process may touch. -/
structure ProcessScope where
  writable : List PurePath
  tcpPorts : List Int
  env : List (String × String)
  env_distinct : Dict.Distinct env

structure SpawnRequest where
  agent : String
  profileDir : PurePath
  sessionId : Option String
  tools : List String
  skills : List String
  provider : Option String
  model : Option String
  thinking : String
  appendSystemPrompt : String
  env : List (String × String)
  envFiles : List (String × PurePath)
  extensions : List String
  processScope : Option ProcessScope
  env_distinct : Dict.Distinct env
  envFiles_distinct : Dict.Distinct envFiles

/-- `wire.PROTOCOL_VERSION`. -/
def protocolVersion : Int := 2

def thinkingLevels : List String := ["off", "minimal", "low", "medium", "high", "xhigh", "max"]

/-! ## The engine's side -/

inductive PiHostError
  | unreadable (name agent : String) (path : PurePath)
  | notMounted (agent skill : String)
  deriving DecidableEq

/-- The roots of a `RemoteHost`, resolved where it is built. -/
structure RemoteHost where
  libraryRoot : Option Resolved
  filesRoot : Option Resolved
  sharedRoot : Option Resolved

/-- `root is not None and path.is_relative_to(root)`, with the root. -/
def within (root : Option Resolved) (path : Resolved) : Option Resolved :=
  root.filter (isRelativeTo path)

/-- A reference to a path inside a root. -/
def reference (name : String) (path root : Resolved) : List (String × PyValue) :=
  [("root", .str name), ("path", .str (relative path root))]

namespace RemoteHost

variable (fs : FileSystem) (host : RemoteHost) (request : SpawnRequest)

/-- `_read_env_files`. -/
def readEnvFiles : Except PiHostError (List (String × PyValue)) :=
  request.envFiles.mapM fun x =>
    match fs.read x.2 with
    | some content => .ok (x.1, .str content)
    | none => .error (.unreadable x.1 request.agent x.2)

/-- `_skill_ref`. -/
def skillRef (skill : String) : Except PiHostError PyValue :=
  let path := fs.resolve (.ofText skill)
  let profile := fs.resolve request.profileDir
  if isRelativeTo path profile then .ok (record (reference "profile" path profile))
  else
    match within host.libraryRoot path with
    | some root => .ok (record (reference "library" path root))
    | none => .error (.notMounted request.agent skill)

/-- The variables of the scope that name a path. -/
def named (scope : ProcessScope) (resolved : Resolved) : List String :=
  (scope.env.filter fun x => fs.resolve (.ofText x.2) = resolved).map Prod.fst

/-- `ref[wire.KEY_VARIABLE] = named[0]`, where there is one. -/
def pointing : List String → List (String × PyValue)
  | name :: _ => [("variable", .str name)]
  | [] => []

/-- The reference to a writable path, none where the host has no name for it. -/
def writableRef (scope : ProcessScope) (path : PurePath) : Option PyValue :=
  let resolved := fs.resolve path
  let pointed := pointing (named fs scope resolved)
  match within host.filesRoot resolved, within host.sharedRoot resolved with
  | some root, _ => some (record (reference "files" resolved root ++ pointed))
  | none, some root => some (record (reference "shared" resolved root ++ pointed))
  | none, none => none

/-- `_confinement_payload`: the items it adds to the frame. -/
def confinementPayload : List (String × PyValue) :=
  match request.processScope with
  | none => []
  | some scope =>
    let writable := scope.writable.filterMap (host.writableRef fs scope)
    let ports := if scope.tcpPorts = [] then [] else [("ports", .list (scope.tcpPorts.map .int))]
    [("confinement", record (("writable", .list writable) :: ports))]

/-- `_spawn_payload`. -/
def spawnPayload : Except PiHostError PyValue := do
  let skills ← request.skills.mapM (host.skillRef fs request)
  let envFiles ← readEnvFiles fs request
  return record ([
    ("type", .str "spawn"),
    ("v", .int protocolVersion),
    ("agent", .str request.agent),
    ("session_id", optional .str request.sessionId),
    ("tools", .list (request.tools.map .str)),
    ("skills", .list skills),
    ("provider", optional .str request.provider),
    ("model", optional .str request.model),
    ("thinking", .str request.thinking),
    ("append_system_prompt", .str request.appendSystemPrompt),
    ("env", record (request.env.map fun x => (x.1, .str x.2))),
    ("env_files", record envFiles)] ++ host.confinementPayload fs request)

end RemoteHost

/-! ## The local host's command line -/

namespace Local

/-- `--name value`, of a value that is there. -/
def flag (name value : String) : List String := if value = "" then [] else [name, value]

/-- `_profile_args`. -/
def profileArgs (request : SpawnRequest) : List String :=
  ["--tools", ",".intercalate request.tools] ++ ["--no-mcp"] ++ ["--no-skills"] ++
    request.skills.flatMap (fun skill => ["--skill", skill]) ++
    flag "--provider" (request.provider.getD "") ++
    flag "--model" (request.model.getD "") ++
    flag "--thinking" request.thinking ++
    flag "--append-system-prompt" request.appendSystemPrompt

/-- `command_args` of the local host. -/
def commandArgs (request : SpawnRequest) (sessionDir : Option PurePath) : List String :=
  ["--mode", "rpc", "--approve"] ++
    (match request.sessionId with
      | none | some "" => ["--no-session"]
      | some id => ["--session-id", id]) ++
    (match sessionDir with
      | some dir => ["--session-dir", dir.text]
      | none => []) ++
    request.extensions.flatMap (fun ext => ["-e", ext]) ++ profileArgs request

end Local

/-! ## The relay's side -/

namespace Relay

structure HostConfig where
  agent : String
  profileDir : Resolved
  extensions : List PurePath
  libraryDir : Option Resolved
  filesDir : Option Resolved
  sharedDir : Option Resolved

structure Confinement where
  writable : List Resolved
  /-- `variables` -/
  scopeVariables : List (String × Resolved)
  tcpPorts : List Int
  deriving DecidableEq

structure Spawn where
  sessionId : Option String
  tools : List String
  skills : List String
  provider : Option String
  model : Option String
  thinking : String
  appendSystemPrompt : String
  env : List (String × String)
  envFiles : List (String × String)
  confinement : Option Confinement
  deriving DecidableEq

/-- The reasons a request is refused, with what is wrong. -/
inductive SpawnRejected
  | notAnObject
  | version (v : PyValue)
  | agent (v : PyValue)
  | sessionId (v : PyValue)
  | expectedList
  | mustBeStrings (field : String)
  | thinking (level : String)
  | mustBeString (field : String)
  | mustBeObject (field : String)
  | notAName (name : Key)
  | valueMustBeString (field name : String)
  | writableNotAnObject
  | noFiles
  | noShared
  | notWritable (root : PyValue)
  | writableWithoutPath
  | outside (relative root : String)
  | notAVariable (v : PyValue)
  | notAPort (v : PyValue)
  | skillNotAnObject
  | skillWithoutPath
  | skillOutside (relative root : String)
  | skillMissing (relative root : String)
  | noLibrary
  | unknownRoot (name : PyValue)

/-- `d.get(key)`. -/
def get (key : String) (d : PyValue) : PyValue := Internal.getD key .null d

def isWordStart (c : Char) : Bool := c.isAlpha || c = '_'

/-- `SESSION_ID_RE.fullmatch`. -/
def isSessionId (s : String) : Bool :=
  match s.toList with
  | [] => false
  | c :: cs => c.isAlphanum && cs.all fun c => c.isAlphanum || c = '.' || c = '_' || c = '-'

/-- `ENV_NAME_RE.fullmatch`. -/
def isEnvName (s : String) : Bool :=
  match s.toList with
  | [] => false
  | c :: cs => isWordStart c && cs.all fun c => isWordStart c || c.isDigit

/-- `_session_id`. -/
def sessionId : PyValue → Except SpawnRejected (Option String)
  | .null => .ok none
  | .str s => if isSessionId s then .ok (some s) else .error (.sessionId (.str s))
  | v => .error (.sessionId v)

/-- `_sequence`. -/
def sequence : PyValue → Except SpawnRejected (List PyValue)
  | .null => .ok []
  | .list xs => .ok xs
  | _ => .error .expectedList

def string (err : SpawnRejected) : PyValue → Except SpawnRejected String
  | .str s => .ok s
  | _ => .error err

/-- `_strings`. -/
def strings (field : String) (raw : PyValue) : Except SpawnRejected (List String) := do
  (← sequence raw).mapM (string (.mustBeStrings field))

/-- `_optional_str`. -/
def optionalStr (field : String) : PyValue → Except SpawnRejected (Option String)
  | .null => .ok none
  | .str s => .ok (if s = "" then none else some s)
  | _ => .error (.mustBeString field)

/-- `_thinking`. -/
def thinking (raw : PyValue) : Except SpawnRejected String := do
  let value := (← optionalStr "thinking" raw).getD ""
  if value ≠ "" ∧ value ∉ thinkingLevels then throw (.thinking value)
  return value

def envEntry (field : String) (x : Key × PyValue) : Except SpawnRejected (String × String) :=
  match x.1 with
  | .str name =>
    if isEnvName name then
      (string (.valueMustBeString field name) x.2).map fun value => (name, value)
    else .error (.notAName (.str name))
  | name => .error (.notAName name)

/-- `_env`. -/
def env (field : String) : PyValue → Except SpawnRejected (List (String × String))
  | .null => .ok []
  | .dict xs => (xs.mapM (envEntry field)).map Dict.ofPairs
  | _ => .error (.mustBeObject field)

section Host

variable (fs : FileSystem) (config : HostConfig)

/-- `_root`. -/
def root (name : PyValue) : Except SpawnRejected (String × Resolved) :=
  match name with
  | .str "profile" => .ok ("profile", config.profileDir)
  | .str "library" =>
    match config.libraryDir with
    | some dir => .ok ("library", dir)
    | none => .error .noLibrary
  | _ => .error (.unknownRoot name)

/-- `(root / relative).resolve()`. -/
def resolved (root : Resolved) (relative : String) : Resolved :=
  fs.resolve ((PurePath.real root).join (.ofText relative))

/-- `_skill`: the path. -/
def skill (ref : PyValue) : Except SpawnRejected Resolved := do
  let .dict _ := ref | throw .skillNotAnObject
  let .str relative := get "path" ref | throw .skillWithoutPath
  let (name, dir) ← root config (get "root" ref)
  let path := resolved fs dir relative
  if !isRelativeTo path dir then throw (.skillOutside relative name)
  if !fs.exist path then throw (.skillMissing relative name)
  return path

/-- The root a process may be given to write in. -/
def writableRoot (name : PyValue) : Except SpawnRejected (String × Resolved) :=
  match name with
  | .str "files" =>
    match config.filesDir with
    | some dir => .ok ("files", dir)
    | none => .error .noFiles
  | .str "shared" =>
    match config.sharedDir with
    | some dir => .ok ("shared", dir)
    | none => .error .noShared
  | _ => .error (.notWritable name)

def variableName : PyValue → Except SpawnRejected (Option String)
  | .null => .ok none
  | .str s => if isEnvName s then .ok (some s) else .error (.notAVariable (.str s))
  | v => .error (.notAVariable v)

/-- A writable path, with the variable that names it. -/
def writable (ref : PyValue) : Except SpawnRejected (Resolved × Option String) := do
  let .dict _ := ref | throw .writableNotAnObject
  let (name, dir) ← writableRoot config (get "root" ref)
  let .str relative := get "path" ref | throw .writableWithoutPath
  let path := resolved fs dir relative
  if !isRelativeTo path dir then throw (.outside relative name)
  return (path, ← variableName (get "variable" ref))

def port : PyValue → Except SpawnRejected Int
  | .int n => if 0 < n ∧ n < 65536 then .ok n else .error (.notAPort (.int n))
  | v => .error (.notAPort v)

/-- `_confinement`. -/
def confinement (raw : PyValue) : Except SpawnRejected (Option Confinement) :=
  match raw with
  | .null => .ok none
  | .dict _ => do
    let given ← (← sequence (get "writable" raw)).mapM (writable fs config)
    let ports ← (← sequence (get "ports" raw)).mapM port
    return some {
      writable := given.map Prod.fst
      scopeVariables := Dict.ofPairs (given.filterMap fun x => x.2.map fun name => (name, x.1))
      tcpPorts := unique ports }
  | _ => .error (.mustBeObject "confinement")

def isObject : PyValue → Bool
  | .dict _ => true
  | _ => false

/-- `version == PROTOCOL_VERSION`. -/
def isVersion : PyValue → Bool
  | .int n => n = protocolVersion
  | .float r => r = "2.0"
  | _ => false

/-- `agent == config.agent`. -/
def isAgent : PyValue → Bool
  | .str s => s = config.agent
  | _ => false

/-- `str(raw or "")`. -/
def suffix (shown : PyValue → String) : PyValue → String
  | .str s => s
  | v => if truthy v then shown v else ""

def parse (shown : PyValue → String) (payload : PyValue) : Except SpawnRejected Spawn := do
  if !isObject payload then throw .notAnObject
  if !isVersion (get "v" payload) then throw (.version (get "v" payload))
  if !isAgent config (get "agent" payload) then throw (.agent (get "agent" payload))
  return {
    sessionId := ← sessionId (get "session_id" payload)
    tools := ← strings "tools" (get "tools" payload)
    skills := (← (← sequence (get "skills" payload)).mapM (skill fs config)).map
      fun path => (PurePath.real path).text
    provider := ← optionalStr "provider" (get "provider" payload)
    model := ← optionalStr "model" (get "model" payload)
    thinking := ← thinking (get "thinking" payload)
    appendSystemPrompt := suffix shown (get "append_system_prompt" payload)
    env := ← env "env" (get "env" payload)
    envFiles := ← env "env_files" (get "env_files" payload)
    confinement := ← confinement fs config (get "confinement" payload) }

end Host

/-- `command_args` of the relay. -/
def commandArgs (spawn : Spawn) (config : HostConfig) (sessionDir : Option PurePath) :
    List String :=
  ["--mode", "rpc", "--approve"] ++
    (match spawn.sessionId with
      | none | some "" => ["--no-session"]
      | some id => ["--session-id", id]) ++
    (match sessionDir with
      | some dir => ["--session-dir", dir.text]
      | none => []) ++
    config.extensions.flatMap (fun extension => ["-e", extension.text]) ++
    ["--tools", ",".intercalate spawn.tools] ++ ["--no-mcp"] ++ ["--no-skills"] ++
    spawn.skills.flatMap (fun skill => ["--skill", skill]) ++
    Local.flag "--provider" (spawn.provider.getD "") ++
    Local.flag "--model" (spawn.model.getD "") ++
    Local.flag "--thinking" spawn.thinking ++
    Local.flag "--append-system-prompt" spawn.appendSystemPrompt

end Relay

/-! ## What a remote process is to be -/

/-- The relay's directories are mounts of the engine's, and it serves the agent. -/
structure Mounts (e h : FileSystem) (host : RemoteHost) (config : Relay.HostConfig)
    (request : SpawnRequest) : Prop where
  agent : config.agent = request.agent
  profile : Mount e h (e.resolve request.profileDir) config.profileDir
  library : ∀ root, host.libraryRoot = some root →
    ∃ dir, config.libraryDir = some dir ∧ Mount e h root dir
  files : ∀ root, host.filesRoot = some root →
    ∃ dir, config.filesDir = some dir ∧ Mount e h root dir
  shared : ∀ root, host.sharedRoot = some root →
    ∃ dir, config.sharedDir = some dir ∧ Mount e h root dir

section Same

variable (e : FileSystem) (host : RemoteHost) (config : Relay.HostConfig)

/-- `m` is where the relay has the writable path `p`. -/
def WritableAt (p m : Resolved) : Prop :=
  SeenAt host.filesRoot config.filesDir p m ∨ SeenAt host.sharedRoot config.sharedDir p m

/-- `m` is where the relay has the skill `p`. -/
def SkillAt (request : SpawnRequest) (p m : Resolved) : Prop :=
  Seen (e.resolve request.profileDir) config.profileDir p m ∨
    SeenAt host.libraryRoot config.libraryDir p m

/-- The path lies under the agent's files root or the shared root. -/
def Handed (p : Resolved) : Prop :=
  (∃ root, host.filesRoot = some root ∧ isRelativeTo p root = true) ∨
    ∃ root, host.sharedRoot = some root ∧ isRelativeTo p root = true

/-- The variable names the path. -/
def Names (x : String × String) (p : Resolved) : Prop := e.resolve (.ofText x.2) = p

/-- The scope of the remote process is the one it would have had locally. -/
structure Scoped (scope : ProcessScope) (c : Relay.Confinement) : Prop where
  given : ∀ w ∈ scope.writable, Handed host (e.resolve w) →
    ∃ m ∈ c.writable, WritableAt host config (e.resolve w) m
  only : ∀ m ∈ c.writable, ∃ w ∈ scope.writable, WritableAt host config (e.resolve w) m
  pointed : ∀ x ∈ scope.env, ∀ w ∈ scope.writable, Handed host (e.resolve w) →
    Names e x (e.resolve w) → ∃ m ∈ c.writable, c.scopeVariables.lookup x.1 = some m ∧
      WritableAt host config (e.resolve w) m
  pointing : ∀ x ∈ c.scopeVariables, ∃ value, (x.1, value) ∈ scope.env ∧
    WritableAt host config (e.resolve (.ofText value)) x.2
  ports : ∀ port, port ∈ c.tcpPorts ↔ port ∈ scope.tcpPorts

/-- The process the relay starts is the one the local host would have started. A provider or a model
of no name is none. -/
structure Same (request : SpawnRequest) (spawn : Relay.Spawn) : Prop where
  sessionId : spawn.sessionId = request.sessionId
  tools : spawn.tools = request.tools
  provider : spawn.provider = request.provider.filter (· ≠ "")
  model : spawn.model = request.model.filter (· ≠ "")
  thinking : spawn.thinking = request.thinking
  appendSystemPrompt : spawn.appendSystemPrompt = request.appendSystemPrompt
  env : spawn.env = request.env
  envFiles : List.Forall₂ (fun x y => y.1 = x.1 ∧ e.read x.2 = some y.2)
    request.envFiles spawn.envFiles
  skills : List.Forall₂ (fun skill mounted => ∃ m, mounted = (PurePath.real m).text ∧
    SkillAt e host config request (e.resolve (.ofText skill)) m) request.skills spawn.skills
  unconfined : request.processScope = none → spawn.confinement = none
  confined : ∀ scope, request.processScope = some scope →
    ∃ c, spawn.confinement = some c ∧ Scoped e host config scope c
  command : ∀ sessionDir, Relay.commandArgs spawn config sessionDir = Local.commandArgs
    { request with skills := spawn.skills, extensions := config.extensions.map PurePath.text }
    sessionDir

/-- The request is one the frame can carry: what it names is spelt as the relay spells it, its
skills are there, and each directory it hands over is named by one variable at most. -/
structure Carried (request : SpawnRequest) : Prop where
  sessionId : ∀ id, request.sessionId = some id → Relay.isSessionId id = true
  thinking : request.thinking = "" ∨ request.thinking ∈ thinkingLevels
  env : ∀ x ∈ request.env, Relay.isEnvName x.1 = true
  envFiles : ∀ x ∈ request.envFiles, Relay.isEnvName x.1 = true
  skills : ∀ skill ∈ request.skills, e.exist (e.resolve (.ofText skill)) = true
  ports : ∀ scope, request.processScope = some scope →
    ∀ port ∈ scope.tcpPorts, 0 < port ∧ port < 65536
  variableNames : ∀ scope, request.processScope = some scope → ∀ w ∈ scope.writable,
    Handed host (e.resolve w) → ∀ x ∈ scope.env, Names e x (e.resolve w) →
      Relay.isEnvName x.1 = true ∧ ∀ y ∈ scope.env, Names e y (e.resolve w) → y = x

end Same

/-- The path is what the reference names, inside the root it declares. -/
def Declared (h : FileSystem) (config : Relay.HostConfig) (ref : PyValue) (path : Resolved) :
    Prop :=
  ∃ dir relative, Relay.get "path" ref = .str relative ∧ path = Relay.resolved h dir relative ∧
    isRelativeTo path dir = true ∧
    (Relay.get "root" ref = .str "profile" ∧ config.profileDir = dir ∨
      Relay.get "root" ref = .str "library" ∧ config.libraryDir = some dir ∨
      Relay.get "root" ref = .str "files" ∧ config.filesDir = some dir ∨
      Relay.get "root" ref = .str "shared" ∧ config.sharedDir = some dir)

/-- Every path of the spawn lies inside the root its reference in the frame declares. -/
structure Contained (h : FileSystem) (config : Relay.HostConfig) (frame : PyValue)
    (spawn : Relay.Spawn) : Prop where
  skills : ∃ refs, Relay.sequence (Relay.get "skills" frame) = .ok refs ∧
    List.Forall₂ (fun ref skill => ∃ path, skill = (PurePath.real path).text ∧
      Declared h config ref path) refs spawn.skills
  writable : ∀ c, spawn.confinement = some c →
    ∃ refs, Relay.sequence (Relay.get "writable" (Relay.get "confinement" frame)) = .ok refs ∧
      List.Forall₂ (Declared h config) refs c.writable
  scopeVariables : ∀ c, spawn.confinement = some c → ∀ x ∈ c.scopeVariables, x.2 ∈ c.writable

end Remote
