import ImpiAgent.Lib.Dict
import ImpiAgent.Lib.Lts
import ImpiAgent.Lib.Text

/-!
# A container for each agent

What `sync` writes: the services of the compose file, as compose reads them, the hosts' tokens and
their keys in the `.env`. A name is one that compose takes as it stands (`Plain`). A step of the
system is one `sync`, of any agents; `mint` is `secrets.token_hex`, time after time.
-/

namespace Containers

open Text (Str)

/-! ## Agents -/

/-- What the name of a service, a volume or a network may hold. -/
def isServiceChar (c : Char) : Bool := c.isAlphanum || c = '.' || c = '_' || c = '-'

def Plain (name : Str) : Prop := name ≠ [] ∧ ∀ c ∈ name, isServiceChar c = true

instance (name : Str) : Decidable (Plain name) :=
  inferInstanceAs (Decidable (name ≠ [] ∧ ∀ c ∈ name, isServiceChar c = true))

abbrev Name := { name : Str // Plain name }

/-- An agent's build, of what ends up in the compose file. -/
structure AgentBuild where
  name : Name
  sharedDirs : List Str

structure Deployment where
  withVault : Bool
  withBrowser : Bool
  rootless : Bool
  extensions : List Str
  builds : List AgentBuild
  withIdentity : Name → Bool

/-! ## A service -/

/-- `${IMPI_AGENTS_DIR:?set in compose.env}`. -/
def agentsMountSource : Str := Text.str "$\x7bIMPI_AGENTS_DIR:?set in compose.env\x7d"

/-- `${IMPI_HOME:?set in compose.env}`. -/
def home : Str := Text.str "$\x7bIMPI_HOME:?set in compose.env\x7d"

def skillsSource : Str := Text.str "$\x7bIMPI_SKILLS_DIR:-$\x7bIMPI_HOME\x7d/skills\x7d"

def agentsMount : Str := Text.str "/app/agents"

def skillsMount : Str := Text.str "/app/skills"

def sessionsMount : Str := Text.str "/app/sessions"

def filesMount : Str := Text.str "/app/files"

def sharedMount : Str := Text.str "/app/shared"

def sharedVolume : Str := Text.str "impi-shared"

def certsMount : Str := Text.str "/app/conf/certs"

def extensionPaths : Str :=
  Text.str "/app/extension/index.ts:/app/extension/fallback.ts:/app/extension/loopguard.ts"

/-- `SERVICE_PREFIX` and the name: the service, and the network it shares with the engine alone. -/
def serviceName (name : Name) : Str := Text.str "agent-" ++ name

def authFile : Str := home ++ Text.str "/pi/agent/auth.json"

def extensionsSource : Str := agentsMountSource ++ Text.str "/_extensions"

/-- A file of the broker's identities, in a directory. -/
def certFile (dir name ending : Str) : Str := dir ++ Text.str "/" ++ name ++ ending

def crt : Str := Text.str ".crt"

def key : Str := Text.str ".key"

def certs : Str := home ++ Text.str "/certs"

/-- The certificate of the broker's authority. -/
def authority : Str := certFile certs (Text.str "ca") crt

/-- What is mounted: a volume of the deployment, or a path of the host. -/
inductive Source
  | volume (name : Str)
  | path (p : Str)
  deriving DecidableEq

structure Mount where
  source : Source
  target : Str
  readOnly : Bool

structure Service where
  name : Str
  context : Str
  image : Str
  envFile : Str
  environment : List (Str × Str)
  volumes : List Mount
  networks : List Str
  userns : Option Str

/-- The three files of an agent's identity. -/
def identity (name : Name) : List (Str × Str) :=
  [(Text.str "SECRET_BROKER_URL", Text.str "https://ward:8425"),
   (Text.str "SECRET_BROKER_CERT", certFile certsMount name crt),
   (Text.str "SECRET_BROKER_KEY", certFile certsMount name key),
   (Text.str "SECRET_BROKER_CA", certFile certsMount (Text.str "ca") crt)]

/-- `_agent_service`. -/
def agentService (build : AgentBuild) (d : Deployment) : Service where
  name := serviceName build.name
  context := home ++ Text.str "/conf/agents/" ++ build.name
  image := Text.str "localhost/impi-agent-" ++ build.name ++ Text.str ":local"
  envFile := home ++ Text.str "/conf/agents/" ++ build.name ++ Text.str ".env"
  environment :=
    [(Text.str "RUNTIME_RELAY_AGENT", build.name.val),
     (Text.str "RUNTIME_RELAY_PROFILE_DIR", agentsMount ++ Text.str "/agents/" ++ build.name),
     (Text.str "RUNTIME_RELAY_LIBRARY_DIR", skillsMount),
     (Text.str "RUNTIME_RELAY_SESSION_DIR", sessionsMount),
     (Text.str "RUNTIME_RELAY_FILES_DIR", filesMount ++ Text.str "/" ++ build.name),
     (Text.str "RUNTIME_RELAY_EXTENSIONS", extensionPaths),
     (Text.str "RUNTIME_RELAY_PORT", Text.str "8427"),
     (Text.str "RUNTIME_RELAY_WORK_DIR", Text.str "/tmp/runtime-relay")] ++
    (if build.sharedDirs ≠ [] then [(Text.str "RUNTIME_RELAY_SHARED_DIR", sharedMount)] else []) ++
    (if d.withBrowser then
      [(Text.str "BROWSER_CDP_URL", Text.str "http://browser:9222")] else []) ++
    (if d.extensions ≠ [] then
      [(Text.str "RUNTIME_RELAY_EXTENSIONS_DIR", agentsMount ++ Text.str "/_extensions"),
       (Text.str "RUNTIME_RELAY_EXTENSION_NAMES", [','].intercalate d.extensions)] else []) ++
    (if d.withIdentity build.name then identity build.name else [])
  volumes :=
    [⟨.path (agentsMountSource ++ Text.str "/agents/" ++ build.name),
        agentsMount ++ Text.str "/agents/" ++ build.name, true⟩,
     ⟨.path skillsSource, skillsMount, true⟩,
     ⟨.volume (serviceName build.name ++ Text.str "-sessions"), sessionsMount, false⟩,
     ⟨.volume (serviceName build.name ++ Text.str "-files"),
        filesMount ++ Text.str "/" ++ build.name, false⟩] ++
    (if build.sharedDirs ≠ [] then [⟨.volume sharedVolume, sharedMount, false⟩] else []) ++
    [⟨.path authFile, Text.str "/home/impi/.pi/agent/auth.json", true⟩] ++
    (if d.extensions ≠ [] then
      [⟨.path extensionsSource, agentsMount ++ Text.str "/_extensions", true⟩] else []) ++
    (if d.withIdentity build.name then
      [⟨.path (certFile certs build.name crt), certFile certsMount build.name crt, true⟩,
       ⟨.path (certFile certs build.name key), certFile certsMount build.name key, true⟩,
       ⟨.path authority, certFile certsMount (Text.str "ca") crt, true⟩] else [])
  networks := [serviceName build.name]
  userns := if d.rootless then
    some (Text.str "keep-id:uid=$\x7bIMPI_UID:-1000\x7d,gid=$\x7bIMPI_GID:-1000\x7d") else none

/-! ## The compose file -/

/-- The engine's service, of what it shares with the agents'. -/
structure Engine where
  networks : List Str
  volumes : List Mount

structure Compose where
  agents : List Service
  engine : Engine
  /-- The networks the store answers on, as the broker. -/
  vault : Option (List Str)
  browser : Option (List Str)
  networks : List Str
  volumes : List Str

/-- `_names_shared_dirs`. -/
def namesSharedDirs (d : Deployment) : Bool := d.builds.any fun b => b.sharedDirs ≠ []

/-- The two volumes of an agent's own. -/
def ownVolumes (name : Name) : List Str :=
  [serviceName name ++ Text.str "-sessions", serviceName name ++ Text.str "-files"]

/-- `_engine_service`. -/
def engineService (d : Deployment) : Engine where
  networks := [Text.str "default"] ++ (if d.withBrowser then [Text.str "browser"] else []) ++
    d.builds.map (serviceName ·.name)
  volumes := (if namesSharedDirs d then [⟨.volume sharedVolume, sharedMount, false⟩] else []) ++
    [⟨.volume (Text.str "impi-files"), filesMount, false⟩] ++
    d.builds.map fun b => ⟨.volume (serviceName b.name ++ Text.str "-files"),
      filesMount ++ Text.str "/" ++ b.name, false⟩

/-- `render_compose`. -/
def renderCompose (d : Deployment) : Compose where
  agents := d.builds.map (agentService · d)
  engine := engineService d
  vault := if d.withVault then
    some (Text.str "default" :: d.builds.map (serviceName ·.name)) else none
  browser := if d.withBrowser then
    some (Text.str "browser" :: d.builds.map (serviceName ·.name)) else none
  networks := [Text.str "default"] ++ (if d.withBrowser then [Text.str "browser"] else []) ++
    d.builds.map (serviceName ·.name)
  volumes := [Text.str "impi-files"] ++ (if namesSharedDirs d then [sharedVolume] else []) ++
    d.builds.flatMap (ownVolumes ·.name)

/-! ## Tokens -/

/-- `agent_env_key` of a host's token. -/
def agentEnvKey (agent : Name) : Str :=
  Text.str "AGENTS_HOST_TOKEN__" ++ agent.val.map fun c => if c = '-' then '_' else c.toUpper

/-- What is on disk: the token in each agent's env file, the `.env`, and what was written last;
`minted` counts the tokens made. -/
structure State where
  envFiles : Name → Option Str
  dotenv : List (Str × Str)
  minted : Nat
  deployment : Option Deployment

section

variable (mint : Nat → Str)

/-- `ensure_token`. -/
def ensureToken (s : State) (agent : Name) : State :=
  match s.envFiles agent with
  | some token => { s with dotenv := Dict.assign (agentEnvKey agent) token s.dotenv }
  | none =>
    { s with
      envFiles := Function.update s.envFiles agent (some (mint s.minted))
      dotenv := Dict.assign (agentEnvKey agent) (mint s.minted) s.dotenv
      minted := s.minted + 1 }

/-- The arguments of `sync`; of the extensions those that are there. -/
structure Sync where
  builds : List AgentBuild
  withVault : Bool
  withBrowser : Bool
  rootless : Bool
  extensions : List Str
  /-- The files of the certificates' directory, where there is one. -/
  certs : Option (Str → Bool)

/-- `_issued`. -/
def issued (certs : Option (Str → Bool)) (name : Name) : Bool :=
  certs.any fun there => there (Text.str "ca.crt") && there (name ++ crt) && there (name ++ key)

def Sync.deployment (a : Sync) : Deployment where
  withVault := a.withVault
  withBrowser := a.withBrowser
  rootless := a.rootless
  extensions := a.extensions
  builds := a.builds
  withIdentity := issued (if a.withVault then a.certs else none)

/-- `sync`. -/
def sync (s : State) (a : Sync) : State :=
  let s := (a.builds.map (·.name)).foldl (ensureToken mint) s
  { s with deployment := some a.deployment }

/-- Any number of runs of `sync`, on a deployment that had none. -/
def system : Lts State Sync where
  init s := s.envFiles = (fun _ => none) ∧ s.minted = 0 ∧ s.deployment = none
  next s a := some (sync mint s a)

end

/-- The engine's `_token`, of its environment and the `.env`. -/
def lookup (environ : Str → Option Str) (s : State) (key : Str) : Str :=
  let set := (environ key).getD []
  if set ≠ [] then set else (s.dotenv.lookup key).getD []

/-! ## What a service holds -/

inductive Resource
  | volume (name : Str)
  | path (p : Str)
  | network (name : Str)
  /-- A file of an identity, as it is named in the container. -/
  | named (p : Str)
  | envFile (p : Str)
  | token (t : Str)
  deriving DecidableEq

def Source.resource : Source → Resource
  | volume name => .volume name
  | path p => .path p

/-- The volumes, networks, tokens, certificates and keys mounted into or named by an agent's
service. -/
def uses (s : State) (d : Deployment) (build : AgentBuild) : List Resource :=
  let service := agentService build d
  service.volumes.map (·.source.resource) ++ service.networks.map .network ++
    [.envFile service.envFile] ++ (s.envFiles build.name).toList.map .token ++
    (if d.withIdentity build.name then
      [.named (certFile certsMount build.name crt), .named (certFile certsMount build.name key),
       .named (certFile certsMount (Text.str "ca") crt)] else [])

/-- What two agents may have in common: the volume of shared directories where both name one, the
skill library, the extensions, the model login, and the certificate of the broker's authority. -/
inductive Common (a b : AgentBuild) : Resource → Prop
  | shared : a.sharedDirs ≠ [] → b.sharedDirs ≠ [] → Common a b (.volume sharedVolume)
  | library : Common a b (.path skillsSource)
  | extensions : Common a b (.path extensionsSource)
  | login : Common a b (.path authFile)
  | authority : Common a b (.path authority)
  | authorityNamed : Common a b (.named (certFile certsMount (Text.str "ca") crt))

/-- The agents of one run are told apart, also by their keys. -/
def Told (a : Sync) : Prop := (a.builds.map fun b => agentEnvKey b.name).Nodup

end Containers
