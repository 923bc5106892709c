import ImpiAgent.Lib.Pool
import ImpiAgent.Lib.Text
import ImpiAgent.Lib.Tree

/-!
# The scratch directories of processes

`AgentProcessScopes`: `scope_for` makes the directories a process may write and hands them out,
`release` takes them back. A run of the system is any number of calls of `scope_for`, each for the
session id the runtime gives it (`safe_session_id`), suspended where it asks for its conversation's
files, and the releases of the scopes that were returned. Each reads a clock of its own.

Paths are lists of components, the innermost first. The tree is the one the scratch root is in;
`Scopes.ended` notes when a scope of a directory was last released, as long as it is there.
-/

namespace ProcessScopes

open Text (Str)

abbrev Path := List Str

abbrev Time := Int

inductive Level
  | conversation
  | agent
  | off
  deriving DecidableEq

/-- `check_confinement_level`: none where it raises. -/
def checkConfinementLevel (value : Str) : Option Level :=
  if value = Text.str "conversation" then some .conversation
  else if value = Text.str "agent" then some .agent
  else if value = Text.str "off" then some .off
  else none

structure AgentSpec where
  profileDir : Path
  confinement : Option Str
  confinementReadable : List Path
  confinementWritable : List Path
  networkPorts : List Nat
  sharedDirs : List Str

structure ProcessScope where
  readable : List Path
  writable : List Path
  tcpPorts : List Nat
  env : List (Str × Path)
  deriving DecidableEq

def tmpdir : Str := Text.str "TMPDIR"

def home : Str := Text.str "HOME"

def runPrefix : Str := Text.str "run-"

/-- A day, in seconds. -/
def scratchKept : Time := 24 * 3600

def agentScratch : List Str := [Text.str "tmp", Text.str "home"]

/-- `shared_dir_env`. -/
def sharedDirEnv (start name : Str) : Str :=
  start ++ name.map fun c => if c = '-' then '_' else c.toUpper

/-- What the application is built with. Its own variables are not those of the scratch space. -/
structure Settings where
  defaultLevel : Level
  filesDirEnv : Str
  skillsRoot : Option Path
  scratchRoot : Path
  unconfinedByDefault : List Str
  networkPorts : List Nat
  sharedRoot : Option Path
  sharedDirEnvPrefix : Str
  hexdigest : Str → Str
  filesDirEnv_ne : filesDirEnv ≠ tmpdir ∧ filesDirEnv ≠ home
  sharedDirEnv_ne : ∀ name, sharedDirEnv sharedDirEnvPrefix name ≠ tmpdir ∧
    sharedDirEnv sharedDirEnvPrefix name ≠ home

/-! ## Session ids -/

def isSessionChar (c : Char) : Bool :=
  c.isAlphanum || c = '.' || c = '_' || c = '-'

def isEdge (c : Char) : Bool := c = '-' || c = '.' || c = '_'

def digestChars : Nat := 12

/-- `safe_session_id`. -/
def safeSessionId (hexdigest : Str → Str) (raw : Str) : Str :=
  let coerced := raw.map fun c => if isSessionChar c then c else '-'
  let cleaned := ((coerced.dropWhile isEdge).reverse.dropWhile isEdge).reverse
  if cleaned = raw then cleaned
  else (if cleaned = [] then Text.str "session" else cleaned) ++ '-' ::
    (hexdigest raw).take digestChars

namespace Settings

variable (c : Settings)

/-- `safe_id` of `_spawn_session`. -/
def safeId : Option Str → Option Str
  | some (a :: raw) => some (safeSessionId c.hexdigest (a :: raw))
  | _ => none

def levelFor (agent : Str) (spec : Option AgentSpec) : Option Level :=
  match spec.bind (·.confinement) with
  | some value => checkConfinementLevel value
  | none => some (if agent ∈ c.unconfinedByDefault then .off else c.defaultLevel)

end Settings

/-- What `scope_for` has put together where it asks for the files directory. -/
structure Draft where
  level : Level
  /-- The scratch was made by `mkdtemp`. -/
  run : Bool
  scratch : Path
  readable : List Path
  writable : List Path
  env : List (Str × Path)
  tcpPorts : List Nat
  deriving DecidableEq

structure Scopes where
  tree : DirTree Str Time
  inUse : List (Path × Nat)
  ended : List (Path × Time)
  deriving DecidableEq

namespace Scopes

variable (c : Settings) (b : Scopes)

def rmtree (path : Path) (now : Time) : Scopes :=
  { b with tree := b.tree.rmtree path now, ended := Dict.remove path b.ended }

/-- What `_clear_stale_scratch` takes for stale. -/
def stale (now : Time) (path : Path) : Bool :=
  decide (path.headD [] ∉ agentScratch) && (b.inUse.lookup path).isNone &&
    (b.tree.mtime path).any (· < now - scratchKept)

def clearStaleScratch (dir : Path) (now : Time) : Scopes :=
  (b.tree.children dir).foldl (fun b path => if b.stale now path then b.rmtree path now else b) b

/-- `_scratch_for`: the directory, and whether `mkdtemp` made it. `name` is what `mkdtemp` comes up
with. -/
def scratchFor (agent : Str) (sessionId : Option Str) (level : Level) (name : Str) (now : Time) :
    DirTree Str Time × Path × Bool :=
  let dir := agent :: c.scratchRoot
  let t := b.tree.mkdir now dir
  match level, sessionId with
  | .agent, _ => (t, dir, false)
  | _, some (a :: id) => (t.mkdir now ((a :: id) :: dir), (a :: id) :: dir, false)
  | _, _ => (t.mkdir now ((runPrefix ++ name) :: dir), (runPrefix ++ name) :: dir, true)

/-- `mkdtemp` makes a directory that was not there. -/
def Fresh (agent : Str) (name : Str) : Prop :=
  ¬b.tree.Has ((runPrefix ++ name) :: agent :: c.scratchRoot)

instance (agent name : Str) : Decidable (b.Fresh c agent name) :=
  inferInstanceAs (Decidable (¬_))

/-- `scope_for`, from the scratch directory to the files directory. -/
def draft (agent : Str) (spec : Option AgentSpec) (sessionId : Option Str) (level : Level)
    (name : Str) (now : Time) : Scopes × Draft :=
  let q := b.scratchFor c agent sessionId level name now
  let scratch := q.2.1
  let tmp := Text.str "tmp" :: scratch
  let homeDir := Text.str "home" :: scratch
  let shared := (c.sharedRoot.toList.flatMap fun root =>
    (spec.elim [] (·.sharedDirs)).map fun dir => (dir, dir :: root))
  let named := if c.sharedDirEnvPrefix = [] then [] else shared
  ({ b with tree := (q.1.mkdir now tmp).mkdir now homeDir },
    { level
      run := q.2.2
      scratch
      readable := spec.elim [] (fun s => s.profileDir :: s.confinementReadable) ++
        c.skillsRoot.toList
      writable := [tmp, homeDir] ++ spec.elim [] (·.confinementWritable) ++ shared.map (·.2)
      env := named.foldl (fun d x => Dict.assign (sharedDirEnv c.sharedDirEnvPrefix x.1) x.2 d)
        [(tmpdir, tmp), (home, homeDir)]
      tcpPorts := if c.networkPorts = [] then [] else c.networkPorts ++
        spec.elim [] (fun s => s.networkPorts.filter (· ∉ c.networkPorts)) })

/-- `self._in_use[scratch] = self._in_use.get(scratch, 0) + 1`, unless at the agent level. -/
def hold (d : Draft) : Scopes :=
  if d.level = .agent then b
  else { b with inUse := Dict.assign d.scratch ((b.inUse.lookup d.scratch).getD 0 + 1) b.inUse }

/-- What `release` does with the scratch of the last process: a memoryless run's goes, a
conversation's is kept a day from now. -/
def giveBack (scratch : Path) (now : Time) : Scopes :=
  let b := { b with inUse := Dict.remove scratch b.inUse }
  if runPrefix <+: scratch.headD [] then b.rmtree scratch now
  else { b with tree := b.tree.touch scratch now, ended := Dict.assign scratch now b.ended }

/-- `release`. -/
def release (scope : ProcessScope) (now : Time) : Scopes :=
  match scope.env.lookup tmpdir with
  | none => b
  | some tmp =>
    let scratch := tmp.tail
    let held := (b.inUse.lookup scratch).getD 0
    if held = 0 then b
    else if 1 < held then
      { b with inUse := Dict.assign scratch (held - 1) b.inUse
               ended := Dict.assign scratch now b.ended }
    else (b.giveBack scratch now).clearStaleScratch scratch.tail now

end Scopes

/-- `scope_for`, from the files directory on. -/
def Draft.scope (c : Settings) (d : Draft) (files : Option Path) : ProcessScope where
  readable := d.readable
  writable := d.writable ++ files.toList
  tcpPorts := d.tcpPorts
  env := if c.filesDirEnv = [] then d.env
    else Dict.assign c.filesDirEnv (files.getD (Text.str "tmp" :: d.scratch)) d.env

inductive Point
  /-- `scope_for`, where it asks for the files of its conversation. -/
  | asking (d : Draft)
  | unconfined
  | failed
  /-- A process has the scope; the process is gone. -/
  | holding (d : Draft) (scope : ProcessScope)
  | released (d : Draft)
  deriving DecidableEq

abbrev State := Pool Scopes Point

inductive Label
  /-- `files` is the agent's files directory; `ok`, that the directories could be made. -/
  | scopeFor (agent : Str) (spec : Option AgentSpec) (sessionId : Option Str) (files : Option Path)
      (name : Str) (ok : Bool) (now : Time)
  | answer (i : Nat) (files : Option Path)
  | fail (i : Nat)
  | release (i : Nat) (now : Time)

variable (c : Settings)

/-- `scope_for`, to its await or its end. -/
def scopeFor (b : Scopes) (agent : Str) (spec : Option AgentSpec) (sessionId : Option Str)
    (files : Option Path) (name : Str) (ok : Bool) (now : Time) : Scopes × Point :=
  match c.levelFor agent spec with
  | none => (b, .failed)
  | some .off => (b, .unconfined)
  | some level =>
    let q := b.draft c agent spec sessionId level name now
    if !ok then (q.1, .failed)
    else match level, sessionId with
      | .agent, _ => (q.1.hold q.2, .holding q.2 (q.2.scope c files))
      | _, none => (q.1.hold q.2, .holding q.2 (q.2.scope c none))
      | _, some _ => (q.1, .asking q.2)

def next (s : State) : Label → Option State
  | .scopeFor agent spec raw files name ok now =>
    if s.store.Fresh c agent name then
      let q := scopeFor c s.store agent spec (c.safeId raw) files name ok now
      some ({ s with store := q.1 }.start q.2)
    else none
  | .answer i files =>
    match s.calls[i]? with
    | some (some (.asking d)) => some (s.put i (s.store.hold d) (.holding d (d.scope c files)))
    | _ => none
  | .fail i =>
    match s.calls[i]? with
    | some (some (.asking _)) => some (s.put i s.store .failed)
    | _ => none
  | .release i now =>
    match s.calls[i]? with
    | some (some (.holding d scope)) => some (s.put i (s.store.release scope now) (.released d))
    | _ => none

def lts : Lts State Label where
  init s := s = ⟨⟨[], [], []⟩, []⟩
  next := next c

end ProcessScopes
