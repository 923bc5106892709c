import ImpiAgent.Confinement.Launcher
import ImpiAgent.Lib.Text

/-!
# The scope of a runtime process

`runtime_process_scope` of `hosts/local.py`: what the application says a process may touch, and what
the runtime itself needs. `urlPort` reads the port a value of the environment is reached on, `reach`
collects those of all of them. `netlocOk` is what `urllib.parse` checks of an address beyond its
brackets' being in pairs, `installRoots` and `isFile` what is found on this host.
-/

namespace Confinement

open Posix (PurePath)
open Text (Str str)

/-! ## Ports -/

section

variable (netlocOk : Str → Bool)

/-- What follows the first `sep`, if there is one: `text.partition(sep)[2]`. -/
def after (sep : Char) (text : Str) : Str := (text.dropWhile (· ≠ sep)).drop 1

/-- `text.partition(sep)[0]`. -/
def before (sep : Char) (text : Str) : Str := text.takeWhile (· ≠ sep)

/-- `text.rpartition(sep)[2]`. -/
def afterLast (sep : Char) (text : Str) : Str := (text.reverse.takeWhile (· ≠ sep)).reverse

/-- The `netloc` of `urlsplit`, of an http or https URL; none where it raises. -/
def netloc (value : Str) : Option Str :=
  let url := value.filter fun c => c ≠ '\t' ∧ c ≠ '\r' ∧ c ≠ '\n'
  let rest := after ':' url
  if (str "//").isPrefixOf rest then
    let netloc := (rest.drop 2).takeWhile fun c => c ∉ ['/', '?', '#']
    if ('[' ∈ netloc ↔ ']' ∈ netloc) ∧ netlocOk netloc = true then some netloc else none
  else some []

/-- `_hostinfo` of `urllib.parse`: what is written after the host. -/
def portText (netloc : Str) : Str :=
  let hostinfo := afterLast '@' netloc
  if '[' ∈ hostinfo then after ':' (after ']' (after '[' hostinfo)) else after ':' hostinfo

/-- `parts.port`: none where it raises, no port where none is written. -/
def port (netloc : Str) : Option (Option Int) :=
  let text := portText netloc
  if text = [] then some none
  else if text.all Char.isDigit then
    let port := Nat.ofDigitChars 10 text 0
    if port ≤ 65535 then some (some port) else none
  else none

/-- `url_port`. -/
def urlPort (value : String) : Option Int :=
  let value := value.toList
  if ¬((str "http://").isPrefixOf value ∨ (str "https://").isPrefixOf value) then none
  else
    match (netloc netlocOk value).bind port with
    | none => none
    | some (some port) => some port
    | some none => some (if (str "https:").isPrefixOf value then 443 else 80)

/-- A turn of the `for` over the environment. -/
def reachOne (ports : List Int) (value : String) : List Int :=
  match urlPort netlocOk value with
  | some port => if port ∈ ports then ports else ports ++ [port]
  | none => ports

/-- The ports a process of a restricted network may connect to. -/
def reach (ports : List Int) (env : List (String × String)) : List Int :=
  if ports = [] then [] else (env.map Prod.snd).foldl (reachOne netlocOk) ports

end

/-! ## The scope -/

/-- `SYSTEM_READABLE`. -/
def systemReadable : List PurePath :=
  ["/usr", "/lib", "/lib64", "/bin", "/sbin", "/etc", "/opt", "/proc", "/dev"].map PurePath.ofText

/-- `DEVICE_WRITABLE`. -/
def deviceWritable : List PurePath :=
  ["/dev/null", "/dev/zero", "/dev/full", "/dev/tty", "/dev/ptmx"].map PurePath.ofText

/-- What of a `SpawnRequest` the scope depends on. -/
structure Request where
  profileDir : PurePath
  skills : List String
  extensions : List String
  env : List (String × String)
  envFiles : List (String × PurePath)
  processScope : ProcessScope

/-- `runtime_process_scope`. `env` is what the process is started with. -/
def runtimeProcessScope (netlocOk : Str → Bool) (installRoots : List PurePath)
    (isFile : PurePath → Bool) (agentDir : PurePath) (request : Request)
    (sessionDir : Option PurePath) (env : List (String × String)) : ProcessScope :=
  let scope := request.processScope
  let pointedAt := (request.env.map Prod.snd).filter fun value =>
    (str "/").isPrefixOf value.toList ∧ isFile (.ofText value) = true
  { readable := scope.readable ++ systemReadable ++ installRoots ++ [request.profileDir] ++
      request.skills.map .ofText ++ request.extensions.map .ofText ++
      request.envFiles.map Prod.snd ++ pointedAt.map .ofText ++ [agentDir]
    writable := scope.writable ++ sessionDir.toList
    writableFiles := scope.writableFiles ++ deviceWritable
    mkdirOnly := scope.mkdirOnly ++ [agentDir]
    tcpPorts := reach netlocOk scope.tcpPorts env
    env := scope.env }

/-- What a runtime process is given to write, each path by the option that gives it: nothing of its
environment, its skills, its extensions or the files it is handed. -/
def Request.written (request : Request) (agentDir : PurePath) (sessionDir : Option PurePath) :
    List (Opt × PurePath) :=
  let scope := request.processScope
  (scope.writable ++ sessionDir.toList).map (.writable, ·) ++
    (scope.writableFiles ++ deviceWritable).map (.writableFile, ·) ++
    (scope.mkdirOnly ++ [agentDir]).map (.mkdirOnly, ·)

end Confinement
