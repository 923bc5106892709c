import ImpiAgent.Lib.Beneath
import ImpiAgent.Lib.Decimal
import ImpiAgent.Lib.Posix

/-!
# The launcher that confines a process

`confined_command` writes what a process may touch as options of `launcher.py`, which reads them
back (`parseCommandLine`), makes a Landlock ruleset of them (`confineSelf`) and becomes the command
(`main`). The kernel is as it documents itself: it refuses rights its ABI does not know, and a
process under a domain has the accesses `Domain.Permits` says. `Named` says which of them a scope
names.

`found` is what `os.open` and `os.path.isdir` find at a path, `other` the value of a digit beyond
ASCII.
-/

namespace Confinement

open Posix (Resolved PurePath)

/-! ## Rights -/

/-- The filesystem rights of Landlock. -/
inductive Right
  | execute | writeFile | readFile | readDir | removeDir | removeFile | makeChar | makeDir
  | makeReg | makeSock | makeFifo | makeBlock | makeSym | refer | truncate | ioctlDev
  deriving DecidableEq

namespace Right

def bit : Right → Nat
  | execute => 0
  | writeFile => 1
  | readFile => 2
  | readDir => 3
  | removeDir => 4
  | removeFile => 5
  | makeChar => 6
  | makeDir => 7
  | makeReg => 8
  | makeSock => 9
  | makeFifo => 10
  | makeBlock => 11
  | makeSym => 12
  | refer => 13
  | truncate => 14
  | ioctlDev => 15

def mask (r : Right) : Nat := 1 <<< r.bit

/-- The first ABI that can restrict a right. -/
def since : Right → Nat
  | refer => 2
  | truncate => 3
  | ioctlDev => 5
  | _ => 1

/-- The rights an ABI can restrict. -/
def Known (abi : Nat) (r : Right) : Prop := r.since ≤ abi

instance knownDecidable (abi : Nat) : DecidablePred (Known abi) := fun r =>
  inferInstanceAs (Decidable (r.since ≤ abi))

end Right

open Confinement.Right

/-- `handled_access`. -/
def handledAccess (abi : Nat) : Nat :=
  let rights := execute.mask ||| writeFile.mask ||| readFile.mask ||| readDir.mask |||
    removeDir.mask ||| removeFile.mask ||| makeChar.mask ||| makeDir.mask ||| makeReg.mask |||
    makeSock.mask ||| makeFifo.mask ||| makeBlock.mask ||| makeSym.mask
  let rights := if 2 ≤ abi then rights ||| refer.mask else rights
  let rights := if 3 ≤ abi then rights ||| truncate.mask else rights
  if 5 ≤ abi then rights ||| ioctlDev.mask else rights

/-- `OPTIONS`. -/
inductive Opt
  | readable
  | writable
  | writableFile
  | mkdirOnly
  | connectTcp
  deriving DecidableEq

namespace Opt

def text : Opt → String
  | readable => "--readable"
  | writable => "--writable"
  | writableFile => "--writable-file"
  | mkdirOnly => "--mkdir-only"
  | connectTcp => "--connect-tcp"

def all : List Opt := [readable, writable, writableFile, mkdirOnly, connectTcp]

def ofText (s : String) : Option Opt := all.find? fun o => o.text = s

/-- What an option is for, of a directory and of a file. -/
def Grants : Opt → Bool → Right → Prop
  | readable, true, r => r ∈ [execute, readFile, readDir]
  | readable, false, r => r ∈ [execute, readFile]
  | writable, true, _ => True
  | writable, false, r => r ∈ [execute, writeFile, readFile, truncate, ioctlDev]
  | writableFile, _, r => r ∈ [readFile, writeFile, truncate]
  | mkdirOnly, true, r => r ∈ [execute, readFile, readDir, makeDir, removeDir]
  | mkdirOnly, false, r => r ∈ [execute, readFile]
  | connectTcp, _, _ => False

end Opt

/-- `granted_access`: none where it raises. -/
def grantedAccess (option : Opt) (abi : Nat) (isDir : Bool) : Option Nat :=
  let read := execute.mask ||| readFile.mask ||| readDir.mask
  let rights :=
    match option with
    | .readable => some read
    | .writable => some (handledAccess abi)
    | .writableFile =>
      some (readFile.mask ||| writeFile.mask ||| if 3 ≤ abi then truncate.mask else 0)
    | .mkdirOnly => some (read ||| makeDir.mask ||| removeDir.mask)
    | .connectTcp => none
  if isDir then rights
  else
    let fileRights := execute.mask ||| writeFile.mask ||| readFile.mask
    let fileRights := fileRights ||| if 3 ≤ abi then truncate.mask else 0
    let fileRights := fileRights ||| if 5 ≤ abi then ioctlDev.mask else 0
    rights.map (· &&& fileRights)

/-! ## The command line -/

/-- What one process may touch. -/
structure ProcessScope where
  readable : List PurePath
  writable : List PurePath
  writableFiles : List PurePath
  mkdirOnly : List PurePath
  tcpPorts : List Int
  env : List (String × String)

namespace ProcessScope

variable (scope : ProcessScope)

/-- The paths it names, each with what it names it for. -/
def paths : List (Opt × PurePath) :=
  scope.readable.map (.readable, ·) ++ scope.writable.map (.writable, ·) ++
    scope.writableFiles.map (.writableFile, ·) ++ scope.mkdirOnly.map (.mkdirOnly, ·)

/-- The rules `confined_command` writes. -/
def rules : List (Opt × String) :=
  scope.paths.map (fun rule => (rule.1, rule.2.text)) ++
    scope.tcpPorts.map fun port => (.connectTcp, toString port)

end ProcessScope

/-- `confined_command`. -/
def confinedCommand (scope : ProcessScope) (command : List String) (python launcher : String) :
    List String :=
  [python, "-I", "-S", launcher] ++ scope.rules.flatMap (fun rule => [rule.1.text, rule.2]) ++
    "--" :: command

/-- Where the launcher raises of its command line. -/
inductive Usage
  | noSeparator
  | noCommand
  | oddOptions
  | unknownOption (option : String)
  | notAPort (value : String)
  deriving DecidableEq

section

variable (other : Char → Option Nat)

/-- `value.isdigit() and 0 < int(value) < 65536`. -/
def isPort (value : String) : Bool :=
  (Decimal.number other value.toList).any fun n => 0 < n && n < 65536

/-- The turns of the `for` of `parse_command_line`. -/
def parseRules : List String → Except Usage (List (Opt × String))
  | option :: value :: options =>
    match Opt.ofText option with
    | none => .error (.unknownOption option)
    | some o =>
      if o = .connectTcp ∧ isPort other value = false then .error (.notAPort value)
      else (parseRules options).map ((o, value) :: ·)
  | _ => .ok []

/-- `parse_command_line`. -/
def parseCommandLine (argv : List String) :
    Except Usage (List (Opt × String) × List String) :=
  if "--" ∉ argv then .error .noSeparator
  else
    let split := argv.idxOf "--"
    let options := argv.take split
    let command := argv.drop (split + 1)
    if command = [] then .error .noCommand
    else if options.length % 2 ≠ 0 then .error .oddOptions
    else (parseRules other options).map (·, command)

/-- `tcp_ports`, of rules that were parsed. -/
def tcpPorts (rules : List (Opt × String)) : List Nat :=
  (rules.filter fun rule => rule.1 = .connectTcp).filterMap fun rule =>
    Decimal.number other rule.2.toList

end

/-! ## The kernel -/

structure RulesetAttr where
  handledAccessFs : Nat
  handledAccessNet : Nat
  scopes : Nat

/-- What is read of the attributes: as many bytes as the caller says there are. -/
def RulesetAttr.read (attr : RulesetAttr) (size : Nat) : RulesetAttr :=
  { attr with
    handledAccessNet := if size < 16 then 0 else attr.handledAccessNet
    scopes := if size < 24 then 0 else attr.scopes }

/-- The rights an ABI knows. -/
def knownFs (abi : Nat) : Nat :=
  if abi < 2 then 2 ^ 13 - 1 else if abi < 3 then 2 ^ 14 - 1 else if abi < 5 then 2 ^ 15 - 1
  else 2 ^ 16 - 1

def knownNet (abi : Nat) : Nat := if abi < 4 then 0 else 2 ^ 2 - 1

def knownScopes (abi : Nat) : Nat := if abi < 6 then 0 else 2 ^ 2 - 1

def bindTcp : Nat := 0

def connectTcp : Nat := 1

def scopeAbstractUnixSocket : Nat := 0

def scopeSignal : Nat := 1

/-- What a process is confined to. -/
structure Domain where
  fs : Beneath.Ruleset String
  net : Nat
  ports : List (Nat × Nat)
  scopes : Nat
  deriving DecidableEq

/-- `landlock_create_ruleset`: none where it fails. -/
def createRuleset (abi : Nat) (attr : RulesetAttr) (size : Nat) : Option Domain :=
  let attr := attr.read size
  if Beneath.Within attr.handledAccessFs (knownFs abi) ∧
      Beneath.Within attr.handledAccessNet (knownNet abi) ∧
      Beneath.Within attr.scopes (knownScopes abi) ∧
      ¬(attr.handledAccessFs = 0 ∧ attr.handledAccessNet = 0 ∧ attr.scopes = 0) then
    some ⟨⟨attr.handledAccessFs, []⟩, attr.handledAccessNet, [], attr.scopes⟩
  else none

namespace Domain

variable (d : Domain)

/-- `landlock_add_rule` of a port. -/
def addPort (access port : Nat) : Option Domain :=
  if access ≠ 0 ∧ Beneath.Within access d.net ∧ port < 65536 then
    some { d with ports := d.ports ++ [(port, access)] }
  else none

/-- `landlock_add_rule` of what is beneath a place. -/
def addPath (access : Nat) (place : Resolved) : Option Domain :=
  (d.fs.add ⟨place, access⟩).map fun fs => { d with fs := fs }

end Domain

/-- What a process may ask for. -/
inductive Access
  | path (right : Right) (place : Resolved)
  | connect (port : Nat)
  | bind (port : Nat)
  /-- A signal to a process outside its domain. -/
  | signal
  /-- An abstract socket of a process outside its domain. -/
  | abstractSocket

def Domain.Permits (d : Domain) : Access → Prop
  | .path right place => d.fs.Allows place right.bit
  | .connect port => d.net.testBit connectTcp = true →
      ∃ rule ∈ d.ports, rule.1 = port ∧ rule.2.testBit connectTcp = true
  | .bind port => d.net.testBit bindTcp = true →
      ∃ rule ∈ d.ports, rule.1 = port ∧ rule.2.testBit bindTcp = true
  | .signal => d.scopes.testBit scopeSignal = false
  | .abstractSocket => d.scopes.testBit scopeAbstractUnixSocket = false

/-! ## The launcher -/

/-- What is at a path. -/
inductive Found
  | missing
  | error
  | here (place : Resolved) (isDir : Bool)

/-- Where confining fails. -/
inductive Failure
  | createRuleset
  | addPort (port : Nat)
  | openPath (path : String)
  | addPath (path : String)
  deriving DecidableEq

/-- `NET_ABI`. -/
def netAbi : Nat := 4

section

variable (other : Char → Option Nat) (found : String → Found) (abi : Nat)

/-- A turn of the `for` over the rules. -/
def addRule (d : Domain) (rule : Opt × String) : Except Failure Domain :=
  if rule.1 = .connectTcp then .ok d
  else
    match found rule.2 with
    | .missing => .ok d
    | .error => .error (.openPath rule.2)
    | .here place isDir =>
      match (grantedAccess rule.1 abi isDir).bind fun allowed => d.addPath allowed place with
      | none => .error (.addPath rule.2)
      | some d => .ok d

/-- A turn of the `for` over the ports. -/
def addPort (d : Domain) (port : Nat) : Except Failure Domain :=
  match d.addPort (1 <<< connectTcp) port with
  | none => .error (.addPort port)
  | some d => .ok d

/-- `confine_self`. -/
def confineSelf (rules : List (Opt × String)) : Except Failure Domain := do
  let size := if abi < netAbi then 8 else if abi < 6 then 16 else 24
  let scopes := if 6 ≤ abi then 1 <<< scopeAbstractUnixSocket ||| 1 <<< scopeSignal else 0
  let ports := if netAbi ≤ abi then tcpPorts other rules else []
  let handledNet := if ports = [] then 0 else 1 <<< bindTcp ||| 1 <<< connectTcp
  let attr : RulesetAttr := ⟨handledAccess abi, handledNet, scopes⟩
  match createRuleset abi attr size with
  | none => .error .createRuleset
  | some ruleset =>
    let ruleset ← ports.foldlM addPort ruleset
    rules.foldlM (addRule found abi) ruleset

inductive Outcome
  | refused (usage : Usage)
  | failed (failure : Failure)
  /-- The command, confined where there is a domain. -/
  | started (domain : Option Domain) (command : List String)
  deriving DecidableEq

/-- `main`, of the arguments after the launcher's own path. -/
def main (argv : List String) : Outcome :=
  match parseCommandLine other argv with
  | .error usage => .refused usage
  | .ok (rules, command) =>
    if abi = 0 then .started none command
    else
      match confineSelf other found abi rules with
      | .error failure => .failed failure
      | .ok domain => .started (some domain) command

end

/-- What follows the launcher's path in a command line that starts it. -/
def launched (command : List String) : List String := command.drop 4

/-! ## What a scope names -/

/-- The accesses a scope names, of those an ABI can restrict. -/
def ProcessScope.Named (scope : ProcessScope) (found : String → Found) (abi : Nat) : Access → Prop
  | .path right place => right.Known abi → ∃ rule ∈ scope.paths, ∃ root isDir,
      found rule.2.text = .here root isDir ∧ root <+: place ∧ rule.1.Grants isDir right
  | .connect port => netAbi ≤ abi → scope.tcpPorts ≠ [] → (port : Int) ∈ scope.tcpPorts
  | .bind _ => netAbi ≤ abi → scope.tcpPorts = []
  | .signal | .abstractSocket => abi < 6

end Confinement
