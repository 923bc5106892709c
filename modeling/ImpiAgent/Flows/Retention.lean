import ImpiAgent.Flows.Attachments
import ImpiAgent.Lib.Dict
import ImpiAgent.Lib.Pool

/-!
# Sweeping the files of idle conversations

`sweep_attachments` over the store of files and the records of sessions, beside messages that arrive
(`save_many` in the gateway's directory, the flow's `adopt` and `get_or_create`, `touch` where the
turn has ended), what agents write into their directories, and whoever else deletes a record or
forgets a conversation. A step is what a call does up to its next await; what a worker thread does
is one step. `kill` is a call that raises or dies.

Times are in microseconds, as the clock reads them; a record has its time in whole seconds.
`Core.received` notes when a directory was last given a file that came with a message, `Core.taken`
what the sweeps removed, each with what was there at that moment.
-/

namespace Retention

open Text (Str)
open Attachments (AttachmentStore safeName)

abbrev Dir := Str

def second : Int := 1000000

def day : Int := 24 * 3600 * second

structure File where
  size : Nat
  mtime : Int
  deriving DecidableEq

/-- A conversation's directory. -/
structure Directory where
  mtime : Int
  files : List (Str × File)
  deriving DecidableEq

/-- `_newest_mtime`. -/
def Directory.newest (d : Directory) : Int := d.files.foldl (fun t x => max t x.2.mtime) d.mtime

/-- What the sweep reads of a `SessionRecord`; no time where it does not parse. -/
structure Session where
  agent : Str
  conversationId : Str
  lastActive : Option Int
  deriving DecidableEq

/-- `idle_before`. -/
def idleBefore (r : Session) (cutoff : Int) : Bool := r.lastActive.any (· < cutoff)

structure IncomingFile where
  /-- The platform's id, or the time. -/
  stamp : Str
  name : Str
  size : Nat
  deriving DecidableEq

def IncomingFile.filename (f : IncomingFile) : Str := safeName f.stamp ++ '-' :: safeName f.name

/-- A message with files: the gateway saves them under its key, the flow has its own. -/
structure Message where
  agent : Str
  gatewayKey : Str
  key : Str
  files : List IncomingFile
  deriving DecidableEq

/-- What a sweep removed, and what was there: the activity of the records of the conversation, when
it received a file, when the directory was written to, and the files. -/
structure Taken where
  days : Int
  time : Int
  activity : List (Option Int)
  received : Option Int
  newest : Int
  files : List Str
  deriving DecidableEq

structure Settings extends AttachmentStore where
  maxBytes : Nat

namespace Settings

variable (c : Settings)

def dir (r : Session) : Dir := c.conversationDir r.agent r.conversationId

/-- `known.get(directory)`: of two records with one directory the later one. -/
def known (records : List Session) (dir : Dir) : Option Session :=
  (records.filter fun r => c.dir r = dir).getLast?

end Settings

structure Core where
  now : Int
  sessions : List Session
  disk : List (Dir × Directory)
  received : List (Dir × Int)
  taken : List Taken
  deriving DecidableEq

namespace Core

variable (c : Settings) (b : Core)

def dirAt (dir : Dir) : Directory := (b.disk.lookup dir).getD ⟨b.now, []⟩

/-- `_write`; so do agents. -/
def write (dir : Dir) (name : Str) (size : Nat) : Core :=
  let d := b.dirAt dir
  let d' := match d.files.lookup name with
    | some f =>
      if f.size = size then d else { d with files := Dict.assign name ⟨size, b.now⟩ d.files }
    | none => ⟨b.now, Dict.assign name ⟨size, b.now⟩ d.files⟩
  { b with disk := Dict.assign dir d' b.disk }

def receive (dir : Dir) : Core := { b with received := Dict.assign dir b.now b.received }

def unlink (dir : Dir) (name : Str) : Core :=
  match b.disk.lookup dir with
  | some d => { b with disk := Dict.assign dir ⟨b.now, Dict.remove name d.files⟩ b.disk }
  | none => b

/-- `_move`: false where it raises. -/
def move (source target : Dir) (name : Str) : Core × Bool :=
  let t := b.dirAt target
  let b' := { b with disk := Dict.assign target t b.disk }
  match (b.disk.lookup source).bind (·.files.lookup name) with
  | none => (b', false)
  | some f =>
    if (t.files.lookup name).any (·.size = f.size) then
      -- a redelivery already adopted
      ((b'.unlink source name).receive target, true)
    else
      let t' : Directory := ⟨b.now, Dict.assign name f t.files⟩
      (({ b' with disk := Dict.assign target t' b'.disk }.unlink source name).receive target, true)

def rmdir (dir : Dir) : Core :=
  match b.disk.lookup dir with
  | some d => if d.files = [] then { b with disk := Dict.remove dir b.disk } else b
  | none => b

def nowIso : Int := b.now - b.now % second

def getOrCreate (agent key : Str) : Core :=
  if b.sessions.any fun r => r.agent = agent ∧ r.conversationId = key then b
  else { b with sessions := b.sessions ++ [⟨agent, key, some b.nowIso⟩] }

def touch (agent key : Str) : Core :=
  { b with
    sessions := b.sessions.map fun r =>
      if r.agent = agent ∧ r.conversationId = key then { r with lastActive := some b.nowIso }
      else r }

def delete (agent key : Str) : Core :=
  { b with sessions := b.sessions.filter fun r => ¬(r.agent = agent ∧ r.conversationId = key) }

/-- `_forget_dir`. -/
def forgetDir (dir : Dir) : Core := { b with disk := Dict.remove dir b.disk }

/-- `_forget_dir` of a sweep. -/
def take (days : Int) (dir : Dir) : Core :=
  match b.disk.lookup dir with
  | none => b
  | some d => { b.forgetDir dir with
      taken := b.taken ++ [{
        days
        time := b.now
        activity := (b.sessions.filter fun r => c.dir r = dir).map (·.lastActive)
        received := b.received.lookup dir
        newest := d.newest
        files := d.files.map Prod.fst }] }

end Core

/-- Why a sweep forgets a directory: its conversation is idle, or it has none, and was looked at. -/
inductive Ground
  | idle (r : Session)
  | unowned (d : Directory)
  deriving DecidableEq

inductive Point
  | saving (m : Message) (files : List IncomingFile) (saved : List Str)
  | adopting (m : Message) (saved : List Str)
  /-- `_move_record`. -/
  | tidying (m : Message) (saved : List Str)
  | opening (m : Message)
  /-- The turn runs. -/
  | turn (m : Message)
  | listing (days cutoff : Int)
  | scanning (days cutoff : Int) (records : List Session)
  | looking (days cutoff : Int) (records : List Session) (dir : Dir) (rest : List Dir)
  | forgetting (days cutoff : Int) (records : List Session) (dir : Dir) (rest : List Dir)
      (ground : Ground)
  | ended
  deriving DecidableEq

variable (c : Settings)

/-- The loop of `sweep_attachments`, to its next await. -/
def sweepFrom (days cutoff : Int) (records : List Session) : List Dir → Point
  | [] => .ended
  | dir :: rest =>
    match c.known records dir with
    | some r =>
      if idleBefore r cutoff then .forgetting days cutoff records dir rest (.idle r)
      else sweepFrom days cutoff records rest
    | none => .looking days cutoff records dir rest

/-- A call goes on from an await. -/
def act (b : Core) : Point → Option (Core × Point)
  | .saving m [] saved => some (b, .adopting m saved)
  | .saving m (f :: files) saved =>
    if c.maxBytes < f.size then some (b, .saving m files saved)
    else
      let dir := c.conversationDir m.agent m.gatewayKey
      some ((b.write dir f.filename f.size).receive dir, .saving m files (saved ++ [f.filename]))
  | .adopting m [] => some (b, .opening m)
  | .adopting m (name :: saved) =>
    let source := c.conversationDir m.agent m.gatewayKey
    let target := c.conversationDir m.agent m.key
    if source = target then some (b, .adopting m saved)
    else
      let q := b.move source target name
      some (q.1, if q.2 then .tidying m saved else .adopting m saved)
  | .tidying m saved =>
    some (b.rmdir (c.conversationDir m.agent m.gatewayKey), .adopting m saved)
  | .opening m => some (b.getOrCreate m.agent m.key, .turn m)
  | .turn m => some (b.touch m.agent m.key, .ended)
  | .looking days cutoff records dir rest =>
    match b.disk.lookup dir with
    | some d =>
      if d.newest < cutoff then some (b, .forgetting days cutoff records dir rest (.unowned d))
      else some (b, sweepFrom c days cutoff records rest)
    | none => some (b, .ended)
  | .forgetting days cutoff records dir rest _ =>
    some (b.take c days dir, sweepFrom c days cutoff records rest)
  | .listing .. | .scanning .. | .ended => none

abbrev State := Pool Core Point

inductive Label
  | tick (n : Nat)
  | message (m : Message)
  | sweep (days : Int)
  /-- `sessions.list`, and `conversation_dirs`, in whatever order. -/
  | records (i : Nat) (records : List Session)
  | dirs (i : Nat) (dirs : List Dir)
  | step (i : Nat)
  | kill (i : Nat)
  /-- An agent's process writes to its directory, or a file is evicted. -/
  | write (dir : Dir) (name : Str) (size : Nat)
  | unlink (dir : Dir) (name : Str)
  /-- Another deletes a record, or forgets a conversation's files. -/
  | delete (agent key : Str)
  | forget (dir : Dir)

def next (s : State) : Label → Option State
  | .tick n => some { s with store := { s.store with now := s.store.now + n } }
  | .message m => some (s.start (.saving m m.files []))
  | .sweep days =>
    some (s.start (if days ≤ 0 then .ended else .listing days (s.store.now - days * day)))
  | .records i records =>
    match s.calls[i]? with
    | some (some (.listing days cutoff)) =>
      if records.Perm s.store.sessions then
        some (s.put i s.store (.scanning days cutoff records))
      else none
    | _ => none
  | .dirs i dirs =>
    match s.calls[i]? with
    | some (some (.scanning days cutoff records)) =>
      if dirs.Perm (s.store.disk.map Prod.fst) then
        some (s.put i s.store (sweepFrom c days cutoff records dirs))
      else none
    | _ => none
  | .step i =>
    match s.calls[i]? with
    | some (some k) => (act c s.store k).map fun q => s.put i q.1 q.2
    | _ => none
  | .kill i => some (s.kill i)
  | .write dir name size => some { s with store := s.store.write dir name size }
  | .unlink dir name => some { s with store := s.store.unlink dir name }
  | .delete agent key => some { s with store := s.store.delete agent key }
  | .forget dir => some { s with store := s.store.forgetDir dir }

def lts : Lts State Label where
  init s := s = ⟨⟨0, [], [], [], []⟩, []⟩
  next := next c

end Retention
