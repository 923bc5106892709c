import ImpiAgent.Flows.Proof.Directories
import ImpiAgent.Lib.Dict
import ImpiAgent.Lib.Pool
import ImpiAgent.Lib.Quote
import Mathlib

/-!
# The record of the files a conversation received

`AttachmentStore` with its record: `save_many`, `adopt` and the eviction a save makes room by,
beside agents that write to their directories. A step is one access of a worker thread to the disk,
so that a call which reads a record and writes it again is interrupted between the two. A call
returns with its last access.

A file is known by its path; the directories are those its path runs through. Three fields of `Core`
are not on the disk: what was saved and neither evicted nor moved away since (`live`), what was
`returned` of that with the data last saved there, and the paths where somebody else wrote
(`touched`).
-/

namespace Received

open Text (Str str lines)
open Quote (quote digits expect string number)
open Attachments (AttachmentStore safeName pathName)

abbrev Data := List UInt8

/-! ## The lines of a record -/

structure ReceivedFile where
  path : Str
  name : Str
  mime : Str
  size : Nat
  sha256 : Str
  receivedAt : Str
  deriving DecidableEq

/-- `json.dumps(r.__dict__, ensure_ascii=False)`. -/
def dumps (r : ReceivedFile) : Str :=
  str "\x7b\"path\": " ++ (quote r.path ++ (str ", \"name\": " ++ (quote r.name ++
    (str ", \"mime\": " ++ (quote r.mime ++ (str ", \"size\": " ++ (digits r.size ++
      (str ", \"sha256\": " ++ (quote r.sha256 ++ (str ", \"received_at\": " ++
        (quote r.receivedAt ++ str "\x7d")))))))))))

/-- `json.loads`, of what the store writes: a line, or a piece of one, which has no such keys. -/
def loads (line : Str) : Option ReceivedFile := do
  let s ← expect (str "\x7b\"path\": ") line
  let (path, s) ← string s
  let s ← expect (str ", \"name\": ") s
  let (name, s) ← string s
  let s ← expect (str ", \"mime\": ") s
  let (mime, s) ← string s
  let s ← expect (str ", \"size\": ") s
  let (size, s) ← number s
  let s ← expect (str ", \"sha256\": ") s
  let (sha256, s) ← string s
  let s ← expect (str ", \"received_at\": ") s
  let (receivedAt, s) ← string s
  if s = str "\x7d" then some { path, name, mime, size, sha256, receivedAt } else none

def render (rs : List ReceivedFile) : Str := rs.flatMap fun r => dumps r ++ ['\n']

/-- `_read_record`: a line nobody wrote whole is left out. -/
def readRecord (text : Str) : List ReceivedFile := (lines text).filterMap loads

/-! ## Paths -/

def parent (path : Str) : Str := (path.reverse.dropWhile (· ≠ '/')).tail.reverse

def baseName (path : Str) : Str := (path.reverse.takeWhile (· ≠ '/')).reverse

/-- What `rglob` finds in a directory. -/
def within (dir path : Str) : Bool := (dir ++ ['/']).isPrefixOf path

structure IncomingFile where
  name : Str
  data : Data
  mime : Str
  /-- The platform's id, or the time. -/
  stamp : Str
  receivedAt : Str
  deriving DecidableEq

def IncomingFile.filename (f : IncomingFile) : Str := safeName f.stamp ++ '-' :: safeName f.name

def IncomingFile.path (dir : Str) (f : IncomingFile) : Str := dir ++ '/' :: f.filename

structure Settings extends AttachmentStore where
  maxBytes : Nat
  conversationMaxBytes : Nat
  fileDigest : Data → List (Fin 16)

namespace Settings

variable (c : Settings)

/-- `_record_path`. -/
def recordPath (dir : Str) : Str :=
  c.root ++ str "/.received/" ++ baseName (parent dir) ++ '/' :: baseName dir ++ str ".jsonl"

/-- `hexdigest`. -/
def hexdigest (data : Data) : Str := (c.fileDigest data).map Envelope.hexDigit

/-- What `save_many` records of a file. -/
def arrival (dir : Str) (f : IncomingFile) : ReceivedFile where
  path := f.path dir
  name :=
    let name := pathName (f.name.map fun c => if c = '\\' then '/' else c)
    if name = [] then f.filename else name
  mime := f.mime
  size := f.data.length
  sha256 := c.hexdigest f.data
  receivedAt := f.receivedAt

end Settings

/-! ## The store -/

structure File where
  data : Data
  mtime : Int
  deriving DecidableEq

structure Core where
  now : Int
  disk : List (Str × File)
  records : List (Str × Str)
  live : List Str
  returned : List (Str × Data)
  touched : List Str
  deriving DecidableEq

namespace Core

variable (b : Core)

def fileAt (path : Str) : Option File := b.disk.lookup path

def recordAt (key : Str) : Str := (b.records.lookup key).getD []

def entries (key : Str) : List ReceivedFile := readRecord (b.recordAt key)

/-- `received_files_for(dir).list`. -/
def list (c : Settings) (dir : Str) : List ReceivedFile := b.entries (c.recordPath dir)

/-- A file of these bytes is there now, as a save or a move leaves it. -/
def place (path : Str) (file : File) : Core := { b with disk := Dict.assign path file b.disk }

/-- The store keeps a file at the path, whatever was done to one there before. -/
def keep (path : Str) : Core :=
  { b with live := path :: b.live, touched := b.touched.filter (· ≠ path) }

/-- The store takes the file away. -/
def take (path : Str) : Core :=
  { b with
    disk := Dict.remove path b.disk
    live := b.live.filter (· ≠ path)
    returned := Dict.remove path b.returned }

/-- Somebody else writes to a path, or deletes what is there. -/
def touch (path : Str) (data : Option Data) : Core :=
  { b with
    disk := match data with
      | some data => Dict.assign path ⟨data, b.now⟩ b.disk
      | none => Dict.remove path b.disk
    touched := path :: b.touched }

def append (key : Str) (rs : List ReceivedFile) : Core :=
  { b with records := Dict.assign key (b.recordAt key ++ render rs) b.records }

/-- The record is written anew, or removed where nothing stays in it. -/
def rewrite (key : Str) (staying : List ReceivedFile) : Core :=
  { b with
    records :=
      if staying = [] then Dict.remove key b.records
      else Dict.assign key (render staying) b.records }

/-- A call returns the paths, each saved with the data where this is known. -/
def ret (paths : List (Str × Option Data)) : Core :=
  { b with
    returned := paths.foldl (fun returned x =>
      match x.2 with
      | some data => if x.1 ∈ b.live then Dict.assign x.1 data returned else returned
      | none => returned) b.returned }

end Core

inductive ReadError
  | gone
  | changed
  deriving DecidableEq

/-- `received_files_for(dir).read`. -/
def read (c : Settings) (b : Core) (dir : Str) (file : ReceivedFile) : Except ReadError Data :=
  if file.path ∉ (b.list c dir).map (·.path) then .error .changed
  else match b.fileAt file.path with
    | none => .error .gone
    | some x =>
      if x.data.length ≠ file.size then .error .changed
      else if c.hexdigest x.data ≠ file.sha256 then .error .changed
      else .ok x.data

/-! ## The calls -/

abbrev Arrived := List (ReceivedFile × Option Data)

/-- What a call goes on with when lines are dropped from a record: a save that made room, or the
move of a file to `target`, with the lines `moved` of it. -/
inductive After
  | saved (dir : Str) (f : IncomingFile) (files : List IncomingFile) (arrived : Arrived)
  | adopted (target : Str) (data : Option Data) (moved : List ReceivedFile)
  deriving DecidableEq

inductive Point
  | saving (dir : Str) (files : List IncomingFile) (arrived : Arrived)
  /-- `_write` found no file of the size. -/
  | writing (dir : Str) (f : IncomingFile) (files : List IncomingFile) (arrived : Arrived)
  /-- `_make_room`. -/
  | listing (dir : Str) (f : IncomingFile) (files : List IncomingFile) (arrived : Arrived)
  | evicting (dir : Str) (f : IncomingFile) (files : List IncomingFile) (arrived : Arrived)
      (held : Nat) (queue gone : List Str)
  /-- `_compact_record`, and the first half of `_move_record`. -/
  | dropping (key : Str) (gone : List Str) (after : After)
  | rewriting (key : Str) (gone : List Str) (staying : List ReceivedFile) (after : After)
  /-- `_record`. -/
  | adding (key : Str) (arrived : Arrived)
  | appending (key : Str) (arrived : Arrived) (new : List ReceivedFile)
  /-- `_move`, and whether a redelivery has been adopted already. -/
  | moving (source target : Str)
  | placing (source target : Str) (same : Bool)
  | ended
  deriving DecidableEq

/-- The oldest first: by time and name. -/
def older (x y : Str × File) : Prop :=
  x.2.mtime < y.2.mtime ∨ x.2.mtime = y.2.mtime ∧ baseName x.1 ≤ baseName y.1

instance : DecidableRel older := fun _ _ => inferInstanceAs (Decidable (_ ∨ _))

variable (c : Settings)

/-- A file is saved, and the next one's turn. -/
def saved (dir : Str) (f : IncomingFile) (files : List IncomingFile) (arrived : Arrived) : Point :=
  .saving dir files (arrived ++ [(c.arrival dir f, some f.data)])

/-- `_write` is done. -/
def written (dir : Str) (f : IncomingFile) (files : List IncomingFile) (arrived : Arrived) :
    Point :=
  if c.conversationMaxBytes = 0 then saved c dir f files arrived else .listing dir f files arrived

/-- `_make_room` evicts no more. -/
def evicted (dir : Str) (f : IncomingFile) (files : List IncomingFile) (arrived : Arrived)
    (gone : List Str) : Point :=
  if gone = [] then saved c dir f files arrived
  else .dropping (c.recordPath dir) gone (.saved dir f files arrived)

/-- The paths a call returns. -/
def paths (arrived : Arrived) : List (Str × Option Data) := arrived.map fun x => (x.1.path, x.2)

/-- The next access of a call to the disk. -/
def act (b : Core) : Point → Option (Core × Point)
  | .saving dir [] arrived =>
    some (b, if arrived = [] then .ended else .adding (c.recordPath dir) arrived)
  | .saving dir (f :: files) arrived =>
    if c.maxBytes < f.data.length then some (b, .saving dir files arrived)
    else if (b.fileAt (f.path dir)).any (·.data.length = f.data.length) then
      -- a redelivery, not new content
      some (b.keep (f.path dir), written c dir f files arrived)
    else some (b, .writing dir f files arrived)
  | .writing dir f files arrived =>
    some ((b.place (f.path dir) ⟨f.data, b.now⟩).keep (f.path dir), written c dir f files arrived)
  | .listing dir f files arrived =>
    match b.fileAt (f.path dir) with
    | none => some (b, .saving dir files arrived)
    | some kept =>
      let others := b.disk.filter fun x => within dir x.1 ∧ x.1 ≠ f.path dir
      let held := (others.map (·.2.data.length)).sum + kept.data.length
      if held ≤ c.conversationMaxBytes then some (b, saved c dir f files arrived)
      else some (b, .evicting dir f files arrived held
        ((others.insertionSort older).map Prod.fst) [])
  | .evicting dir f files arrived _ [] gone => some (b, evicted c dir f files arrived gone)
  | .evicting dir f files arrived held (path :: queue) gone =>
    if held ≤ c.conversationMaxBytes then some (b, evicted c dir f files arrived gone)
    else match b.fileAt path with
      | none => some (b, .saving dir files arrived)
      | some x => some (b.take path,
          .evicting dir f files arrived (held - x.data.length) queue (gone ++ [path]))
  | .dropping key gone after =>
    let moving := (b.entries key).filter (·.path ∈ gone)
    let staying := (b.entries key).filter (·.path ∉ gone)
    match after with
    | .saved dir f files arrived =>
      some (b, if moving = [] then saved c dir f files arrived
        else .rewriting key gone staying after)
    | .adopted target data _ =>
      if moving = [] then some (b.ret [(target, data)], .ended)
      else some (b, .rewriting key gone staying
        (.adopted target data (moving.map fun r => { r with path := target })))
  | .rewriting key _ staying after =>
    let b := b.rewrite key staying
    match after with
    | .saved dir f files arrived => some (b, saved c dir f files arrived)
    | .adopted target data moved =>
      some (b, .adding (c.recordPath (parent target)) (moved.map fun r => (r, data)))
  | .adding key arrived =>
    let known := (b.entries key).map (·.path)
    let new := (arrived.map Prod.fst).filter (·.path ∉ known)
    -- a redelivery: the same files again
    if new = [] then some (b.ret (paths arrived), .ended)
    else some (b, .appending key arrived new)
  | .appending key arrived new => some ((b.append key new).ret (paths arrived), .ended)
  | .moving source target =>
    match b.fileAt target, b.fileAt source with
    | some t, some x => some (b, .placing source target (t.data.length = x.data.length))
    | some _, none => some (b, .ended)
    | none, _ => some (b, .placing source target false)
  | .placing source target same =>
    match b.fileAt source with
    | none => some (b, .ended)
    | some x =>
      let after := .dropping (c.recordPath (parent source)) [source]
        (.adopted target (b.returned.lookup source) [])
      if same then
        let b' := b.take source
        some (if (b.returned.lookup source).isSome then b'.keep target else b', after)
      else
        let b' := ((b.take source).place target x).keep target
        -- what somebody wrote there has moved with the file
        some (if source ∈ b.touched then { b' with touched := target :: b'.touched } else b', after)
  | .ended => none

abbrev State := Pool Core Point

inductive Label
  | tick (n : Nat)
  | saveMany (agent conversationId : Str) (files : List IncomingFile)
  | adopt (agent conversationId path : Str)
  | step (i : Nat)
  | outside (path : Str) (data : Option Data)

def next (s : State) : Label → Option State
  | .tick n => some { s with store := { s.store with now := s.store.now + n } }
  | .saveMany agent conversationId files =>
    some (s.start (.saving (c.conversationDir agent conversationId) files []))
  | .adopt agent conversationId path =>
    let dir := c.conversationDir agent conversationId
    some (s.start (
      if parent path = dir then .ended
      -- not ours to move
      else if within (c.dirFor agent) path = false then .ended
      else .moving path (dir ++ '/' :: baseName path)))
  | .step i => s.exec (fun k b => act c b k) i
  | .outside path data => some { s with store := s.store.touch path data }

def lts : Lts State Label where
  init s := s = ⟨⟨0, [], [], [], [], []⟩, []⟩
  next := next c

end Received
