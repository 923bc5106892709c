import ImpiAgent.Connections.Records
import ImpiAgent.Lib.Pool

/-!
# Connecting, refreshing, ending and moving connections

The calls of `OAuthConnections` in any number of processes over one table of connections. A call is
at one of its awaits, or between two where it opens tokens with its process's keys (`Point`); what
happens to it there is an `Action`: the store carries its statement out and answers, the statement
raises (carried out or not; a cancelled call too), the provider answers or does not. A finish begins
where it exchanges the code: its link is taken by then. A sleep takes any time.

The rest of `World` but the rows and the clock is history, and nothing reads it: the pairs providers
issued, those a revoke was attempted of, those given up without one, which pair took the place of
which in a record, and the refresh requests sent and rotations stored.
-/

namespace Connections

/-- How the processes are set up: the providers each is configured for, and `lease_s`, `poll_s` and
`refresh_skew_s` in microseconds. -/
structure Deployment where
  backend : Backend
  configured : Nat → String → Bool
  lease : Int
  poll : Int
  skew : Int

/-- A pair a provider issued: to a connect, or to a rotation of a connection. -/
structure Issue where
  rotates : Option Nat
  renews : Bool
  deriving DecidableEq

inductive Entry
  | sent (c : Credential)
  | stored (c : Credential)
  deriving DecidableEq

structure World where
  clock : Moment
  rows : Rows
  connects : Nat
  issued : List Issue
  revokes : List Nat
  givenUp : List Nat
  supersedes : List (Nat × Nat)
  log : List Entry

namespace World

def nowIso (w : World) : Time := Clock.toIso w.clock

def advance (w : World) (d : Nat) : World := { w with clock := w.clock + d }

/-- A provider issues a pair, numbered by those before it. -/
def issue (w : World) (rotates : Option Nat) (renews : Bool) : World :=
  { w with issued := w.issued ++ [⟨rotates, renews⟩] }

def tokens (w : World) (renews : Bool) (expiresIn : Option Int) : Tokens :=
  ⟨w.issued.length, renews, expiresIn⟩

def revoke (w : World) (pairs : List Nat) : World := { w with revokes := w.revokes ++ pairs }

def giveUp (w : World) (pairs : List Nat) : World := { w with givenUp := w.givenUp ++ pairs }

def note (w : World) (e : Entry) : World := { w with log := w.log ++ [e] }

/-- The rotation of `r` to `r'` is stored. -/
def stored (w : World) (r r' : ConnectionRecord) : World :=
  { w with
    rows := w.rows.put ⟨r', none⟩
    supersedes := w.supersedes ++ (r.pairs.filter (· ∉ r'.pairs)).map (·, r'.access)
    log := w.log ++ [.stored r.credential] }

/-- `delete_connection`. -/
def delete (w : World) (k : Key) (c : Credential) : Bool × World :=
  match w.rows.deleteConnection k c with
  | (deleted, rows) => (deleted, { w with rows })

/-- `delete_connection` of a record that is not revoked. -/
def discard (w : World) (r : ConnectionRecord) : World :=
  match w.delete r.key r.credential with
  | (true, w') => w'.giveUp r.pairs
  | (false, w') => w'

/-- `replace_connection`. -/
def replace (w : World) (r r' : ConnectionRecord) : Bool × World :=
  match w.rows.replaceConnection r' r.version with
  | (true, _) => (true, w.stored r r')
  | (false, _) => (false, w)

end World

/-- A call of `OAuthConnections`, by the await it is at. -/
inductive Point
  -- finish
  | exchanging (key : Key)
  | identifying (key : Key) (t : Tokens)
  | readingPrevious (key : Key) (t : Tokens)
  | saving (t : Tokens) (r : ConnectionRecord) (previous : Option ConnectionRecord)
  | revokingTokens (pair : Nat)
  | revokingStored (r : ConnectionRecord)
  -- forget
  | forgetting (owner : String) (grant : ConnectionRecord)
  | forgetDeleting (owner : String) (grant : ConnectionRecord) (record : Option ConnectionRecord)
  -- disconnect
  | disconnecting (key : Key) (left : Nat)
  | disconnectDeleting (r : ConnectionRecord) (left : Nat)
  -- move
  | moving (key key' : Key)
  -- grant
  | loading (key : Key)
  | opening (r : ConnectionRecord)
  | locking (key : Key)
  | refreshLoading (key : Key) (left : Nat)
  | refreshOpening (r : ConnectionRecord) (left : Nat)
  | claiming (r : ConnectionRecord) (left : Nat) (now till : Time)
  | waiting (r : ConnectionRecord) (left polls : Nat)
  | rotating (r : ConnectionRecord) (till : Time)
  | requesting (r : ConnectionRecord) (till : Time)
  | rejectedReading (r : ConnectionRecord) (till : Time)
  | ending (r : ConnectionRecord) (till : Time)
  | releasing (r : ConnectionRecord) (till : Time)
  | replacing (r : ConnectionRecord) (till : Time) (r' : ConnectionRecord)
  | checking (r : ConnectionRecord) (pair : Nat)
  | revokingFresh (key : Key) (pair : Nat)
  | reloading (key : Key)
  | reopening (r : ConnectionRecord)
  | dropping (r : ConnectionRecord)
  -- over
  | granted (r : ConnectionRecord)
  | moved (done : Bool)
  | returned
  | notConnected
  | raised
  deriving DecidableEq

/-- What happens to a call at its await. -/
inductive Action
  | answered
  | raised (landed : Bool)
  | opened (opens : Bool)
  | issued (renews : Bool) (expiresIn : Option Int)
  | rejected
  | unavailable
  | identified (owner : String)
  | refused
  deriving DecidableEq

/-- The point of a call that has the record it asked for. -/
def found (r : Option ConnectionRecord) (f : ConnectionRecord → Point) : Point :=
  r.elim .notConnected f

/-- The next pass of `_refresh`. -/
def pass (key : Key) : Nat → Point
  | 0 => .raised
  | left + 1 => .refreshLoading key left

/-- The next pass of `disconnect`. -/
def disconnectPass (key : Key) : Nat → Point
  | 0 => .raised
  | left + 1 => .disconnecting key left

/-- How often `_wait_for_rotation` looks: `max(1, ceil(lease_s / poll_s))`. -/
def Deployment.polls (D : Deployment) : Nat := max 1 (-(-D.lease / D.poll)).toNat

namespace Point

/-- `finish`, from the exchange of the code on. -/
def finish (w : World) (k : Point) (a : Action) : Option (World × Point) :=
  match k, a with
  | .exchanging key, .issued renews expiresIn =>
    some (w.issue none renews, .identifying key (w.tokens renews expiresIn))
  | .exchanging _, .rejected | .exchanging _, .unavailable => some (w, .raised)
  | .identifying key t, .identified owner => some (w, .readingPrevious ⟨owner, key.provider⟩ t)
  | .identifying _ t, .refused => some (w, .revokingTokens t.pair)
  | .readingPrevious key t, .answered =>
    some ({ w with connects := w.connects + 1 },
      .saving t (.make key t w.connects w.clock) (w.rows.getConnection key))
  | .readingPrevious .., .raised _ => some (w, .raised)
  | .saving _ r previous, .answered =>
    some ({ w with rows := w.rows.saveConnection r }, previous.elim .returned .revokingStored)
  | .saving t r _, .raised landed =>
    some (if landed then { w with rows := w.rows.saveConnection r } else w, .revokingTokens t.pair)
  | .revokingTokens pair, .answered => some (w.revoke [pair], .raised)
  | _, _ => none

/-- `_revoke_stored`: it needs the provider and the keys. -/
def revokeStored (D : Deployment) (process : Nat) (w : World) (k : Point) (a : Action) :
    Option (World × Point) :=
  match k, a with
  | .revokingStored r, .opened opens =>
    some (if D.configured process r.key.provider && opens then w.revoke r.pairs
      else w.giveUp r.pairs, .returned)
  | _, _ => none

def forget (w : World) (k : Point) (a : Action) : Option (World × Point) :=
  match k, a with
  | .forgetting owner g, .answered =>
    some (w, .forgetDeleting owner g (w.rows.getConnection ⟨owner, g.key.provider⟩))
  | .forgetting .., .raised _ => some (w, .raised)
  | .forgetDeleting owner g record, .answered =>
    some <| match w.delete ⟨owner, g.key.provider⟩ g.credential with
      | (true, w') =>
        (w', (record.filter (·.credential = g.credential)).elim .returned .revokingStored)
      | (false, w') => (w', .returned)
  | .forgetDeleting owner g _, .raised landed =>
    some (if landed then (w.delete ⟨owner, g.key.provider⟩ g.credential).2 else w, .raised)
  | _, _ => none

def disconnect (w : World) (k : Point) (a : Action) : Option (World × Point) :=
  match k, a with
  | .disconnecting key left, .answered =>
    some (w, (w.rows.getConnection key).elim .returned (.disconnectDeleting · left))
  | .disconnecting .., .raised _ => some (w, .raised)
  | .disconnectDeleting r left, .answered =>
    some <| match w.delete r.key r.credential with
      | (true, w') => (w', .revokingStored r)
      | (false, w') => (w', disconnectPass r.key left)
  | .disconnectDeleting r _, .raised landed =>
    some (if landed then (w.delete r.key r.credential).2 else w, .raised)
  | _, _ => none

def move (D : Deployment) (w : World) (k : Point) (a : Action) : Option (World × Point) :=
  match k, a with
  | .moving key key', .answered =>
    match w.rows.moveConnection D.backend key key' with
    | (ok, rows) => some ({ w with rows }, .moved ok)
  | .moving key key', .raised landed =>
    some (if landed then { w with rows := (w.rows.moveConnection D.backend key key').2 } else w,
      .raised)
  | _, _ => none

/-- `grant` and the passes of `_refresh`, up to the claim of the lease. -/
def grant (D : Deployment) (w : World) (k : Point) (a : Action) : Option (World × Point) :=
  match k, a with
  | .loading key, .answered => some (w, found (w.rows.getConnection key) .opening)
  | .opening r, .opened opens =>
    some (w, if !opens then .dropping r else if r.fresh D.skew w.clock then .granted r
      else .locking r.key)
  | .refreshLoading key left, .answered =>
    some (w, found (w.rows.getConnection key) (.refreshOpening · left))
  | .refreshOpening r left, .opened opens =>
    some (w, if !opens then .dropping r else if r.fresh D.skew w.clock then .granted r
      else .claiming r left w.nowIso (Clock.toIso (w.clock + D.lease)))
  | .claiming r left now till, .answered =>
    some <| match w.rows.claimRefresh r.key r.credential now till with
      | (true, rows) => ({ w with rows }, .rotating r till)
      | (false, rows) => ({ w with rows }, .waiting r left D.polls)
  | .claiming r _ now till, .raised landed =>
    some (if landed then { w with rows := (w.rows.claimRefresh r.key r.credential now till).2 }
      else w, .raised)
  | .waiting r left polls, .answered =>
    some (w, if (w.rows.getConnection r.key).all (·.credential ≠ r.credential) then pass r.key left
      else match polls with
        | 0 | 1 => pass r.key left
        | polls + 1 => .waiting r left polls)
  | .dropping r, .answered => some (w.discard r, .notConnected)
  | .dropping r, .raised landed => some (if landed then w.discard r else w, .raised)
  | .loading _, .raised _ | .locking _, .raised _ | .refreshLoading .., .raised _
  | .waiting .., .raised _ => some (w, .raised)
  | _, _ => none

/-- `_rotate`. -/
def rotate (D : Deployment) (process : Nat) (w : World) (k : Point) (a : Action) :
    Option (World × Point) :=
  match k, a with
  | .rotating r till, .opened opens =>
    some <| if !D.configured process r.key.provider then (w, .raised)
      else if r.refresh = none || !opens then (w, .ending r till)
      else (w.note (.sent r.credential), .requesting r till)
  | .requesting r till, .issued renews expiresIn =>
    some (w.issue (some r.connectId) renews,
      .replacing r till (r.rotated (w.tokens renews expiresIn) w.clock))
  | .requesting r till, .rejected => some (w, .rejectedReading r till)
  | .requesting r till, .unavailable => some (w, .releasing r till)
  | .rejectedReading r till, .answered =>
    some (w, match w.rows.getConnection r.key with
      | some latest => if latest.credential ≠ r.credential then .granted latest else .ending r till
      | none => .ending r till)
  | .ending r _, .answered => some (w.discard r, .notConnected)
  | .ending r _, .raised landed => some (if landed then w.discard r else w, .raised)
  | .releasing r _, .answered =>
    some ({ w with rows := w.rows.releaseRefresh r.key r.credential }, .raised)
  | .releasing r _, .raised landed =>
    some (if landed then { w with rows := w.rows.releaseRefresh r.key r.credential } else w,
      .raised)
  | .replacing r _ r', .answered =>
    some <| match w.replace r r' with
      | (true, w') => (w', .granted r')
      | (false, w') => (w', .checking r r'.access)
  | .replacing r _ r', .raised landed => some (if landed then (w.replace r r').2 else w, .raised)
  | .checking r pair, .answered =>
    some <| if (w.rows.getConnection r.key).all (·.connectId ≠ r.connectId) then
        (w, .revokingFresh r.key pair)
      else (w.giveUp [pair], .reloading r.key)
  | .revokingFresh key pair, .answered => some (w.revoke [pair], .reloading key)
  | .reloading key, .answered => some (w, found (w.rows.getConnection key) .reopening)
  | .reopening r, .opened opens => some (w, if opens then .granted r else .dropping r)
  | .rejectedReading .., .raised _ | .checking .., .raised _ | .reloading _, .raised _ =>
    some (w, .raised)
  | _, _ => none

/-- Nothing happens any more. -/
def done : Point → Bool
  | .granted _ | .moved _ | .returned | .notConnected | .raised => true
  | _ => false

/-- What a call at `k` does next. -/
def next (D : Deployment) (process : Nat) (w : World) (k : Point) (a : Action) :
    Option (World × Point) :=
  match k with
  | .exchanging _ | .identifying .. | .readingPrevious .. | .saving .. | .revokingTokens _ =>
    k.finish w a
  | .revokingStored _ => k.revokeStored D process w a
  | .forgetting .. | .forgetDeleting .. => k.forget w a
  | .disconnecting .. | .disconnectDeleting .. => k.disconnect w a
  | .moving .. => k.move D w a
  | .loading _ | .opening _ | .locking _ | .refreshLoading .. | .refreshOpening .. | .claiming ..
  | .waiting .. | .dropping _ => k.grant D w a
  | .rotating .. | .requesting .. | .rejectedReading .. | .ending .. | .releasing ..
  | .replacing .. | .checking .. | .revokingFresh .. | .reloading _ | .reopening _ =>
    k.rotate D process w a
  | .granted _ | .moved _ | .returned | .notConnected | .raised => none

end Point

/-- A call in its process, with the lock of `_locks` it holds. -/
structure Call where
  process : Nat
  lock : Option Key
  point : Point
  deriving DecidableEq

/-- The call goes on to `k`; one that is done has left the lock. -/
def Call.goes (c : Call) (k : Point) : Call :=
  { c with lock := if k.done then none else c.lock, point := k }

abbrev State := Pool World Call

/-- Nobody in the process holds the lock of the key. -/
def Unlocked (s : State) (process : Nat) (key : Key) : Prop :=
  ∀ c ∈ s.calls, ∀ d ∈ c, ¬ (d.process = process ∧ d.lock = some key)

instance (s : State) (process : Nat) (key : Key) : Decidable (Unlocked s process key) :=
  inferInstanceAs (Decidable (∀ c ∈ s.calls, ∀ d ∈ c, _))

inductive Event
  | advance (d : Nat)
  | finish (process : Nat) (key : Key)
  | grant (process : Nat) (key : Key)
  /-- Call `j`'s grant did not work. -/
  | forget (process : Nat) (owner : String) (j : Nat)
  | disconnect (process : Nat) (key : Key)
  | move (process : Nat) (key : Key) (newOwner : String)
  | lock (i : Nat)
  | act (i : Nat) (a : Action)
  | drop (i : Nat)
  deriving DecidableEq

/-- Call `i` takes its process's lock of the key. -/
def onLock (s : State) (i : Nat) : Option State :=
  match s.calls[i]? with
  | some (some ⟨process, _, .locking key⟩) =>
    if Unlocked s process key then
      some (s.put i s.store ⟨process, some key, .refreshLoading key 1⟩)
    else none
  | _ => none

def onAct (D : Deployment) (s : State) (i : Nat) (a : Action) : Option State :=
  match s.calls[i]? with
  | some (some c) =>
    (c.point.next D c.process s.store a).map fun q => s.put i q.1 (c.goes q.2)
  | _ => none

def begin (s : State) (process : Nat) (k : Point) : State := s.start ⟨process, none, k⟩

def next (D : Deployment) (s : State) : Event → Option State
  | .advance d => some { s with store := s.store.advance d }
  | .finish process key =>
    if D.configured process key.provider then some (begin s process (.exchanging key)) else none
  | .grant process key => some (begin s process (.loading key))
  | .forget process owner j =>
    match s.calls[j]? with
    | some (some ⟨_, _, .granted r⟩) => some (begin s process (.forgetting owner r))
    | _ => none
  | .disconnect process key => some (begin s process (.disconnecting key 2))
  | .move process key newOwner =>
    some (begin s process (.moving key ⟨newOwner, key.provider⟩))
  | .lock i => onLock s i
  | .act i a => onAct D s i a
  | .drop i => some (s.kill i)

/-- The calls, over an empty table. -/
def lts (D : Deployment) : Lts State Event where
  init s := s.store.rows = .empty ∧ s.store.connects = 0 ∧ s.store.issued = [] ∧
    s.store.revokes = [] ∧ s.store.givenUp = [] ∧ s.store.supersedes = [] ∧ s.store.log = [] ∧
    s.calls = []
  next := next D

namespace Sample

def deployment : Deployment := ⟨.sqlite, fun _ _ => true, 45000000, 500000, 60000000⟩

def start : State := ⟨⟨0, .empty, 0, [], [], [], [], []⟩, []⟩

def key : Key := ⟨"web:ann", "github"⟩

/-- Call `i` finishes a connect of `key`: up to its save. -/
def connecting (i : Nat) : List Event :=
  [.finish 0 key, .act i (.issued true (some 60)), .act i (.identified "web:ann"), .act i .answered]

end Sample

end Connections
