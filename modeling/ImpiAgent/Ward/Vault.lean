import ImpiAgent.Lib.Dict
import ImpiAgent.Lib.Pool

/-!
# Replacing the broker's credential

`rotate` of `ward/vault.py` beside reads, over Vault. A call is at a `Point` while its request is
out. A label is Vault's answer to it, `none` where Vault cannot be reached, and what Vault did; a
request takes effect and is answered in one step.

Vault is honest: it answers 200 only to what it did, a list names every secret id of the role, and
no accessor is given out while another secret id has it. It may fail in any way, and what it
did before it could no longer be reached is done (`made`, `done`).
-/

namespace Vault

/-- How a rotation came out: the id it returned, with the secret ids of that moment, or that it
raised, where the credential the broker held worked before (`had`) and works now. -/
inductive Ended
  | returned (id : String) (live : List (String × String))
  | raised (had works : Bool)

structure Store where
  /-- The secret ids of the role, by accessor. -/
  live : List (String × String)
  roleId : String
  token : String
  secretId : String
  /-- The ids that rotations returned. -/
  told : List String
  ended : List Ended

/-- A credential that the broker holds, or told the operator, logs in. -/
def Store.works (s : Store) : Bool :=
  s.live.any fun x => x.2 = s.secretId || s.told.contains x.2

/-- What a request through `_kv` is for; a rotation notes whether a credential worked before. -/
inductive Job
  | mint (had : Bool)
  | list (had : Bool) (fresh keep : String)
  | read

/-- Where a call's request is: a login before anything else, the first request of `_kv`, the login
after it, the second, or the request to destroy a secret id. -/
inductive Point
  | entering (had : Bool)
  | asking (job : Job)
  | relogin (job : Job)
  | again (job : Job)
  | destroying (had : Bool) (fresh accessor : String) (rest : List String)
  | ended

abbrev State := Pool Store Point

/-! ## How a call goes on -/

/-- A call raises. -/
def raised (s : Store) : Option Bool → Store × Point
  | some had => ({ s with ended := s.ended ++ [.raised had s.works] }, .ended)
  | none => (s, .ended)

/-- The rotation a job is of. -/
def Job.had : Job → Option Bool
  | .mint had | .list had _ _ => some had
  | .read => none

/-- The rotation a call is. -/
def Point.had : Point → Option Bool
  | .entering had | .destroying had _ _ _ => some had
  | .asking job | .relogin job | .again job => job.had
  | .ended => none

/-- `_kv`. -/
def kv (s : Store) (job : Job) : Store × Point :=
  if s.token = "" then raised s job.had else (s, .asking job)

/-- `_login`, up to its request. -/
def login (s : Store) (had : Option Bool) (k : Point) : Store × Point :=
  if s.roleId = "" ∨ s.secretId = "" then raised s had else (s, k)

/-- The rest of `_login`, and how the call goes on. -/
def loggedIn (s : Store) (answer : Option (Nat × String)) (had : Option Bool)
    (k : Store → Store × Point) : Store × Point :=
  match answer with
  | none => raised s had
  | some (code, token) =>
    if code ≠ 200 then raised { s with token := "" } had
    else if token = "" then raised { s with token := "" } had
    else k { s with token }

/-- The secret ids that are left to destroy. -/
def destroyNext (s : Store) (had : Bool) (fresh : String) : List String → Store × Point
  | [] => ({ s with
      secretId := fresh
      told := s.told ++ [fresh]
      ended := s.ended ++ [.returned fresh s.live] }, .ended)
  | accessor :: rest => (s, .destroying had fresh accessor rest)

/-- What becomes of the answer with the new secret id. -/
def minted (s : Store) (had : Bool) (code : Nat) (fresh keep : String) : Store × Point :=
  if code ≠ 200 then raised s (some had)
  else if fresh = "" then raised s (some had)
  else kv s (.list had fresh keep)

/-- The status of the list is not looked at. -/
def listed (s : Store) (had : Bool) (fresh keep : String) (keys : List String) : Store × Point :=
  destroyNext s had fresh (keys.filter (· ≠ keep))

/-- The first request of `_kv` was answered with this code. -/
def answered (s : Store) (job : Job) (again : Bool) (code : Nat) (k : Store × Point) :
    Store × Point :=
  if code = 403 ∧ !again then login s job.had (.relogin job) else k

/-! ## Runs -/

inductive Label
  | rotate
  | read
  | loggedIn (i : Nat) (answer : Option (Nat × String))
  /-- The status, and the id and the accessor of the answer, empty where it has none. -/
  | minted (i : Nat) (answer : Option (Nat × String × String)) (made : Option (String × String))
  | listed (i : Nat) (answer : Option (Nat × List String))
  | destroyed (i : Nat) (answer : Option Nat) (done : Bool)
  | wasRead (i : Nat) (answer : Option Nat)

/-- What Vault made is new, and told as it is, if at all. -/
def honestMint (s : Store) (answer : Option (Nat × String × String))
    (made : Option (String × String)) : Bool :=
  (made.all fun x => !(s.live.map Prod.fst).contains x.1) &&
    match answer with
    | none => true
    | some (code, id, accessor) =>
      if code = 200 then
        made.any fun x => (accessor = x.1 || accessor = "") && (id = x.2 || id = "")
      else made = none

/-- A list names every secret id. -/
def honestList (s : Store) (code : Nat) (keys : List String) : Bool :=
  if code = 200 then keys.Perm (s.live.map Prod.fst) else keys = []

/-- A call and the request it has out, if that is through `_kv`: its job, and whether it is the
second. -/
def Point.request : Point → Option (Job × Bool)
  | .asking job => some (job, false)
  | .again job => some (job, true)
  | _ => none

def Store.destroy (s : Store) (accessor : String) (done : Bool) : Store :=
  if done then { s with live := Dict.remove accessor s.live } else s

/-- An answer to the call at `k`. -/
def answer (s : Store) (k : Point) : Label → Option (Store × Point)
  | .loggedIn _ a =>
    if a.any (·.1 = 200) ∧ !(s.live.map Prod.snd).contains s.secretId then none
    else
      match k with
      | .entering had => some (loggedIn s a (some had) fun s => kv s (.mint had))
      | .relogin job => some (loggedIn s a job.had fun s => (s, .again job))
      | _ => none
  | .minted _ a made =>
    match k.request with
    | some (.mint had, again) =>
      if honestMint s a made then
        let s := { s with live := s.live ++ made.toList }
        match a with
        | none => some (raised s (some had))
        | some (code, id, accessor) =>
          some (answered s (.mint had) again code (minted s had code id accessor))
      else none
    | _ => none
  | .listed _ a =>
    match k.request, a with
    | some (.list had _ _, _), none => some (raised s (some had))
    | some (.list had fresh keep, again), some (code, keys) =>
      if honestList s code keys then
        some (answered s (.list had fresh keep) again code (listed s had fresh keep keys))
      else none
    | _, _ => none
  | .destroyed _ a done =>
    match k with
    | .destroying had fresh accessor rest =>
      let s := s.destroy accessor done
      match a with
      | none => some (raised s (some had))
      | some code =>
        if done = decide (code = 200 ∨ code = 204) then some (destroyNext s had fresh rest)
        else none
    | _ => none
  | .wasRead _ a =>
    match k.request, a with
    | some (.read, _), none => some (raised s none)
    | some (.read, again), some code => some (answered s .read again code (s, .ended))
    | _, _ => none
  | .rotate | .read => none

/-- A new call. -/
def begin (s : State) (k : Store × Point) : State := { s.start k.2 with store := k.1 }

def next (s : State) : Label → Option State
  | .rotate =>
    let had := s.store.works
    some (begin s (if s.store.token = "" then login s.store (some had) (.entering had)
      else kv s.store (.mint had)))
  | .read => some (begin s (kv s.store .read))
  | .loggedIn i a => at' s i (.loggedIn i a)
  | .minted i a made => at' s i (.minted i a made)
  | .listed i a => at' s i (.listed i a)
  | .destroyed i a done => at' s i (.destroyed i a done)
  | .wasRead i a => at' s i (.wasRead i a)
where
  at' (s : State) (i : Nat) (l : Label) : Option State :=
    match s.calls[i]? with
    | some (some k) => (answer s.store k l).map fun q => s.put i q.1 q.2
    | _ => none

/-- A broker with whatever it holds, before any rotation. -/
def system : Lts State Label where
  init s := s.calls = [] ∧ s.store.told = [] ∧ s.store.ended = [] ∧ Dict.Distinct s.store.live
  next := next

end Vault
