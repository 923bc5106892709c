import ImpiAgent.Approvals.Controls
import ImpiAgent.Ward.Autorules
import ImpiAgent.Ward.Broker
import ImpiAgent.Lib.Pool

/-!
# Policies written from chat and from the CLI

`_policy` of `ward/chatops.py` over `Operations`, and the table of policies under both. A call
moves from one await to the next: a form reads the policies, then `put_policy` reads the one it
replaces and writes it whole. `delete_secret` is its one statement on this table. Rules are as
`Autorules` has them; a record's time is a text.

`Store.saved` notes of each write of a form what was stored before and after it.
-/

namespace Ward.PolicyForm

open Ward (Rule RuleError parse unparse encode decode)

structure SecretPolicyRecord where
  name : String
  approval : String
  maxGrantS : Int
  subjects : String
  description : String
  createdAt : String
  updatedAt : String
  autoCommands : String
  deriving DecidableEq

def SecretPolicyRecord.rules (p : SecretPolicyRecord) : List Rule := decode p.autoCommands

/-! ## The table -/

abbrev Policies := List SecretPolicyRecord

def getPolicy (ps : Policies) (name : String) : Option SecretPolicyRecord :=
  ps.find? (·.name = name)

/-- Keeps the time the row was made. -/
def putRow (ps : Policies) (p : SecretPolicyRecord) : Policies :=
  if (getPolicy ps p.name).isSome then
    ps.map fun q => if q.name = p.name then { p with createdAt := q.createdAt } else q
  else ps ++ [p]

def deletePolicy (ps : Policies) (name : String) : Policies := ps.filter (·.name ≠ name)

/-! ## The operations -/

structure PolicyJson where
  name : String
  approval : String
  maxGrantS : Int
  subjects : String
  description : String
  autoCommands : List String
  deriving DecidableEq

/-- `_policy_json`. -/
def policyJson (p : SecretPolicyRecord) : PolicyJson :=
  ⟨p.name, p.approval, p.maxGrantS, p.subjects, p.description, p.rules.map unparse⟩

structure Body where
  approval : Option String
  maxGrantS : Option Int
  subjects : Option String
  description : Option String
  autoCommands : Option (List String)

/-- `x or default`. -/
def orElse (x : Option String) (default : String) : String :=
  match x with
  | some s => if s = "" then default else s
  | none => default

/-- The record `put_policy` writes. -/
def recordOf (name : String) (body : Body) (existing : Option SecretPolicyRecord) (now : String) :
    Except RuleError SecretPolicyRecord := do
  let rules ← match body.autoCommands with
    | some written => (written.filter (Text.strip · ≠ "")).mapM parse
    | none => .ok (existing.elim [] (·.rules))
  return {
    name := name
    approval := orElse body.approval "always"
    maxGrantS := body.maxGrantS.getD 0
    subjects := orElse body.subjects ""
    description := orElse body.description ""
    createdAt := existing.elim now (·.createdAt)
    updatedAt := now
    autoCommands := encode rules }

/-! ## The form -/

/-- `_NEW_POLICY`. -/
def newPolicy (name : String) : PolicyJson := ⟨name, "always", 0, "", "", []⟩

structure Values where
  subjects : String
  approval : String
  maxGrant : String
  autoCommands : String
  deriving DecidableEq

def Blank (s : String) : Prop := Text.strip s = ""

instance (s : String) : Decidable (Blank s) := inferInstanceAs (Decidable (Text.strip s = ""))

/-- `_seconds`. -/
def seconds (chosen : String) (current : Int) : Int :=
  let chosen := Text.strip chosen
  if chosen = "" then current
  else if chosen = "none" then 0
  else (grantLadder.find? fun value => Approvals.humanize value = chosen).getD current

/-- The rules a form wrote, one a line. -/
def written (v : Values) : List String :=
  ((Text.lines (Text.strip v.autoCommands).toList).map fun line =>
    Text.strip (.ofList line)).filter (· ≠ "")

def rulesOf (v : Values) (current : PolicyJson) : List String :=
  if Blank v.autoCommands then current.autoCommands else written v

def subjectsOf (v : Values) (current : PolicyJson) : String :=
  if Blank v.subjects then current.subjects else Text.strip v.subjects

def approvalOf (v : Values) (current : PolicyJson) : String :=
  if Blank v.approval then current.approval else Text.strip v.approval

inductive Refusal
  | nobody
  | unread (e : RuleError)

/-- What `_policy` asks `put_policy` to store, with the policy it found. -/
def bodyOf (name : String) (v : Values) (found : Option PolicyJson) : Except Refusal Body :=
  let current := found.getD (newPolicy name)
  if subjectsOf v current = "" ∧ found = none then .error .nobody
  else
    match (rulesOf v current).mapM parse with
    | .error e => .error (.unread e)
    | .ok _ => .ok {
        approval := some (approvalOf v current)
        maxGrantS := some (seconds v.maxGrant current.maxGrantS)
        subjects := some (subjectsOf v current)
        description := some current.description
        autoCommands := some (rulesOf v current) }

/-! ## Calls in progress -/

/-- A form, with the policy it found. -/
structure Form where
  values : Values
  found : Option PolicyJson

/-- A call between two awaits; `form` is what asked for the write, if it was a form. -/
inductive Call
  | reading (name : String) (values : Values)
  | getting (name : String) (body : Body) (form : Option Form)
  | storing (record : SecretPolicyRecord) (form : Option Form)
  | removing (name : String)
  | refused (e : Refusal)
  | done

/-- A form's write. -/
structure Saved where
  form : Form
  before : Option SecretPolicyRecord
  after : Option SecretPolicyRecord

structure Store where
  now : String
  policies : Policies
  saved : List Saved

def step : Call → Store → Option (Store × Call)
  | .reading name values, s =>
    let found := (s.policies.map policyJson).find? (·.name = name)
    match bodyOf name values found with
    | .error e => some (s, .refused e)
    | .ok body => some (s, .getting name body (some ⟨values, found⟩))
  | .getting name body form, s =>
    match recordOf name body (getPolicy s.policies name) s.now with
    | .error e => some (s, .refused (.unread e))
    | .ok record => some (s, .storing record form)
  | .storing record form, s =>
    let policies := putRow s.policies record
    let saved := form.toList.map fun f =>
      ⟨f, getPolicy s.policies record.name, getPolicy policies record.name⟩
    some ({ s with policies, saved := s.saved ++ saved }, .done)
  | .removing name, s => some ({ s with policies := deletePolicy s.policies name }, .done)
  | .refused _, _ | .done, _ => none

abbrev State := Pool Store Call

inductive Label
  | form (name : String) (values : Values)
  | put (name : String) (body : Body)
  | delete (name : String)
  | step (i : Nat)
  /-- A call that raises, or whose process dies. -/
  | kill (i : Nat)
  | tick (now : String)

def next (s : State) : Label → Option State
  | .form name values => some (s.start (.reading name values))
  | .put name body => some (s.start (.getting name body none))
  | .delete name => some (s.start (.removing name))
  | .step i => s.exec step i
  | .kill i => some (s.kill i)
  | .tick now => some { s with store := { s.store with now } }

/-- Before the first policy. -/
def system : Lts State Label where
  init s := ∃ now, s = ⟨⟨now, [], []⟩, []⟩
  next := next

end Ward.PolicyForm
