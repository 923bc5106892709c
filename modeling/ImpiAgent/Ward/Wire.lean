import ImpiAgent.Gateways.Internal
import ImpiAgent.Lib.Text
import ImpiAgent.Ward.Broker

/-!
# The secret protocol

What travels between an agent's `secret-exec` and the broker: references to secrets (`parseRef`),
the command line of the client and the request it makes of it (`SecretExec.parse`, `payload`), the
door an agent asks at, which reads the request and answers a lease in one of two words or with the
values (`leaseRequest`, `door`), and what the client does with the answer (`SecretExec.finish`).

`identifier` is `str.isidentifier`, `shown` is `str` of a value that is no string. What is printed
beside an exit code is left out, and so is the session, which the broker knows nothing of.
-/

namespace Ward

open Json Prog Text
open Internal (get truthy)

/-! ## References -/

/-- `text.partition(sep)`: none after it where it does not occur. -/
def cut (sep : Char) (text : String) : String × Option String :=
  let s := text.toList
  (.ofList (s.takeWhile (· ≠ sep)), (s.dropWhile (· ≠ sep)).tail?.map .ofList)

/-- `$`, at the end of a text or before a newline that ends it. -/
def atEnd (s : Str) : Bool := s = [] || s = ['\n']

def isLower (c : Char) : Bool := 'a' ≤ c && c ≤ 'z' || '0' ≤ c && c ≤ '9'

def isNameChar (c : Char) : Bool := isLower c || c = '.' || c = '_' || c = '-'

def isFieldChar (c : Char) : Bool := isNameChar c || 'A' ≤ c && c ≤ 'Z'

/-- `_NAME`. -/
def isName : Str → Bool
  | [] => false
  | c :: s =>
    isLower c && (s.takeWhile isNameChar).length ≤ 63 && atEnd (s.dropWhile isNameChar)

/-- `_FIELD`. -/
def isField (s : Str) : Bool :=
  let run := s.takeWhile isFieldChar
  1 ≤ run.length && run.length ≤ 64 && atEnd (s.dropWhile isFieldChar)

def schemes : List Str := [str "vault://", str "secret://"]

/-- What is wrong with a reference. -/
inductive RefError
  | scheme (raw : String)
  | name (name : String)
  | field (field : String)
  deriving DecidableEq

def parseRef (raw : String) : Except RefError SecretRef :=
  let text := (strip raw).toList
  match schemes.find? (·.isPrefixOf text) with
  | none => .error (.scheme raw)
  | some scheme =>
    let parts := cut '#' (.ofList (text.drop scheme.length))
    let name := parts.1
    let field := parts.2.getD "value"
    if ¬isName name.toList then .error (.name name)
    else if ¬isField field.toList then .error (.field field)
    else .ok ⟨name, field⟩

section

variable (identifier : String → Bool)

/-! ## The client's command line -/

namespace SecretExec

/-- Where the command line is wrong. -/
inductive Usage
  | noSeparator
  | noCommand
  | unknownOption (option : String)
  | needsValue (option : String)
  | noReference (value : String)
  | notAName (name : String)
  | givenTwice (name : String)
  | malformed (error : RefError)
  | nothingToFetch
  deriving DecidableEq

def flags : List String := ["--env", "-e", "--reason"]

/-- What the options said so far. -/
structure Taken where
  bindings : List (String × String)
  reason : String
  deriving DecidableEq

/-- What one option and its value do; the names `seen` are those of the bindings. -/
def Taken.take (t : Taken) (flag value : String) : Except Usage Taken :=
  if flag ∈ ["--env", "-e"] then
    match cut '=' value with
    | (_, none) => .error (.noReference value)
    | (name, some ref) =>
      if ¬identifier name then .error (.notAName name)
      else if name ∈ t.bindings.map Prod.fst then .error (.givenTwice name)
      else
        match parseRef ref with
        | .error e => .error (.malformed e)
        | .ok _ => .ok { t with bindings := t.bindings ++ [(name, ref)] }
  else .ok { t with reason := value }

/-- The `while` of `_parse`, with `_value_for`: a value is in its option or follows it. -/
def parseOptions (t : Taken) : List String → Except Usage Taken
  | [] => .ok t
  | option :: options =>
    if (cut '=' option).1 ∉ flags then .error (.unknownOption option)
    else
      match (cut '=' option).2, options with
      | some value, options =>
        match t.take identifier (cut '=' option).1 value with
        | .error e => .error e
        | .ok t => parseOptions t options
      | none, [] => .error (.needsValue option)
      | none, value :: options =>
        match t.take identifier (cut '=' option).1 value with
        | .error e => .error e
        | .ok t => parseOptions t options

/-- `_parse`. -/
def parse (args : List String) : Except Usage (Taken × List String) :=
  if "--" ∉ args then .error .noSeparator
  else
    let split := args.idxOf "--"
    let options := args.take split
    let command := args.drop (split + 1)
    if command = [] then .error .noCommand
    else
      match parseOptions identifier ⟨[], ""⟩ options with
      | .error e => .error e
      | .ok t => if t.bindings = [] then .error .nothingToFetch else .ok (t, command)

/-- What is posted. -/
def payload (t : Taken) (command : List String) : PyValue :=
  Internal.record [
    ("bindings", .list (t.bindings.map fun x =>
      Internal.record [("env", .str x.1), ("ref", .str x.2)])),
    ("reason", .str t.reason),
    ("command", .list (command.map .str))]

end SecretExec

/-! ## The agent's door -/

variable (shown : PyValue → String)

/-- `str(v or "")`. -/
def strOr : Option PyValue → String
  | none => ""
  | some (.str s) => s
  | some v => if truthy v then shown v else ""

/-- `str(v)`. -/
def strOf : PyValue → String
  | .str s => s
  | v => shown v

/-- What is wrong with a request. -/
inductive BadRequest
  | notAnObject
  | noBindings
  | notABinding
  | notAName (name : String)
  | malformed (error : RefError)
  | tooMany
  deriving DecidableEq

def maxSecretsPerRequest : Nat := 5

/-- One of `body["bindings"]`. -/
def binding : PyValue → Except BadRequest (String × SecretRef)
  | .dict item =>
    let envName := strOr shown (get "env" (.dict item))
    if ¬identifier envName then .error (.notAName envName)
    else
      match parseRef (strOr shown (get "ref" (.dict item))) with
      | .error e => .error (.malformed e)
      | .ok ref => .ok (envName, ref)
  | _ => .error .notABinding

/-- `command` of a request, where it is a list. -/
def commandOf : Option PyValue → List String
  | some (.list parts) => parts.map (strOf shown)
  | _ => []

/-- `_lease_request`. -/
def leaseRequest (agent : String) : PyValue → Except BadRequest LeaseRequest
  | .dict items =>
    match get "bindings" (.dict items) with
    | some (.list (item :: raw)) =>
      match (item :: raw).mapM (binding identifier shown) with
      | .error e => .error e
      | .ok bindings =>
        if maxSecretsPerRequest < (bindings.map (·.2.name)).dedup.length then .error .tooMany
        else
          .ok {
            agent := agent
            bindings := bindings
            reason := strOr shown (get "reason" (.dict items))
            command := commandOf shown (get "command" (.dict items)) }
    | _ => .error .noBindings
  | _ => .error .notAnObject

def wireRefused : String := "refused"
def wireUnavailable : String := "unavailable"

/-- `UNAVAILABLE_DECISIONS`. -/
def unavailableDecisions : List Decision := [.locked, .sealed, .backendError]

/-- `wire_status`. -/
def wireStatus (decision : Decision) : String :=
  if decision ∈ unavailableDecisions then wireUnavailable else wireRefused

/-- What the door answers: of a request it turned away, and of a lease. -/
inductive Response
  | notAnAgent
  | malformed (error : BadRequest)
  | refused (status : String)
  | granted (values : List (String × String))
  deriving DecidableEq

def LeaseResult.response (result : LeaseResult) : Response :=
  if ¬result.granted then .refused (wireStatus result.decision) else .granted result.values

/-- `OPERATOR_CN`. -/
def operatorCn : String := "operator"

/-- `_lease`; the agent is the one its certificate names, the body none where it is no JSON. -/
def door (b : Broker) (d : Draws) (agent : String) (body : Option PyValue) : Lease Response :=
  if agent = "" ∨ agent = operatorCn then return .notAnAgent
  else
    match leaseRequest identifier shown agent (body.getD (.dict [])) with
    | .error e => return .malformed e
    | .ok r => do
      let result ← lease b d r
      return result.response

/-! ## What the client does with the answer -/

namespace SecretExec

/-- What `urlopen` came to: `ssl.SSLError`, an `HTTPError`, another failure, or the answer. -/
inductive Answer
  | handshake
  | status (code : Nat)
  | unreachable
  | body (answer : PyValue)

inductive Outcome
  | exits (code : Nat)
  | runs (command : List String) (env : List (String × String))
  deriving DecidableEq

def exitUsage : Nat := 64
def exitUnavailable : Nat := 75
def exitRefused : Nat := 77
def exitConfig : Nat := 78

/-- `{**environ, **values}`. -/
def updated (environ values : List (String × String)) : List (String × String) :=
  values.foldl (fun env x => Dict.assign x.1 x.2 env) environ

/-- `main` from the answer on: `execvpe` is given the command and the environment. The keys of an
answer are strings. -/
def finish (environ : List (String × String)) (command : List String) : Answer → Outcome
  | .handshake => .exits exitConfig
  | .status code => .exits (if code = 400 then exitUsage else exitConfig)
  | .unreachable => .exits exitUnavailable
  | .body answer =>
    if ((get "granted" answer).any truthy) = false then
      match get "status" answer with
      | some (.str status) =>
        .exits (if status = wireUnavailable then exitUnavailable else exitRefused)
      | _ => .exits exitRefused
    else
      match (get "values" answer).filter truthy with
      | none => .runs command environ
      | some (.dict values) =>
        .runs command (updated environ (values.map fun x => (x.1.text.getD "", strOf shown x.2)))
      | some _ => .exits exitRefused

end SecretExec

/-- The door's answer on the wire; what its lease raised is an internal error. -/
def Response.sent : Except Exc Response → SecretExec.Answer
  | .error _ => .status 500
  | .ok .notAnAgent => .status 403
  | .ok (.malformed _) => .status 400
  | .ok (.refused status) =>
    .body (Internal.record [("granted", .bool false), ("status", .str status)])
  | .ok (.granted values) =>
    .body (Internal.record [("granted", .bool true),
      ("values", Internal.record (values.map fun x => (x.1, .str x.2)))])

end

end Ward
