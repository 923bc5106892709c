import ImpiAgent.Gateways.Internal
import ImpiAgent.Lib.Prog

/-!
# Calling an MCP server

`McpClient` over its two transports and `McpServers.call` over that, as programs: what other calls do
between two awaits is left to whoever answers (`Mcp.World`). A client is a number. Of a request its
method is kept; of a server's answer all that is looked at.
-/

namespace Mcp

open Json Prog
open Internal (truthy)

inductive Method
  | call
  | list
  | discover
  | initializeSession
  | initialized
  | reply
  deriving DecidableEq

/-- `PROTOCOL_VERSIONS`, the preferred one first. -/
inductive Version
  | modern
  | legacy
  deriving DecidableEq

def Version.text : Version → String
  | .modern => "2026-07-28"
  | .legacy => "2025-11-25"

def errorHeaderMismatch : Int := -32020

def errorMissingCapability : Int := -32021

def errorUnsupportedVersion : Int := -32022

def modernErrorCodes : List Int :=
  [errorHeaderMismatch, errorMissingCapability, errorUnsupportedVersion]

def maxAnswerBytes : Nat := 2 * 1024 * 1024

inductive Code
  | unreachable
  | refused
  | protocol
  | unsupported
  deriving DecidableEq

structure McpError where
  code : Code
  rpcCode : Option Int := none
  data : PyValue := .null
  status : Option Nat := none
  sent : Bool := true

/-- How a legacy HTTP server meets a modern request. -/
def McpError.legacySign (e : McpError) : Bool :=
  (e.status = some 400 || e.status = some 404 || e.status = some 405) && e.rpcCode.isNone

/-- What is raised: an `McpError`, another `Exception`, or a `CancelledError`. -/
inductive Raised
  | mcp (e : McpError)
  | other
  | cancelled

/-- An HTTP response, with what its readers make of it. -/
structure Response where
  status : Nat
  size : Nat
  /-- The content type is that of an event stream. -/
  events : Bool
  /-- `response.json()`, none where it raises. -/
  json : Option PyValue
  /-- The answer among its events. -/
  event : Option PyValue

/-- What a POST comes to. -/
inductive Posted
  | connectFailed
  | failed
  | response (r : Response)

/-- What the write of a line comes to: the input is closed, the line is passed on, or the writer waits
for room. -/
inductive Written
  | lost
  | passed (line : Nat)
  | waits (line : Nat)

/-- What waiting for an answer comes to. -/
inductive Answered
  | message (m : PyValue)
  | timeout
  | exited

/-- A client and what is known of its server. -/
structure Client where
  http : Bool
  version : Version
  probed : Bool
  initialized : Bool
  /-- The process of a stdio server. -/
  process : Option Nat

namespace Client

def legacy (c : Client) : Bool := c.version = .legacy

/-- `probes_era` of the transport. -/
def probesEra (c : Client) : Bool := !c.http

end Client

/-- What a program asks for. -/
inductive Cmd
  /-- `client`: the standing client of a server, made where there is none. -/
  | client (server : String)
  /-- A client of a call's own. -/
  | fresh (server : String)
  /-- `_clients.pop`. -/
  | pop (server : String)
  | look (c : Nat)
  | setVersion (c : Nat) (v : Version)
  | setProbed (c : Nat)
  | setInitialized (c : Nat)
  | post (c : Nat) (m : Method)
  /-- `_process`, and whether it runs. -/
  | process (c : Nat)
  | spawn (c : Nat)
  | write (pid : Nat) (m : Method)
  | drain (pid line : Nat)
  | answer (pid line : Nat)
  | close (c : Nat)
  deriving DecidableEq

def Cmd.Answer : Cmd → Type
  | .client _ | .fresh _ => Nat
  | .pop _ => Option Nat
  | .look _ => Client
  | .setVersion .. | .setProbed _ | .setInitialized _ | .close _ => Unit
  | .post .. => Posted
  | .process _ => Option (Nat × Bool)
  | .spawn _ => Option Nat
  | .write .. => Written
  | .drain .. => Bool
  | .answer .. => Answered

abbrev Routine := Prog Raised Cmd Cmd.Answer

def client (server : String) : Routine Nat := await (Cmd.client server)

def fresh (server : String) : Routine Nat := await (Cmd.fresh server)

def look (c : Nat) : Routine Client := await (Cmd.look c)

def setVersion (c : Nat) (v : Version) : Routine Unit := await (Cmd.setVersion c v)

def setProbed (c : Nat) : Routine Unit := await (Cmd.setProbed c)

def setInitialized (c : Nat) : Routine Unit := await (Cmd.setInitialized c)

def close (c : Nat) : Routine Unit := await (Cmd.close c)

/-- `except McpError as exc`, for the program to go on with. -/
def catchMcp {α : Type} (p : Routine α) : Routine (Except McpError α) :=
  handle (fun
    | .mcp e => pure (.error e)
    | r => raise r) (p >>= fun a => pure (.ok a))

/-- `finally`. -/
def finallyDo {α : Type} (q : Routine Unit) (p : Routine α) : Routine α := do
  let a ← handle (fun r => q >>= fun _ => raise r) p
  q
  return a

def fail {α : Type} (e : McpError) : Routine α := raise (.mcp e)

/-! ## JSON-RPC -/

def isObject : PyValue → Bool
  | .dict _ => true
  | _ => false

/-- `d.get(key)`. -/
def get (key : String) (d : PyValue) : PyValue := Internal.getD key .null d

/-- `_answer_of`. -/
def answerOf (message : PyValue) : Routine PyValue :=
  match Internal.get "error" message with
  | none => return get "result" message
  | some error =>
    let error := if truthy error then error else .dict []
    if isObject error then
      fail { code := .refused, rpcCode := Internal.int (get "code" error), data := get "data" error }
    else raise .other

/-- The strings a Python loop meets in a value, none where it raises. -/
def strings (v : PyValue) : Option (List String) :=
  let keep : PyValue → Option String := fun
    | .str s => some s
    | _ => none
  let key : Key × PyValue → Option String := fun
    | (.str s, _) => some s
    | _ => none
  if !truthy v then some []
  else
    match v with
    | .list xs | .tuple xs => some (xs.filterMap keep)
    | .dict xs => some (xs.filterMap key)
    | .str s => some (s.toList.map fun c => .ofList [c])
    | _ => none

/-- The preferred one of the versions a server offers. -/
def preferred (offered : List String) : Option Version :=
  [Version.modern, .legacy].find? fun v => v.text ∈ offered

/-- `_agree`. -/
def agree (exc : McpError) : Routine Version :=
  match strings (if isObject exc.data then get "supported" exc.data else .null) with
  | none => raise .other
  | some offered =>
    match preferred offered with
    | some v => return v
    | none => fail { code := .protocol }

/-! ## Streamable HTTP -/

/-- `_rpc_error_in`. -/
def rpcErrorIn (r : Response) : Option PyValue :=
  if r.size > maxAnswerBytes then none
  else r.json.filter fun data => isObject data && isObject (get "error" data)

/-- `_post`, of the response. -/
def readResponse (r : Response) (expect : Bool) : Routine (Option PyValue) :=
  if r.status = 401 ∨ r.status = 403 then fail { code := .refused, status := some r.status }
  else if r.status ≥ 400 then
    match rpcErrorIn r with
    | some error => do
      let _ ← answerOf error
      fail { code := .protocol, status := some r.status }
    | none => fail { code := .protocol, status := some r.status }
  else if !expect ∨ r.status = 202 ∨ r.size = 0 then return none
  else if r.size > maxAnswerBytes then fail { code := .protocol }
  else if r.events then
    match r.event with
    | some message => return some message
    | none => fail { code := .protocol }
  else
    match r.json with
    | some data => if isObject data then return some data else fail { code := .protocol }
    | none => fail { code := .protocol }

/-- `_post`. -/
def post (c : Nat) (m : Method) (expect : Bool) : Routine (Option PyValue) := do
  match ← (await (Cmd.post c m) : Routine Posted) with
  | .connectFailed => fail { code := .unreachable, sent := false }
  | .failed => fail { code := .unreachable }
  | .response r => readResponse r expect

/-! ## Stdio -/

/-- `_ensure`. -/
def ensure (c : Nat) : Routine Nat := do
  match ← (await (Cmd.process c) : Routine (Option (Nat × Bool))) with
  | some (pid, true) => return pid
  | some (_, false) => fail { code := .unreachable, sent := false }
  | none =>
    match ← (await (Cmd.spawn c) : Routine (Option Nat)) with
    | some pid => return pid
    | none => fail { code := .unreachable, sent := false }

/-- `_write`. -/
def write (pid : Nat) (m : Method) : Routine Nat := do
  match ← (await (Cmd.write pid m) : Routine Written) with
  | .lost => fail { code := .unreachable, sent := false }
  | .passed line => return line
  | .waits line =>
    match ← (await (Cmd.drain pid line) : Routine Bool) with
    | true => return line
    | false => fail { code := .unreachable, sent := false }

/-! ## The client -/

/-- `request` of either transport. -/
def request (c : Nat) (m : Method) : Routine PyValue := do
  if (← look c).http then
    match ← post c m true with
    | some message => answerOf message
    | none => fail { code := .protocol }
  else
    let pid ← ensure c
    let line ← write pid m
    match ← (await (Cmd.answer pid line) : Routine Answered) with
    | .message message => answerOf message
    | .timeout | .exited => fail { code := .unreachable }

/-- `notify` of either transport. -/
def notify (c : Nat) (m : Method) : Routine Unit := do
  if (← look c).http then
    let _ ← post c m false
  else
    let pid ← ensure c
    let _ ← write pid m

/-- `_complete`. -/
def complete (c : Nat) (result : PyValue) : Routine PyValue := do
  if isObject result then
    setProbed c
    return result
  else fail { code := .protocol }

/-- `_initialize`. -/
def initializeSession (c : Nat) : Routine Unit := do
  setVersion c .legacy
  setProbed c
  let result ← request c .initializeSession
  if isObject result then
    notify c .initialized
    setInitialized c
  else fail { code := .protocol }

/-- `_legacy_call`. -/
def legacyCall (c : Nat) (m : Method) : Routine PyValue := do
  if !(← look c).initialized then initializeSession c
  let result ← request c m
  if isObject result then return result else fail { code := .protocol }

/-- `_probe`. -/
def probe (c : Nat) : Routine Unit := do
  setProbed c
  match ← catchMcp (request c .discover) with
  | .error exc =>
    if exc.rpcCode = some errorUnsupportedVersion then
      let v ← agree exc
      setVersion c v
    else if exc.rpcCode.any (· ∈ modernErrorCodes) then fail exc
    else setVersion c .legacy
  | .ok result =>
    let result ← complete c result
    match strings (get "supportedVersions" result) with
    | none => raise .other
    | some offered =>
      let version := (← look c).version
      if offered ≠ [] ∧ version.text ∉ offered then
        match preferred offered with
        | some v => setVersion c v
        | none => fail { code := .protocol }

/-- `_call`, in the modern era. -/
def modernCall (c : Nat) (m : Method) : Routine PyValue := do
  match ← catchMcp (request c m) with
  | .ok result => complete c result
  | .error exc =>
    if exc.rpcCode = some errorUnsupportedVersion then
      let v ← agree exc
      setVersion c v
      if v = .legacy then legacyCall c m
      else
        let result ← request c m
        complete c result
    else if exc.legacySign then
      setVersion c .legacy
      legacyCall c m
    else fail exc

/-- `_call`. -/
def callMethod (c : Nat) (m : Method) : Routine PyValue := do
  let client ← look c
  if client.legacy then legacyCall c m
  else if client.probesEra ∧ !client.probed then
    probe c
    if (← look c).legacy then legacyCall c m else modernCall c m
  else modernCall c m

/-- `call_tool`. -/
def callTool (c : Nat) : Routine PyValue := do
  let result ← callMethod c .call
  match Internal.getD "resultType" (.str "complete") result with
  | .str "complete" => return result
  | _ => fail { code := .unsupported }

/-- `list_tools`, of at most so many pages. -/
def listTools (c : Nat) : Nat → Routine Unit
  | 0 => return ()
  | pages + 1 => do
    let result ← callMethod c .list
    if truthy (get "nextCursor" result) then listTools c pages

/-! ## The servers -/

/-- `_drop`. -/
def drop (server : String) : Routine Unit := do
  match ← (await (Cmd.pop server) : Routine (Option Nat)) with
  | none => return ()
  | some c =>
    handle (fun
      | .cancelled => raise .cancelled
      | _ => return ()) (close c)

/-- `McpServers.call`. -/
def call (server : String) (headers : Bool) : Routine PyValue := do
  if headers then
    let c ← fresh server
    finallyDo (close c) (callTool c)
  else
    let c ← client server
    match ← catchMcp (callTool c) with
    | .ok result => return result
    | .error exc =>
      if exc.code ≠ .unreachable ∨ exc.sent then fail exc
      else
        drop server
        let c ← client server
        callTool c

/-- What a recheck does with one server: `_list`, and `_drop` where that raises. -/
def listing (server : String) : Routine Unit :=
  handle (fun _ => drop server) (do
    let c ← client server
    listTools c 100)

end Mcp
