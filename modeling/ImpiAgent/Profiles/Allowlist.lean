import ImpiAgent.Gateways.Internal
import ImpiAgent.Lib.Text
import ImpiAgent.Profiles.Entitled

/-!
# The tools a profile names

What `_parse` and `_tools_by_gateway` accept of a profile's `runtime` block, and the command line
that `_profile_args` builds. The block is as YAML reads it. The runtime splits the value of
`--tools` at commas, and an empty value names no tool; an entry with a star is a pattern to it, one
that starts with `+` or `-` an edit of its defaults.
-/

namespace Allowlist

open Json (PyValue Key)
open Text (Str)

/-! ## The two regular expressions -/

/-- `[a-z0-9]`. -/
def isAlnum (c : Char) : Bool := 'a' ≤ c && c ≤ 'z' || '0' ≤ c && c ≤ '9'

/-- `[a-z0-9-]`. -/
def isWord (c : Char) : Bool := isAlnum c || c = '-'

/-- The ways to match `(?:_?[a-z0-9-])*` at the start of a text, the longest first: what is matched
and what follows. -/
@[grind =] def repeats : Str → List (Str × Str)
  | '_' :: c :: s =>
    (if isWord c then (repeats s).map fun x => ('_' :: c :: x.1, x.2) else []) ++
      [([], '_' :: c :: s)]
  | c :: s => (if isWord c then (repeats s).map fun x => (c :: x.1, x.2) else []) ++ [([], c :: s)]
  | [] => [([], [])]

/-- The ways to match `[a-z0-9](?:_?[a-z0-9-])*`. -/
def servers : Str → List (Str × Str)
  | c :: s => if isAlnum c then (repeats s).map fun x => (c :: x.1, x.2) else []
  | [] => []

def mcpPrefix : Str := Text.str "mcp__"

/-- What follows `mcp__` at the start of a text. -/
def afterMcp (s : Str) : Option Str := if mcpPrefix.isPrefixOf s then some (s.drop 5) else none

/-- `MCP_SERVER_TOOLS.match`; `$` also matches before a line feed that ends the text. -/
def isServerTools (tool : String) : Bool :=
  (afterMcp tool.toList).any fun s =>
    (servers s).any fun x => x.2 = Text.str "__*" || x.2 = Text.str "__*\n"

/-- `_MCP_TOOL_OF.match`, and its group. -/
def mcpToolOf (name : String) : Option Str :=
  (afterMcp name.toList).bind fun s =>
    ((servers s).find? fun x => match x.2 with
      | '_' :: '_' :: c :: _ => c ≠ '*'
      | _ => false).map Prod.fst

/-- `mcp__<server>__*`. -/
def serverTools (server : Str) : String := .ofList (mcpPrefix ++ server ++ Text.str "__*")

/-! ## The profile -/

inductive ProfileError
  | notStrings
  | unnamed (tool : String)
  | notMapping
  | gateway (gateway : Key)
  | shape (gateway : Key)
  | excepted (gateway : Key) (name : String)
  | widens (gateway : Key) (name : String)

/-- A list of strings. -/
def strings : PyValue → Option (List String)
  | .list xs => xs.mapM Internal.flag
  | _ => none

/-- Whether the loader takes an entry of `runtime.tools`. -/
def takes (tool : String) : Bool :=
  isServerTools tool ||
    !(tool.toList.contains '*' ||
      ((Text.strip tool).toList.head?).any fun c => c = '+' || c = '-')

/-- `runtime.tools`. -/
def toolsOf (runtime : List (Key × PyValue)) : Except ProfileError (List String) :=
  let tools := (runtime.lookup (.str "tools")).getD .null
  match strings (if Internal.truthy tools then tools else .list []) with
  | none => .error .notStrings
  | some tools =>
    match tools.find? (!takes ·) with
    | some tool => .error (.unnamed tool)
    | none => .ok tools

/-- `(*GATEWAY_KINDS, GATEWAY_DELEGATION, GATEWAY_TRUSTED_DELEGATION)`. -/
def gateways : List String :=
  ["mattermost", "slack", "ws", "http", "delegation", "trusted-delegation"]

/-- Whether a gateway's list may name this. -/
def narrows (tools : List String) (name : String) : Bool :=
  tools.contains name || (mcpToolOf name).any fun server => tools.contains (serverTools server)

/-- The names of a gateway's list, its `except` unrolled. -/
def namesOf (tools : List String) (gateway : Key) : PyValue → Except ProfileError (List String)
  | .dict [(.str "except", names)] =>
    match strings names with
    | none => .error (.shape gateway)
    | some names =>
      match names.find? (!tools.contains ·) with
      | some name => .error (.excepted gateway name)
      | none => .ok (tools.filter fun t => !names.contains t)
  | names =>
    match strings names with
    | none => .error (.shape gateway)
    | some names => .ok names

/-- One item of `runtime.tools_by_gateway`. -/
def gatewayOf (tools : List String) (item : Key × PyValue) :
    Except ProfileError (Key × List String) :=
  if gateways.all fun g => item.1 ≠ .str g then .error (.gateway item.1)
  else do
    let names ← namesOf tools item.1 item.2
    match names.find? (!narrows tools ·) with
    | some name => .error (.widens item.1 name)
    | none => return (item.1, names)

/-- `_tools_by_gateway`. -/
def toolsByGateway (tools : List String) : PyValue → Except ProfileError (List (Key × List String))
  | .null => .ok []
  | .dict items => items.mapM (gatewayOf tools)
  | _ => .error .notMapping

structure Profile where
  tools : List String
  byGateway : List (Key × List String)

/-- `_parse`, of the tools. -/
def parse (runtime : List (Key × PyValue)) : Except ProfileError Profile := do
  let tools ← toolsOf runtime
  let byGateway ← toolsByGateway tools ((runtime.lookup (.str "tools_by_gateway")).getD .null)
  return ⟨tools, byGateway⟩

/-! ## The command line -/

/-- The rest of a `SpawnRequest`; what is not set is empty. -/
structure SpawnRequest where
  tools : List String
  skills : List String
  provider : String
  model : String
  thinking : String
  appendSystemPrompt : String

/-- An option with a value, where there is one. -/
def option (name value : String) : List String := if value = "" then [] else [name, value]

def profileArgs (r : SpawnRequest) : List String :=
  ["--tools", ",".intercalate r.tools, "--no-mcp", "--no-skills"] ++
    r.skills.flatMap (fun skill => ["--skill", skill]) ++
    option "--provider" r.provider ++ option "--model" r.model ++ option "--thinking" r.thinking ++
    option "--append-system-prompt" r.appendSystemPrompt

/-- The value of an option of a command line. -/
def valueOf (name : String) : List String → Option String
  | a :: value :: args => if a = name then some value else valueOf name (value :: args)
  | _ => none

/-- The entries the runtime reads from the value of `--tools`. -/
def entries (value : String) : List String := if value = "" then [] else Text.split ',' value

/-- The entries the runtime reads from a command line. -/
def named (args : List String) : List String := (valueOf "--tools" args).elim [] entries

/-- `<server>`: lowercase letters, digits, hyphens and single underscores. -/
inductive ServerRest : Str → Prop
  | nil : ServerRest []
  | word {c : Char} {s : Str} : isWord c → ServerRest s → ServerRest (c :: s)
  | under {c : Char} {s : Str} : isWord c → ServerRest s → ServerRest ('_' :: c :: s)

def Server (s : Str) : Prop := ∃ c rest, s = c :: rest ∧ isAlnum c ∧ ServerRest rest

/-- An entry is a pattern, and not that of a server's tools. -/
def Wild (entry : String) : Prop :=
  '*' ∈ entry.toList ∧ ¬∃ server, Server server ∧ entry = serverTools server

/-- An entry edits the runtime's defaults. -/
def Edits (entry : String) : Prop := ∃ c ∈ entry.toList.head?, c = '+' ∨ c = '-'

end Allowlist
