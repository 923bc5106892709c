import ImpiAgent.Lib.Text
import ImpiAgent.Tools.Wiring

/-!
# The profile of a conversation

`EntitledProfiles.build`: `ToolWiring.session_env` sets the conversation's allowlist and manifest,
`narrow_pi_profile` gives the profile its process is started with. What a conversation is entitled
to comes from a source; `gatewayEntitlement` is `GatewayEntitlements`, over what another source
answers.
-/

namespace Entitled

structure Entitlement where
  tools : Option (List String)
  instructions : String
  deferred : List String
  deriving DecidableEq

/-- `dict.fromkeys`. -/
def distinct (names : List String) : List String :=
  names.foldl (fun seen n => if n ∈ seen then seen else seen ++ [n]) []

/-- `shared_entitlement`. -/
def sharedEntitlement (entitlements : List Entitlement) : Entitlement where
  tools :=
    match entitlements.filterMap (·.tools) with
    | [] => none
    | first :: others => some (distinct (first.filter fun t => others.all fun o => t ∈ o))
  instructions :=
    match entitlements with
    | [] => ""
    | e :: others =>
      if others.all fun o => o.instructions = e.instructions then e.instructions else ""
  deferred := distinct (entitlements.flatMap (·.deferred))

/-- `_tools_on`, with `AgentSpec.tools_on`. -/
def toolsOn (toolsByGateway : List (String × List String)) (gateway : String) :
    Option (List String) :=
  match toolsByGateway with
  | [] => none
  | first :: others =>
    if gateway = "" then some (first.2.filter fun n => others.all fun o => n ∈ o.2)
    else toolsByGateway.lookup gateway

/-- What a gateway allows, under a ceiling set already. -/
def gatewayOwn (spec : Option (List (String × List String))) (gateway : String)
    (tools : Option (List String)) : Entitlement :=
  let own : Entitlement := ⟨spec.bind fun byGateway => toolsOn byGateway gateway, "", []⟩
  match tools with
  | some _ => sharedEntitlement [own, ⟨tools, "", []⟩]
  | none => own

/-- `GatewayEntitlements.entitlement`: `inner` is what the application's own source answers under
the ceiling given it. -/
def gatewayEntitlement (spec : Option (List (String × List String))) (gateway : String)
    (tools : Option (List String)) (inner : Option (Option (List String) → Entitlement)) :
    Entitlement :=
  let own := gatewayOwn spec gateway tools
  match inner with
  | none => own
  | some inner =>
    let theirs := inner own.tools
    ⟨(sharedEntitlement [own, theirs]).tools, theirs.instructions, theirs.deferred⟩

/-- Where a manifest is. -/
inductive ManifestPath
  | agent (agent : String)
  | session (agent session : String)
  deriving DecidableEq

/-- `PiProfile`: its `--tools`, its appended prompt, and its env with the manifest's file apart. -/
structure PiProfile where
  tools : List String
  appendSystemPrompt : String
  env : List (String × String)
  manifest : Option ManifestPath
  deriving DecidableEq

def toolSearch : String := "tool_search"

def deferredEnv : String := "TOOL_DEFERRED"

def deferredNote (held : List String) : String :=
  "Some tools are not declared until you load them: " ++ ", ".intercalate held ++ ". " ++
  "When a task needs one of them, call tool_search with what the tool does; it is declared " ++
  "to you from your next call on."

/-- `"\n\n".join(p for p in parts if p)`. -/
def paragraphs (parts : List String) : String := "\n\n".intercalate (parts.filter (· ≠ ""))

/-- The profile's names the conversation is allowed. -/
def keptTools (profile : List String) : Option (List String) → List String
  | some allowed => profile.filter (· ∈ allowed)
  | none => profile

/-- `narrow_pi_profile`. -/
def narrowPiProfile (profile : PiProfile) (tools : Option (List String)) (instructions : String)
    (env : List (String × String)) (manifest : ManifestPath) (deferred : List String) : PiProfile :=
  let kept := keptTools profile.tools tools
  let held := kept.filter (· ∈ deferred)
  let tools := if held ≠ [] ∧ toolSearch ∉ kept then kept ++ [toolSearch] else kept
  let env := if held ≠ [] then env ++ [(deferredEnv, ",".intercalate held)] else env
  let instructions := if held ≠ [] then paragraphs [Text.strip instructions, deferredNote held]
    else instructions
  let prompt := if Text.strip instructions ≠ "" then
      paragraphs [profile.appendSystemPrompt, Text.strip instructions]
    else profile.appendSystemPrompt
  { tools, appendSystemPrompt := prompt, env, manifest := some manifest }

/-- `EntitledProfiles.build` with tools on; `envs` is the env of each agent. -/
def build (envs : String → List (String × String)) (s : Tools.State) (agent : String)
    (profile : PiProfile) (entitlement : Entitlement) (session : String) :
    Tools.State × PiProfile :=
  let manifest := match entitlement.tools with
    | some _ => .session agent session
    | none => .agent agent
  let deferred := entitlement.deferred.filter fun n => (s.registry.get n).isSome
  (Tools.sessionEnv s agent session entitlement.tools,
    narrowPiProfile profile entitlement.tools entitlement.instructions (envs agent) manifest
      deferred)

/-- What the manifest at a path lists. -/
def listedAt (s : Tools.State) : ManifestPath → List String
  | .agent agent => s.listed agent
  | .session agent session => ((s.sessionManifests agent session).getD []).map (·.name)

/-- The registry's tools a list of entries stands for. -/
def standsFor (r : Tools.Registry) (tools : List String) (name : String) : Prop :=
  name ∈ r.names ∧ name ∈ Tools.declared r tools

/-- `<family>__*`. -/
def isFamily (entry : String) : Bool := "__*".toList.isSuffixOf entry.toList

/-- A tool of the registry that is not withdrawn and that the agent has the capabilities for. -/
def served (s : Tools.State) (agent name : String) : Prop :=
  ∃ tool, s.registry.get name = some tool ∧ name ∉ s.withdrawn ∧ tool.missing (s.caps agent) = ∅

/-- A tool that both lists stand for has an entry in both that stands for it. -/
def SpeltAlike (r : Tools.Registry) (profile entitled : List String) (name : String) : Prop :=
  name ∈ Tools.declared r profile → name ∈ Tools.declared r entitled →
    ∃ entry, entry ∈ profile ∧ entry ∈ entitled ∧ name ∈ Tools.declared r [entry]

end Entitled
