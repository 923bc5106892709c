import ImpiAgent.Lib.Text

/-!
# What a policy permits

`ward/policy.py` and the matching of `ward/autorules.py`: whether an agent may ask for a secret at
all, whether a person is asked, and for how long a window may stay open. The rules of a policy are as
`decode` gives them from the store.
-/

namespace Ward

/-- `decisions.py`: how a request came out, in the ledger's words. -/
inductive Decision
  | approvedOnce
  | approvedGrant
  | reusedGrant
  | denied
  | timeout
  | noApprover
  | auto
  | autoCommand
  | noPolicy
  | notPermitted
  | notReached
  | locked
  | sealed
  | backendError
  deriving DecidableEq

/-- The decisions under which a value is handed over. -/
def Decision.granted : Decision → Bool
  | .approvedOnce | .approvedGrant | .reusedGrant | .auto | .autoCommand => true
  | _ => false

/-- How a policy answers whether a person has to see a request. -/
inductive ApprovalMode
  | always
  | never
  deriving DecidableEq

abbrev Rule := List String

/-- `SecretPolicyRecord`; `subjects` is a CSV of agents, `rules` the decoded `auto_commands`. -/
structure SecretPolicyRecord where
  name : String
  approval : ApprovalMode
  maxGrantS : Int
  subjects : String
  rules : List Rule
  deriving DecidableEq

def SecretPolicyRecord.allows (p : SecretPolicyRecord) (agent : String) : Bool :=
  (((Text.split ',' p.subjects).map Text.strip).filter (· ≠ "")).contains agent

/-! ## Rules -/

def anyRest : String := "*"

/-- Element by element; a trailing `*` takes the rest, also where there is none. -/
def ruleMatches (rule : Rule) (command : List String) : Bool :=
  match rule.getLast? with
  | none => false
  | some last =>
    if last = anyRest then command.take rule.dropLast.length = rule.dropLast else command = rule

def unparse (rule : Rule) : String :=
  " ".intercalate (rule.map fun part => if part = anyRest then part else Text.shlexQuote part)

/-- The first rule that covers the command, as it was written, or `""`. -/
def matching (rules : List Rule) (command : List String) : String :=
  match rules.find? (ruleMatches · command) with
  | some rule => unparse rule
  | none => ""

/-! ## Verdicts -/

inductive Outcome
  | ask
  | allow
  | refuse
  deriving DecidableEq

/-- `decision` is none, the source's `""`, where it depends on the answer. -/
structure Verdict where
  outcome : Outcome
  decision : Option Decision
  rule : String
  deriving DecidableEq

def evaluate (policy : Option SecretPolicyRecord) (agent : String) (command : List String) :
    Verdict :=
  match policy with
  | none => ⟨.refuse, some .noPolicy, ""⟩
  | some policy =>
    if ¬policy.allows agent then ⟨.refuse, some .notPermitted, ""⟩
    else if policy.approval = .never then ⟨.allow, some .auto, ""⟩
    else
      let rule := if command.isEmpty then "" else matching policy.rules command
      if rule ≠ "" then ⟨.allow, some .autoCommand, rule⟩ else ⟨.ask, none, ""⟩

/-- How long a window over the secret may stay open; a deployment's `0` sets no limit of its own. -/
def ceiling (policy : Option SecretPolicyRecord) (deploymentS : Int) : Int :=
  match policy with
  | none => 0
  | some policy => if 0 < deploymentS then min policy.maxGrantS deploymentS else policy.maxGrantS

theorem exists_of_matching {rules : List Rule} {command : List String}
    (h : matching rules command ≠ "") : ∃ rule ∈ rules, ruleMatches rule command = true := by
  unfold matching at h
  split at h
  · next rule hf =>
    exact ⟨rule, List.mem_of_find?_eq_some hf,
      List.find?_some (p := (ruleMatches · command)) hf⟩
  · exact absurd rfl h

/-- What a verdict that does not refuse rests on. -/
inductive Permits (policy : SecretPolicyRecord) (agent : String) (command : List String) :
    Verdict → Prop
  | never : policy.approval = .never → Permits policy agent command ⟨.allow, some .auto, ""⟩
  | rule {rule : Rule} (text : String) : rule ∈ policy.rules → ruleMatches rule command = true →
      Permits policy agent command ⟨.allow, some .autoCommand, text⟩
  | ask : Permits policy agent command ⟨.ask, none, ""⟩

/-- A policy that is not there or does not list the agent refuses. -/
theorem evaluate_cases (policy : Option SecretPolicyRecord) (agent : String)
    (command : List String) :
    (∃ d text, evaluate policy agent command = ⟨.refuse, some d, text⟩ ∧ d.granted = false) ∨
      ∃ p, policy = some p ∧ p.allows agent = true ∧
        Permits p agent command (evaluate policy agent command) := by
  cases policy with
  | none => exact .inl ⟨_, _, rfl, rfl⟩
  | some p =>
    unfold evaluate
    by_cases ha : p.allows agent = true
    · refine .inr ⟨p, rfl, ha, ?_⟩
      simp only [ha, not_true_eq_false, if_false]
      split
      · next hn => exact .never hn
      · by_cases hr : (if command.isEmpty = true then "" else matching p.rules command) = ""
        · rw [if_neg (fun h => h hr)]
          exact .ask
        · rw [if_pos hr]
          by_cases hc : command.isEmpty = true
          · exact absurd (if_pos hc) hr
          · rw [if_neg hc] at hr
            obtain ⟨rule, hm, hmatch⟩ := exists_of_matching hr
            exact .rule _ hm hmatch
    · exact .inl ⟨.notPermitted, "", by simp [ha], rfl⟩

theorem Permits.outcome_ne {policy : SecretPolicyRecord} {agent : String} {command : List String}
    {v : Verdict} (h : Permits policy agent command v) : v.outcome ≠ .refuse := by
  cases h <;> exact nofun

theorem Permits.granted {policy : SecretPolicyRecord} {agent : String} {command : List String}
    {v : Verdict} (h : Permits policy agent command v) (hask : v.outcome ≠ .ask) :
    v.decision.any Decision.granted = true := by
  cases h with
  | never | rule => rfl
  | ask => exact absurd rfl hask

/-- A refusal has its decision, which hands nothing over. -/
theorem exists_of_refuse {policy : Option SecretPolicyRecord} {agent : String}
    {command : List String} (h : (evaluate policy agent command).outcome = .refuse) :
    ∃ d, (evaluate policy agent command).decision = some d ∧ d.granted = false := by
  obtain ⟨d, text, he, hg⟩ | ⟨_, _, _, hp⟩ := evaluate_cases policy agent command
  · exact ⟨d, by rw [he], hg⟩
  · exact absurd h hp.outcome_ne

end Ward
