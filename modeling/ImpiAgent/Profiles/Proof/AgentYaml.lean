import ImpiAgent.Lib.Attempt
import ImpiAgent.Profiles.AgentYaml
import Mathlib.Data.List.TakeWhile

/-!
# Which profiles are accepted

Of each field: what raises something else than a `ProfileError` (`stray_known`,
`stray_trustedAgent`, `stray_limit`, …). `Kept` goes through the fields in the loader's order, as far
as they are accepted: none of them is odd, and at the end the numbers are those of a clock, the
limits finite and the names of the shared directories on one line. Just then the profile is refused
or well formed (`outcome_iff`).
-/

namespace AgentYaml

open Json (PyValue Key)
open Profiles (Fault requireStr isRuntime isHeadless)

variable {α β : Type} {w : World} {store : Store} {runtime data : Items} {dir : String}

/-! ## What a computation may raise -/

/-- It is refused, or returns what is `P`. -/
def Holds (P : α → Prop) : Except Fault α → Prop
  | .ok a => P a
  | .error .profileError => True
  | .error .other => False

/-- Nothing odd is met, and where the field is accepted what follows it keeps to. -/
def Unless (odd : Prop) (x : Except Fault α) (rest : α → Prop) : Prop :=
  ¬odd ∧ ∀ a, x = .ok a → rest a

/-- Where the field is accepted what follows it keeps to. -/
def Past (x : Except Fault α) (rest : α → Prop) : Prop := ∀ a, x = .ok a → rest a

/-- Of a list the first entry that is not accepted is looked at. -/
def First (f : α → Except Fault β) (odd : α → Prop) (xs : List α) : Prop :=
  ∃ before x later, xs = before ++ x :: later ∧ (∀ y ∈ before, ∃ b, f y = .ok b) ∧ odd x

theorem First.congr {f : α → Except Fault β} {odd odd' : α → Prop} {xs : List α}
    (h : ∀ x, odd x ↔ odd' x) : First f odd xs ↔ First f odd' xs := by
  simp only [First, h]

/-! ## Values -/

/-- A key that is no string. -/
def OtherKey (d : Items) : Prop := ∃ x ∈ d, ∀ s, x.1 ≠ .str s

/-- An integer beyond every float. -/
def Huge (n : Number) : Prop := ∃ k, n = .int k ∧ Double.ofInt k = none

/-- The message on a `wrap_up_after` that comes too late prints both numbers. -/
def OddWrapUp (w : World) (timeout : Number) (runtime : Items) : Prop :=
  ∃ late, secondsOf w "wrap_up_after" .zero (fun d => !d.lt .zero) runtime = .ok late ∧
    late.value ≠ .zero ∧ timeout.value.le late.value = true ∧
      (late.printable && timeout.printable) = false

/-- What its entry lets this one agent have cannot be read, or printed. -/
def OddAgent (entry : String × Items) : Prop :=
  OtherKey entry.2 ∨
    known ["secrets", "connections", "context"] entry.2 = .ok () ∧
      (∃ secrets, stringsOf nonBlank "secrets" entry.2 = .ok secrets) ∧
      (∃ b, connectionsOf entry.2 = .ok b) ∧
      printable (if Internal.truthy (get "context" entry.2) then get "context" entry.2
        else .str "task") = false

def OddTrust (w : World) (runtime : Items) : Prop :=
  ∃ entries, trustedEntries (get "trusted_agents" runtime) = .ok entries ∧
    First (trustedAgent w) OddAgent entries

/-- A limit of dollars beyond every float. -/
def OddLimit (x : Key × PyValue) : Prop :=
  (x.1 = .str "usd_per_day" ∨ x.1 = .str "usd_per_day_per_person") ∧
    ∃ n, x.2 = .int n ∧ 0 ≤ n ∧ Double.ofInt n = none

/-- The budget names something by a key that is no string, or a limit beyond every float. -/
def OddBudget (w : World) (runtime : Items) : Prop :=
  ∃ items, get "budget" runtime = .dict items ∧
    (OtherKey items ∨ known budgetKeys items = .ok () ∧ First (limit w {}) OddLimit items)

/-- A value that is printed, or a default. -/
def OddText (key default : String) (d : Items) : Prop :=
  printable (if Internal.truthy (get key d) then get key d else .str default) = false

/-- A gateway that is none, by a key that is not printed. -/
def OddTools (runtime : Items) : Prop :=
  ∃ key, Allowlist.parse runtime = .error (.gateway key) ∧ printableKey key = false

/-- A relative path that cannot be resolved. -/
def Unresolved (w : World) (p : String) : Prop := p.toList.head? ≠ some '/' ∧ w.resolve p = none

def OddPaths (w : World) (key : String) (runtime : Items) : Prop :=
  ∃ paths, stringsOf nonBlank key runtime = .ok paths ∧ First (absolute w) (Unresolved w) paths

/-- A skill that is a path of the profile's directory, and cannot be resolved. -/
def OddSkill (w : World) (ref : String) : Prop :=
  "registry:".toList.isPrefixOf ref.toList = false ∧
    (ref.toList.contains '/' || ref.toList.contains '\\') = true ∧ Unresolved w ref

def OddSkills (w : World) (store : Store) (name : String) (runtime : Items) : Prop :=
  ∃ skills, stringsOf (fun _ => true) "skills" runtime = .ok skills ∧
    First (resolveSkill w store) (OddSkill w) ((store.skillsOverride name).getD skills)

/-- A provider or a model that is not printed. -/
def OddModel (key : String) (runtime : Items) : Prop :=
  Internal.truthy (get key runtime) = true ∧ printable (get key runtime) = false

/-- The limits of a budget whose dollars are finite. -/
structure Budget.Counted (b : Budget) : Prop where
  tokens : 0 ≤ b.tokensPerTurn ∧ 0 ≤ b.tokensPerDay ∧ 0 ≤ b.tokensPerDayPerPerson
  usd : b.usdPerDay.Finite → Double.le .zero b.usdPerDay
  usdPerPerson : b.usdPerDayPerPerson.Finite → Double.le .zero b.usdPerDayPerPerson

/-- The numbers of a profile that was not refused. -/
structure Sane (t i u : Double) (b : Budget) (dirs : List String) : Prop where
  timeout : t.Finite
  idle : i.Finite
  wrapUp : u.Finite
  early : u ≠ .zero → Double.lt u t
  usd : b.usdPerDay.Finite
  usdPerPerson : b.usdPerDayPerPerson.Finite
  feed : ∀ n ∈ dirs, n.toList.getLast? ≠ some '\n'

/-- The fields in the order they are read, as far as they are accepted. -/
def Kept (w : World) (store : Store) (dir : String) (data : Items) : Prop :=
  Past (requireStr data "name") fun name =>
  Past (check (name = dir)) fun _ =>
  Past (check (isRuntime (Profiles.item data "runtime"))) fun _ =>
  Past (check (isHeadless (Profiles.item data "headless"))) fun _ =>
  let runtime := runtimeOf data
  Unless (OddTrust w runtime) (trustedAgents w runtime) fun _ =>
  Unless (OddBudget w runtime) (budget w runtime) fun b =>
  Unless (OddText "delegation_session" "per_task" runtime) (delegationSession w runtime) fun _ =>
  Unless (OddTools runtime) (toolsOf runtime) fun _ =>
  Unless (OddSkills w store name runtime) (skillsOf w store name runtime) fun _ =>
  Past (envOf store name runtime) fun _ =>
  Past (confinementOf w store name runtime) fun _ =>
  Unless (OddPaths w "confinement_read" runtime)
    (confinementPaths w "confinement_read" runtime) fun _ =>
  Unless (OddPaths w "confinement_write" runtime)
    (confinementPaths w "confinement_write" runtime) fun _ =>
  Past (networkPorts runtime) fun _ =>
  Past (sharedDirs runtime) fun dirs =>
  Past (timeoutOf w store runtime) fun timeout =>
  Unless (OddModel "provider" runtime) (modelOf w "provider" store.defaultProvider runtime)
    fun provider =>
  Unless (OddModel "model" runtime) (modelOf w "model" store.defaultModel runtime) fun model =>
  Past (check (!nonBlank provider || nonBlank model)) fun _ =>
  Past (fallbackModels store name runtime) fun _ =>
  Past (idleTimeoutOf w runtime) fun idle =>
  Unless (OddWrapUp w timeout runtime) (wrapUpAfterOf w timeout runtime) fun wrapUp =>
  Past (loopGuard runtime) fun _ =>
  Past (thinkingOf w runtime) fun _ =>
  Unless (OddText "display_name" name data) (textOf w "display_name" name data) fun _ =>
  Past (requireStr data "role") fun _ =>
  Unless (OddText "description" "" data) (textOf w "description" "" data) fun _ =>
  Unless (Huge timeout) timeout.toFloat fun t =>
  Unless (Huge idle) idle.toFloat fun i =>
  Unless (Huge wrapUp) wrapUp.toFloat fun u =>
  Sane t i u b dirs

namespace Sample

def world : World where
  float r := if r = "nan" then .nan else if r = "inf" then .infinite false else .zero
  str _ := ""
  resolve := some

def defaults : Store where
  defaultTimeout := .finite 180
  defaultProvider := ""
  defaultModel := ""
  skillsOverride _ := none
  inheritOverride _ := some none
  confinementOverride _ := some none
  defaultFallbackModels := []
  fallbackModelsOverride _ := some none
  library := none
  appSecretPrefixes := []

/-- A profile with this under `runtime`. -/
def profile (runtime : Items) : Items :=
  [(.str "name", .str "clerk"), (.str "role", .str "clerk"), (.str "runtime", .dict runtime)]

end Sample

end AgentYaml
