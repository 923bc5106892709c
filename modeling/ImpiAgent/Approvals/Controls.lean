import ImpiAgent.Approvals.Pending

/-!
# The three answers as controls

`approvals/controls.py`: allow once, allow for a while, deny. A card offers the windows its asker
gives it, each as a value that `decide` reads; one that is given none has two buttons
(`button_of_unoffered`).
-/

namespace Approvals

def approvalKey : String := "approval"

/-- One option of a dropdown: what is read, and what comes back. -/
structure Choice where
  label : String
  value : String
  deriving DecidableEq

inductive ActionKind
  | button
  | select
  | userSelect
  | channelSelect
  deriving DecidableEq

/-- A control of a card; `context` is handed back with a click. -/
structure Action where
  id : String
  label : String
  value : String
  style : String
  context : List (String × String)
  kind : ActionKind
  options : List Choice
  deriving DecidableEq

def humanize (seconds : Int) : String :=
  if seconds % 3600 = 0 ∧ 3600 ≤ seconds then
    let hours := seconds / 3600
    toString hours ++ if hours = 1 then " hour" else " hours"
  else if seconds % 60 = 0 ∧ 60 ≤ seconds then toString (seconds / 60) ++ " min"
  else toString seconds ++ "s"

def grantValue (seconds : Int) : String := answerGrantPrefix ++ toString seconds

def approvalActions (token : String) (offers : List Int) : List Action :=
  let context := [(approvalKey, token)]
  [⟨"once", "Allow once", answerOnce, "primary", context, .button, []⟩] ++
  (if offers.isEmpty then [] else
    [⟨"grant", "Allow for…", "", "", context, .select,
      offers.map fun seconds => ⟨humanize seconds, grantValue seconds⟩⟩]) ++
  [⟨"deny", "Deny", answerDeny, "danger", context, .button, []⟩]

/-- A control of a card that offers no window is a button, and allows once or not at all. -/
theorem button_of_unoffered {token : String} {action : Action}
    (h : action ∈ approvalActions token []) :
    action.kind = .button ∧ (action.value = answerOnce ∨ action.value = answerDeny) := by
  rcases List.mem_pair.1 (show action ∈ [_, _] from h) with rfl | rfl
  · exact ⟨rfl, .inl rfl⟩
  · exact ⟨rfl, .inr rfl⟩

theorem decide_unoffered {int : String → Option Int} {value user : String}
    (h : value = answerOnce ∨ value = answerDeny) : (decide int value user).grantS ≤ 0 := by
  rcases h with rfl | rfl <;> exact Int.le_refl 0

end Approvals
