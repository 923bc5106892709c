import ImpiAgent.Approvals.Controls

/-!
# The ways of a click

What a gateway makes of a click on a card's control before the approvals see it: the two routes of the
HTTP gateway (`_action` of a turn, `_conversation_action` of a card held outside one) and the callback
of Mattermost (`parse_action`, `_interact`). The fields of a body are as `str` reads them, and `""`
where there are none.

A button of the HTTP gateway carries the value it was posted with. A menu carries what the caller says;
only a turn's is compared with what it offers. A callback carries whatever its context says.
-/

namespace Clicks

open Approvals

/-- What the hub answers when it will not do what was asked. -/
structure Refusal where
  status : Nat
  code : String
  message : String
  deriving DecidableEq

def screenKey : String := "screen"
def stateKey : String := "state"
def formKey : String := "form"
def tokenKey : String := "token"

/-- `context.get(key)`, `""` where it is not there. -/
def get (context : List (String × String)) (key : String) : String := (context.lookup key).getD ""

/-- What a click is passed on as. -/
inductive Routed
  | approval (click : Click)
  | screen (state value : String)
  | pending (token value : String)
  deriving DecidableEq

/-- `interactive`: the hub has a dispatcher; `people`: the person behind an id at a gateway. -/
structure Hub where
  interactive : Bool
  people : String → String → String

def gatewayHttp : String := "http"
def gatewayMattermost : String := "mattermost"

def interactivityOff : Refusal := ⟨404, "not_found", "interactivity is off on this engine"⟩

/-! ## The HTTP gateway -/

/-- The body of a click. -/
structure Body where
  postId : String
  actionId : String
  value : String

/-- `_action`: a click on a control a turn has posted. -/
def Hub.turnAction (hub : Hub) (posted : List (String × List Action)) (body : Body)
    (user : String) : Except Refusal Routed :=
  if ¬hub.interactive then .error interactivityOff
  else
    match ((posted.lookup body.postId).getD []).find? (·.id = body.actionId) with
    | none => .error ⟨404, "not_found", "no such control; it may have been retired"⟩
    | some action =>
      if action.kind ≠ .button ∧ action.options ≠ [] ∧ body.value ∉ action.options.map (·.value) then
        .error ⟨422, "validation", "`value` is not one of the control's options"⟩
      else
        let value := if action.kind = .button then action.value else body.value
        if get action.context approvalKey ≠ "" then
          .ok (.approval ⟨get action.context approvalKey, value, hub.people gatewayHttp user⟩)
        else if get action.context screenKey ≠ "" then
          .ok (.screen (get action.context stateKey) value)
        else if get action.context formKey ≠ "" then
          .error ⟨409, "not_available", "forms cannot be opened on this gateway"⟩
        else .ok (.pending (get action.context tokenKey) value)

/-- A card a conversation holds outside a turn. -/
structure HeldCard where
  conversation : String
  postId : String
  actions : List Action

/-- `_conversation_action`: a click on a card the conversation holds. -/
def Hub.conversationAction (hub : Hub) (cards : List HeldCard) (key : String) (body : Body)
    (user : String) : Except Refusal Routed :=
  if ¬hub.interactive then .error interactivityOff
  else
    let actions := match cards.find? (·.postId = body.postId) with
      | some held => if held.conversation = key then held.actions else []
      | none => []
    match actions.find? (·.id = body.actionId) with
    | none => .error ⟨404, "not_found", "no such control; the card may have been answered"⟩
    | some action =>
      let token := get action.context approvalKey
      if token = "" then
        .error ⟨409, "not_available", "this control is not a confirmation's"⟩
      else
        let value := if action.kind = .button then action.value else body.value
        .ok (.approval ⟨token, value, hub.people gatewayHttp user⟩)

/-! ## Mattermost -/

/-- Of a callback, what answers a request for authorization: the context its control was posted with,
and what was picked of a menu, which the platform adds to it. -/
structure Callback where
  context : List (String × String)
  userId : String

/-- The value of `parse_action`. -/
def Callback.value (callback : Callback) : String :=
  if get callback.context "value" ≠ "" then get callback.context "value"
  else get callback.context "selected_option"

/-- `_interact`: the approval a callback answers, if it answers one. -/
def Callback.approval (people : String → String → String) (callback : Callback) : Option Click :=
  let token := get callback.context approvalKey
  if token = "" then none
  else some ⟨token, callback.value, people gatewayMattermost callback.userId⟩

/-! ## What reaches the approvals -/

variable {hub : Hub} {body : Body} {user : String} {click : Click}

/-- A turn's route passes on the value of a button, or one that its menu offers; a picker, which has
no options, takes any. -/
theorem turnAction_offered {posted : List (String × List Action)}
    (h : hub.turnAction posted body user = .ok (.approval click)) :
    ∃ action ∈ (posted.lookup body.postId).getD [], click.token = get action.context approvalKey ∧
      (action.kind = .button ∧ click.value = action.value ∨
        action.kind ≠ .button ∧ (action.options = [] ∨ click.value ∈ action.options.map (·.value))) := by
  unfold Hub.turnAction at h
  split at h
  · cases h
  split at h
  · cases h
  next action hf =>
  refine ⟨action, List.mem_of_find?_eq_some hf, ?_⟩
  split at h
  · cases h
  next hoffered =>
  dsimp only at h
  split at h
  · cases h
    refine ⟨rfl, ?_⟩
    by_cases hk : action.kind = .button
    · exact .inl ⟨hk, if_pos hk⟩
    · refine .inr ⟨hk, Classical.or_iff_not_imp_left.2 fun ho => ?_⟩
      rw [if_neg hk]
      exact Classical.byContradiction fun hv => hoffered ⟨hk, ho, hv⟩
  · split at h
    · cases h
    · split at h <;> cases h

/-- The conversation's route passes on the value of a button; of a menu, whatever the caller says. -/
theorem conversationAction_value {cards : List HeldCard} {key : String}
    (h : hub.conversationAction cards key body user = .ok (.approval click)) :
    ∃ held ∈ cards, held.postId = body.postId ∧ ∃ action ∈ held.actions,
      click.token = get action.context approvalKey ∧
      click.value = if action.kind = .button then action.value else body.value := by
  unfold Hub.conversationAction at h
  split at h
  · cases h
  dsimp only at h
  split at h
  · cases h
  next action hf =>
  split at h
  · cases h
  cases h
  have hmem := List.mem_of_find?_eq_some hf
  split at hmem
  · next held hheld =>
    have hpost : held.postId = body.postId := by simpa using List.find?_some hheld
    split at hmem
    · exact ⟨held, List.mem_of_find?_eq_some hheld, hpost, action, hmem, rfl, rfl⟩
    · cases hmem
  · cases hmem

/-- On either route of the HTTP gateway, a card that offers no window is answered without one. -/
theorem unoffered_http {int : String → Option Int} {token : String}
    {posted : List (String × List Action)} {cards : List HeldCard} {key : String}
    (hposted : posted.lookup body.postId = some (approvalActions token []))
    (hheld : ∀ held ∈ cards, held.postId = body.postId → held.actions = approvalActions token [])
    (h : hub.turnAction posted body user = .ok (.approval click) ∨
      hub.conversationAction cards key body user = .ok (.approval click)) :
    (Approvals.decide int click.value click.user).grantS ≤ 0 := by
  rcases h with h | h
  · obtain ⟨action, hm, -, hvalue⟩ := turnAction_offered h
    rw [hposted] at hm
    obtain ⟨hk, hv⟩ := button_of_unoffered hm
    obtain ⟨-, he⟩ | ⟨hn, -⟩ := hvalue
    · exact decide_unoffered (he ▸ hv)
    · exact absurd hk hn
  · obtain ⟨held, hm, hpost, action, ha, -, he⟩ := conversationAction_value h
    rw [hheld held hm hpost] at ha
    obtain ⟨hk, hv⟩ := button_of_unoffered ha
    rw [if_pos hk] at he
    exact decide_unoffered (he ▸ hv)

/-- A callback says what it likes: any value, for any request. -/
theorem callback_any {people : String → String → String} {token value userId : String}
    (ht : token ≠ "") (hv : value ≠ "") :
    Callback.approval people ⟨[(approvalKey, token), ("value", value)], userId⟩ =
      some ⟨token, value, people gatewayMattermost userId⟩ := by
  simp [Callback.approval, Callback.value, get, approvalKey, List.lookup_cons, ht, hv]

end Clicks
