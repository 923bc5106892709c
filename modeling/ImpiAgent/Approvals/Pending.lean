import ImpiAgent.Lib.Dict

/-!
# Requests waiting on a person

`PendingApprovals`: the registry of the requests on a card, and what a click does to it. A request's
future lives with its caller; here it is settled at most once, by the click that takes the request
out of the registry.
-/

namespace Approvals

/-- What a person decided, or their silence. -/
structure Approval where
  allowed : Bool
  grantS : Int
  approver : String
  timedOut : Bool
  deriving DecidableEq

def answerOnce : String := "once"
def answerDeny : String := "deny"
def answerGrantPrefix : String := "grant:"

/-- Decodes a control's value; `int` is Python's, none where it raises. -/
def decide (int : String → Option Int) (value user : String) : Approval :=
  if value = answerOnce then ⟨true, 0, user, false⟩
  else if answerGrantPrefix.toList.isPrefixOf value.toList then
    match int (.ofList (value.toList.drop answerGrantPrefix.length)) with
    | none => ⟨false, 0, user, false⟩
    | some seconds => ⟨0 < seconds, max seconds 0, user, false⟩
  else ⟨false, 0, user, false⟩

/-- A waiting request; where it names no approvers, anyone in the conversation may answer. -/
structure Pending where
  kind : String
  principal : String
  scopes : List String
  approvers : List String
  deriving DecidableEq

abbrev Registry := List (String × Pending)

def Registry.register (r : Registry) (token : String) (entry : Pending) : Registry :=
  Dict.assign token entry r

def Registry.discard (r : Registry) (token : String) : Registry := Dict.remove token r

def Pending.mayAnswer (p : Pending) (user : String) : Bool :=
  p.approvers.isEmpty || p.approvers.contains user

def Registry.mayAnswer (r : Registry) (token user : String) : Bool :=
  (r.lookup token).any (·.mayAnswer user)

inductive ApprovalOutcome
  | resolved
  | notMine
  | notAllowed
  deriving DecidableEq

/-- A click on a card's control. -/
structure Click where
  token : String
  value : String
  user : String
  deriving DecidableEq

section

variable (int : String → Option Int)

/-- `resolve`: the registry, what the click is told, and the answer the future is settled with. A
token in the registry has a future nobody settled: the click that settles one takes it out. -/
def Registry.resolve (r : Registry) (c : Click) : Registry × ApprovalOutcome × Option Approval :=
  match r.lookup c.token with
  | none => (r, .notMine, none)
  | some entry =>
    if ¬entry.mayAnswer c.user then (r, .notAllowed, none)
    else (Dict.remove c.token r, .resolved, some (decide int c.value c.user))

/-- What the future of `token` is settled with by clicks one after the other. -/
def Registry.settled (token : String) : Registry → List Click → Option Approval
  | _, [] => none
  | r, c :: cs =>
    let (r', _, answer) := r.resolve int c
    if c.token = token ∧ answer.isSome then answer else Registry.settled token r' cs

end

variable {int : String → Option Int}

theorem lookup_remove_ne {r : Registry} {token t : String} (h : token ≠ t) :
    (Dict.remove t r).lookup token = r.lookup token := by
  induction r with
  | nil => rfl
  | cons x r ih =>
    obtain ⟨k, p⟩ := x
    unfold Dict.remove at ih ⊢
    by_cases hk : k = t
    · subst hk
      rw [List.filter_cons_of_neg (by simp), ih, List.lookup_cons, beq_false_of_ne h]
    · rw [List.filter_cons_of_pos (by simpa using hk), List.lookup_cons, List.lookup_cons, ih]

/-- The answer is the decoded click of someone the request was addressed to. -/
theorem mem_of_settled {token : String} {entry : Pending} {answer : Approval} {r : Registry}
    {cs : List Click} (hr : r.lookup token = some entry)
    (h : r.settled int token cs = some answer) :
    ∃ c ∈ cs, c.token = token ∧ entry.mayAnswer c.user = true ∧
      answer = decide int c.value c.user := by
  induction cs generalizing r with
  | nil => cases h
  | cons c cs ih =>
    by_cases hc : c.token = token
    · have hl : r.lookup c.token = some entry := hc ▸ hr
      by_cases hm : entry.mayAnswer c.user = true
      · have hres : r.resolve int c = (Dict.remove c.token r, .resolved,
            some (decide int c.value c.user)) := by
          simp [Registry.resolve, hl, hm]
        simp only [Registry.settled, hres, hc, Option.isSome_some, and_self, if_true] at h
        cases h
        exact ⟨c, List.mem_cons_self, hc, hm, rfl⟩
      · have hres : r.resolve int c = (r, .notAllowed, none) := by
          simp [Registry.resolve, hl, hm]
        simp only [Registry.settled, hres, Option.isSome_none, Bool.false_eq_true, and_false,
          if_false] at h
        obtain ⟨c', hm', hc'⟩ := ih hr h
        exact ⟨c', List.mem_cons_of_mem _ hm', hc'⟩
    · have hr' : (r.resolve int c).1.lookup token = some entry := by
        unfold Registry.resolve
        split
        · exact hr
        · split
          · exact hr
          · rw [lookup_remove_ne (Ne.symm hc), hr]
      simp only [Registry.settled, hc, false_and, if_false] at h
      obtain ⟨c', hm', hc'⟩ := ih hr' h
      exact ⟨c', List.mem_cons_of_mem _ hm', hc'⟩

/-- An answer that does not allow opens no window. -/
theorem grantS_decide {value user : String} (h : (decide int value user).allowed = false) :
    (decide int value user).grantS ≤ 0 := by
  unfold decide at h ⊢
  split
  · exact Int.le_refl 0
  next hvalue =>
  rw [if_neg hvalue] at h
  split
  · next hprefix =>
    rw [if_pos hprefix] at h
    cases hint : int (.ofList (value.toList.drop answerGrantPrefix.length)) with
    | none => exact Int.le_refl 0
    | some seconds =>
      rw [hint] at h
      have hs : ¬0 < seconds := of_decide_eq_false h
      exact Int.max_le.2 ⟨Int.not_lt.1 hs, Int.le_refl 0⟩
  · exact Int.le_refl 0

/-- What comes of asking, by what the wait was settled with: nobody was asked, nobody answered, or
somebody did. -/
inductive Answered : Option Approval → Option Approval → Prop
  | nobody : Answered none none
  | silence {answer : Approval} : answer.allowed = false → Answered none (some answer)
  | click {answer : Approval} : (answer.allowed = false → answer.grantS ≤ 0) →
      Answered (some answer) (some answer)

theorem answered_settled {token : String} {entry : Pending} {r : Registry} {clicks : List Click} :
    Answered ((r.register token entry).settled int token clicks)
      (some (((r.register token entry).settled int token clicks).getD ⟨false, 0, "", true⟩)) := by
  cases hset : (r.register token entry).settled int token clicks with
  | none => exact .silence rfl
  | some answer =>
    refine .click fun ha => ?_
    have hreg : (r.register token entry).lookup token = some entry := by
      rw [Registry.register, Dict.lookup_assign, if_pos rfl]
    obtain ⟨_, _, _, _, rfl⟩ := mem_of_settled hreg hset
    exact grantS_decide ha

theorem timedOut_decide (value user : String) : (decide int value user).timedOut = false := by
  unfold decide
  split
  · rfl
  · split
    · split <;> rfl
    · rfl

end Approvals
