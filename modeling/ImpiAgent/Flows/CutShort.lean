import ImpiAgent.Lib.Lts
import Mathlib.Logic.Function.Basic

/-!
# What the next turn is told of one cut short

`AgentFlow.handle_batch`, `_turn` and `_end_stopped`, as far as `cut_short` of a session record goes:
the record is read under the application's key of the batch, the note goes into the prompt and is
cleared, the runtime runs the turn, and a turn that was stopped or timed out leaves a note. The notes
are written and cleared under the conversation id the platform gave the newest message.

`CutShort.lts`: turns of any conversations, one at a time on each key (the coalescer), with every
await that may raise. `Told`: each prompt the runtime ran holds the note of the turn it ran before
that one.
-/

namespace CutShort

variable {μ : Type}

/-- What `AgentFlow` asks of the newest message of a batch: the application's `ConversationKey` for
it, and the platform's name of its conversation. -/
structure Keying (μ : Type) where
  key : μ → String
  conversationId : μ → String

def stoppedNote : String :=
  "The turn before this one was stopped by the person before it finished. " ++
    "What it did up to then stands; what it was about to do did not happen."

/-- Where a turn is. `cut` has still to post what a stopped turn had said and to leave `note`. -/
inductive Stage
  | asked (note : String)
  | rendered (note : String)
  | ready (note : String)
  | running
  | returned
  | cut (note : String)
  | done
  deriving DecidableEq

/-- A turn in flight: its newest message's conversation id, and `facts.stopped`. -/
structure Turn where
  conversationId : String
  stage : Stage
  stopped : Bool
  deriving DecidableEq

/-- What happened to the turns of a record: the runtime ran one whose prompt held `note`, or one was
cut short with `note` to be told. -/
inductive Entry
  | ran (note : String)
  | cut (note : String)
  deriving DecidableEq

/-- `sessions` is `cut_short` of each record; `turns` and `history` go by the record's key. -/
structure State where
  sessions : String → Option String
  turns : String → Option Turn
  history : String → List Entry

namespace State

variable (s : State) (k : String)

/-- The note of a record. -/
def note : String := (s.sessions k).getD ""

/-- `sessions.set_cut_short`: an update, of the record with that id if there is one. -/
def setCutShort (conversationId note : String) : State :=
  match s.sessions conversationId with
  | none => s
  | some _ => { s with sessions := Function.update s.sessions conversationId (some note) }

/-- `sessions.get_or_create`. -/
def getOrCreate : State :=
  match s.sessions k with
  | none => { s with sessions := Function.update s.sessions k (some "") }
  | some _ => s

def put (t : Turn) : State := { s with turns := Function.update s.turns k (some t) }

def leave : State := { s with turns := Function.update s.turns k none }

def log (e : Entry) : State :=
  { s with history := Function.update s.history k (s.history k ++ [e]) }

end State

inductive Event (μ : Type)
  | asks (anchor : μ)
  | refused (k : String)
  | renders (k : String)
  | clears (k : String)
  | starts (k : String)
  | busy (k : String)
  | answers (k : String)
  | timesOut (k : String) (note : String)
  | fails (k : String)
  | stop (k : String) (cancelled : Bool)
  | touches (k : String)
  | notes (k : String)
  | ends (k : String)
  | raises (k : String)

/-- The batch's record is read; none of its conversation's turns is in flight. -/
def ask (K : Keying μ) (s : State) (anchor : μ) : Option State :=
  match s.turns (K.key anchor) with
  | some _ => none
  | none =>
    let s' := s.getOrCreate (K.key anchor)
    some (s'.put (K.key anchor)
      ⟨K.conversationId anchor, .asked (s'.note (K.key anchor)), false⟩)

/-- The turn ends as cut short: it owes the next one a note. -/
def cutShort (s : State) (k : String) (t : Turn) (note : String) : State :=
  (s.log k (.cut note)).put k { t with stage := .cut note }

/-- What the await a turn is at came to. -/
def advance (s : State) (k : String) (t : Turn) : Event μ → Option State
  | .refused _ =>
    match t.stage with
    | .asked _ => some (s.leave k)
    | _ => none
  | .renders _ =>
    match t.stage with
    | .asked note => some (s.put k { t with stage := .rendered note })
    | _ => none
  | .clears _ =>
    match t.stage with
    | .rendered note =>
      some ((if note ≠ "" then s.setCutShort t.conversationId "" else s).put k
        { t with stage := .ready note })
    | _ => none
  | .starts _ =>
    match t.stage with
    | .ready note => some ((s.log k (.ran note)).put k { t with stage := .running })
    | _ => none
  | .busy _ =>
    -- `AgentBusy`, told before the other timeouts: whether the turn was stopped is not asked
    match t.stage with
    | .ready _ => some (s.put k { t with stage := .done })
    | _ => none
  | .answers _ =>
    match t.stage with
    | .running => some (s.put k { t with stage := .returned })
    | _ => none
  | .timesOut _ note =>
    match t.stage with
    | .running => some (cutShort s k t (if t.stopped then stoppedNote else note))
    | _ => none
  | .fails _ =>
    -- `AgentError`, from a turn that ran or, as `AgentUnavailable`, from one that did not
    match t.stage with
    | .ready _ | .running =>
      some (if t.stopped then cutShort s k t stoppedNote else s.put k { t with stage := .done })
    | _ => none
  | .stop _ cancelled => some (s.put k { t with stopped := cancelled })
  | .touches _ =>
    match t.stage with
    | .returned =>
      some (if t.stopped then cutShort s k t stoppedNote else s.put k { t with stage := .done })
    | _ => none
  | .notes _ =>
    match t.stage with
    | .cut note => some ((s.setCutShort t.conversationId note).put k { t with stage := .done })
    | _ => none
  | .ends _ =>
    match t.stage with
    | .done => some (s.leave k)
    | _ => none
  | .raises _ =>
    -- an exception none of the branches names, or the task was cancelled
    match t.stage with
    | .running | .returned =>
      some ((if t.stopped then s.log k (.cut stoppedNote) else s).leave k)
    | _ => some (s.leave k)
  | .asks _ => none

/-- The key of the turn an event is about. -/
def Event.key (K : Keying μ) : Event μ → String
  | .asks anchor => K.key anchor
  | .refused k | .renders k | .clears k | .starts k | .busy k | .answers k | .timesOut k _
  | .fails k | .stop k _ | .touches k | .notes k | .ends k | .raises k => k

def next (K : Keying μ) (s : State) : Event μ → Option State
  | .asks anchor => ask K s anchor
  | e => (s.turns (e.key K)).bind fun t => advance s (e.key K) t e

def lts (K : Keying μ) : Lts State (Event μ) where
  init s := s = ⟨fun _ => none, fun _ => none, fun _ => []⟩
  next := next K

/-- What the next turn that runs is to be told: the note of the last one that ran, where that one was
cut short. -/
def owed (h : List Entry) : String :=
  match h.getLast? with
  | some (.cut note) => note
  | _ => ""

/-- Each prompt the runtime ran held what was owed, no more and no less. -/
def Told (h : List Entry) : Prop :=
  ∀ before note after, h = before ++ .ran note :: after → note = owed before

/-- A turn stays off the notes of others and loses none of its own: what it clears or leaves is under
its record's key, a note it cleared goes to the runtime, and one that it owes is left before it is
over. -/
def Keeps (t : Turn) : Event μ → Prop
  | .clears k =>
    match t.stage with
    | .rendered note => note ≠ "" → t.conversationId = k
    | _ => True
  | .notes k => t.conversationId = k
  | .busy _ | .fails _ =>
    match t.stage with
    | .ready note => note = ""
    | _ => True
  | .raises _ =>
    match t.stage with
    | .ready note | .cut note => note = ""
    | .running | .returned => t.stopped = false
    | _ => True
  | _ => True

def Kept (K : Keying μ) (s : State) (e : Event μ) : Prop :=
  ∀ t ∈ s.turns (e.key K), Keeps t e

instance (t : Turn) (e : Event μ) : Decidable (Keeps t e) := by
  unfold Keeps
  split <;> (try split) <;> infer_instance

instance (K : Keying μ) (s : State) (e : Event μ) : Decidable (Kept K s e) :=
  inferInstanceAs (Decidable (∀ t ∈ s.turns (e.key K), Keeps t e))

/-! ## The record and its history -/

theorem told_snoc {h : List Entry} {e : Entry} :
    Told (h ++ [e]) ↔ Told h ∧ ∀ note, e = .ran note → note = owed h := by
  constructor
  · refine fun ht => ⟨fun before note after he => ht before note (after ++ [e]) ?_,
      fun note he => ht h note [] ?_⟩
    · rw [he, List.append_assoc, List.cons_append]
    · rw [he]
  · rintro ⟨ht, hn⟩ before note after he
    rcases List.eq_nil_or_concat after with rfl | ⟨after, e', rfl⟩
    · obtain ⟨rfl, hl⟩ := List.append_inj' he rfl
      exact hn note (List.singleton_inj.1 hl)
    · rw [List.concat_eq_append, ← List.cons_append, ← List.append_assoc] at he
      exact ht before note after (List.append_inj' he rfl).1

@[simp] theorem owed_ran (h : List Entry) (note : String) : owed (h ++ [.ran note]) = "" := by
  simp [owed]

@[simp] theorem owed_cut (h : List Entry) (note : String) : owed (h ++ [.cut note]) = note := by
  simp [owed]

section Fields

variable (s : State) (k k' : String) (t : Turn) (e : Entry) (c n : String)

@[simp] theorem put_sessions : (s.put k t).sessions = s.sessions := rfl
@[simp] theorem put_note : (s.put k t).note k' = s.note k' := rfl
@[simp] theorem put_history : (s.put k t).history = s.history := rfl
@[simp] theorem put_turns : (s.put k t).turns k = some t := Function.update_self ..
@[simp] theorem leave_sessions : (s.leave k).sessions = s.sessions := rfl
@[simp] theorem leave_note : (s.leave k).note k' = s.note k' := rfl
@[simp] theorem leave_history : (s.leave k).history = s.history := rfl
@[simp] theorem leave_turns : (s.leave k).turns k = none := Function.update_self ..
@[simp] theorem log_sessions : (s.log k e).sessions = s.sessions := rfl
@[simp] theorem log_note : (s.log k e).note k' = s.note k' := rfl
@[simp] theorem log_turns : (s.log k e).turns = s.turns := rfl
@[simp] theorem log_history : (s.log k e).history k = s.history k ++ [e] :=
  Function.update_self ..

@[simp] theorem setCutShort_turns : (s.setCutShort c n).turns = s.turns := by
  unfold State.setCutShort
  split <;> rfl

@[simp] theorem setCutShort_history : (s.setCutShort c n).history = s.history := by
  unfold State.setCutShort
  split <;> rfl

@[simp] theorem getOrCreate_turns : (s.getOrCreate k).turns = s.turns := by
  unfold State.getOrCreate
  split <;> rfl

@[simp] theorem getOrCreate_history : (s.getOrCreate k).history = s.history := by
  unfold State.getOrCreate
  split <;> rfl

/-- A record is made with no note. -/
@[simp] theorem getOrCreate_note : (s.getOrCreate k).note k' = s.note k' := by
  unfold State.getOrCreate
  split
  · next hn =>
    by_cases h : k' = k
    · subst h
      simp [State.note, hn]
    · simp [State.note, h]
  · rfl

theorem getOrCreate_some : (s.getOrCreate k).sessions k ≠ none := by
  unfold State.getOrCreate
  split
  · simp
  · next h => simp [h]

theorem getOrCreate_ne {k k' : String} (h : s.sessions k' ≠ none) :
    (s.getOrCreate k).sessions k' ≠ none := by
  unfold State.getOrCreate
  split
  · by_cases hk : k' = k <;> simp [hk, h]
  · exact h

theorem setCutShort_self {s : State} {k : String} (h : s.sessions k ≠ none) (n : String) :
    (s.setCutShort k n).note k = n := by
  unfold State.setCutShort
  split
  · exact absurd ‹_› h
  · simp [State.note]

theorem setCutShort_other {s : State} {c k : String} (h : k ≠ c) (n : String) :
    (s.setCutShort c n).note k = s.note k := by
  unfold State.setCutShort
  split
  · rfl
  · simp [State.note, h]

theorem setCutShort_ne {k : String} (h : s.sessions k ≠ none) :
    (s.setCutShort c n).sessions k ≠ none := by
  unfold State.setCutShort
  split
  · exact h
  · by_cases hk : k = c <;> simp [hk, h]

end Fields

/-! ## Steps -/

/-- Where the note is while a turn is at a stage: in the record, in the turn's prompt, or still to be
left. -/
def At (note owed : String) : Stage → Prop
  | .asked n | .rendered n => n = owed ∧ note = owed
  | .ready n => n = owed ∧ note = ""
  | .running | .returned => note = "" ∧ owed = ""
  | .cut n => note = "" ∧ owed = n
  | .done => note = owed

structure Sound (s : State) (k : String) : Prop where
  told : Told (s.history k)
  idle : s.turns k = none → s.note k = owed (s.history k)
  row : s.turns k ≠ none → s.sessions k ≠ none
  turn : ∀ t, s.turns k = some t → At (s.note k) (owed (s.history k)) t.stage

theorem Sound.of_idle {s : State} {k : String} (ht : Told (s.history k)) (hi : s.turns k = none)
    (hn : s.note k = owed (s.history k)) : Sound s k where
  told := ht
  idle _ := hn
  row h := absurd hi h
  turn _ h := nomatch hi.symm.trans h

theorem Sound.of_turn {s : State} {k : String} {t : Turn} (ht : Told (s.history k))
    (hi : s.turns k = some t) (hr : s.sessions k ≠ none)
    (hn : At (s.note k) (owed (s.history k)) t.stage) : Sound s k where
  told := ht
  idle h := nomatch hi.symm.trans h
  row _ := hr
  turn _ h := by
    cases hi.symm.trans h
    exact hn

/-- The turn of `k` moves on, the record and the history as they were. -/
theorem Sound.put {s : State} {k : String} {t : Turn} (h : Sound s k) (hr : s.turns k ≠ none)
    (hn : At (s.note k) (owed (s.history k)) t.stage) : Sound (s.put k t) k :=
  .of_turn h.told (put_turns ..) (h.row hr) hn

theorem Sound.leave {s : State} {k : String} (h : Sound s k)
    (hn : s.note k = owed (s.history k)) : Sound (s.leave k) k :=
  .of_idle h.told (leave_turns ..) hn

/-- A turn cut short owes its note, and the record has none. -/
theorem Sound.cutShort {s : State} {k : String} {t : Turn} (h : Sound s k)
    (hr : s.turns k ≠ none) (hn : s.note k = "") (note : String) :
    Sound (cutShort s k t note) k := by
  refine .of_turn (t := { t with stage := .cut note }) ?_ (put_turns ..) (h.row hr) ?_
  · rw [CutShort.cutShort, put_history, log_history, told_snoc]
    exact ⟨h.told, fun _ he => nomatch he⟩
  · rw [CutShort.cutShort, put_note, log_note, put_history, log_history, owed_cut]
    exact ⟨hn, rfl⟩

/-- The await of the turn in flight comes to something. -/
theorem Sound.advance {K : Keying μ} {s s' : State} {e : Event μ} {t : Turn}
    (h : Sound s (e.key K)) (ht : s.turns (e.key K) = some t) (hc : Kept K s e)
    (hn : advance s (e.key K) t e = some s') : Sound s' (e.key K) := by
  have hsome : s.turns (e.key K) ≠ none := by
    rw [ht]
    exact Option.some_ne_none t
  have hat := h.turn t ht
  replace hc := hc t ht
  obtain ⟨c, stage, stopped⟩ := t
  cases e with
  | asks => cases hn
  | refused k =>
    simp only [CutShort.advance] at hn
    split at hn <;> cases hn
    exact h.leave hat.2
  | renders k =>
    simp only [CutShort.advance] at hn
    split at hn <;> cases hn
    exact h.put hsome hat
  | clears k =>
    simp only [CutShort.advance] at hn
    split at hn <;> cases hn
    rename_i note
    obtain ⟨rfl, hnote⟩ := hat
    split
    · next hne =>
      have hk : c = k := hc hne
      subst hk
      refine .of_turn (t := ⟨c, .ready _, stopped⟩) ?_ (put_turns ..) ?_ ?_
      · simpa using h.told
      · simpa using setCutShort_ne s c "" (h.row hsome)
      · simpa [At, Event.key] using setCutShort_self (h.row hsome) ""
    · next he =>
      exact h.put hsome ⟨rfl, hnote.trans (Classical.not_not.1 he)⟩
  | starts k =>
    simp only [CutShort.advance] at hn
    split at hn <;> cases hn
    rename_i note
    obtain ⟨rfl, hnote⟩ := hat
    refine .of_turn (t := ⟨c, .running, stopped⟩) ?_ (put_turns ..) (h.row hsome) ?_
    · rw [put_history, log_history, told_snoc]
      exact ⟨h.told, fun _ he => by cases he; rfl⟩
    · rw [put_note, log_note, put_history, log_history, owed_ran]
      exact ⟨hnote, rfl⟩
  | busy k =>
    simp only [CutShort.advance] at hn
    split at hn <;> cases hn
    exact h.put hsome (hat.2.trans (hc.symm.trans hat.1))
  | answers k =>
    simp only [CutShort.advance] at hn
    split at hn <;> cases hn
    exact h.put hsome hat
  | timesOut k note =>
    simp only [CutShort.advance] at hn
    split at hn <;> cases hn
    exact h.cutShort hsome hat.1 _
  | fails k =>
    simp only [CutShort.advance] at hn
    split at hn <;> cases hn
    · split
      · exact h.cutShort hsome hat.2 _
      · exact h.put hsome (hat.2.trans (hc.symm.trans hat.1))
    · split
      · exact h.cutShort hsome hat.1 _
      · exact h.put hsome (hat.1.trans hat.2.symm)
  | stop k cancelled =>
    cases hn
    exact h.put hsome hat
  | touches k =>
    simp only [CutShort.advance] at hn
    split at hn <;> cases hn
    split
    · exact h.cutShort hsome hat.1 _
    · exact h.put hsome (hat.1.trans hat.2.symm)
  | notes k =>
    simp only [CutShort.advance] at hn
    split at hn <;> cases hn
    rename_i note
    cases hc
    refine .of_turn (t := ⟨c, .done, stopped⟩) ?_ (put_turns ..) ?_ ?_
    · simpa using h.told
    · simpa using setCutShort_ne s c note (h.row hsome)
    · simp only [put_note, put_history, setCutShort_history]
      exact (setCutShort_self (h.row hsome) note).trans hat.2.symm
  | ends k =>
    simp only [CutShort.advance] at hn
    split at hn <;> cases hn
    exact h.leave hat
  | raises k =>
    cases stage with
    | asked note | rendered note => cases hn; exact h.leave hat.2
    | ready note => cases hn; exact h.leave (hat.2.trans (hc.symm.trans hat.1))
    | running | returned =>
      have hs : stopped = false := hc
      subst hs
      cases hn
      exact h.leave (hat.1.trans hat.2.symm)
    | cut note => cases hn; exact h.leave (hat.1.trans (hc.symm.trans hat.2.symm))
    | done => cases hn; exact h.leave hat

/-! ## Other conversations -/

/-- Of the conversation `k` nothing is different. -/
structure Same (k : String) (s s' : State) : Prop where
  history : s'.history k = s.history k
  turns : s'.turns k = s.turns k
  note : s'.note k = s.note k
  row : s.sessions k ≠ none → s'.sessions k ≠ none

theorem Same.trans {k : String} {s s₁ s' : State} (h : Same k s s₁) (h' : Same k s₁ s') :
    Same k s s' :=
  ⟨h'.history.trans h.history, h'.turns.trans h.turns, h'.note.trans h.note, h'.row ∘ h.row⟩

theorem Sound.same {s s' : State} {k : String} (h : Sound s k) (hs : Same k s s') :
    Sound s' k where
  told := hs.history ▸ h.told
  idle hi := by rw [hs.note, hs.history, h.idle (hs.turns ▸ hi)]
  row hi := hs.row (h.row (hs.turns ▸ hi))
  turn t hi := by
    rw [hs.note, hs.history]
    exact h.turn t (hs.turns ▸ hi)

section Same

variable (s : State) {k k' : String} (h : k' ≠ k)
include h

theorem same_put (t : Turn) : Same k' s (s.put k t) :=
  ⟨rfl, Function.update_of_ne h .., rfl, id⟩

theorem same_leave : Same k' s (s.leave k) := ⟨rfl, Function.update_of_ne h .., rfl, id⟩

theorem same_log (e : Entry) : Same k' s (s.log k e) :=
  ⟨Function.update_of_ne h .., rfl, rfl, id⟩

theorem same_setCutShort (n : String) : Same k' s (s.setCutShort k n) :=
  ⟨congrFun (setCutShort_history ..) k', congrFun (setCutShort_turns ..) k',
    setCutShort_other h n, setCutShort_ne s k n⟩

theorem same_cutShort (t : Turn) (n : String) : Same k' s (cutShort s k t n) :=
  (same_log s h _).trans (same_put _ h _)

end Same

theorem same_getOrCreate (s : State) (k k' : String) : Same k' s (s.getOrCreate k) :=
  ⟨congrFun (getOrCreate_history ..) k', congrFun (getOrCreate_turns ..) k',
    getOrCreate_note .., getOrCreate_ne s⟩

theorem same_advance {K : Keying μ} {s s' : State} {e : Event μ} {t : Turn} {k' : String}
    (hk : k' ≠ e.key K) (ht : s.turns (e.key K) = some t) (hc : Kept K s e)
    (hn : advance s (e.key K) t e = some s') : Same k' s s' := by
  replace hc := hc t ht
  obtain ⟨c, stage, stopped⟩ := t
  cases e with
  | asks => cases hn
  | refused k | ends k =>
    simp only [advance] at hn
    split at hn <;> cases hn
    exact same_leave s hk
  | renders k | busy k | answers k =>
    simp only [advance] at hn
    split at hn <;> cases hn
    exact same_put s hk _
  | clears k =>
    simp only [advance] at hn
    split at hn <;> cases hn
    split
    · next hne =>
      have hk' : c = k := hc hne
      subst hk'
      exact (same_setCutShort s hk "").trans (same_put _ hk _)
    · exact same_put s hk _
  | starts k =>
    simp only [advance] at hn
    split at hn <;> cases hn
    exact (same_log s hk _).trans (same_put _ hk _)
  | timesOut k note =>
    simp only [advance] at hn
    split at hn <;> cases hn
    exact same_cutShort s hk _ _
  | fails k | touches k =>
    simp only [advance] at hn
    split at hn <;> cases hn <;> split <;>
      first
      | exact same_cutShort s hk _ _
      | exact same_put s hk _
  | stop k cancelled =>
    cases hn
    exact same_put s hk _
  | notes k =>
    simp only [advance] at hn
    split at hn <;> cases hn
    cases hc
    exact (same_setCutShort s hk _).trans (same_put _ hk _)
  | raises k =>
    simp only [advance] at hn
    split at hn <;> cases hn
    · split
      · exact (same_log s hk _).trans (same_leave _ hk)
      · exact same_leave s hk
    · split
      · exact (same_log s hk _).trans (same_leave _ hk)
      · exact same_leave s hk
    · exact same_leave s hk

/-! ## Runs -/

theorem Sound.ask {K : Keying μ} {s s' : State} {anchor : μ} {k : String} (h : Sound s k)
    (hn : ask K s anchor = some s') : Sound s' k := by
  unfold CutShort.ask at hn
  split at hn <;> cases hn
  next hi =>
  have hg := h.same (same_getOrCreate s (K.key anchor) k)
  by_cases hk : k = K.key anchor
  · subst hk
    have hnote := hg.idle (by rw [getOrCreate_turns, hi])
    exact .of_turn hg.told (put_turns ..) (getOrCreate_some s _) ⟨hnote, hnote⟩
  · exact hg.same (same_put _ hk _)

theorem Sound.step {K : Keying μ} {s s' : State} {e : Event μ} (h : ∀ k, Sound s k)
    (hc : Kept K s e) (hn : next K s e = some s') (k : String) : Sound s' k := by
  by_cases he : ∃ anchor, e = .asks anchor
  · obtain ⟨anchor, rfl⟩ := he
    exact (h k).ask hn
  · have hn' : ((s.turns (e.key K)).bind fun t => CutShort.advance s (e.key K) t e) = some s' := by
      cases e with
      | asks anchor => exact absurd ⟨anchor, rfl⟩ he
      | _ => exact hn
    obtain ⟨t, ht, hn'⟩ := Option.bind_eq_some_iff.1 hn'
    by_cases hk : k = e.key K
    · exact hk ▸ (h _).advance ht hc hn'
    · exact (h k).same (same_advance hk ht hc hn')

theorem Sound.reach {K : Keying μ} {s : State} (h : (lts K).Reach (Kept K) s) :
    ∀ k, Sound s k := by
  refine h.inv (I := fun s => ∀ k, Sound s k) ?_ fun _ _ _ hs hc hn => Sound.step hs hc hn
  rintro s rfl k
  exact .of_idle (fun before note after he => by simp at he) rfl rfl

/-- Where turns keep off the notes of others and lose none of their own, each prompt the runtime ran
holds the note of the turn of that record which ran before it, and no other. -/
theorem note_to_next (K : Keying μ) {s : State} (h : (lts K).Reach (Kept K) s) (k : String) :
    Told (s.history k) :=
  (Sound.reach h k).told

namespace Sample

/-- The platform's id is the key. -/
def platform : Keying String := ⟨id, id⟩

/-- An application that keeps a thread's messages under a case. -/
def cases : Keying String := ⟨fun _ => "case 7", id⟩

def start : State := ⟨fun _ => none, fun _ => none, fun _ => []⟩

variable (k m : String)

def runs : List (Event String) := [.asks m, .renders k, .clears k, .starts k]

/-- A turn stopped while it runs. -/
def stopped : List (Event String) :=
  runs k m ++ [.stop k true, .answers k, .touches k, .notes k, .ends k]

def answered : List (Event String) := runs k m ++ [.answers k, .touches k, .ends k]

/-- A turn the engine had no room for. -/
def busy : List (Event String) := [.asks m, .renders k, .clears k, .busy k, .ends k]

end Sample

/-- A stopped turn, one that was not admitted, and two more: the first of them is told. -/
theorem note_to_next_run : ∃ s : State,
    (lts Sample.platform).Reach (Kept Sample.platform) s ∧
      s.history "t" = [.ran "", .cut stoppedNote, .ran stoppedNote, .ran ""] ∧
      Told (s.history "t") := by
  have h : ((lts Sample.platform).check (fun s e => decide (Kept Sample.platform s e)) Sample.start
      (Sample.stopped "t" "t" ++ [.asks "t", .refused "t"] ++ Sample.answered "t" "t" ++
        Sample.answered "t" "t")).any (fun s => decide (s.history "t" =
          [.ran "", .cut stoppedNote, .ran stoppedNote, .ran ""])) = true := by decide +kernel
  obtain ⟨s, hs, hh⟩ := (Option.any_eq_true _ _).1 h
  have hr := Lts.reach_of_check (L := lts Sample.platform)
    (fun _ _ h => of_decide_eq_true h) rfl hs
  exact ⟨s, hr, of_decide_eq_true hh, note_to_next Sample.platform hr "t"⟩

/-- The key is the application's: the note is left under an id no record has, and the next turn is
not told. The engine is busy: the turn that did not run has used the note up. -/
theorem note_lost :
    (∃ s, (lts Sample.cases).Reach Lts.Any s ∧
      s.history "case 7" = [.ran "", .cut stoppedNote, .ran ""] ∧ ¬Told (s.history "case 7")) ∧
      ∃ s, (lts Sample.platform).Reach Lts.Any s ∧
        s.history "t" = [.ran "", .cut stoppedNote, .ran ""] ∧ ¬Told (s.history "t") := by
  have hnot : ¬Told [.ran "", .cut stoppedNote, .ran ""] := fun h =>
    absurd (h [.ran "", .cut stoppedNote] "" [] rfl) (by decide)
  have h : ((lts Sample.cases).check (fun _ _ => true) Sample.start
      (Sample.stopped "case 7" "t" ++ Sample.answered "case 7" "t")).any (fun s =>
        decide (s.history "case 7" = [.ran "", .cut stoppedNote, .ran ""])) = true := by decide +kernel
  have h' : ((lts Sample.platform).check (fun _ _ => true) Sample.start
      (Sample.stopped "t" "t" ++ Sample.busy "t" "t" ++ Sample.answered "t" "t")).any (fun s =>
        decide (s.history "t" = [.ran "", .cut stoppedNote, .ran ""])) = true := by decide +kernel
  obtain ⟨s, hs, hh⟩ := (Option.any_eq_true _ _).1 h
  obtain ⟨s', hs', hh'⟩ := (Option.any_eq_true _ _).1 h'
  replace hh := of_decide_eq_true hh
  replace hh' := of_decide_eq_true hh'
  exact ⟨⟨s, Lts.reach_of_check (fun _ _ _ => trivial) rfl hs, hh, hh ▸ hnot⟩,
    s', Lts.reach_of_check (fun _ _ _ => trivial) rfl hs', hh', hh' ▸ hnot⟩

end CutShort
