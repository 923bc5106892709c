import ImpiAgent.Runtimes.Proof.Session
import Mathlib.Data.List.DropRight

/-!
# What a turn answers

A turn's `Stream` is the events of its runs, the last of which is not retried, up to the
`agent_settled` that ends it. `sinceCall` are the texts completed since the last call and
`beforeCalls` those before each; what is reported on the way is exactly the latter
(`reported_eq`), and what is left for the answer the former (`hear_textParts`).

Nothing is taken away where a run ends, so a text of an earlier run stands before the last run's
unless a call came in between (`Stream.leftOver`). `answers_iff` is when the answer is the last
run's all the same.
-/

namespace PiRpc

open Text (Str isSpace)

variable {n : Nat} {t : Turn} {e : PiEvent} {es : List PiEvent}

/-! ## Texts without their edges -/

/-- White space at most. -/
def Blank (s : Str) : Prop := ∀ c ∈ s, isSpace c = true

theorem rstrip_eq (s : Str) : Text.rstrip s = s.rdropWhile isSpace := rfl

theorem strip_eq_nil {s : Str} : strip s = [] ↔ Blank s := by
  rw [strip, rstrip_eq, List.rdropWhile_eq_nil_iff, Text.lstrip]
  constructor
  · intro h c hc
    rw [← List.takeWhile_append_dropWhile (p := isSpace) (l := s), List.mem_append] at hc
    rcases hc with hc | hc
    · exact List.mem_takeWhile_imp hc
    · exact h c hc
  · exact fun h c hc => h c (List.dropWhile_subset _ hc)

/-- Begins and ends with no white space. -/
def Bare (s : Str) : Prop :=
  (∀ c ∈ s.head?, isSpace c = false) ∧ ∀ c ∈ s.getLast?, isSpace c = false

theorem bare_strip (s : Str) : Bare (strip s) := by
  have last : ∀ u : Str, ∀ c ∈ (u.rdropWhile isSpace).getLast?, isSpace c = false := by
    intro u c hc
    obtain ⟨hne, rfl⟩ := List.mem_getLast?_eq_getLast hc
    simpa using List.rdropWhile_last_not isSpace u hne
  refine ⟨fun c hc => ?_, last _⟩
  have hp : strip s <+: s.dropWhile isSpace := List.rdropWhile_prefix isSpace _
  cases hs : strip s with
  | nil => simp [hs] at hc
  | cons d l =>
    obtain rfl : d = c := by simpa [hs] using hc
    obtain ⟨tail, ht⟩ := hs ▸ hp
    have := List.head?_dropWhile_not isSpace s
    rwa [← ht, List.cons_append, List.head?_cons] at this

/-- What is taken away is white space on either side. -/
theorem strip_split (s : Str) : ∃ a b, s = a ++ strip s ++ b ∧ Blank a ∧ Blank b := by
  refine ⟨s.takeWhile isSpace, (s.dropWhile isSpace).rtakeWhile isSpace, ?_, fun c hc => ?_,
    fun c hc => ?_⟩
  · rw [List.append_assoc, strip, rstrip_eq, Text.lstrip, List.rdropWhile_append_rtakeWhile,
      List.takeWhile_append_dropWhile]
  · exact List.mem_takeWhile_imp hc
  · exact List.mem_rtakeWhile_imp hc

theorem strip_of_bare {a x b : Str} (ha : Blank a) (hx : Bare x) (hb : Blank b) :
    strip (a ++ x ++ b) = x := by
  rcases eq_or_ne x [] with rfl | hne
  · refine strip_eq_nil.2 fun c hc => ?_
    rw [List.append_nil, List.mem_append] at hc
    exact hc.elim (ha c) (hb c)
  · have front : Text.lstrip (a ++ x ++ b) = x ++ b := by
      rw [Text.lstrip, List.append_assoc, List.dropWhile_append_of_pos ha]
      cases x with
      | nil => exact absurd rfl hne
      | cons c x => exact List.dropWhile_cons_of_neg (by simpa using hx.1 c rfl)
    have back : (x ++ b).reverse.dropWhile isSpace = x.reverse := by
      rw [List.reverse_append, List.dropWhile_append_of_pos fun c hc => hb c (List.mem_reverse.1 hc)]
      cases hr : x.reverse with
      | nil => rfl
      | cons c l =>
        have hc : x.getLast? = some c := by rw [← List.head?_reverse, hr, List.head?_cons]
        exact List.dropWhile_cons_of_neg (by simpa using hx.2 c hc)
    rw [strip, front, Text.rstrip, back, List.reverse_reverse]

theorem strip_strip (s : Str) : strip (strip s) = strip s := by
  simpa using strip_of_bare (a := []) (b := []) nofun (bare_strip s) nofun

/-- A text is what is left of it behind another exactly if only white space stands before it. -/
theorem strip_append {l x : Str} (hne : x ≠ []) :
    strip (l ++ x) = x ↔ Blank l ∧ strip x = x := by
  constructor
  · intro h
    obtain ⟨a, b, hs, ha, hb⟩ := strip_split (l ++ x)
    rw [h] at hs
    have hx : Bare x := h ▸ bare_strip (l ++ x)
    refine ⟨?_, by rw [← h, strip_strip, h]⟩
    rcases eq_or_ne b [] with rfl | hbne
    · rw [List.append_nil, List.append_left_inj] at hs
      exact hs ▸ ha
    · have hlast := congrArg List.getLast? hs
      rw [List.getLast?_append_of_ne_nil _ hne, List.getLast?_append_of_ne_nil _ hbne] at hlast
      have hc := hx.2 (b.getLast hbne) (by rw [hlast, List.getLast?_eq_some_getLast hbne]; rfl)
      rw [hb _ (List.getLast_mem hbne)] at hc
      cases hc
  · rintro ⟨hl, hx⟩
    simpa using strip_of_bare (b := []) hl (hx ▸ bare_strip x) nofun

/-! ## The events of a turn -/

/-- The remark reported on an event. -/
def Turn.reports (t : Turn) : PiEvent → List Str
  | .toolExecutionStart _ =>
    if t.textParts = [] ∨ strip t.textParts.flatten = [] then [] else [strip t.textParts.flatten]
  | _ => []

/-- The remarks reported on the events. -/
def Turn.reported : Turn → List PiEvent → List Str
  | _, [] => []
  | t, e :: es => t.reports e ++ (t.dispatch e).reported es

/-- What a turn is after the events. -/
def Turn.hear (t : Turn) (es : List PiEvent) : Turn := es.foldl Turn.dispatch t

/-- The texts completed since the last call. -/
def sinceCall : List Str → List PiEvent → List Str
  | said, [] => said
  | _, .toolExecutionStart _ :: es => sinceCall [] es
  | said, .messageUpdate completed :: es => sinceCall (said ++ completed.toList) es
  | said, _ :: es => sinceCall said es

/-- The texts completed before each call, since the one before. -/
def beforeCalls : List Str → List PiEvent → List (List Str)
  | _, [] => []
  | said, .toolExecutionStart _ :: es => said :: beforeCalls [] es
  | said, .messageUpdate completed :: es => beforeCalls (said ++ completed.toList) es
  | said, _ :: es => beforeCalls said es

def PiEvent.isCall : PiEvent → Bool
  | .toolExecutionStart _ => true
  | _ => false

/-- Ends no run, settles nothing and does not answer prompt `n` as refused or handled. -/
def PiEvent.Ordinary (n : Nat) : PiEvent → Prop
  | .response id success handled => ¬(id = n ∧ (success = false ∨ handled = true))
  | .agentEnd .. | .agentSettled => False
  | _ => True

/-- One run of the model. -/
structure Run where
  body : List PiEvent
  messages : List Message
  willRetry : Bool

def Run.events (r : Run) : List PiEvent := r.body ++ [.agentEnd r.messages r.willRetry]

/-- The events of the turn of prompt `n`. -/
structure Stream (n : Nat) where
  earlier : List Run
  last : Run
  /-- What else comes before the runtime settles. -/
  after : List PiEvent
  ordinary : ∀ r ∈ earlier ++ [last], ∀ e ∈ r.body, e.Ordinary n
  final : last.willRetry = false
  quiet : ∀ e ∈ after, e.Ordinary n ∧ e.isCall = false ∧ ∀ s, e ≠ .messageUpdate (some s)

namespace Stream

variable (s : Stream n)

def before : List PiEvent := s.earlier.flatMap Run.events

def runs : List PiEvent := s.before ++ s.last.events ++ s.after

def events : List PiEvent := s.runs ++ [.agentSettled]

/-- What the last run completed after its last call. -/
def lastText : Str := (sinceCall [] s.last.body).flatten

/-- What earlier runs completed since the last call of the turn. -/
def leftOver : Str :=
  if s.last.body.any PiEvent.isCall then [] else (sinceCall [] s.before).flatten

/-- What was said before each call, trimmed and blank ones left out. -/
def remarks : List Str :=
  ((beforeCalls [] s.runs).map fun said => strip said.flatten).filter (· ≠ [])

end Stream

/-- A turn that begins; `aborted` where an abort is sent for it. -/
def Turn.begun (n : Nat) (aborted : Bool) : Turn := { Turn.fresh n with abortRequested := aborted }

/-- If the last run completed any text after its last call, the answer is that text; and what was
said before each call is reported, once and in order. -/
def Stream.Answered (s : Stream n) (aborted : Bool) : Prop :=
  (s.lastText ≠ [] → ∃ r, ((Turn.begun n aborted).hear s.events).future = .result r ∧
    r.text = s.lastText) ∧
  (Turn.begun n aborted).reported s.events = s.remarks

/-! ## What a turn makes of them -/

/-- Ends no turn of prompt `n`. -/
def PiEvent.Steady (n : Nat) (e : PiEvent) : Prop :=
  e.Ordinary n ∨ ∃ messages willRetry, e = .agentEnd messages willRetry

/-- What an event before the end of a turn does. -/
structure Heard (t : Turn) (e : PiEvent) (t' : Turn) : Prop where
  commandId : t'.commandId = t.commandId
  future : t'.future = t.future
  textParts : t'.textParts = sinceCall t.textParts [e]
  progress : t'.progress = t.progress ++ t.reports e

theorem heard (he : e.Steady t.commandId) : Heard t e (t.dispatch e) := by
  cases e with
  | response id success handled =>
    have ho : ¬(id = t.commandId ∧ (success = false ∨ handled = true)) := by
      rcases he with he | ⟨_, _, he⟩
      · exact he
      · cases he
    have : t.dispatch (.response id success handled) = t := by
      rw [Turn.dispatch, if_neg fun h => ho ⟨h.1, .inl h.2⟩, if_neg fun h => ho ⟨h.1, .inr h.2⟩]
    rw [this]
    exact ⟨rfl, rfl, rfl, (List.append_nil _).symm⟩
  | messageUpdate completed => exact ⟨rfl, rfl, rfl, (List.append_nil _).symm⟩
  | toolExecutionStart tool =>
    have hr : Heard t (.toolExecutionStart tool)
        (if t.textParts = [] then t else t.remark) := by
      by_cases hn : t.textParts = []
      · rw [if_pos hn]
        exact ⟨rfl, rfl, hn, by simp [Turn.reports, hn]⟩
      · rw [if_neg hn]
        refine ⟨rfl, rfl, rfl, ?_⟩
        by_cases hs : strip t.textParts.flatten = [] <;> simp [Turn.reports, Turn.remark, hn, hs]
    cases tool with
    | none => exact ⟨hr.commandId, hr.future, hr.textParts, hr.progress⟩
    | some name =>
      simp only [Turn.dispatch]
      split <;> exact ⟨hr.commandId, hr.future, hr.textParts, hr.progress⟩
  | agentEnd messages willRetry =>
    cases willRetry <;> exact ⟨rfl, rfl, rfl, (List.append_nil _).symm⟩
  | agentSettled =>
    rcases he with he | ⟨_, _, he⟩
    · exact he.elim
    · cases he
  | toolExecutionEnd | extensionUiRequest | other => exact ⟨rfl, rfl, rfl, (List.append_nil _).symm⟩

theorem sinceCall_append (said : List Str) (es es' : List PiEvent) :
    sinceCall said (es ++ es') = sinceCall (sinceCall said es) es' := by
  induction es generalizing said with
  | nil => rfl
  | cons e es ih => cases e <;> exact ih _

/-- What stands before is kept as long as there is no call. -/
theorem sinceCall_eq (said : List Str) (es : List PiEvent) : sinceCall said es =
    if es.any PiEvent.isCall then sinceCall [] es else said ++ sinceCall [] es := by
  induction es generalizing said with
  | nil => simp [sinceCall]
  | cons e es ih =>
    cases e with
    | toolExecutionStart => rfl
    | messageUpdate completed =>
      simp only [sinceCall, List.any_cons, PiEvent.isCall, Bool.false_or, List.nil_append]
      rw [ih, ih completed.toList]
      split <;> simp
    | _ => exact ih said

/-- A turn over events that do not end it. -/
structure Told (t : Turn) (es : List PiEvent) (t' : Turn) : Prop where
  commandId : t'.commandId = t.commandId
  future : t'.future = t.future
  textParts : t'.textParts = sinceCall t.textParts es
  progress : t'.progress = t.progress ++ t.reported es

theorem told (he : ∀ e ∈ es, e.Steady t.commandId) : Told t es (t.hear es) := by
  induction es generalizing t with
  | nil => exact ⟨rfl, rfl, rfl, (List.append_nil _).symm⟩
  | cons e es ih =>
    have h := heard (he e List.mem_cons_self)
    have rest := ih (t := t.dispatch e) fun e' he' =>
      h.commandId ▸ he e' (List.mem_cons_of_mem _ he')
    refine ⟨rest.commandId.trans h.commandId, rest.future.trans h.future, ?_, ?_⟩
    · rw [Turn.hear, List.foldl_cons, ← Turn.hear, rest.textParts, h.textParts,
        ← sinceCall_append]
      rfl
    · rw [Turn.hear, List.foldl_cons, ← Turn.hear, rest.progress, h.progress, List.append_assoc]
      rfl

/-- What is reported is what was said before each call. -/
theorem reported_eq (he : ∀ e ∈ es, e.Steady t.commandId) : t.reported es =
    ((beforeCalls t.textParts es).map fun said => strip said.flatten).filter (· ≠ []) := by
  induction es generalizing t with
  | nil => rfl
  | cons e es ih =>
    have h := heard (he e List.mem_cons_self)
    have rest := ih (t := t.dispatch e) fun e' he' =>
      h.commandId ▸ he e' (List.mem_cons_of_mem _ he')
    rw [Turn.reported, rest, h.textParts]
    cases e with
    | toolExecutionStart tool =>
      simp only [Turn.reports, sinceCall, beforeCalls, List.map_cons, List.filter_cons]
      by_cases hn : t.textParts = []
      · simp [hn, strip_eq_nil, Blank]
      · by_cases hs : strip t.textParts.flatten = [] <;> simp [hn, hs]
    | _ => rfl

/-! ## What it answers -/

theorem hear_append (es es' : List PiEvent) : t.hear (es ++ es') = (t.hear es).hear es' :=
  List.foldl_append

/-- The run that is ended by its agent stays the last but for another that is. -/
theorem lastAgentEnd_dispatch (he : e.Ordinary t.commandId) :
    (t.dispatch e).lastAgentEnd = t.lastAgentEnd := by
  cases e with
  | response id success handled =>
    rw [Turn.dispatch, if_neg fun h => he ⟨h.1, .inl h.2⟩, if_neg fun h => he ⟨h.1, .inr h.2⟩]
  | toolExecutionStart tool =>
    have hr : (if t.textParts = [] then t else t.remark).lastAgentEnd = t.lastAgentEnd := by
      split <;> rfl
    cases tool with
    | none => exact hr
    | some name =>
      simp only [Turn.dispatch]
      split <;> exact hr
  | agentEnd | agentSettled => exact he.elim
  | messageUpdate | toolExecutionEnd | extensionUiRequest | other => rfl

theorem lastAgentEnd_hear (he : ∀ e ∈ es, e.Ordinary t.commandId) :
    (t.hear es).lastAgentEnd = t.lastAgentEnd := by
  induction es generalizing t with
  | nil => rfl
  | cons e es ih =>
    have h := heard (.inl (he e List.mem_cons_self))
    exact (ih (t := t.dispatch e) fun e' he' => h.commandId ▸ he e' (List.mem_cons_of_mem _ he')).trans
      (lastAgentEnd_dispatch (he e List.mem_cons_self))

/-- What a turn that is settled has said, if it has said anything, is its answer. -/
theorem complete_text {messages : List Message} {x : Str} (hf : t.future = .pending)
    (hp : ∀ p ∈ t.progress, strip p = p) (hx : x ≠ []) (hb : Blank t.textParts.flatten → Blank x) :
    (∃ r, (t.complete (some messages)).future = .result r ∧ r.text = x) ↔
      strip t.textParts.flatten = x := by
  have settled : ∀ r, (t.settle (.result r)).future = .result r := fun r => by
    rw [Turn.settle, if_pos hf]
  by_cases hs : strip t.textParts.flatten = []
  · refine iff_of_false ?_ (by rw [hs]; exact hx.symm)
    -- the answer is made of what is not blank, and `x` would be
    have blank : strip x = [] := strip_eq_nil.2 (hb (strip_eq_nil.1 hs))
    rintro ⟨r, hr, rfl⟩
    suffices trimmed : strip r.text = r.text from hx (trimmed.symm.trans blank)
    rw [Turn.complete] at hr
    simp only [hs, if_true] at hr
    split at hr
    · rw [Turn.fail, Turn.settle, if_pos hf] at hr
      cases hr
    · rw [settled] at hr
      obtain rfl := Future.result.inj hr
      dsimp only
      split
      · rcases List.eq_nil_or_concat t.progress with he | ⟨l, p, he⟩
        · rw [he]
          rfl
        · have := hp p (by simp [he])
          simp [he, this]
      · rw [finalText, strip_strip]
  · rw [Turn.complete]
    simp only [hs, if_false, false_and]
    rw [settled]
    simp

namespace Stream

variable (s : Stream n)

theorem steady : ∀ e ∈ s.runs, e.Steady n := by
  have run : ∀ r ∈ s.earlier ++ [s.last], ∀ e ∈ r.events, e.Steady n := by
    intro r hr e he
    rcases List.mem_append.1 he with he | he
    · exact .inl (s.ordinary r hr e he)
    · exact .inr ⟨_, _, List.mem_singleton.1 he⟩
  intro e he
  rcases List.mem_append.1 he with he | he
  · rcases List.mem_append.1 he with he | he
    · obtain ⟨r, hr, he⟩ := List.mem_flatMap.1 he
      exact run r (List.mem_append_left _ hr) e he
    · exact run s.last (by simp) e he
  · exact .inl (s.quiet e he).1

/-- Nothing is said after the last run. -/
theorem sinceCall_quiet {said : List Str} {es : List PiEvent}
    (h : ∀ e ∈ es, e.isCall = false ∧ ∀ s, e ≠ .messageUpdate (some s)) :
    sinceCall said es = said := by
  induction es with
  | nil => rfl
  | cons e es ih =>
    have he := h e List.mem_cons_self
    have ih := ih fun e' he' => h e' (List.mem_cons_of_mem _ he')
    cases e with
    | toolExecutionStart tool => cases he.1
    | messageUpdate completed =>
      cases completed with
      | none => simpa [sinceCall] using ih
      | some x => exact absurd rfl (he.2 x)
    | _ => exact ih

/-- What the turn has said when it is settled. -/
theorem said_eq : (sinceCall [] s.runs).flatten = s.leftOver ++ s.lastText := by
  rw [runs, sinceCall_append, sinceCall_quiet fun e he => (s.quiet e he).2, sinceCall_append,
    Run.events, sinceCall_append]
  show (sinceCall _ s.last.body).flatten = _
  rw [sinceCall_eq, leftOver, lastText]
  split <;> simp

theorem lastAgentEnd (t : Turn) (ht : t.commandId = n) :
    (t.hear s.runs).lastAgentEnd = some s.last.messages := by
  have begun : ∀ e ∈ s.before ++ s.last.body, e.Steady t.commandId := by
    intro e he
    rw [ht]
    refine s.steady e ?_
    rw [runs, Run.events]
    simp only [List.mem_append] at he ⊢
    tauto
  have hid := (told begun).commandId
  have ended : ((t.hear (s.before ++ s.last.body)).dispatch
      (.agentEnd s.last.messages s.last.willRetry)).lastAgentEnd = some s.last.messages := by
    rw [s.final]
    rfl
  have heq : s.runs = s.before ++ s.last.body ++
      .agentEnd s.last.messages s.last.willRetry :: s.after := by
    rw [runs, Run.events]
    simp
  rw [heq, hear_append, Turn.hear, List.foldl_cons, ← Turn.hear, lastAgentEnd_hear, ended]
  intro e he
  have := (heard (t := t.hear (s.before ++ s.last.body))
    (e := .agentEnd s.last.messages s.last.willRetry) (.inr ⟨_, _, rfl⟩)).commandId
  rw [this, hid, ht]
  exact (s.quiet e he).1

end Stream

/-- When the answer is what the last run said last: where nothing but white space is left over from
earlier runs since the last call, and the text has none at its edges. -/
theorem answers_iff (s : Stream n) (aborted : Bool) : s.Answered aborted ↔
    (s.lastText ≠ [] → Blank s.leftOver ∧ strip s.lastText = s.lastText) := by
  have steady : ∀ e ∈ s.runs, e.Steady (Turn.begun n aborted).commandId := s.steady
  have h := told steady
  have hreported : (Turn.begun n aborted).reported s.events = s.remarks := by
    have last : ∀ (t : Turn) (es : List PiEvent),
        t.reported (es ++ [.agentSettled]) = t.reported es := by
      intro t es
      induction es generalizing t with
      | nil => rfl
      | cons e es ih => exact congrArg (t.reports e ++ ·) (ih _)
    rw [Stream.events, last, reported_eq steady]
    rfl
  have hprogress : ∀ p ∈ ((Turn.begun n aborted).hear s.runs).progress, strip p = p := by
    rw [h.progress, reported_eq steady]
    intro p hp
    obtain ⟨said, -, rfl⟩ := List.mem_map.1 (List.mem_of_mem_filter hp)
    exact strip_strip _
  have hsaid : ((Turn.begun n aborted).hear s.runs).textParts.flatten = s.leftOver ++ s.lastText := by
    rw [h.textParts]
    exact s.said_eq
  have hsettled : (Turn.begun n aborted).hear s.events =
      ((Turn.begun n aborted).hear s.runs).complete (some s.last.messages) := by
    rw [Stream.events, hear_append]
    show (Turn.dispatch _ .agentSettled) = _
    rw [Turn.dispatch, s.lastAgentEnd _ rfl]
  rw [Stream.Answered, hsettled, and_iff_left hreported]
  refine imp_congr_right fun hne => ?_
  rw [complete_text h.future hprogress hne, hsaid, strip_append hne]
  rw [hsaid]
  exact fun hb c hc => hb c (List.mem_append_right _ hc)

namespace Sample

/-- A run that is retried after it has said something, and its retry. -/
def retried : Stream 0 where
  earlier := [⟨[.messageUpdate (some (Text.str "The report is "))], [], true⟩]
  last := ⟨[.messageUpdate (some (Text.str "Done."))], [], false⟩
  after := []
  ordinary := by simp [PiEvent.Ordinary]
  final := rfl
  quiet := nofun

end Sample

/-- The answer begins with what the retried run said. -/
theorem answers_leftOver : ¬ Sample.retried.Answered false := by
  intro h
  obtain ⟨r, hr, ht⟩ := h.1 (by decide)
  have said : ((Turn.begun 0 false).hear Sample.retried.events).future = .result
      ⟨Text.str "The report is Done.", [], none, [], false, none⟩ := by decide
  rw [said] at hr
  obtain rfl := Future.result.inj hr
  exact absurd ht (by decide)

end PiRpc
