import ImpiAgent.Lib.Pool
import ImpiAgent.Lib.Table
import ImpiAgent.Lib.Text

/-!
# Forms and their submissions

`InteractionDispatcher.submit_form` and `_handle_form`: a submission reads its form
(`get_form`), removes it (`delete_form`) and hands the values on, to the handler the form names or
into the conversation. On SQLite as on MongoDB the read and the removal are one statement each,
and the removal answers nothing.

`Forms.lts handlers`: submissions in any number of processes over one store. A form that is created
gets a serial, and what is handed on is noted with it (`Store.handed`).
-/

namespace Forms

open Text (Str)

structure FormRecord where
  token : Str
  agent : Str
  channelId : Str
  conversationId : Str
  kind : Str
  spec : Str
  createdAt : Str
  postId : Str := []
  handler : Str := []
  gateway : Str := []
  threadRootId : Str := []
  deriving DecidableEq

/-- A stored form. -/
structure Row where
  serial : Nat
  record : FormRecord
  deriving DecidableEq

instance : Keyed Row where
  clash a b := a.record.token = b.record.token
  refl _ := decide_eq_true rfl
  symm _ _ := decide_eq_decide.2 eq_comm

/-- What `submit_form` is called with. -/
structure Submission where
  state : Str
  submission : List (Str × Str)
  cancelled : Bool
  userId : Str
  deriving DecidableEq

structure IncomingMessage where
  channelId : Str
  conversationId : Str
  messageId : Str
  threadRootId : Str
  text : Str
  userId : Str
  kind : Str
  gateway : Str
  synthetic : Bool
  deriving DecidableEq

/-- Whom the values of a form are handed to. -/
inductive Taker
  | handler (name : Str) (submission : List (Str × Str)) (userId : Str)
  | sink (agent : Str) (msg : IncomingMessage)
  deriving DecidableEq

/-- The values of a form, handed on. -/
structure Handed where
  row : Row
  taker : Taker
  deriving DecidableEq

structure Store where
  rows : Table Row
  serial : Nat
  handed : List Handed

namespace Store

variable (s : Store)

def getForm (token : Str) : Option Row := s.rows.find? fun r => r.record.token = token

def deleteForm (token : Str) : Store :=
  { s with rows := s.rows.delete fun r => r.record.token = token }

/-- A token is a primary key: a second form under it raises, and nothing is inserted. -/
def createForm (r : FormRecord) : Store :=
  ((s.rows.insert ⟨s.serial, r⟩).map fun rows => { s with rows, serial := s.serial + 1 }).getD s

def hand (h : Handed) : Store := { s with handed := s.handed ++ [h] }

end Store

def kindThread : Str := Text.str "thread"

/-- The message the values come back as; `text` is `_render_submission`. -/
def FormRecord.message (r : FormRecord) (c : Submission) (text : Str) : IncomingMessage where
  channelId := r.channelId
  conversationId := r.conversationId
  messageId := Text.str "form-" ++ c.state.take 12
  threadRootId :=
    if r.threadRootId ≠ [] then r.threadRootId
    else if r.kind = kindThread then r.conversationId else []
  text := text
  userId := c.userId
  kind := r.kind
  gateway := r.gateway
  synthetic := true

/-- A submission, between two awaits. -/
inductive Point
  | getting (c : Submission)
  | deleting (c : Submission) (row : Row)
  | routing (c : Submission) (row : Row)
  | handling (row : Row)
  | rendering (c : Submission) (row : Row)
  | retiring (row : Row)
  | done (taken : Bool)
  | raised
  deriving DecidableEq

/-- What an await comes to. -/
inductive Event
  /-- The store answers. -/
  | answers
  /-- The store raises, its statement done or not. -/
  | fails (executed : Bool)
  /-- The form is removed; `present`: its agent has a sink. -/
  | routes (present : Bool)
  /-- The handler returns, or raises. -/
  | handled (ok : Bool)
  /-- The values as text, or an exception. -/
  | rendered (text : Option Str)
  | retired
  deriving DecidableEq

/-- `submit_form` goes on from an await. `handlers`: the names handlers are registered under. -/
def Point.act (handlers : Str → Bool) (s : Store) : Point → Event → Option (Store × Point)
  | .getting c, .answers =>
    match s.getForm c.state with
    | none => some (s, .done false)
    | some row => if c.cancelled then some (s, .done false) else some (s, .deleting c row)
  | .getting _, .fails _ => some (s, .raised)
  | .deleting c row, .answers => some (s.deleteForm c.state, .routing c row)
  | .deleting c _, .fails executed => some (if executed then s.deleteForm c.state else s, .raised)
  | .routing c row, .routes present =>
    if row.record.handler ≠ [] then
      if handlers row.record.handler then
        some (s.hand ⟨row, .handler row.record.handler c.submission c.userId⟩, .handling row)
      else some (s, .done false)
    else if present then some (s, .rendering c row)
    else some (s, .done false)
  | .handling _, .handled ok => some (s, .done ok)
  | .rendering c row, .rendered (some text) =>
    some (s.hand ⟨row, .sink row.record.agent (row.record.message c text)⟩,
      if row.record.postId = [] then .done true else .retiring row)
  | .rendering _ _, .rendered none => some (s, .raised)
  | .retiring _, .retired => some (s, .done true)
  | _, _ => none

/-- `submit_form`, where it begins. -/
def submitForm (c : Submission) : Point := if c.state = [] then .done false else .getting c

abbrev State := Pool Store Point

inductive Label
  | create (r : FormRecord)
  | submit (c : Submission)
  | step (i : Nat) (e : Event)
  | drop (i : Nat)
  deriving DecidableEq

def next (handlers : Str → Bool) (s : State) : Label → Option State
  | .create r => some { s with store := s.store.createForm r }
  | .submit c => some (s.start (submitForm c))
  | .step i e =>
    match s.calls[i]? with
    | some (some k) => (k.act handlers s.store e).map fun q => s.put i q.1 q.2
    | _ => none
  | .drop i => some (s.kill i)

/-- Submissions over an empty store. -/
def lts (handlers : Str → Bool) : Lts State Label where
  init s := s = ⟨⟨.empty, 0, []⟩, []⟩
  next := next handlers

variable {handlers : Str → Bool} {s s' : State} {e : Label}

/-- What a step does. -/
inductive Step (handlers : Str → Bool) (s : State) : Label → State → Prop
  | create {r : FormRecord} :
      Step handlers s (.create r) { s with store := s.store.createForm r }
  | submit {c : Submission} : Step handlers s (.submit c) (s.start (submitForm c))
  | step {i : Nat} {e : Event} {k k' : Point} {σ : Store} : s.At i k →
      k.act handlers s.store e = some (σ, k') → Step handlers s (.step i e) (s.put i σ k')
  | drop {i : Nat} : Step handlers s (.drop i) (s.kill i)

theorem next_step (h : next handlers s e = some s') : Step handlers s e s' := by
  cases e with
  | create r =>
    cases h
    exact .create
  | submit c =>
    cases h
    exact .submit
  | step i e =>
    simp only [next] at h
    split at h
    · rename_i k hk
      obtain ⟨⟨σ, k'⟩, ha, rfl⟩ := Option.map_eq_some_iff.1 h
      exact .step hk ha
    · cases h
  | drop i =>
    cases h
    exact .drop

end Forms
