import ImpiAgent.Lib.Lts
import ImpiAgent.Lib.Dict
import Mathlib.Data.List.Sort
import Mathlib.Data.Finset.Card
import Mathlib.Algebra.Order.Ring.Rat

/-!
# The loop guard of a runtime

`loopguard.ts`: a session's calls of tools and their answers, and what `Guard` refuses. A turn's
calls are in families of calls alike to the first of them; how often a family was called counts when
a call is made, what it answered when the answer comes. A number of JSON is the text it is written
as, and what Unicode knows of a text is given: its lower case, and which characters are of a word.

A `Session` is the guard and what it does not keep: the calls of the turn that joined a family, with
their answers, and the families whose repetition was refused.
-/

namespace Repeats

structure Limits where
  repeats : Nat
  sameResult : Nat
  calls : Nat

def defaults : Limits := ⟨4, 4, 40⟩

/-- A JSON value. -/
inductive Value
  | null
  | bool (b : Bool)
  | number (text : String)
  | str (s : String)
  | array (xs : List Value)
  | object (entries : List (String × Value))

/-! ## Words -/

/-- A character in a string of JSON. -/
def escaped (c : Char) : List Char :=
  let hex (n : Nat) : Char := "0123456789abcdef".toList.getD n '0'
  if c = '"' then ['\\', '"']
  else if c = '\\' then ['\\', '\\']
  else if c.toNat = 8 then ['\\', 'b']
  else if c = '\t' then ['\\', 't']
  else if c = '\n' then ['\\', 'n']
  else if c.toNat = 12 then ['\\', 'f']
  else if c = '\r' then ['\\', 'r']
  else if c.toNat < 32 then ['\\', 'u', '0', '0', hex (c.toNat / 16), hex (c.toNat % 16)]
  else [c]

/-- `JSON.stringify` of a string. -/
def stringify (s : String) : String := "\"" ++ .ofList (s.toList.flatMap escaped) ++ "\""

/-- The code units of a string, by which JavaScript orders strings. -/
def units (s : String) : List Nat :=
  s.toList.flatMap fun c =>
    if c.toNat < 0x10000 then [c.toNat]
    else [0xd800 + (c.toNat - 0x10000) / 0x400, 0xdc00 + (c.toNat - 0x10000) % 0x400]

mutual

/-- Arguments as one string, key order and what is null aside. -/
def canonical : Value → String
  | .null => "null"
  | .bool b => if b then "true" else "false"
  | .number text => text
  | .str s => stringify s
  | .array xs => "[" ++ ",".intercalate (canonicalAll xs) ++ "]"
  | .object entries =>
    let sorted := (canonicalEntries entries).insertionSort fun x y => units x.1 ≤ units y.1
    "\x7b" ++ ",".intercalate (sorted.map fun x => stringify x.1 ++ ":" ++ x.2) ++ "\x7d"

def canonicalAll : List Value → List String
  | [] => []
  | x :: xs => canonical x :: canonicalAll xs

def canonicalEntries : List (String × Value) → List (String × String)
  | [] => []
  | (_, .null) :: xs => canonicalEntries xs
  | (k, x) :: xs => (k, canonical x) :: canonicalEntries xs

end

/-- What is asked of Unicode. -/
structure Unicode where
  lower : String → String
  isWord : Char → Bool

def words (u : Unicode) (input : Value) : Finset String :=
  let parts := (u.lower (canonical input)).toList.splitOnP fun c => !u.isWord c
  ((parts.filter (· ≠ [])).map String.ofList).toFinset

/-- `SIMILAR`. -/
def similar : ℚ := 9 / 10

/-- The share of the longer call's words that the shorter one has too. -/
def overlap (a b : Finset String) : ℚ :=
  if a.card = 0 ∧ b.card = 0 then 1 else (a ∩ b).card / (max a.card b.card : Nat)

/-! ## The guard -/

/-- Calls of one tool that are the same call said differently. -/
structure Family where
  tool : String
  /-- Of the first of them. -/
  words : Finset String
  times : Nat
  /-- The one answer every member got. -/
  answer : Option String
  unchanged : Bool

/-- A member of the family answered: where the answer moved, it is not a loop. -/
def Family.hear (text : String) (f : Family) : Family :=
  match f.answer with
  | none => { f with answer := some text }
  | some answer => if answer = text then f else { f with unchanged := false }

/-- A tool and the words of a family's first call. -/
abbrev Said := String × Finset String

def Family.said (f : Family) : Said := (f.tool, f.words)

/-- A call of the tool with these words is alike to the first one. -/
def Alike (first call : Said) : Prop := first.1 = call.1 ∧ similar ≤ overlap first.2 call.2

instance (first call : Said) : Decidable (Alike first call) := inferInstanceAs (Decidable (_ ∧ _))

structure Guard where
  limits : Limits
  calls : Nat
  families : List Family
  /-- The family of a call that has not been answered, by the call's id. -/
  pending : List (String × Nat)
  /-- How often a tool gave a result. -/
  answered : List (String × Nat)
  banned : List Said

/-- Why a call is refused. -/
inductive Refusal
  | banned
  | spent
  | nowBanned (times : Nat) (exactly : Bool)
  | repeated (times : Nat) (exactly : Bool)
  deriving DecidableEq

/-- It is refused as a repetition of its family. -/
def Refusal.repetition : Refusal → Bool
  | .nowBanned .. | .repeated .. => true
  | _ => false

/-- It is refused for a ban, an earlier one or its own. -/
def Refusal.bans : Refusal → Bool
  | .banned | .nowBanned .. => true
  | _ => false

structure Verdict where
  block : Bool
  reason : Option String := none
  terminate : Bool := false

def whatToDo : String :=
  "Do something different, or stop and report what you have and what is left."

def likeness (exactly : Bool) : String := if exactly then "the same" else "nearly the same"

/-- What the model is told. -/
def verdict (l : Limits) (tool : String) : Option Refusal → Verdict
  | none => { block := false }
  | some .banned =>
    { block := true
      reason := s!"{tool} with these arguments is banned for this session: it was repeated " ++
        s!"without any change. {whatToDo}" }
  | some .spent =>
    { block := true
      terminate := true
      reason := s!"The turn's budget of {l.calls} tool calls is spent. " ++
        "Stop and report what you have and what is left." }
  | some (.nowBanned times exactly) =>
    { block := true
      reason := s!"{tool} with these arguments is now banned for this session: {times} calls " ++
        s!"with {likeness exactly} arguments and the same answer. {whatToDo}" }
  | some (.repeated times exactly) =>
    { block := true
      reason := s!"{tool} was called {times} times with {likeness exactly} arguments and got " ++
        s!"the same answer each time; calling it again will not change it. {whatToDo}" }

namespace Guard

/-- `startTurn`. -/
def startTurn (g : Guard) : Guard :=
  { g with calls := 0, families := [], pending := [], answered := [] }

/-- Where the family of a call is among the turn's families, or is going to be. -/
def place (g : Guard) (call : Said) : Nat := g.families.findIdx fun f => Alike f.said call

/-- The families once a call joined its own. -/
def joined (g : Guard) (call : Said) : List Family :=
  let families :=
    if g.place call < g.families.length then g.families
    else g.families ++ [⟨call.1, call.2, 0, none, true⟩]
  families.modify (g.place call) fun f => { f with times := f.times + 1 }

/-- A call that the families are asked about. -/
def judge (g : Guard) (call : Said) (callId : String) : Option Refusal × Guard :=
  let g' := { g with
    calls := g.calls + 1
    families := g.joined call
    pending := if callId = "" then g.pending else Dict.assign callId (g.place call) g.pending }
  match (g.joined call)[g.place call]? with
  | none => (none, g')
  | some f =>
    if g.limits.repeats ≠ 0 ∧ f.unchanged ∧ g.limits.repeats ≤ f.times then
      let exactly : Bool := overlap f.words call.2 = 1
      if g.limits.repeats < f.times then
        (some (.nowBanned f.times exactly), { g' with banned := g.banned ++ [(call.1, f.words)] })
      else (some (.repeated f.times exactly), g')
    else (none, g')

/-- `call`, of the words said. -/
def callSaid (g : Guard) (call : Said) (callId : String) : Option Refusal × Guard :=
  if g.banned.any (fun b => Alike b call) then (some .banned, g)
  else if g.limits.calls ≠ 0 ∧ g.limits.calls ≤ g.calls + 1 then
    (some .spent, { g with calls := g.calls + 1 })
  else g.judge call callId

/-- `call`. -/
def call (u : Unicode) (g : Guard) (tool : String) (input : Value) (callId : String) :
    Verdict × Guard :=
  let r := g.callSaid (tool, words u input) callId
  (verdict g.limits tool r.1, r.2)

/-- What the model is told beside a result. -/
structure Told where
  warning : Option String := none
  terminate : Bool := false

/-- A result of the tool, however often it gave that one. -/
def told (l : Limits) (tool : String) (times : Nat) : Told :=
  if l.sameResult + 2 ≤ times then
    { warning := s!"{tool} has answered exactly this {times} times this turn. " ++
        "Stop and report what you have and what is left."
      terminate := true }
  else if l.sameResult ≤ times then
    { warning := s!"{tool} has answered exactly this {times} times this turn; " ++
        s!"asking again will not change it. {whatToDo}" }
  else {}

/-- `result`, of the family of the call. -/
def hear (g : Guard) (text callId : String) : Guard :=
  match if callId = "" then none else g.pending.lookup callId with
  | some i => { g with
      pending := Dict.remove callId g.pending
      families := g.families.modify i (Family.hear text) }
  | none => g

/-- `result`. -/
def result (g : Guard) (tool text callId : String) : Told × Guard :=
  let g := g.hear text callId
  if g.limits.sameResult = 0 then ({}, g)
  else
    let key := tool ++ " " ++ text
    let times := (g.answered.lookup key).getD 0 + 1
    (told g.limits tool times, { g with answered := Dict.assign key times g.answered })

end Guard

/-! ## A session -/

/-- A call of the turn that joined a family, and what it answered. -/
structure Made where
  family : Nat
  callId : String
  answer : Option String

structure Session where
  guard : Guard
  /-- The turn's calls that joined a family, the latest first. -/
  made : List Made
  /-- The first calls of the families a repetition of which was refused. -/
  refused : List Said

inductive Event
  | startTurn
  | call (tool : String) (input : Value) (callId : String)
  | result (tool text callId : String)

/-- A call that is neither banned nor past the budget joins a family. -/
def joins : Option Refusal → Bool
  | some .banned | some .spent => false
  | _ => true

/-- A call is answered once. -/
def Made.hear (text : String) (m : Made) : Made :=
  if m.answer.isNone then { m with answer := some text } else m

/-- A result is that of the latest call of its id. -/
def answerLatest (text callId : String) : List Made → List Made
  | [] => []
  | m :: made =>
    if m.callId = callId then m.hear text :: made else m :: answerLatest text callId made

def Session.call (s : Session) (said : Said) (callId : String) : Session :=
  let r := s.guard.callSaid said callId
  { guard := r.2
    made := if joins r.1 then ⟨s.guard.place said, callId, none⟩ :: s.made else s.made
    refused :=
      if r.1.any Refusal.repetition then
        ((s.guard.joined said)[s.guard.place said]?.map Family.said).toList ++ s.refused
      else s.refused }

def next (u : Unicode) (s : Session) : Event → Option Session
  | .startTurn => some { s with guard := s.guard.startTurn, made := [] }
  | .call tool input callId => some (s.call (tool, words u input) callId)
  | .result tool text callId => some { s with
      guard := (s.guard.result tool text callId).2
      made := if callId = "" then s.made else answerLatest text callId s.made }

def lts (u : Unicode) (l : Limits) : Lts Session Event where
  init s := s = ⟨⟨l, 0, [], [], [], []⟩, [], []⟩
  next := next u

/-- A call that no ban and no budget refuses. -/
def Guard.Admits (g : Guard) (said : Said) : Prop :=
  (∀ b ∈ g.banned, ¬Alike b said) ∧ ¬(g.limits.calls ≠ 0 ∧ g.limits.calls ≤ g.calls + 1)

instance (g : Guard) (said : Said) : Decidable (g.Admits said) :=
  inferInstanceAs (Decidable (_ ∧ _))

namespace Session

variable (s : Session)

/-- The answers the turn's calls of a family got. -/
def answers (i : Nat) : List String := (s.made.filter (·.family = i)).filterMap (·.answer)

/-- What `call` refuses a call for. -/
def refusal (said : Said) (callId : String) : Option Refusal := (s.guard.callSaid said callId).1

/-- A call's verdict is right: as a repetition it is refused only where so many calls of its family
were answered, all of them alike; where two of them were answered differently only the budget
refuses it; and a ban refuses it only where a repetition of a family it is alike to was refused
before. -/
structure Right (said : Said) (callId : String) : Prop where
  repeated : ∀ r, s.refusal said callId = some r → r.repetition →
    s.guard.limits.repeats ≤ (s.answers (s.guard.place said)).length + 1 ∧
      ∃ text, ∀ a ∈ s.answers (s.guard.place said), a = text
  moved : ∀ a ∈ s.answers (s.guard.place said), ∀ b ∈ s.answers (s.guard.place said), a ≠ b →
    s.refusal said callId = none ∨ s.refusal said callId = some .spent
  banned : ∀ r, s.refusal said callId = some r → r.bans →
    ∃ first ∈ s.refused, Alike first said

/-- All earlier calls of the family are answered when the call comes that reaches its limit. -/
def Settled (said : Said) : Prop :=
  s.guard.Admits said → ∀ f ∈ s.guard.families[s.guard.place said]?, f.unchanged = true →
    f.times + 1 = s.guard.limits.repeats →
      ∀ m ∈ s.made, m.family = s.guard.place said → m.answer.isSome

/-- A call of a family that was answered in two ways is not alike to a banned one. -/
def Apart (said : Said) : Prop :=
  (∃ a ∈ s.answers (s.guard.place said), ∃ b ∈ s.answers (s.guard.place said), a ≠ b) →
    ∀ b ∈ s.guard.banned, ¬Alike b said

instance (said : Said) : Decidable (s.Settled said) := inferInstanceAs (Decidable (_ → _))

instance (said : Said) : Decidable (s.Apart said) := inferInstanceAs (Decidable (_ → _))

end Session

/-- The condition on a call. -/
def Fair (u : Unicode) (s : Session) : Event → Prop
  | .call tool input _ => s.Settled (tool, words u input) ∧ s.Apart (tool, words u input)
  | _ => True

instance (u : Unicode) (s : Session) : (e : Event) → Decidable (Fair u s e)
  | .call .. => inferInstanceAs (Decidable (_ ∧ _))
  | .startTurn | .result .. => .isTrue trivial

end Repeats
