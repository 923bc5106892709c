import ImpiAgent.Interactions.Traces

/-!
# The record agrees with the events

`Sound`: every call of the record is told as the events tell it (`Told`), what is open runs, and the
call awaited runs and was put to the person. Every calm event keeps it (`sound_next`), so that the
record of a turn whose events are all calm agrees with them (`agrees_of_calm`).
-/

namespace Traces

open Json Internal

variable {Args : Type} {dumps : Args → String} {s s' : Turn Args} {l : Label Args}

/-! ## The record through JSON -/

theorem plainItems_record : ∀ {xs : List (String × PyValue)}, (∀ x ∈ xs, Plain x.2) →
    PlainItems (xs.map fun x => (Key.str x.1, x.2))
  | [], _ => trivial
  | x :: _, h =>
    ⟨trivial, h x List.mem_cons_self, plainItems_record fun y hy => h y (List.mem_cons_of_mem _ hy)⟩

theorem plainAll_map {α : Type} {f : α → PyValue} (hf : ∀ a, Plain (f a)) :
    ∀ as : List α, PlainAll (as.map f)
  | [] => trivial
  | a :: as => ⟨hf a, plainAll_map hf as⟩

theorem plain_asdict (c : Call) : Plain (asdict c) := by
  refine ⟨plainItems_record ?_, ?_⟩
  · simp [Plain]
  · simp [Dict.Distinct]

theorem plain_encodeCalls (calls : List Call) : Plain (encodeCalls calls) :=
  plainAll_map plain_asdict calls

theorem callOf_asdict (c : Call) : callOf (asdict c) = some c := by
  have hd : dict (asdict c) = some ([("index", .int c.index), ("call_id", .str c.callId),
      ("tool", .str c.tool), ("args", .str c.args), ("cut", .int c.cut), ("state", .str c.state),
      ("duration_s", .float c.durationS), ("caption", .str c.caption),
      ("remark", .str c.remark)].map fun x => (Key.str x.1, x.2)) := rfl
  have hc : ∀ n : Nat, count (.int n) = some n := fun _ => rfl
  rw [callOf, hd]
  simp [asdict, get_record, List.lookup_cons, fields, hc, text, seconds, guard]

/-- A record is read back as it was written. -/
theorem decode_encode (calls : List Call) :
    (reload (encodeCalls calls)).map decodeCalls = some calls := by
  have hm : (calls.map asdict).mapM callOf = some calls := by
    rw [List.mapM_map, show callOf ∘ asdict = some from funext callOf_asdict]
    exact List.mapM_pure.trans (by simp)
  rw [(reload_iff _).2 (plain_encodeCalls calls), Option.map_some, encodeCalls, decodeCalls, hm,
    Option.getD_some]

/-! ## What the record should tell -/

/-- The state a call ends in. -/
def Seen.state (x : Seen Args) : String :=
  match x.ended with
  | none => callUnfinished
  | some (isError, _) => if isError then callFailed else callOk

def Seen.took (x : Seen Args) : String :=
  match x.ended with
  | none => "0.0"
  | some (_, durationS) => durationS

variable (dumps) in
/-- The call of the record is the `i`th call of the turn. -/
structure Told (i : Nat) (x : Seen Args) (c : Call) : Prop where
  index : c.index = i
  callId : c.callId = x.callId
  tool : c.tool = x.tool
  args : c.args = .ofList ((dumps x.args).toList.take argsStoredMax)
  cut : c.cut = if argsStoredMax < (dumps x.args).length then (dumps x.args).length else 0
  caption : c.caption = x.caption
  state : c.state = x.state
  took : c.durationS = x.took
  remark : ∀ r ∈ x.remarks, c.remark = r
  silent : x.remarks = [] → c.remark = ""

variable (dumps) in
/-- The record agrees with the events. -/
structure Agrees (s : Turn Args) : Prop where
  length : s.code.calls.length = s.seen.length
  told : ∀ i x c, s.seen[i]? = some x → s.code.calls[i]? = some c → Told dumps i x c
  awaiting : ∀ c, s.code.awaiting = some c →
    ∃ (i : Nat) (x : Seen Args), s.code.calls[i]? = some c ∧ s.seen[i]? = some x ∧ x.runs ∧ x.put
  idle : s.code.awaiting = none → ∀ x ∈ s.seen, x.put → ¬x.runs
  kept : ∃ calls, (reload (encodeCalls s.code.calls)).map decodeCalls = some calls ∧
    Equal calls s.code.calls

/-- A call starts after one remark at most; the call that finishes is the one open under its id,
took a number of seconds and, where it is the one awaited, leaves no other running that was put to
the person; the call put to the person is the last open one of its tool, or that one was put to them
already, or none is open while another is awaited. -/
def Calm (s : Turn Args) (l : Label Args) : Prop :=
  match l.event with
  | .toolStarted .. => ∀ r ∈ s.said, ∀ r' ∈ s.said, r = r'
  | .textProgress _ => True
  | .toolFinished callId _ durationS =>
    s.code.opened.lookup callId = l.of ∧ (l.of ≠ none → durationS ≠ "nan") ∧
      (l.of ≠ none → s.code.waits = l.of → ∀ k < s.seen.length, l.of ≠ some k →
        (s.seen[k]?).all fun x => !(Seen.put x && Seen.runs x))
  | .callAwaiting tool =>
    match (s.code.waiting tool).getLast? with
    | some i => l.of = some i ∨ (s.seen[i]?).any (·.put)
    | none => l.of = none ∨ s.code.waits ≠ none

instance (s : Turn Args) (l : Label Args) : Decidable (Calm s l) := by
  unfold Calm
  split <;> try infer_instance
  split <;> infer_instance

/-! ## The invariant -/

variable (dumps) in
structure Sound (s : Turn Args) : Prop where
  length : s.code.calls.length = s.seen.length
  told : ∀ i x c, s.seen[i]? = some x → s.code.calls[i]? = some c → Told dumps i x c
  opened : ∀ id i, (id, i) ∈ s.code.opened → ∃ x, s.seen[i]? = some x ∧ x.runs ∧ x.callId = id
  waits : ∀ i, s.code.waits = some i → ∃ x, s.seen[i]? = some x ∧ x.runs ∧ x.put
  idle : s.code.waits = none → ∀ x ∈ s.seen, x.put → ¬x.runs
  remark : s.code.remark = s.said.getLast?.getD ""
  numbers : ∀ c ∈ s.code.calls, c.durationS ≠ "nan"

theorem sound_init : Sound dumps ({} : Turn Args) where
  length := rfl
  told := fun _ _ _ h => by simp at h
  opened := fun _ _ h => by simp at h
  waits := fun _ h => by cases h
  idle := fun _ _ h => by simp at h
  remark := rfl
  numbers := fun _ h => by simp at h

/-- What was told of the calls before is still so when one more has started. -/
theorem getElem?_snoc {α : Type} {l : List α} {a b : α} {i : Nat} (h : (l ++ [a])[i]? = some b) :
    l[i]? = some b ∨ i = l.length ∧ b = a := by
  rw [List.getElem?_append] at h
  split at h
  · exact .inl h
  · obtain ⟨hi, rfl⟩ := List.getElem?_eq_some_iff.1 h
    have : i - l.length = 0 := by simpa using hi
    exact .inr ⟨by omega, by simp⟩

theorem getElem?_of_snoc {α : Type} {l : List α} {a b : α} {i : Nat} (h : l[i]? = some b) :
    (l ++ [a])[i]? = some b := by
  rw [List.getElem?_append_left (List.getElem?_eq_some_iff.1 h).1, h]

section started

variable {callId tool caption : String} {args : Args}

theorem told_begun (hs : Sound dumps s) (hc : ∀ r ∈ s.said, ∀ r' ∈ s.said, r = r') :
    Told dumps s.seen.length { callId, tool, args, caption, remarks := s.said }
      (s.code.begun dumps callId tool args caption) where
  index := hs.length
  callId := rfl
  tool := rfl
  args := rfl
  cut := rfl
  caption := rfl
  state := rfl
  took := rfl
  remark := fun r hr => by
    have hne := List.ne_nil_of_mem hr
    show s.code.remark = r
    rw [hs.remark, List.getLast?_eq_some_getLast hne, Option.getD_some]
    exact hc _ (List.getLast_mem hne) _ hr
  silent := fun h => by
    show s.code.remark = ""
    rw [hs.remark, show s.said = [] from h]
    rfl

theorem sound_started (hs : Sound dumps s) (hc : ∀ r ∈ s.said, ∀ r' ∈ s.said, r = r') :
    Sound dumps ⟨(s.code.onEvent dumps (.toolStarted callId tool args caption)).1,
      s.seen ++ [{ callId, tool, args, caption, remarks := s.said }], []⟩ where
  length := by simp [TurnCalls.onEvent, hs.length]
  told := fun i x c hx hcall => by
    rcases getElem?_snoc hx with hx | ⟨rfl, rfl⟩
    · rcases getElem?_snoc hcall with hcall | ⟨rfl, -⟩
      · exact hs.told i x c hx hcall
      · rw [hs.length, List.getElem?_eq_none (Nat.le_refl _)] at hx
        cases hx
    · rcases getElem?_snoc hcall with hcall | ⟨-, rfl⟩
      · rw [← hs.length, List.getElem?_eq_none (Nat.le_refl _)] at hcall
        cases hcall
      · exact told_begun hs hc
  opened := fun id i h => by
    rcases Dict.mem_assign h with heq | h
    · cases heq
      exact ⟨_, by rw [hs.length]; exact List.getElem?_concat_length, rfl, rfl⟩
    · obtain ⟨x, hx, hr⟩ := hs.opened id i h
      exact ⟨x, getElem?_of_snoc hx, hr⟩
  waits := fun i h => by
    obtain ⟨x, hx, hr⟩ := hs.waits i h
    exact ⟨x, getElem?_of_snoc hx, hr⟩
  idle := fun h x hx => by
    rcases List.mem_append.1 hx with hx | hx
    · exact hs.idle h x hx
    · rw [List.mem_singleton.1 hx]
      exact fun hput => by cases hput
  remark := rfl
  numbers := fun c hc => by
    rcases List.mem_append.1 hc with hc | hc
    · exact hs.numbers c hc
    · rw [List.mem_singleton.1 hc]
      show ("0.0" : String) ≠ "nan"
      decide

end started

theorem sound_progress {text : String} (hs : Sound dumps s) :
    Sound dumps ⟨(s.code.onEvent dumps (.textProgress text)).1, s.seen,
      if Text.strip text ≠ "" then s.said ++ [Text.strip text] else s.said⟩ := by
  rw [TurnCalls.onEvent]
  split
  · exact { hs with remark := by simp }
  · exact hs

section finished

variable {callId durationS : String} {isError : Bool}

theorem told_finished {i : Nat} {x : Seen Args} {c : Call} (h : Told dumps i x c) :
    Told dumps i { x with ended := some (isError, durationS) }
      (TurnCalls.finished isError durationS c) :=
  { h with state := rfl, took := rfl }

theorem sound_finished {j : Nat} (hs : Sound dumps s) (ho : s.code.opened.lookup callId = some j)
    (hd : durationS ≠ "nan")
    (hc : s.code.waits = some j → ∀ k < s.seen.length, some j ≠ some k →
      (s.seen[k]?).all fun x => !(Seen.put x && Seen.runs x)) :
    Sound dumps ⟨(s.code.onEvent dumps (.toolFinished callId isError durationS)).1,
      s.seen.modify j fun x => { x with ended := some (isError, durationS) }, s.said⟩ := by
  obtain ⟨xj, hxj, -, hid⟩ := hs.opened _ _ (Dict.mem_of_lookup ho)
  simp only [TurnCalls.onEvent, ho]
  refine ⟨by simp [hs.length], ?_, ?_, ?_, ?_, hs.remark, ?_⟩
  · intro i x c hx hcall
    rw [List.getElem?_modify] at hx hcall
    obtain ⟨x₀, hx₀, rfl⟩ := Option.map_eq_some_iff.1 hx
    obtain ⟨c₀, hc₀, rfl⟩ := Option.map_eq_some_iff.1 hcall
    have h := hs.told i x₀ c₀ hx₀ hc₀
    split
    · exact told_finished h
    · exact h
  · intro id i h
    obtain ⟨hm, hne⟩ := Dict.mem_remove.1 h
    obtain ⟨x, hx, hr, hxid⟩ := hs.opened id i hm
    have hij : i ≠ j := fun heq => hne (by
      rw [heq, hxj] at hx
      cases hx
      exact hxid.symm.trans hid)
    exact ⟨x, (List.getElem?_modify_ne _ _ (Ne.symm hij)).trans hx, hr, hxid⟩
  · intro i h
    dsimp only at h
    split at h
    · cases h
    · rename_i hw
      obtain ⟨x, hx, hr⟩ := hs.waits i h
      have hij : i ≠ j := fun heq => hw (heq ▸ h)
      exact ⟨x, (List.getElem?_modify_ne _ _ (Ne.symm hij)).trans hx, hr⟩
  · intro h x hx hput
    obtain ⟨k, hk⟩ := List.mem_iff_getElem?.1 hx
    by_cases hkj : k = j
    · subst hkj
      rw [List.getElem?_modify_eq, hxj] at hk
      cases hk
      exact fun hr => by cases hr
    · replace hk := (List.getElem?_modify_ne _ _ (Ne.symm hkj)).symm.trans hk
      dsimp only at h
      split at h
      · rename_i hw
        have hall := hc hw k (List.getElem?_eq_some_iff.1 hk).1 fun heq =>
          hkj (Option.some.inj heq).symm
        rw [hk] at hall
        simpa [hput] using hall
      · exact hs.idle h x (List.mem_of_getElem? hk) hput
  · intro c hcall
    obtain ⟨k, hk⟩ := List.mem_iff_getElem?.1 hcall
    rw [List.getElem?_modify] at hk
    obtain ⟨c₀, hc₀, rfl⟩ := Option.map_eq_some_iff.1 hk
    split
    · exact hd
    · exact hs.numbers c₀ (List.mem_of_getElem? hc₀)

end finished

section awaiting

variable {tool : String}

/-- A call put to the person tells the same in the record. -/
theorem told_put {j : Nat} (hs : Sound dumps s) {i : Nat} {x : Seen Args} {c : Call}
    (hx : (s.seen.modify j fun x => { x with put := true })[i]? = some x)
    (hc : s.code.calls[i]? = some c) : Told dumps i x c := by
  rw [List.getElem?_modify] at hx
  obtain ⟨x₀, hx₀, rfl⟩ := Option.map_eq_some_iff.1 hx
  have h := hs.told i x₀ c hx₀ hc
  split
  · exact { h with }
  · exact h

theorem runs_put {j i : Nat} {x : Seen Args} (hx : s.seen[i]? = some x) :
    ∃ y, (s.seen.modify j fun x => { x with put := true })[i]? = some y ∧ y.runs = x.runs ∧
      y.callId = x.callId ∧ y.put = (x.put || decide (i = j)) := by
  by_cases hij : i = j
  · subst hij
    exact ⟨{ x with put := true }, by rw [List.getElem?_modify_eq, hx]; rfl, rfl, rfl, by simp⟩
  · exact ⟨x, (List.getElem?_modify_ne _ _ (Ne.symm hij)).trans hx, rfl, rfl, by simp [hij]⟩

/-- The call the code takes to be the one put to the person runs. -/
theorem runs_waiting (hs : Sound dumps s) {i : Nat}
    (h : (s.code.waiting tool).getLast? = some i) :
    ∃ x, s.seen[i]? = some x ∧ x.runs := by
  obtain ⟨hm, -⟩ := List.mem_filter.1 (List.mem_of_getLast? h)
  obtain ⟨e, he, rfl⟩ := List.mem_map.1 hm
  obtain ⟨x, hx, hr, -⟩ := hs.opened e.1 e.2 he
  exact ⟨x, hx, hr⟩

theorem sound_put {j : Nat} (hs : Sound dumps s) (hc : Calm s ⟨.callAwaiting tool, some j⟩) :
    Sound dumps ⟨(s.code.onEvent dumps (.callAwaiting tool)).1,
      s.seen.modify j fun x => { x with put := true }, s.said⟩ := by
  have opened : ∀ id i, (id, i) ∈ s.code.opened → ∃ x,
      (s.seen.modify j fun x => { x with put := true })[i]? = some x ∧ x.runs ∧ x.callId = id := by
    intro id i h
    obtain ⟨x, hx, hr, hid⟩ := hs.opened id i h
    obtain ⟨y, hy, hyr, hyid, -⟩ := runs_put (j := j) hx
    exact ⟨y, hy, hyr.trans hr, hyid.trans hid⟩
  cases hw : (s.code.waiting tool).getLast? with
  | some i =>
    simp only [Calm, hw] at hc
    simp only [TurnCalls.onEvent, hw]
    refine ⟨by simp [hs.length], fun _ _ _ => told_put hs, opened, ?_, ?_, hs.remark, hs.numbers⟩
    · rintro _ ⟨⟩
      obtain ⟨x, hx, hr⟩ := runs_waiting hs hw
      obtain ⟨y, hy, hyr, -, hput⟩ := runs_put (j := j) hx
      refine ⟨y, hy, hyr.trans hr, ?_⟩
      rw [hput]
      rcases hc with hc | hc
      · simp [Option.some.inj hc]
      · rw [hx] at hc
        simp [show x.put = true from hc]
    · exact fun h => by cases h
  | none =>
    simp only [Calm, hw] at hc
    simp only [TurnCalls.onEvent, hw]
    have hwait : s.code.waits ≠ none := hc.resolve_left (fun h => by cases h)
    refine ⟨by simp [hs.length], fun _ _ _ => told_put hs, opened, fun i h => ?_,
      fun h => absurd h hwait, hs.remark, hs.numbers⟩
    obtain ⟨x, hx, hr, hput⟩ := hs.waits i h
    obtain ⟨y, hy, hyr, -, hyput⟩ := runs_put (j := j) hx
    exact ⟨y, hy, hyr.trans hr, by rw [hyput, hput]; rfl⟩

/-- A card about no call of the turn. -/
theorem sound_elsewhere (hs : Sound dumps s) (hc : Calm s ⟨.callAwaiting tool, none⟩) :
    Sound dumps ⟨(s.code.onEvent dumps (.callAwaiting tool)).1, s.seen, s.said⟩ := by
  cases hw : (s.code.waiting tool).getLast? with
  | none =>
    simp only [TurnCalls.onEvent, hw]
    exact hs
  | some i =>
    simp only [Calm, hw] at hc
    simp only [TurnCalls.onEvent, hw]
    obtain ⟨x, hx, hr⟩ := runs_waiting hs hw
    have hput := hc.resolve_left (fun h => by cases h)
    rw [hx] at hput
    exact { hs with
      waits := fun _ h => by
        cases h
        exact ⟨x, hx, hr, hput⟩
      idle := fun h => by cases h }

end awaiting

theorem sound_next (hs : Sound dumps s) (hc : Calm s l) (hn : (system dumps).next s l = some s') :
    Sound dumps s' := by
  obtain ⟨t, ht, rfl⟩ := Option.map_eq_some_iff.1 hn
  obtain ⟨event, of⟩ := l
  cases event with
  | toolStarted callId tool args caption =>
    cases ht
    exact sound_started hs hc
  | textProgress text =>
    cases ht
    exact sound_progress hs
  | toolFinished callId isError durationS =>
    obtain ⟨ho, hd, hother⟩ := hc
    cases of with
    | none =>
      cases ht
      simp only [TurnCalls.onEvent, show s.code.opened.lookup callId = none from ho]
      exact hs
    | some j =>
      simp only [tell, Option.ite_none_right_eq_some] at ht
      obtain ⟨-, ht⟩ := ht
      cases ht
      exact sound_finished hs ho (hd (by simp)) (hother (by simp))
  | callAwaiting tool =>
    cases of with
    | none =>
      cases ht
      exact sound_elsewhere hs hc
    | some j =>
      simp only [tell, Option.ite_none_right_eq_some] at ht
      obtain ⟨-, ht⟩ := ht
      cases ht
      exact sound_put hs hc

theorem Sound.awaiting (hs : Sound dumps s) {i : Nat} (h : s.code.waits = some i) :
    ∃ c x, s.code.awaiting = some c ∧ s.code.calls[i]? = some c ∧ s.seen[i]? = some x ∧ x.runs ∧
      x.put := by
  obtain ⟨x, hx, hr⟩ := hs.waits i h
  have hi : i < s.code.calls.length := by
    rw [hs.length]
    exact (List.getElem?_eq_some_iff.1 hx).1
  refine ⟨s.code.calls[i], x, ?_, List.getElem?_eq_getElem hi, hx, hr⟩
  rw [TurnCalls.awaiting, h, Option.bind_some, List.getElem?_eq_getElem hi]

theorem Sound.agrees (hs : Sound dumps s) : Agrees dumps s where
  length := hs.length
  told := hs.told
  awaiting := fun c h => by
    obtain ⟨i, hw, hc⟩ := Option.bind_eq_some_iff.1 h
    obtain ⟨x, hx, hr⟩ := hs.waits i hw
    exact ⟨i, x, hc, hx, hr⟩
  idle := fun h => by
    refine hs.idle ?_
    cases hw : s.code.waits with
    | none => rfl
    | some i =>
      obtain ⟨c, -, hc, -⟩ := hs.awaiting hw
      rw [h] at hc
      cases hc
  kept := ⟨s.code.calls, decode_encode _, rfl, hs.numbers⟩

/-- The record of a turn agrees with the turn's events where all of these are calm. -/
theorem agrees_of_calm (h : (system dumps).Reach Calm s) : Agrees dumps s :=
  (h.inv (fun _ h0 => h0 ▸ sound_init) fun _ _ _ => sound_next).agrees

namespace Sample

def start (callId tool : String) : Label Unit := ⟨.toolStarted callId tool () "", none⟩

def finish (callId : String) (j : Nat) : Label Unit := ⟨.toolFinished callId false "1.5", some j⟩

def ask (tool : String) (j : Nat) : Label Unit := ⟨.callAwaiting tool, some j⟩

def json (_ : Unit) : String := "\x7b\x7d"

/-- Two calls overlap, each with a card; the one asked about first ends first, and its id is used
again. -/
def overlapping : List (Label Unit) :=
  [⟨.textProgress " Looking ", none⟩, start "c1" "read", start "c2" "write", ask "write" 1,
    ask "read" 0, finish "c2" 1, finish "c1" 0, start "c1" "read"]

/-- Two cards are up, and the call of the later one ends first. -/
def answered : List (Label Unit) :=
  [start "c1" "read", start "c2" "write", ask "read" 0, ask "write" 1, finish "c2" 1]

end Sample

/-- Every call overlaps another, and what it was put to the person for is told until it ends. -/
theorem agrees_overlapping : ∃ s, (system Sample.json).Reach Calm s ∧ s.code.calls.length = 3 ∧
    Agrees Sample.json s := by
  have hrun : ((system Sample.json).check (fun s l => decide (Calm s l)) {}
      Sample.overlapping).any (fun s => decide (s.code.calls.length = 3)) = true := by
    decide +kernel
  obtain ⟨s, hs, hd⟩ := (Option.any_eq_true ..).1 hrun
  have h : (system Sample.json).Reach Calm s :=
    Lts.reach_of_check (fun _ _ => of_decide_eq_true) rfl hs
  exact ⟨s, h, of_decide_eq_true hd, agrees_of_calm h⟩

/-- No call is awaited although one that was put to the person still runs. -/
theorem unawaited_put : ¬∀ s : Turn Unit, (system Sample.json).Reach Lts.Any s →
    Agrees Sample.json s := by
  intro hall
  have hrun : ((system Sample.json).check (fun _ _ => true) {} Sample.answered).any
      (fun s => decide (s.code.awaiting = none) && s.seen.any fun x => x.put && x.runs) = true := by
    decide +kernel
  obtain ⟨s, hs, hd⟩ := (Option.any_eq_true ..).1 hrun
  obtain ⟨hnone, hany⟩ := (Bool.and_eq_true _ _).mp hd
  obtain ⟨x, hx, hrun⟩ := List.any_eq_true.1 hany
  obtain ⟨hput, hr⟩ := (Bool.and_eq_true _ _).mp hrun
  have h : (system Sample.json).Reach Lts.Any s := Lts.reach_of_check (fun _ _ _ => trivial) rfl hs
  exact (hall s h).idle (of_decide_eq_true hnone) x hx hput hr

end Traces
