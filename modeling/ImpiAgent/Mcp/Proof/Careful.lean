import ImpiAgent.Lib.Monitor
import ImpiAgent.Mcp.System

/-!
# What a call sends

A monitor follows the requests `tools/call` of one program (`watch`): another one is sent only where
none may have run. Every program of the client and of the servers keeps to it, whatever it is answered
(`call_careful`, `listing_careful`, `reply_careful`): a failure that says its request was not sent or
was refused says so truly, of what the monitor knows.
-/

namespace Mcp

open Json Prog

/-! ## The monitor -/

/-- What is known of the requests `tools/call` of a task: none may have run, or the last may; of a
stdio server, with its line. -/
inductive Watch
  | clear
  | live (line : Option (Nat × Nat))

/-- A request that turns out not to have run. -/
def Watch.settle (m : Watch) (pid line : Nat) : Watch :=
  match m with
  | .live (some (pid', line')) => if pid = pid' ∧ line = line' then .clear else m
  | _ => m

/-- A request may be sent where none may have run. No await ends in an `McpError`. -/
def watch : Monitor Raised Cmd Cmd.Answer Watch where
  may
    | m, .post _ .call | m, .write _ .call => m = .clear
    | _, _ => True
  answers
    | _, .error (.mcp _) => False
    | _, _ => True
  seen
    | _, .post _ .call, .ok .connectFailed => .clear
    | _, .post _ .call, .ok (.response r) => if r.didNotRun then .clear else .live none
    | _, .post _ .call, _ => .live none
    | _, .write pid .call, .ok (.passed line) => .live (some (pid, line))
    | _, .write pid .call, .ok (.waits line) => .live (some (pid, line))
    | m, .drain pid line, .ok false => m.settle pid line
    | m, .answer pid line, .ok (.message message) =>
      if isUnsupported message then m.settle pid line else m
    | m, _, _ => m

/-- A failure that says its request was not sent, or was refused. -/
def McpError.undone (e : McpError) : Prop :=
  e.code = .unreachable ∧ e.sent = false ∨ e.rpcCode = some errorUnsupportedVersion ∨
    e.legacySign = true

/-- How a program ends that made requests of the method: one of no tool leaves the monitor where it
was, -/
def Done {α : Type} (m : Method) (_ : α) (w : Watch) : Prop := m ≠ .call → w = .clear

/-- and a failure that says the request did not run says so truly. -/
def Failed (m : Method) (r : Raised) (w : Watch) : Prop :=
  (∀ e, r = .mcp e → e.undone → w = .clear) ∧ (m ≠ .call → w = .clear)

/-- From where no request may have run, `p` makes its requests of the method with care. -/
def Careful {α : Type} (m : Method) (p : Routine α) : Prop :=
  Safe watch p .clear (Done m) (Failed m)

variable {α β : Type} {m : Method} {w : Watch}

theorem failed_clear (r : Raised) : Failed m r .clear := ⟨fun _ _ _ => rfl, fun _ => rfl⟩

/-- A command the monitor takes no notice of. -/
theorem safe_await {c : Cmd} {Q : c.Answer → Watch → Prop} {E : Raised → Watch → Prop}
    (hmay : watch.may w c) (hseen : ∀ x, watch.seen w c x = w) (hQ : ∀ a, Q a w)
    (hE : ∀ r, (∀ e, r ≠ .mcp e) → E r w) : Safe watch (await c) w Q E := by
  refine Safe.await hmay (fun a _ => ?_) (fun r hr => ?_)
  · rw [hseen]
    exact hQ a
  · rw [hseen]
    refine hE r fun e he => ?_
    subst he
    exact hr

theorem failed_other {r : Raised} (hr : ∀ e, r ≠ .mcp e) (hw : m ≠ .call → w = .clear) :
    Failed m r w := ⟨fun e he => absurd he (hr e), hw⟩

theorem safe_look {c : Nat} {Q : Client → Watch → Prop} (hw : m ≠ .call → w = .clear)
    (hQ : ∀ client, Q client w) : Safe watch (look c) w Q (Failed m) :=
  safe_await (c := .look c) trivial (fun _ => rfl) hQ fun _ hr => failed_other hr hw

theorem safe_fail {e : McpError} {Q : α → Watch → Prop} (hu : e.undone → w = .clear)
    (hw : m ≠ .call → w = .clear) : Safe watch (fail e) w Q (Failed m) := by
  refine ⟨fun e' he' hu' => ?_, hw⟩
  cases he'
  exact hu hu'

/-- A failure that says nothing of the kind. -/
theorem safe_fail' {e : McpError} {Q : α → Watch → Prop} (hu : ¬e.undone)
    (hw : m ≠ .call → w = .clear) : Safe watch (fail e) w Q (Failed m) :=
  safe_fail (fun h => absurd h hu) hw

theorem safe_other {Q : α → Watch → Prop} (hw : m ≠ .call → w = .clear) :
    Safe watch (raise .other) w Q (Failed m) :=
  failed_other (fun _ => nofun) hw

theorem not_undone_protocol : ¬McpError.undone { code := .protocol } := by
  simp [McpError.undone, McpError.legacySign]

theorem not_undone_unreachable : ¬McpError.undone { code := .unreachable } := by
  simp [McpError.undone, McpError.legacySign]

/-! ## Requests -/

theorem safe_answerOf {message : PyValue} {Q : PyValue → Watch → Prop}
    (hu : isUnsupported message = true → w = .clear) (hw : m ≠ .call → w = .clear)
    (hQ : ∀ a, Q a w) : Safe watch (answerOf message) w Q (Failed m) := by
  unfold answerOf
  split
  · exact hQ _
  · rename_i error herror
    refine Safe.ite (fun _ => safe_fail (fun hundone => hu ?_) hw) (fun _ => safe_other hw)
    have hget : get "error" message = error := by
      unfold get Internal.getD
      rw [herror]
      rfl
    rcases hundone with ⟨hcode, -⟩ | hrpc | hlegacy
    · cases hcode
    · unfold isUnsupported errorCode
      rw [hget]
      by_cases htruthy : Internal.truthy error = true
      · simpa [htruthy] using hrpc
      · rw [if_neg htruthy] at hrpc
        cases hrpc
    · simp [McpError.legacySign] at hlegacy

/-- What is looked at of a response of which it is known whether the request ran. -/
theorem safe_response {r : Response} {expect : Bool} (hr : r.didNotRun = true → w = .clear)
    (hw : m ≠ .call → w = .clear) {Q : Option PyValue → Watch → Prop}
    (hQ : ∀ a, (∀ message, a = some message → isUnsupported message = true → w = .clear) → Q a w) :
    Safe watch (readResponse r expect) w Q (Failed m) := by
  have hstatus : McpError.undone { code := .protocol, status := some r.status } → w = .clear := by
    rintro (⟨hc, -⟩ | hc | hs)
    · cases hc
    · cases hc
    · refine hr ?_
      simp only [McpError.legacySign, Option.some.injEq, Option.isNone_none, Bool.and_true,
        Bool.or_eq_true, decide_eq_true_eq] at hs
      simp only [Response.didNotRun, Bool.or_eq_true, decide_eq_true_eq]
      exact .inl (.inl hs)
  unfold readResponse
  split
  · next hs =>
    refine safe_fail' ?_ hw
    rintro (⟨hc, -⟩ | hc | hl)
    · cases hc
    · cases hc
    · rcases hs with hs | hs <;> simp [McpError.legacySign, hs] at hl
  split
  · split
    · next error herror =>
      refine Safe.bind (safe_answerOf (fun hu => hr ?_) hw fun _ => safe_fail hstatus hw)
      unfold rpcErrorIn at herror
      split at herror
      · cases herror
      · obtain ⟨hj, -⟩ := Option.filter_eq_some_iff.1 herror
        simp [Response.didNotRun, hj, hu]
    · exact safe_fail hstatus hw
  split
  · exact hQ none nofun
  split
  · exact safe_fail' not_undone_protocol hw
  split
  · split
    · next message hm =>
      refine hQ _ fun _ he hu => hr ?_
      obtain rfl := Option.some.inj he
      simp [Response.didNotRun, hm, hu]
    · exact safe_fail' not_undone_protocol hw
  split
  · next data hj =>
    refine Safe.ite (fun _ => hQ _ fun _ he hu => hr ?_) fun _ => safe_fail' not_undone_protocol hw
    obtain rfl := Option.some.inj he
    simp [Response.didNotRun, hj, hu]
  · exact safe_fail' not_undone_protocol hw

/-- What is known of a request that was answered. -/
def Told (m : Method) (a : Option PyValue) (w : Watch) : Prop :=
  (∀ message, a = some message → isUnsupported message = true → w = .clear) ∧
    (m ≠ .call → w = .clear)

theorem seen_post (hm : m ≠ .call) (c : Nat) (x : Except Raised Posted) :
    watch.seen w (.post c m) x = w := by
  cases m <;> first | rfl | exact absurd rfl hm

theorem seen_write (hm : m ≠ .call) (pid : Nat) (x : Except Raised Written) :
    watch.seen w (.write pid m) x = w := by
  cases m <;> first | rfl | exact absurd rfl hm

theorem safe_post (c : Nat) (expect : Bool) :
    Safe watch (post c m expect) .clear (Told m) (Failed m) := by
  have hmay : watch.may .clear (.post c m) := by cases m <;> trivial
  have hquiet : ∀ x, m ≠ .call → watch.seen .clear (.post c m) x = .clear :=
    fun x hm => seen_post hm c x
  refine Safe.bind (Safe.await hmay (fun posted _ => ?_) fun r hr =>
    failed_other (fun e he => ?_) (hquiet _))
  · cases posted with
    | connectFailed =>
      have hw : watch.seen .clear (.post c m) (.ok .connectFailed) = .clear := by cases m <;> rfl
      exact safe_fail (fun _ => hw) (hquiet _)
    | failed => exact safe_fail' not_undone_unreachable (hquiet _)
    | response r =>
      refine safe_response (fun hdid => ?_) (hquiet _) fun a ha => ⟨ha, hquiet _⟩
      by_cases hm : m = .call
      · subst hm
        exact if_pos hdid
      · exact hquiet _ hm
  · subst he
    exact hr

/-- From where no request may have run, a failure before one is sent says so truly. -/
theorem safe_unsent {Q : α → Watch → Prop} {e : McpError} :
    Safe watch (fail e) .clear Q (Failed m) :=
  safe_fail (fun _ => rfl) fun _ => rfl

theorem safe_ensure (c : Nat) :
    Safe watch (ensure c) .clear (fun _ w => w = .clear) (Failed m) := by
  refine Safe.bind (safe_await (c := .process c) trivial (fun _ => rfl) (fun found => ?_)
    fun r _ => failed_clear r)
  match found with
  | some (pid, true) => exact rfl
  | some (_, false) => exact safe_unsent
  | none =>
    refine Safe.bind (safe_await (c := .spawn c) trivial (fun _ => rfl) (fun spawned => ?_)
      fun r _ => failed_clear r)
    cases spawned with
    | some pid => exact rfl
    | none => exact safe_unsent

/-- The line of a request that was written; of no tool, the monitor stays where it was. -/
def Wrote (m : Method) (pid line : Nat) (w : Watch) : Prop :=
  (m = .call → w = .live (some (pid, line))) ∧ (m ≠ .call → w = .clear)

theorem Wrote.settle {pid line : Nat} (h : Wrote m pid line w) : w.settle pid line = .clear := by
  by_cases hm : m = .call
  · rw [h.1 hm]
    exact if_pos ⟨rfl, rfl⟩
  · rw [h.2 hm]
    rfl

theorem safe_write (pid : Nat) :
    Safe watch (write pid m) .clear (fun line w => Wrote m pid line w) (Failed m) := by
  have hmay : watch.may .clear (.write pid m) := by cases m <;> trivial
  have hquiet : ∀ x, m ≠ .call → watch.seen .clear (.write pid m) x = .clear :=
    fun x hm => seen_write hm pid x
  refine Safe.bind (Safe.await hmay (fun written _ => ?_) fun r hr =>
    failed_other (fun e he => ?_) (hquiet _))
  · cases written with
    | lost =>
      have hw : watch.seen .clear (.write pid m) (.ok .lost) = .clear := by cases m <;> rfl
      exact safe_fail (fun _ => hw) (hquiet _)
    | passed line =>
      refine ⟨fun hm => ?_, hquiet _⟩
      subst hm
      rfl
    | waits line =>
      have hwrote : Wrote m pid line (watch.seen .clear (.write pid m) (.ok (.waits line))) := by
        refine ⟨fun hm => ?_, hquiet _⟩
        subst hm
        rfl
      refine Safe.bind (Safe.await trivial (fun ok _ => ?_) fun r hr =>
        failed_other (fun e he => ?_) hwrote.2)
      · cases ok with
        | true => exact hwrote
        | false => exact safe_fail (fun _ => hwrote.settle) fun _ => hwrote.settle
      · subst he
        exact hr
  · subst he
    exact hr

/-- What an answer says of its line is believed. -/
theorem safe_answer {pid line : Nat} (h : Wrote m pid line w) :
    Safe watch (await (Cmd.answer pid line) >>= fun
      | .message message => answerOf message
      | .timeout | .exited => fail { code := .unreachable }) w (Done m) (Failed m) := by
  refine Safe.bind (Safe.await trivial (fun answered _ => ?_) fun r hr =>
    failed_other (fun e he => ?_) h.2)
  · cases answered with
    | message message =>
      have hseen : watch.seen w (.answer pid line) (.ok (.message message)) =
          if isUnsupported message then w.settle pid line else w := rfl
      have hw : m ≠ .call → watch.seen w (.answer pid line) (.ok (.message message)) = .clear := by
        intro hm
        rw [hseen, h.settle, h.2 hm, ite_self]
      refine safe_answerOf (fun hu => ?_) hw fun _ => hw
      rw [hseen, if_pos hu, h.settle]
    | timeout => exact safe_fail' not_undone_unreachable h.2
    | exited => exact safe_fail' not_undone_unreachable h.2
  · subst he
    exact hr

theorem safe_request (c : Nat) : Careful m (request c m) := by
  refine Safe.bind (safe_look (fun _ => rfl) fun client => ?_)
  refine Safe.ite (fun _ => Safe.bind ((safe_post c true).mono (fun a w h => ?_) fun _ _ => id))
    fun _ => Safe.bind ((safe_ensure c).mono (fun pid w h => ?_) fun _ _ => id)
  · cases a with
    | none => exact safe_fail' not_undone_protocol h.2
    | some message => exact safe_answerOf (h.1 message rfl) h.2 fun _ => h.2
  · subst h
    exact Safe.bind ((safe_write pid).mono (fun line w h => safe_answer h) fun _ _ => id)

/-- What is sent without an answer to wait for is of no tool. -/
theorem careful_notify (hm : m ≠ .call) (c : Nat) : Careful m (notify c m) := by
  refine Safe.bind (safe_look (fun _ => rfl) fun client => ?_)
  refine Safe.ite (fun _ => Safe.bind ((safe_post c false).mono (fun _ _ h => ?_) fun _ _ => id))
    fun _ => Safe.bind ((safe_ensure c).mono (fun pid w h => ?_) fun _ _ => id)
  · exact fun _ => h.2 hm
  · subst h
    exact Safe.bind ((safe_write pid).mono (fun _ _ h _ => h.2 hm) fun _ _ => id)

/-! ## The client -/

/-- A program of requests for no tool leaves the monitor where it was, however it ends. -/
theorem Careful.quiet {p : Routine α} (h : Careful m p) (hm : m ≠ .call)
    {Q : α → Watch → Prop} {E : Raised → Watch → Prop} (hQ : ∀ a, Q a .clear)
    (hE : ∀ r, E r .clear) : Safe watch p .clear Q E := by
  refine h.mono (fun a w hd => ?_) fun r w hf => ?_
  · rw [hd hm]
    exact hQ a
  · rw [hf.2 hm]
    exact hE r

/-- A command of which the monitor takes no notice, and what is done next. -/
theorem safe_then {c : Cmd} {f : c.Answer → Routine α} {Q : α → Watch → Prop}
    (hmay : watch.may w c) (hseen : ∀ x, watch.seen w c x = w) (hw : m ≠ .call → w = .clear)
    (hf : ∀ a, Safe watch (f a) w Q (Failed m)) : Safe watch (await c >>= f) w Q (Failed m) :=
  Safe.bind (safe_await hmay hseen hf fun _ hr => failed_other hr hw)

theorem safe_complete (c : Nat) (result : PyValue) (hw : m ≠ .call → w = .clear) :
    Safe watch (complete c result) w (Done m) (Failed m) :=
  Safe.ite (fun _ => safe_then (c := .setProbed c) trivial (fun _ => rfl) hw fun _ => hw)
    fun _ => safe_fail' not_undone_protocol hw

theorem safe_agree (exc : McpError) {Q : Version → Watch → Prop} (hw : m ≠ .call → w = .clear)
    (hQ : ∀ v, Q v w) : Safe watch (agree exc) w Q (Failed m) := by
  unfold agree
  split
  · exact safe_other hw
  split
  · exact hQ _
  · exact safe_fail' not_undone_protocol hw

theorem safe_initializeSession (c : Nat) :
    Safe watch (initializeSession c) .clear (fun _ w => w = .clear) (Failed m) := by
  refine safe_then (c := .setVersion c .legacy) trivial (fun _ => rfl) (fun _ => rfl) fun _ =>
    safe_then (c := .setProbed c) trivial (fun _ => rfl) (fun _ => rfl) fun _ =>
      Safe.bind ((safe_request (m := .initializeSession) c).quiet (by decide) (fun result => ?_)
        failed_clear)
  refine Safe.ite (fun _ => ?_) fun _ => safe_fail' not_undone_protocol fun _ => rfl
  refine Safe.bind ((careful_notify (m := .initialized) (by decide) c).quiet (by decide) (fun _ => ?_)
    failed_clear)
  exact safe_await (c := .setInitialized c) trivial (fun _ => rfl) (fun _ => rfl) fun r _ =>
    failed_clear r

theorem careful_legacyCall (c : Nat) : Careful m (legacyCall c m) := by
  refine Safe.bind (safe_look (fun _ => rfl) fun client => ?_)
  have hrequest : Careful m (do
      let result ← request c m
      if isObject result then return result else fail { code := .protocol }) :=
    Safe.bind ((safe_request c).mono (fun _ _ h => Safe.ite (fun _ => h) fun _ =>
      safe_fail' not_undone_protocol h) fun _ _ => id)
  refine Safe.ite (fun _ => Safe.bind ((safe_initializeSession c).mono (fun _ w h => ?_)
    fun _ _ => id)) fun _ => hrequest
  subst h
  exact hrequest

/-- What is caught is looked at where the monitor then is. -/
theorem safe_catchMcp {p : Routine α} (h : Careful m p) :
    Safe watch (catchMcp p) .clear
      (fun
        | .ok a, w => Done m a w
        | .error e, w => Failed m (.mcp e) w) (Failed m) := by
  refine Safe.handle (Safe.bind (h.mono (fun _ _ => id) fun r w hr => ?_))
  cases r with
  | mcp e => exact hr
  | other => exact hr
  | cancelled => exact hr

theorem safe_probe (c : Nat) :
    Safe watch (probe c) .clear (fun _ w => w = .clear) (Failed m) := by
  have hset : ∀ {v : Version}, Safe watch (setVersion c v) .clear (fun _ w => w = .clear)
      (Failed m) := fun {v} =>
    safe_await (c := .setVersion c v) trivial (fun _ => rfl) (fun _ => rfl) fun r _ => failed_clear r
  refine safe_then (c := .setProbed c) trivial (fun _ => rfl) (fun _ => rfl) fun _ =>
    Safe.bind ((safe_catchMcp (safe_request (m := .discover) c)).mono (fun x w hx => ?_)
      fun r w hr => ?_)
  · cases x with
    | error exc =>
      obtain rfl := hx.2 (by decide)
      exact Safe.ite (fun _ => Safe.bind (safe_agree exc (fun _ => rfl) fun v => hset))
        fun _ => Safe.ite (fun _ => safe_unsent) fun _ => hset
    | ok result =>
      obtain rfl := hx (by decide)
      refine Safe.bind ((safe_complete (m := .discover) c result fun _ => rfl).mono (fun a w h => ?_)
        fun r w h => ?_)
      · obtain rfl := h (by decide)
        dsimp only
        split
        · exact safe_other fun _ => rfl
        · refine safe_then (c := .look c) trivial (fun _ => rfl) (fun _ => rfl) fun client =>
            Safe.ite (fun _ => ?_) fun _ => rfl
          split
          · exact hset
          · exact safe_unsent
      · rw [h.2 (by decide)]
        exact failed_clear r
  · rw [hr.2 (by decide)]
    exact failed_clear r

theorem careful_modernCall (c : Nat) : Careful m (modernCall c m) := by
  have hset : ∀ {v : Version} {p : Routine PyValue}, Careful m p →
      Careful m (setVersion c v >>= fun _ => p) := fun {v} _ hp =>
    safe_then (c := .setVersion c v) trivial (fun _ => rfl) (fun _ => rfl) fun _ => hp
  refine Safe.bind ((safe_catchMcp (safe_request c)).mono (fun x w hx => ?_) fun _ _ => id)
  cases x with
  | ok result => exact safe_complete c result hx
  | error exc =>
    refine Safe.ite (fun hrpc => ?_) fun _ => Safe.ite (fun hlegacy => ?_) fun _ => hx
    · -- the request was refused for its version
      obtain rfl := hx.1 exc rfl (.inr (.inl hrpc))
      refine Safe.bind (safe_agree exc (fun _ => rfl) fun v => hset (Safe.ite (fun _ =>
        careful_legacyCall c) fun _ => Safe.bind ((safe_request c).mono (fun result _ h =>
          safe_complete c result h) fun _ _ => id)))
    · obtain rfl := hx.1 exc rfl (.inr (.inr hlegacy))
      exact hset (careful_legacyCall c)

theorem careful_callMethod (c : Nat) : Careful m (callMethod c m) := by
  refine Safe.bind (safe_look (fun _ => rfl) fun client => Safe.ite (fun _ => careful_legacyCall c)
    fun _ => Safe.ite (fun _ => Safe.bind ((safe_probe c).mono (fun _ w h => ?_) fun _ _ => id))
      fun _ => careful_modernCall c)
  subst h
  exact Safe.bind (safe_look (fun _ => rfl) fun client => Safe.ite (fun _ => careful_legacyCall c)
    fun _ => careful_modernCall c)

theorem careful_callTool (c : Nat) : Careful .call (callTool c) := by
  refine Safe.bind ((careful_callMethod c).mono (fun result w h => ?_) fun _ _ => id)
  split
  · exact h
  · refine safe_fail' ?_ h
    simp [McpError.undone, McpError.legacySign]

theorem careful_listTools (c pages : Nat) : Careful .list (listTools c pages) := by
  induction pages with
  | zero => exact fun _ => rfl
  | succ pages ih =>
    refine Safe.bind ((careful_callMethod c).mono (fun result w h => ?_) fun _ _ => id)
    obtain rfl := h (by decide)
    exact Safe.ite (fun _ => ih) fun _ _ => rfl

/-! ## The servers -/

/-- Whatever a program ends with. -/
def Ends {α : Type} (_ : α) (_ : Watch) : Prop := True

theorem safe_drop (server : String) :
    Safe watch (drop server) .clear (fun _ w => w = .clear) fun r w => (∀ e, r ≠ .mcp e) ∧ w = .clear := by
  refine Safe.bind (safe_await (c := .pop server) trivial (fun _ => rfl) (fun popped => ?_)
    fun r hr => ⟨hr, rfl⟩)
  cases popped with
  | none => exact rfl
  | some c =>
    refine Safe.handle (safe_await (c := .close c) trivial (fun _ => rfl) (fun _ => rfl)
      fun r hr => ?_)
    cases r with
    | cancelled => exact ⟨nofun, rfl⟩
    | mcp e => exact absurd rfl (hr e)
    | other => exact rfl

/-- A call sends a request only where none of its earlier ones may have run. -/
theorem call_careful (server : String) (headers : Bool) :
    Safe watch (call server headers) .clear Ends Ends := by
  refine Safe.ite (fun _ => ?_) fun _ => ?_
  · -- on a connection of its own it is not tried again
    have hclose : ∀ {c : Nat} {w : Watch} {α : Type} {p : Routine α} {Q : α → Watch → Prop},
        Safe watch p w Q Ends → Safe watch (close c >>= fun _ => p) w Q Ends := fun hp =>
      Safe.bind (safe_await trivial (fun _ => rfl) (fun _ => hp) fun _ _ => trivial)
    refine Safe.bind (safe_await (c := .fresh server) trivial (fun _ => rfl) (fun c => ?_)
      fun _ _ => trivial)
    exact Safe.bind (Safe.handle ((careful_callTool c).mono
      (fun a _ _ => hclose (p := pure a) trivial) fun r _ _ => hclose (p := raise r) trivial))
  · refine Safe.bind (safe_await (c := .client server) trivial (fun _ => rfl) (fun c => ?_)
      fun _ _ => trivial)
    refine Safe.bind ((safe_catchMcp (careful_callTool c)).mono (fun x w hx => ?_)
      fun _ _ _ => trivial)
    cases x with
    | ok result => exact trivial
    | error exc =>
      refine Safe.ite (fun _ => trivial) fun hunsent => ?_
      have hundone : exc.undone := .inl (by simpa using hunsent)
      obtain rfl := hx.1 exc rfl hundone
      refine Safe.bind ((safe_drop server).mono (fun _ w hw => ?_) fun _ _ _ => trivial)
      subst hw
      exact Safe.bind (safe_await (c := .client server) trivial (fun _ => rfl) (fun c =>
        (careful_callTool c).mono (fun _ _ _ => trivial) fun _ _ _ => trivial) fun _ _ => trivial)

/-- A listing and a reply send no such request. -/
theorem listing_careful (server : String) : Safe watch (listing server) .clear Ends Ends := by
  refine Safe.handle (Safe.bind (safe_await (c := .client server) trivial (fun _ => rfl)
    (fun c => (careful_listTools c 100).mono (fun _ _ _ => trivial) fun r w h => ?_) fun r _ => ?_))
  · obtain rfl := h.2 (by decide)
    exact (safe_drop server).mono (fun _ _ _ => trivial) fun _ _ _ => trivial
  · exact (safe_drop server).mono (fun _ _ _ => trivial) fun _ _ _ => trivial

theorem reply_careful (pid : Nat) : Safe watch (write pid .reply) .clear Ends Ends :=
  (safe_write pid).mono (fun _ _ _ => trivial) fun _ _ _ => trivial

end Mcp
