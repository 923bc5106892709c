import ImpiAgent.Gateways.Hub

/-!
# Frames reach a service in order

The frames handed to sockets and not failed are in the order they were submitted (`Stored.order`), and
the ones that wait are behind those that arrived (`Stored.ahead`). A frame is handed over or waits
(`Stored.kept`), and one whose send failed was handed to a later connection or waits
(`Stored.failed`).

Five steps break it: a frame sent past those that wait, a send that fails behind a later frame, a send
that comes back before an earlier frame that failed, a frame taken off the buffer before a later
one has come back or for a connection that is lost, and a send that fails while the buffer is flushed.
`frames_kept` is about the runs without them (`Guarded`), `frames_overtaken` about one of them.
-/

namespace Ws

open Text (Str)

variable {s s' : State} {b b' : Hub} {i j h n w : Nat} {k k' c : Point} {x y : Handing}

/-! ## What the operations do -/

theorem get_settle {st : Status} {a : Nat} : (b.settle h st).handed[a]? =
    if a = h then (b.handed[a]?).map fun x => { x with status := st } else b.handed[a]? := by
  unfold Hub.settle
  rw [List.getElem?_modify]
  by_cases ha : a = h
  · simp [ha]
  · simp [ha, Ne.symm ha]

theorem get_send {a : Nat} : (b.send n w).handed[a]? =
    if a = b.handed.length then some ⟨n, w, .pending⟩ else b.handed[a]? := by
  unfold Hub.send
  rw [List.getElem?_append]
  by_cases ha : a < b.handed.length
  · rw [if_pos ha, if_neg (Nat.ne_of_lt ha)]
  · rw [if_neg ha]
    by_cases he : a = b.handed.length
    · simp [he]
    · rw [if_neg he, List.getElem?_eq_none (by simp; omega), List.getElem?_eq_none (by omega)]

theorem waiting_push (hr : b.waiting.length < bufferLimit) :
    (b.push n).waiting = b.waiting ++ [n] := by
  have hp : (b.push n).waiting =
      (if b.waiting.length = bufferLimit then b.waiting.tail else b.waiting) ++ [n] := rfl
  rw [hp, if_neg (Nat.ne_of_lt hr)]

theorem lt_of_handed {a : Nat} (ha : b.handed[a]? = some x) : a < b.handed.length :=
  (List.getElem?_eq_some_iff.1 ha).1

@[simp] theorem lose_length : (b.lose w).sockets.length = b.sockets.length := by simp [Hub.lose]
@[simp] theorem close_length : (b.close w).sockets.length = b.sockets.length := by simp [Hub.close]

/-- The connection of the socket is lost. -/
def Hub.Lost (b : Hub) (w : Nat) : Prop := ∃ x, b.sockets[w]? = some x ∧ x.lost = true

theorem Hub.Lost.lose {w' : Nat} (hl : b.Lost w) : (b.lose w').Lost w := by
  obtain ⟨x, hx, hlost⟩ := hl
  unfold Hub.Lost Hub.lose
  rw [List.getElem?_modify]
  by_cases hw : w' = w <;> simp [hx, hw, hlost]

theorem Hub.Lost.close {w' : Nat} (hl : b.Lost w) : (b.close w').Lost w := by
  obtain ⟨x, hx, hlost⟩ := hl
  unfold Hub.Lost Hub.close
  rw [List.getElem?_modify]
  by_cases hw : w' = w <;> simp [hx, hw, hlost]

theorem lost_lose (hw : w < b.sockets.length) : (b.lose w).Lost w := by
  unfold Hub.Lost Hub.lose
  rw [List.getElem?_modify]
  simp [hw]

theorem not_lost_of_isUp (hu : b.isUp w = true) : ¬b.Lost w := by
  rintro ⟨x, hx, hl⟩
  simp [Hub.isUp, hx, hl] at hu

/-! ## The frames -/

def Handing.live (x : Handing) : Bool := x.status ≠ .failed

/-- Where the frames are. -/
structure Stored (b : Hub) : Prop where
  order : ∀ (a a' : Nat) (x x' : Handing), a < a' → b.handed[a]? = some x → b.handed[a']? = some x' →
    x.live = true → x'.live = true → x.frame < x'.frame
  bound : ∀ (a : Nat) (x : Handing), b.handed[a]? = some x → x.frame < b.frames.length ∧ x.socket < b.sockets.length
  below : ∀ n ∈ b.waiting, n < b.frames.length
  waits : b.waiting.Pairwise (· < ·)
  ahead : ∀ (a : Nat) (x : Handing), b.handed[a]? = some x → x.status = .sent → ∀ n ∈ b.waiting, x.frame < n
  apart : ∀ (a : Nat) (x : Handing), b.handed[a]? = some x → x.status = .pending → x.frame ∉ b.waiting
  kept : ∀ n < b.frames.length, n ∈ b.waiting ∨
    ∃ (a : Nat) (x : Handing), b.handed[a]? = some x ∧ x.live = true ∧ x.frame = n
  failed : ∀ (a : Nat) (x : Handing), b.handed[a]? = some x → x.status = .failed → b.Lost x.socket ∧
    (x.frame ∈ b.waiting ∨ ∃ (a' : Nat) (x' : Handing), a < a' ∧ b.handed[a']? = some x' ∧ x'.frame = x.frame ∧
      x.socket < x'.socket)
  newest : ∀ w, b.conn = some w → w + 1 = b.sockets.length

/-- A write to the sockets alone. -/
theorem Stored.sockets (hs : Stored b) (hh : b'.handed = b.handed) (hf : b'.frames = b.frames)
    (hb : b'.waiting = b.waiting) (hlen : b.sockets.length ≤ b'.sockets.length)
    (hl : ∀ w, b.Lost w → b'.Lost w) (hc : ∀ w, b'.conn = some w → w + 1 = b'.sockets.length) :
    Stored b' := by
  refine ⟨?_, ?_, ?_, ?_, ?_, ?_, ?_, ?_, hc⟩
  · rw [hh]
    exact hs.order
  · rw [hh, hf]
    exact fun a x ha => ⟨(hs.bound a x ha).1, Nat.lt_of_lt_of_le (hs.bound a x ha).2 hlen⟩
  · rw [hb, hf]
    exact hs.below
  · rw [hb]
    exact hs.waits
  · rw [hh, hb]
    exact hs.ahead
  · rw [hh, hb]
    exact hs.apart
  · rw [hh, hb, hf]
    exact hs.kept
  · rw [hh, hb]
    exact fun a x ha hx => ⟨hl _ (hs.failed a x ha hx).1, (hs.failed a x ha hx).2⟩

/-- A new frame that waits. -/
theorem Stored.append (hs : Stored b) {frame : Frame} (hr : b.waiting.length < bufferLimit) :
    Stored ({ b with frames := b.frames ++ [frame] }.push b.frames.length) := by
  have hw : ({ b with frames := b.frames ++ [frame] }.push b.frames.length).waiting =
      b.waiting ++ [b.frames.length] := waiting_push hr
  have hlen : ({ b with frames := b.frames ++ [frame] }.push b.frames.length).frames.length =
      b.frames.length + 1 := by simp [Hub.push]
  refine ⟨hs.order, fun a x ha => ?_, fun n hn => ?_, ?_, fun a x ha hx n hn => ?_,
    fun a x ha hx hn => ?_, fun n hn => ?_, fun a x ha hx => ?_, hs.newest⟩
  · rw [hlen]
    exact ⟨Nat.lt_succ_of_lt (hs.bound a x ha).1, (hs.bound a x ha).2⟩
  · rw [hlen]
    rcases List.mem_append.1 (hw ▸ hn) with hn | hn
    · exact Nat.lt_succ_of_lt (hs.below n hn)
    · rw [List.mem_singleton.1 hn]
      exact Nat.lt_succ_self _
  · rw [hw, List.pairwise_append]
    refine ⟨hs.waits, List.pairwise_singleton _ _, fun n hn m hm => ?_⟩
    rw [List.mem_singleton.1 hm]
    exact hs.below n hn
  · rcases List.mem_append.1 (hw ▸ hn) with hn | hn
    · exact hs.ahead a x ha hx n hn
    · rw [List.mem_singleton.1 hn]
      exact (hs.bound a x ha).1
  · rcases List.mem_append.1 (hw ▸ hn) with hn | hn
    · exact hs.apart a x ha hx hn
    · have := (hs.bound a x ha).1
      rw [List.mem_singleton.1 hn] at this
      exact Nat.lt_irrefl _ this
  · rw [hlen] at hn
    rw [hw]
    by_cases he : n = b.frames.length
    · exact .inl (he ▸ List.mem_append_right _ List.mem_cons_self)
    · exact (hs.kept n (by omega)).imp_left (List.mem_append_left _)
  · refine ⟨(hs.failed a x ha hx).1, (hs.failed a x ha hx).2.imp_left fun hn => ?_⟩
    rw [hw]
    exact List.mem_append_left _ hn

/-- A frame that is handed over. -/
theorem Stored.send (hs : Stored b) (hw : w < b'.sockets.length) (hh : b'.handed = b.handed)
    (hlen : b'.sockets = b.sockets) (hconn : b'.conn = b.conn)
    (hle : b.frames.length ≤ b'.frames.length) (hn : n < b'.frames.length)
    (hsub : ∀ m ∈ b'.waiting, m ∈ b.waiting ∧ m ≠ n) (hpw : b'.waiting.Pairwise (· < ·))
    (hall : ∀ m < b'.frames.length, m ∈ b'.waiting ∨ m = n ∨
      ∃ (a : Nat) (x : Handing), b.handed[a]? = some x ∧ x.live = true ∧ x.frame = m)
    (hlast : ∀ (a : Nat) (x : Handing), b.handed[a]? = some x → x.live = true → x.frame < n)
    (hfail : ∀ m ∈ b.waiting, m ∉ b'.waiting → m = n ∧ ∀ w', b.Lost w' → w' < w) :
    Stored (b'.send n w) := by
  have old {a : Nat} {x : Handing} (ha : (b'.send n w).handed[a]? = some x) :
      a < b.handed.length ∧ b.handed[a]? = some x ∨ a = b.handed.length ∧ x = ⟨n, w, .pending⟩ := by
    rw [get_send, hh] at ha
    split at ha
    · exact .inr ⟨‹_›, (Option.some.inj ha).symm⟩
    · exact .inl ⟨lt_of_handed ha, ha⟩
  have new {a : Nat} {x : Handing} (ha : b.handed[a]? = some x) :
      (b'.send n w).handed[a]? = some x := by
    rw [get_send, hh, if_neg (Nat.ne_of_lt (lt_of_handed ha)), ha]
  have last : (b'.send n w).handed[b.handed.length]? = some ⟨n, w, .pending⟩ := by
    rw [get_send, hh, if_pos rfl]
  have hwait : (b'.send n w).waiting = b'.waiting := rfl
  refine ⟨fun a a' x x' haa ha ha' hx hx' => ?_, fun a x ha => ?_, fun m hm => ?_, hpw,
    fun a x ha hx m hm => ?_, fun a x ha hx hm => ?_, fun m hm => ?_, fun a x ha hx => ?_,
    fun w' hc => ?_⟩
  · rcases old ha with ⟨hlt, ha⟩ | ⟨rfl, rfl⟩ <;> rcases old ha' with ⟨hlt', ha'⟩ | ⟨rfl, rfl⟩
    · exact hs.order a a' x x' haa ha ha' hx hx'
    · exact hlast a x ha hx
    · omega
    · omega
  · show x.frame < b'.frames.length ∧ x.socket < b'.sockets.length
    rcases old ha with ⟨-, ha⟩ | ⟨-, rfl⟩
    · exact ⟨Nat.lt_of_lt_of_le (hs.bound a x ha).1 hle, hlen ▸ (hs.bound a x ha).2⟩
    · exact ⟨hn, hw⟩
  · exact Nat.lt_of_lt_of_le (hs.below m (hsub m hm).1) hle
  · rcases old ha with ⟨-, ha⟩ | ⟨-, rfl⟩
    · exact hs.ahead a x ha hx m (hsub m hm).1
    · cases hx
  · rcases old ha with ⟨-, ha⟩ | ⟨-, rfl⟩
    · exact hs.apart a x ha hx (hsub _ hm).1
    · exact (hsub _ hm).2 rfl
  · rcases hall m hm with hm | rfl | ⟨a, x, ha, hx, he⟩
    · exact .inl hm
    · exact .inr ⟨_, _, last, rfl, rfl⟩
    · exact .inr ⟨a, x, new ha, hx, he⟩
  · rcases old ha with ⟨hlt, ha⟩ | ⟨-, rfl⟩
    · obtain ⟨⟨z, hz, hlost⟩, hk⟩ := hs.failed a x ha hx
      have hl' : (b'.send n w).Lost x.socket := ⟨z, hlen ▸ hz, hlost⟩
      refine ⟨hl', ?_⟩
      rcases hk with hk | ⟨a', x', haa, ha', he, hw'⟩
      · by_cases hm : x.frame ∈ b'.waiting
        · exact .inl hm
        · obtain ⟨he, hlt'⟩ := hfail _ hk hm
          exact .inr ⟨_, _, hlt, last, he.symm, hlt' _ ⟨z, hz, hlost⟩⟩
      · exact .inr ⟨a', x', haa, new ha', he, hw'⟩
    · cases hx
  · show w' + 1 = b'.sockets.length
    rw [hlen]
    exact hs.newest w' (hconn ▸ hc)

/-- A send that comes back. -/
theorem Stored.sent (hs : Stored b) (hh : b.handed[h]? = some x) (hx : x.status = .pending)
    (hn : ∀ n ∈ b.waiting, x.frame ≤ n) : Stored (b.settle h .sent) := by
  have old {a : Nat} {y : Handing} (ha : (b.settle h .sent).handed[a]? = some y) :
      a ≠ h ∧ b.handed[a]? = some y ∨ a = h ∧ y = { x with status := .sent } := by
    rw [get_settle] at ha
    split at ha
    · rename_i he
      subst he
      rw [hh] at ha
      exact .inr ⟨rfl, (Option.some.inj ha).symm⟩
    · exact .inl ⟨‹_›, ha⟩
  have new {a : Nat} {y : Handing} (ha : b.handed[a]? = some y) :
      ∃ y', (b.settle h .sent).handed[a]? = some y' ∧ y'.frame = y.frame ∧ y'.socket = y.socket ∧
        (y.live = true → y'.live = true) := by
    rw [get_settle, ha]
    split
    · exact ⟨_, rfl, rfl, rfl, fun _ => rfl⟩
    · exact ⟨y, rfl, rfl, rfl, id⟩
  -- an entry is where it was, but for its status
  have back {a : Nat} {y : Handing} (ha : (b.settle h .sent).handed[a]? = some y) :
      ∃ y', b.handed[a]? = some y' ∧ y'.frame = y.frame ∧ y'.socket = y.socket ∧
        (y.live = true → y'.live = true) := by
    rcases old ha with ⟨-, ha⟩ | ⟨rfl, rfl⟩
    · exact ⟨y, ha, rfl, rfl, id⟩
    · exact ⟨x, hh, rfl, rfl, fun _ => by simp [Handing.live, hx]⟩
  refine ⟨fun a a' y y' haa ha ha' hy hy' => ?_, fun a y ha => ?_, hs.below, hs.waits,
    fun a y ha hy n hm => ?_, fun a y ha hy hm => ?_, fun n hm => ?_, fun a y ha hy => ?_, hs.newest⟩
  · obtain ⟨z, hz, hf, -, hl⟩ := back ha
    obtain ⟨z', hz', hf', -, hl'⟩ := back ha'
    rw [← hf, ← hf']
    exact hs.order a a' z z' haa hz hz' (hl hy) (hl' hy')
  · obtain ⟨z, hz, hf, hsock, -⟩ := back ha
    rw [← hf, ← hsock]
    exact hs.bound a z hz
  · rcases old ha with ⟨-, ha⟩ | ⟨-, rfl⟩
    · exact hs.ahead a y ha hy n hm
    · refine Nat.lt_of_le_of_ne (hn n hm) fun he => hs.apart h x hh hx ?_
      exact he ▸ hm
  · rcases old ha with ⟨-, ha⟩ | ⟨-, rfl⟩
    · exact hs.apart a y ha hy hm
    · cases hy
  · refine (hs.kept n hm).imp_right fun ⟨a, y, ha, hl, he⟩ => ?_
    obtain ⟨y', ha', hf, -, hl'⟩ := new ha
    exact ⟨a, y', ha', hl' hl, hf.trans he⟩
  · rcases old ha with ⟨-, ha⟩ | ⟨-, rfl⟩
    · refine ⟨(hs.failed a y ha hy).1, (hs.failed a y ha hy).2.imp_right ?_⟩
      rintro ⟨a', y', haa, ha', he, hw'⟩
      obtain ⟨z, hz, hf, hsock, -⟩ := new ha'
      exact ⟨a', z, haa, hz, hf.trans he, hsock ▸ hw'⟩
    · cases hy

/-- A send that fails: its frame waits again. -/
theorem Stored.fails (hs : Stored b) (hh : b.handed[h]? = some x) (hx : x.status = .pending)
    (hr : b.waiting.length < bufferLimit)
    (hsent : ∀ (a : Nat) (y : Handing), b.handed[a]? = some y → y.status = .sent → y.frame < x.frame)
    (hn : ∀ n ∈ b.waiting, n < x.frame) :
    Stored (((b.settle h .failed).lose x.socket).push x.frame) := by
  generalize hb' : ((b.settle h .failed).lose x.socket).push x.frame = b'
  have hwait : b'.waiting = b.waiting ++ [x.frame] := hb' ▸ waiting_push hr
  have hfr : b'.frames = b.frames := hb' ▸ rfl
  have hlen : b'.sockets.length = b.sockets.length := by
    subst hb'
    exact lose_length
  have hconn : b'.conn = b.conn := hb' ▸ rfl
  have hlost (w : Nat) (hl : b.Lost w) : b'.Lost w := by
    subst hb'
    exact Hub.Lost.lose (b := b.settle h .failed) hl
  have hgone : b'.Lost x.socket := by
    subst hb'
    exact lost_lose (b := b.settle h .failed) (hs.bound h x hh).2
  have get (a : Nat) : b'.handed[a]? = if a = h then some { x with status := .failed }
      else b.handed[a]? := by
    subst hb'
    show (b.settle h .failed).handed[a]? = _
    rw [get_settle]
    split
    · rename_i he
      rw [he, hh]
      rfl
    · rfl
  have old {a : Nat} {y : Handing} (ha : b'.handed[a]? = some y) :
      a ≠ h ∧ b.handed[a]? = some y ∨ a = h ∧ y = { x with status := .failed } := by
    rw [get] at ha
    split at ha
    · exact .inr ⟨‹_›, (Option.some.inj ha).symm⟩
    · exact .inl ⟨‹_›, ha⟩
  have hlx : x.live = true := by simp [Handing.live, hx]
  refine ⟨fun a a' y y' haa ha ha' hy hy' => ?_, fun a y ha => ?_, fun n hm => ?_, ?_,
    fun a y ha hy n hm => ?_, fun a y ha hy hm => ?_, fun n hm => ?_, fun a y ha hy => ?_,
    fun w hc => ?_⟩
  · rcases old ha with ⟨-, ha⟩ | ⟨-, rfl⟩
    · rcases old ha' with ⟨-, ha'⟩ | ⟨-, rfl⟩
      · exact hs.order a a' y y' haa ha ha' hy hy'
      · cases hy'
    · cases hy
  · rw [hfr, hlen]
    rcases old ha with ⟨-, ha⟩ | ⟨-, rfl⟩
    · exact hs.bound a y ha
    · exact hs.bound h x hh
  · rw [hfr]
    rcases List.mem_append.1 (hwait ▸ hm) with hm | hm
    · exact hs.below n hm
    · rw [List.mem_singleton.1 hm]
      exact (hs.bound h x hh).1
  · rw [hwait, List.pairwise_append]
    refine ⟨hs.waits, List.pairwise_singleton _ _, fun n hm m hm' => ?_⟩
    rw [List.mem_singleton.1 hm']
    exact hn n hm
  · rcases old ha with ⟨-, ha⟩ | ⟨-, rfl⟩
    · rcases List.mem_append.1 (hwait ▸ hm) with hm | hm
      · exact hs.ahead a y ha hy n hm
      · rw [List.mem_singleton.1 hm]
        exact hsent a y ha hy
    · cases hy
  · rcases old ha with ⟨hne, ha⟩ | ⟨-, rfl⟩
    · rcases List.mem_append.1 (hwait ▸ hm) with hm | hm
      · exact hs.apart a y ha hy hm
      · -- two live entries have two frames
        have hly : y.live = true := by simp [Handing.live, hy]
        have he := List.mem_singleton.1 hm
        rcases Nat.lt_or_gt_of_ne hne with hlt | hlt
        · exact Nat.ne_of_lt (hs.order a h y x hlt ha hh hly hlx) he
        · exact Nat.ne_of_gt (hs.order h a x y hlt hh ha hlx hly) he
    · cases hy
  · rw [hwait]
    rcases hs.kept n (hfr ▸ hm) with hm | ⟨a, y, ha, hl, he⟩
    · exact .inl (List.mem_append_left _ hm)
    · by_cases hah : a = h
      · subst hah
        rw [hh] at ha
        cases ha
        exact .inl (List.mem_append_right _ (List.mem_singleton.2 he.symm))
      · exact .inr ⟨a, y, by rw [get, if_neg hah, ha], hl, he⟩
  · rcases old ha with ⟨hne, ha⟩ | ⟨-, rfl⟩
    · obtain ⟨hl, hk⟩ := hs.failed a y ha hy
      refine ⟨hlost _ hl, ?_⟩
      rcases hk with hk | ⟨a', y', haa, ha', he, hw'⟩
      · exact .inl (hwait ▸ List.mem_append_left _ hk)
      · by_cases hah : a' = h
        · -- its later handing fails now
          subst hah
          rw [hh] at ha'
          cases ha'
          exact .inl (hwait ▸ List.mem_append_right _ (List.mem_singleton.2 he.symm))
        · exact .inr ⟨a', y', haa, by rw [get, if_neg hah, ha'], he, hw'⟩
    · exact ⟨hgone, .inl (hwait ▸ List.mem_append_right _ List.mem_cons_self)⟩
  · rw [hlen]
    exact hs.newest w (hconn ▸ hc)

/-! ## The calls -/

/-- The handing a call waits for. -/
def Point.handing : Point → Option Nat
  | .sending h | .flushSending _ h => some h
  | _ => none

/-- The socket a call of `_handle` has. -/
def Point.socket : Point → Option Nat
  | .superseding w | .flushing w _ | .flushSending w _ | .serving w => some w
  | _ => none

/-- A socket that is open is the one registered. -/
def Hub.Own (b : Hub) (w : Nat) : Prop :=
  w < b.sockets.length ∧ (b.isOpen w = true → b.conn = some w)

/-- What a call waits for is under way, and on its own socket. -/
def Hub.Awaits (b : Hub) (k : Point) (h : Nat) : Prop :=
  ∃ x, b.handed[h]? = some x ∧ x.status = .pending ∧ ∀ w, k = .flushSending w h → x.socket = w

structure Sound (s : State) : Prop where
  stored : Stored s.store
  pending : ∀ i k h, s.At i k → k.handing = some h → s.store.Awaits k h
  sole : ∀ i j k c h, i ≠ j → s.At i k → s.At j c → k.handing = some h → c.handing ≠ some h
  own : ∀ i k w, s.At i k → k.socket = some w → s.store.Own w

theorem isOpen_close : (b.close w).isOpen n = (b.isOpen n && n != w) := by
  unfold Hub.isOpen Hub.close
  rw [List.getElem?_modify]
  by_cases hn : n = w
  · subst hn
    cases b.sockets[n]? <;> simp
  · cases b.sockets[n]? <;> simp [hn, Ne.symm hn]

theorem isOpen_lose : (b.lose w).isOpen n = b.isOpen n := by
  unfold Hub.isOpen Hub.lose
  rw [List.getElem?_modify]
  cases b.sockets[n]? with
  | none => rfl
  | some x => by_cases hn : w = n <;> simp [hn]

theorem Hub.Own.lose {w' : Nat} (ho : b.Own w) : (b.lose w').Own w :=
  ⟨by simpa using ho.1, fun h => ho.2 (isOpen_lose ▸ h)⟩

theorem Hub.Own.close {w' : Nat} (ho : b.Own w) : (b.close w').Own w := by
  refine ⟨by simpa using ho.1, fun h => ho.2 ?_⟩
  rw [isOpen_close, Bool.and_eq_true] at h
  exact h.1

/-- The socket of a handler that ends is closed and no longer registered. -/
theorem Hub.Own.leave {w' : Nat} (ho : b.Own w) : ((b.close w').forget w').Own w := by
  have hopen (h : ((b.close w').forget w').isOpen w = true) : b.isOpen w = true ∧ w ≠ w' := by
    have he : ((b.close w').forget w').isOpen w = (b.close w').isOpen w := by
      unfold Hub.forget
      split <;> rfl
    rw [he, isOpen_close, Bool.and_eq_true] at h
    exact ⟨h.1, by simpa using h.2⟩
  refine ⟨?_, fun h => ?_⟩
  · have hl : ((b.close w').forget w').sockets.length = b.sockets.length := by
      unfold Hub.forget
      split <;> exact close_length
    rw [hl]
    exact ho.1
  · obtain ⟨hw, hne⟩ := hopen h
    have hc : (b.close w').conn = some w := ho.2 hw
    unfold Hub.forget
    rw [if_neg (by rw [hc]; simpa using hne), hc]

/-- A step of a call. -/
theorem Sound.put (hs : Sound s) (hk : s.At i k) (hst : Stored b')
    (hp : ∀ (a : Nat) (x : Handing), s.store.handed[a]? = some x → k.handing ≠ some a →
      b'.handed[a]? = some x)
    (ho : ∀ w, s.store.Own w → b'.Own w)
    (hn : ∀ h, k'.handing = some h → b'.Awaits k' h ∧ s.store.handed.length ≤ h)
    (hw : ∀ w, k'.socket = some w → k.socket = some w) : Sound (s.put i b' k') := by
  refine ⟨hst, fun j c h hj hc => ?_, fun a a' x x' h hne ha ha' hx hx' => ?_,
    fun j c w hj hc => ?_⟩
  · rcases (Pool.at_put hk).1 hj with ⟨rfl, rfl⟩ | ⟨hne, hj⟩
    · exact (hn h hc).1
    · obtain ⟨x, hx, hpend, hsock⟩ := hs.pending j c h hj hc
      exact ⟨x, hp h x hx fun he => hs.sole i j k c h (Ne.symm hne) hk hj he hc, hpend, hsock⟩
  · -- a handing that has just begun is nobody else's
    have fresh {j : Nat} {c : Point} (hj : s.At j c) (hc : c.handing = some h)
        (hnew : k'.handing = some h) : False := by
      obtain ⟨x, hx, -⟩ := hs.pending j c h hj hc
      have := lt_of_handed hx
      have := (hn h hnew).2
      omega
    rcases (Pool.at_put hk).1 ha with ⟨ea, rfl⟩ | ⟨hna, ha₀⟩ <;>
      rcases (Pool.at_put hk).1 ha' with ⟨eb, rfl⟩ | ⟨hnb, hb₀⟩
    · exact absurd (ea.trans eb.symm) hne
    · exact fresh hb₀ hx' hx
    · exact fresh ha₀ hx hx'
    · exact hs.sole a a' x x' h hne ha₀ hb₀ hx hx'
  · rcases (Pool.at_put hk).1 hj with ⟨rfl, rfl⟩ | ⟨hne, hj⟩
    · exact ho w (hs.own j k w hk (hw w hc))
    · exact ho w (hs.own j c w hj hc)

/-- A call that begins. -/
theorem Sound.start (hs : Sound s) (hst : Stored b')
    (hp : ∀ (a : Nat) (x : Handing), s.store.handed[a]? = some x → b'.handed[a]? = some x)
    (ho : ∀ w, s.store.Own w → b'.Own w)
    (hn : ∀ h, k'.handing = some h → b'.Awaits k' h ∧ s.store.handed.length ≤ h)
    (hw : ∀ w, k'.socket = some w → b'.Own w) : Sound ({ s with store := b' }.start k') := by
  refine ⟨hst, fun j c h hj hc => ?_, fun a a' x x' h hne ha ha' hx hx' => ?_,
    fun j c w hj hc => ?_⟩
  · rcases Pool.at_start.1 hj with hj | ⟨-, rfl⟩
    · obtain ⟨x, hx, hr⟩ := hs.pending j c h hj hc
      exact ⟨x, hp h x hx, hr⟩
    · exact (hn h hc).1
  · have fresh {j : Nat} {c : Point} (hj : s.At j c) (hc : c.handing = some h)
        (hnew : k'.handing = some h) : False := by
      obtain ⟨x, hx, -⟩ := hs.pending j c h hj hc
      have := lt_of_handed hx
      have := (hn h hnew).2
      omega
    rcases Pool.at_start.1 ha with ha₀ | ⟨ea, rfl⟩ <;>
      rcases Pool.at_start.1 ha' with hb₀ | ⟨eb, rfl⟩
    · exact hs.sole a a' x x' h hne ha₀ hb₀ hx hx'
    · exact fresh ha₀ hx hx'
    · exact fresh hb₀ hx' hx
    · exact absurd (ea.trans eb.symm) hne
  · rcases Pool.at_start.1 hj with hj | ⟨-, rfl⟩
    · exact ho w (hs.own j c w hj hc)
    · exact hw w hc

/-- Fewer frames than the buffer holds are waiting. -/
def Room (s : State) : Prop := s.store.waiting.length < bufferLimit

/-- No frame overtakes another, and none is lost. -/
def Guarded (s : State) : Label → Prop
  | .deliver _ => ∀ w, s.store.conn = some w → s.store.isOpen w = true → s.store.waiting = []
  | .step i .sent => ∀ k h x, s.At i k → k.handing = some h → s.store.handed[h]? = some x →
      ∀ n ∈ s.store.waiting, x.frame ≤ n
  | .step i .failed => (∀ w h, ¬s.At i (.flushSending w h)) ∧
      ∀ h x, s.At i (.sending h) → s.store.handed[h]? = some x →
        (∀ y ∈ s.store.handed, y.status = .sent → y.frame < x.frame) ∧
          ∀ n ∈ s.store.waiting, n < x.frame
  | .step i .go => ∀ w n buffer, s.At i (.flushing w true) → s.store.waiting = n :: buffer →
      s.store.isUp w = true ∧ ∀ y ∈ s.store.handed, y.status = .pending → y.frame < n
  | _ => True

theorem isOpen_of_isUp (hu : b.isUp w = true) : b.isOpen w = true := by
  unfold Hub.isUp at hu
  unfold Hub.isOpen
  cases hx : b.sockets[w]? with
  | none => simp [hx] at hu
  | some x =>
    simp only [hx, Option.any_some, Bool.and_eq_true] at hu
    exact hu.1

theorem lt_of_isOpen (ho : b.isOpen w = true) : w < b.sockets.length := by
  by_contra hw
  unfold Hub.isOpen at ho
  rw [List.getElem?_eq_none (by omega)] at ho
  cases ho

theorem lt_of_lost (hl : b.Lost w) : w < b.sockets.length := by
  obtain ⟨x, hx, -⟩ := hl
  exact (List.getElem?_eq_some_iff.1 hx).1

/-- A send of `_deliver` or of the flush comes back. -/
theorem Sound.settled (hs : Sound s) (hk : s.At i k) (hh : k.handing = some h)
    (hg : ∀ x, s.store.handed[h]? = some x → ∀ n ∈ s.store.waiting, x.frame ≤ n)
    (hn : k'.handing = none) (hw : ∀ w, k'.socket = some w → k.socket = some w) :
    Sound (s.put i (s.store.settle h .sent) k') := by
  obtain ⟨x, hx, hpend, -⟩ := hs.pending i k h hk hh
  refine hs.put hk (hs.stored.sent hx hpend (hg x hx)) (fun a y ha hne => ?_) (fun _ => id)
    (fun h' hh' => ?_) hw
  · have hne' : a ≠ h := fun he => hne (by rw [he, hh])
    rw [get_settle, if_neg hne', ha]
  · rw [hn] at hh'
    cases hh'

theorem Sound.act (hs : Sound s) (hk : s.At i k) {e : Event} (hr : Room s)
    (hg : Guarded s (.step i e)) {q : Hub × Point} (ha : act s.store k e = some q) :
    Sound (s.put i q.1 q.2) := by
  -- a step that leaves the frames alone
  have moves {k' : Point} (hh : k'.handing = none) (hw : ∀ w, k'.socket = some w → k.socket = some w) :
      Sound (s.put i s.store k') :=
    hs.put hk hs.stored (fun _ _ ha _ => ha) (fun _ => id)
      (fun h hn => absurd (hh.symm.trans hn) nofun) hw
  cases k with
  | sending h =>
    cases e with
    | sent =>
      cases ha
      exact hs.settled hk rfl (fun x hx => hg _ h x hk rfl hx) rfl nofun
    | failed =>
      obtain ⟨x, hx, rfl⟩ := Option.map_eq_some_iff.1 ha
      obtain ⟨x', hx', hpend, -⟩ := hs.pending i _ h hk rfl
      rw [hx] at hx'
      cases hx'
      obtain ⟨hsent, hn⟩ := hg.2 h x hk hx
      refine hs.put hk (hs.stored.fails hx hpend hr
        (fun a y hy => hsent y (List.mem_of_getElem? hy)) hn) (fun a y hy hne => ?_)
        (fun w ho => ho.lose) nofun nofun
      show (s.store.settle h .failed).handed[a]? = some y
      rw [get_settle, if_neg fun he => hne (congrArg some he.symm), hy]
    | go => cases ha
  | superseding w =>
    cases e with
    | go =>
      cases ha
      exact moves rfl fun _ => id
    | _ => cases ha
  | flushing w buffered =>
    cases e with
    | go =>
      cases buffered with
      | false =>
        cases ha
        exact moves rfl fun _ => id
      | true =>
        simp only [Ws.act] at ha
        split at ha
        · rename_i n buffer hw
          cases ha
          obtain ⟨hup, hlast⟩ := hg w n buffer hk hw
          have hopen := isOpen_of_isUp hup
          have hconn := (hs.own i _ w hk rfl).2 hopen
          have hwaits := hs.stored.waits
          rw [hw, List.pairwise_cons] at hwaits
          have hmem (m : Nat) (hm : m ∈ buffer) : m ∈ s.store.waiting := hw ▸ List.mem_cons_of_mem _ hm
          have hst : Stored ({ s.store with buffer := some buffer }.send n w) := by
            refine hs.stored.send (lt_of_isOpen hopen) rfl rfl rfl (Nat.le_refl _)
              (hs.stored.below n (hw ▸ List.mem_cons_self))
              (fun m hm => ⟨hmem m hm, Nat.ne_of_gt (hwaits.1 m hm)⟩) hwaits.2 (fun m hm => ?_)
              (fun a x hx hl => ?_) fun m hm hnm => ⟨?_, fun w' hl => ?_⟩
            · rcases hs.stored.kept m hm with hm | hm
              · rw [hw] at hm
                rcases List.mem_cons.1 hm with rfl | hm
                · exact .inr (.inl rfl)
                · exact .inl hm
              · exact .inr (.inr hm)
            · cases hst : x.status with
              | pending => exact hlast x (List.mem_of_getElem? hx) hst
              | sent => exact hs.stored.ahead a x hx hst n (hw ▸ List.mem_cons_self)
              | failed => simp [Handing.live, hst] at hl
            · rw [hw] at hm
              exact (List.mem_cons.1 hm).resolve_right hnm
            · -- the connection it failed on is an earlier one
              have hle := lt_of_lost hl
              have hnew := hs.stored.newest w hconn
              refine Nat.lt_of_le_of_ne (by omega) fun he => not_lost_of_isUp hup (he ▸ hl)
          refine hs.put hk hst (fun a x hx _ => ?_) (fun _ => id) (fun h hh => ?_) fun _ => id
          · rw [get_send, if_neg (Nat.ne_of_lt (lt_of_handed hx)), hx]
          · cases hh
            refine ⟨⟨_, get_send.trans (if_pos rfl), rfl, fun w' he => ?_⟩, Nat.le_refl _⟩
            cases he
            rfl
        · cases ha
          exact moves rfl fun _ => id
    | _ => cases buffered <;> cases ha
  | flushSending w h =>
    cases e with
    | sent =>
      cases ha
      exact hs.settled hk rfl (fun x hx => hg _ h x hk rfl hx) rfl fun _ => id
    | failed => exact absurd hk (hg.1 w h)
    | go => cases ha
  | serving w =>
    cases e with
    | go =>
      cases ha
      have hst : Stored ((s.store.close w).forget w) := by
        unfold Hub.forget
        split
        · exact hs.stored.sockets rfl rfl rfl (Nat.le_of_eq close_length.symm)
            (fun w' hl => hl.close) nofun
        · exact hs.stored.sockets rfl rfl rfl (Nat.le_of_eq close_length.symm)
            (fun w' hl => hl.close) fun w' hc => by
              rw [close_length]
              exact hs.stored.newest w' hc
      refine hs.put hk hst (fun a x hx _ => ?_) (fun w' ho => ho.leave) nofun nofun
      have hh : ((s.store.close w).forget w).handed = s.store.handed := by
        unfold Hub.forget
        split <;> rfl
      rw [hh, hx]
    | _ => cases ha
  | ended => cases e <;> cases ha

/-- `_deliver` hands a frame to the socket that is open, or has it wait. -/
theorem deliver_cases (b : Hub) (frame : Frame) :
    (∃ w, b.conn = some w ∧ b.isOpen w = true ∧ deliver b frame =
      ({ b with frames := b.frames ++ [frame] }.send b.frames.length w, .sending b.handed.length)) ∨
    deliver b frame = ({ b with frames := b.frames ++ [frame] }.push b.frames.length, .ended) := by
  unfold deliver
  dsimp only
  split
  · rename_i w hw
    split
    · exact .inl ⟨w, hw, ‹_›, rfl⟩
    · exact .inr rfl
  · exact .inr rfl

theorem Sound.deliver (hs : Sound s) {frame : Frame} (hr : Room s)
    (hg : Guarded s (.deliver frame)) :
    Sound ({ s with store := (deliver s.store frame).1 }.start (deliver s.store frame).2) := by
  rcases deliver_cases s.store frame with ⟨w, hc, ho, he⟩ | he
  · rw [he]
    have hempty := hg w hc ho
    have hwait : Hub.waiting { s.store with frames := s.store.frames ++ [frame] } = [] := hempty
    have hst : Stored ({ s.store with frames := s.store.frames ++ [frame] }.send
        s.store.frames.length w) := by
      refine hs.stored.send (lt_of_isOpen ho) rfl rfl rfl (by simp) (by simp)
        (fun m hm => absurd (hwait ▸ hm) List.not_mem_nil) (hwait ▸ .nil) (fun m hm => ?_)
        (fun a x hx _ => (hs.stored.bound a x hx).1)
        fun m hm => absurd (hempty ▸ hm) List.not_mem_nil
      have hm : m < s.store.frames.length + 1 := by simpa using hm
      by_cases he : m = s.store.frames.length
      · exact .inr (.inl he)
      · rcases hs.stored.kept m (by omega) with h | h
        · exact absurd (hempty ▸ h) List.not_mem_nil
        · exact .inr (.inr h)
    refine hs.start hst (fun a x hx => ?_) (fun _ => id) (fun h hh => ?_) nofun
    · rw [get_send]
      exact (if_neg (Nat.ne_of_lt (lt_of_handed hx))).trans hx
    · cases hh
      exact ⟨⟨_, get_send.trans (if_pos rfl), rfl, nofun⟩, Nat.le_refl _⟩
  · rw [he]
    exact hs.start (hs.stored.append hr) (fun _ _ ha => ha) (fun _ => id) nofun nofun

/-- A new connection: its socket is registered, and no other is open and registered. -/
structure Connects (b : Hub) (q : Hub × Point) : Prop where
  handed : q.1.handed = b.handed
  frames : q.1.frames = b.frames
  buffer : q.1.buffer = b.buffer
  conn : q.1.conn = some b.sockets.length
  length : q.1.sockets.length = b.sockets.length + 1
  lost : ∀ w, b.Lost w → q.1.Lost w
  only : ∀ w < b.sockets.length, q.1.isOpen w = true → b.isOpen w = true ∧ b.conn ≠ some w
  idle : q.2.handing = none
  socket : q.2.socket = some b.sockets.length

/-- The socket added to those there were. -/
def Hub.join (b : Hub) : Hub :=
  { b with conn := some b.sockets.length, sockets := b.sockets ++ [⟨false, false⟩] }

theorem join_isOpen (hw : w < b.sockets.length) : b.join.isOpen w = b.isOpen w := by
  unfold Hub.isOpen Hub.join
  rw [List.getElem?_append_left hw]

theorem Hub.Lost.join (hl : b.Lost w) : b.join.Lost w := by
  have hw := lt_of_lost hl
  obtain ⟨x, hx, hlost⟩ := hl
  exact ⟨x, by rw [← hx]; exact List.getElem?_append_left hw, hlost⟩

theorem connect_connects (b : Hub) : Connects b (connect b) := by
  have joins {k : Point} (hh : k.handing = none) (hk : k.socket = some b.sockets.length)
      (hc : ∀ w, b.conn = some w → b.isOpen w = false) : Connects b (b.join, k) := by
    refine ⟨rfl, rfl, rfl, rfl, by simp [Hub.join], fun w hl => hl.join, fun w hw ho => ?_, hh, hk⟩
    have ho : b.isOpen w = true := join_isOpen hw ▸ ho
    refine ⟨ho, fun he => ?_⟩
    rw [hc w he] at ho
    cases ho
  unfold connect
  dsimp only
  split
  · rename_i old hold
    split
    · have hlen : (b.close old).sockets.length = b.sockets.length := close_length
      refine ⟨rfl, rfl, rfl, rfl, by simp [Hub.close], fun w hl => ?_, fun w hw ho => ?_, rfl, rfl⟩
      · have hclose : (b.close old).Lost w := hl.close
        obtain ⟨x, hx, hlost⟩ := hclose.join
        exact ⟨x, hx, hlost⟩
      · have ho : (b.close old).join.isOpen w = true := ho
        rw [join_isOpen (hlen ▸ hw), isOpen_close, Bool.and_eq_true] at ho
        refine ⟨ho.1, fun he => ?_⟩
        rw [hold] at he
        cases he
        simp at ho
    · rename_i hclosed
      refine joins rfl rfl fun w hw => ?_
      rw [hold] at hw
      cases hw
      simpa using hclosed
  · rename_i hnone
    refine joins rfl rfl fun w hw => ?_
    rw [hnone] at hw
    cases hw

theorem Sound.connect (hs : Sound s) :
    Sound ({ s with store := (connect s.store).1 }.start (connect s.store).2) := by
  have hc := connect_connects s.store
  have hwait : (Ws.connect s.store).1.waiting = s.store.waiting := by
    unfold Hub.waiting
    rw [hc.buffer]
  have hst : Stored (Ws.connect s.store).1 := by
    refine hs.stored.sockets hc.handed hc.frames hwait (by rw [hc.length]; omega) hc.lost
      fun w hw => ?_
    rw [hc.conn] at hw
    cases hw
    exact hc.length.symm
  refine hs.start hst (fun a x hx => by rw [hc.handed, hx]) (fun w ho => ⟨?_, fun hopen => ?_⟩)
    (fun h hh => ?_) fun w hw => ⟨?_, fun _ => ?_⟩
  · rw [hc.length]
    exact Nat.lt_succ_of_lt ho.1
  · obtain ⟨ho', hne⟩ := hc.only w ho.1 hopen
    exact absurd (ho.2 ho') hne
  · rw [hc.idle] at hh
    cases hh
  · rw [hc.socket] at hw
    cases hw
    rw [hc.length]
    exact Nat.lt_succ_self _
  · rw [hc.socket] at hw
    cases hw
    exact hc.conn

theorem Sound.next (hs : Sound s) {e : Label} (hr : Room s) (hg : Guarded s e)
    (hn : next s e = some s') : Sound s' := by
  cases e with
  | deliver frame =>
    cases hn
    exact hs.deliver hr hg
  | connect =>
    cases hn
    exact hs.connect
  | step i e =>
    simp only [Ws.next] at hn
    split at hn
    · rename_i k hk
      obtain ⟨q, ha, rfl⟩ := Option.map_eq_some_iff.1 hn
      exact hs.act hk hr hg ha
    · cases hn
  | lose w =>
    cases hn
    refine ⟨hs.stored.sockets rfl rfl rfl (Nat.le_of_eq lose_length.symm) (fun w' hl => hl.lose)
      fun w' hc => ?_, hs.pending, hs.sole, fun i k w' hk hw => (hs.own i k w' hk hw).lose⟩
    show w' + 1 = (s.store.lose w).sockets.length
    rw [lose_length]
    exact hs.stored.newest w' hc
  | close w =>
    cases hn
    refine ⟨hs.stored.sockets rfl rfl rfl (Nat.le_of_eq close_length.symm) (fun w' hl => hl.close)
      fun w' hc => ?_, hs.pending, hs.sole, fun i k w' hk hw => (hs.own i k w' hk hw).close⟩
    show w' + 1 = (s.store.close w).sockets.length
    rw [close_length]
    exact hs.stored.newest w' hc

theorem sound (hr : lts.Reach (fun s e => Room s ∧ Guarded s e) s) : Sound s := by
  refine hr.inv (fun s h0 => ?_) fun s e s' h hg hn => h.next hg.1 hg.2 hn
  subst h0
  have none (i : Nat) (k : Point) (hk : Pool.At (⟨⟨none, [], none, [], []⟩, []⟩ : State) i k) : False :=
    absurd hk.lt (Nat.not_lt_zero i)
  refine ⟨⟨nofun, nofun, nofun, .nil, nofun, nofun, fun n hn => absurd hn (Nat.not_lt_zero n), nofun,
    nofun⟩, fun i k _ hk => (none i k hk).elim, fun i _ k _ _ _ hk => (none i k hk).elim,
    fun i k _ hk => (none i k hk).elim⟩

/-! ## In order, and none lost -/

structure Ordered (b : Hub) : Prop where
  /-- What was handed over and did not fail is in the order of submission, each frame once. -/
  order : ((b.handed.filter (·.live)).map (·.frame)).Pairwise (· < ·)
  submitted : ∀ x ∈ b.handed, x.frame < b.frames.length
  kept : ∀ n < b.frames.length, n ∈ b.waiting ∨ ∃ x ∈ b.handed, x.live = true ∧ x.frame = n
  /-- A frame whose send failed was handed to a later connection, or is buffered. -/
  failed : ∀ x ∈ b.handed, x.status = .failed →
    x.frame ∈ b.waiting ∨ ∃ y ∈ b.handed, y.frame = x.frame ∧ x.socket < y.socket

theorem Stored.ordered (hs : Stored b) : Ordered b := by
  refine ⟨?_, fun x hx => ?_, fun n hn => ?_, fun x hx hf => ?_⟩
  · rw [List.pairwise_map, List.pairwise_filter, List.pairwise_iff_getElem]
    intro a a' ha ha' haa hl hl'
    exact hs.order a a' _ _ haa (List.getElem?_eq_getElem ha) (List.getElem?_eq_getElem ha') hl hl'
  · obtain ⟨a, ha⟩ := List.mem_iff_getElem?.1 hx
    exact (hs.bound a x ha).1
  · exact (hs.kept n hn).imp_right fun ⟨a, x, ha, hl, he⟩ => ⟨x, List.mem_of_getElem? ha, hl, he⟩
  · obtain ⟨a, ha⟩ := List.mem_iff_getElem?.1 hx
    refine (hs.failed a x ha hf).2.imp_right fun ⟨a', y, _, ha', he, hw⟩ => ?_
    exact ⟨y, List.mem_of_getElem? ha', he, hw⟩

/-- In every run where no frame overtakes another and none is lost on the way. -/
theorem frames_kept (hr : lts.Reach (fun s e => Room s ∧ Guarded s e) s) : Ordered s.store :=
  (sound hr).stored.ordered

namespace Sample

def reply (text : String) : Frame := [(Text.str "type", Text.str "reply"), (Text.str "text", Text.str text)]

def nothing : State := ⟨⟨none, [], none, [], []⟩, []⟩

/-- The first frame waits for the service, the second is sent live and fails with the connection, and
the next connection gets it. -/
def returning : List Label :=
  [.deliver (reply "one"), .connect, .step 1 .go, .step 1 .sent, .step 1 .go, .deliver (reply "two"),
    .lose 0, .step 2 .failed, .connect, .step 3 .go, .step 3 .go, .step 3 .sent, .step 3 .go]

/-- Two frames wait; the third comes while the first is being flushed. -/
def overtaking : List Label :=
  [.deliver (reply "one"), .deliver (reply "two"), .connect, .step 2 .go, .deliver (reply "three"),
    .step 2 .sent, .step 2 .go]

/-- `Guarded`, decided. -/
def clear (s : State) : Label → Bool
  | .deliver _ => s.store.conn.all fun w => !s.store.isOpen w || s.store.waiting = []
  | .step i .sent =>
    match s.calls[i]? with
    | some (some k) => k.handing.all fun h => (s.store.handed[h]?).all fun x =>
        s.store.waiting.all fun n => x.frame ≤ n
    | _ => true
  | .step i .failed =>
    match s.calls[i]? with
    | some (some (.flushSending _ _)) => false
    | some (some (.sending h)) => (s.store.handed[h]?).all fun x =>
        (s.store.handed.all fun y => y.status ≠ .sent || y.frame < x.frame) &&
          s.store.waiting.all fun n => n < x.frame
    | _ => true
  | .step i .go =>
    match s.calls[i]? with
    | some (some (.flushing w true)) =>
      match s.store.waiting with
      | n :: _ => s.store.isUp w && s.store.handed.all fun y => y.status ≠ .pending || y.frame < n
      | [] => true
    | _ => true
  | _ => true

def roomy (s : State) : Bool := decide (s.store.waiting.length < bufferLimit)

theorem room_of_roomy {s : State} (h : roomy s = true) : Room s :=
  of_decide_eq_true (p := s.store.waiting.length < bufferLimit) h

theorem guarded_of_clear (s : State) (e : Label) (h : clear s e = true) : Guarded s e := by
  cases e with
  | deliver frame =>
    intro w hw ho
    simpa [clear, hw, ho] using h
  | step i e =>
    cases e with
    | sent =>
      intro k a x hk hh hx n hn
      simp only [clear, show s.calls[i]? = some (some k) from hk, hh, hx, Option.all_some,
        List.all_eq_true] at h
      exact of_decide_eq_true (h n hn)
    | failed =>
      refine ⟨fun w a hk => ?_, fun a x hk hx => ?_⟩
      · simp [clear, show s.calls[i]? = some (some (.flushSending w a)) from hk] at h
      · simp only [clear, show s.calls[i]? = some (some (.sending a)) from hk, hx, Option.all_some,
          Bool.and_eq_true, List.all_eq_true] at h
        refine ⟨fun y hy hs => ?_, fun n hn => of_decide_eq_true (h.2 n hn)⟩
        simpa [hs] using h.1 y hy
    | go =>
      intro w n buffer hk hw
      simp only [clear, show s.calls[i]? = some (some (.flushing w true)) from hk, hw,
        Bool.and_eq_true, List.all_eq_true] at h
      refine ⟨h.1, fun y hy hs => ?_⟩
      simpa [hs] using h.2 y hy
  | connect => trivial
  | lose w => trivial
  | close w => trivial

end Sample

/-- The service gets both frames, the second on its second connection. -/
theorem frames_kept_run : ∃ s, lts.Reach (fun s e => Room s ∧ Guarded s e) s ∧
    s.store.handed = [⟨0, 0, .sent⟩, ⟨1, 0, .failed⟩, ⟨1, 1, .sent⟩] ∧ Ordered s.store := by
  have hs : (lts.check (fun s e => Sample.roomy s && Sample.clear s e) Sample.nothing Sample.returning).any
      (fun s => s.store.handed = [⟨0, 0, .sent⟩, ⟨1, 0, .failed⟩, ⟨1, 1, .sent⟩]) = true := by
    decide
  obtain ⟨s, hc, hp⟩ := (Option.any_eq_true _ _).1 hs
  have hr := Lts.reach_of_check (C := fun s e => Room s ∧ Guarded s e) (fun s e h =>
    have h := (Bool.and_eq_true (Sample.roomy s) (Sample.clear s e)).mp h
    ⟨Sample.room_of_roomy h.1, Sample.guarded_of_clear s e h.2⟩) rfl hc
  exact ⟨s, hr, of_decide_eq_true hp, frames_kept hr⟩

/-- The third frame is handed over before the second. -/
theorem frames_overtaken : ¬∀ s : State, lts.Reach (fun s _ => Room s) s → Ordered s.store := by
  intro h
  have hs : (lts.check (fun s _ => Sample.roomy s) Sample.nothing
      Sample.overtaking).any (fun s => s.store.handed =
        [⟨0, 0, .sent⟩, ⟨2, 0, .pending⟩, ⟨1, 0, .pending⟩]) = true := by
    decide
  obtain ⟨s, hc, hp⟩ := (Option.any_eq_true _ _).1 hs
  have hr := Lts.reach_of_check (L := lts) (C := fun s _ => Room s)
    (fun _ _ => Sample.room_of_roomy) rfl hc
  have ho := (h s hr).order
  rw [of_decide_eq_true hp] at ho
  exact absurd ho (by decide)

end Ws
