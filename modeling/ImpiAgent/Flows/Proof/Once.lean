import ImpiAgent.Flows.Owned

/-!
# A message is handled once

`Flows.handled_once`: while no prune deletes the mark of a message, at most one call of
`handle_batch` finds it fresh, and it is in the messages of at most one turn.

Only `mark_processed` makes a message fresh, and it does so once for a mark that stays
(`Inv.marked`, `Inv.once`). The messages a call carries after that, whatever brought them to it, are
those it found fresh itself (`Inv.held`), and a call that started its turn starts no other
(`Inv.turned`, `Inv.apart`).
-/

namespace Flows

variable {b : Backend} {D : Deployment} {agent postId : String} {s s' : State} {e : Event}

/-- The messages a call holds that it found fresh. -/
def Point.fresh : Point → List IncomingMessage
  | .dating fresh _ _ | .marking fresh _ _ _ | .preparing fresh | .running fresh => fresh
  | _ => []

/-- A call that starts no turn any more. -/
def Point.closed : Point → Bool
  | .running _ | .returned _ | .raised => true
  | _ => false

theorem fresh_mark {fresh rest : List IncomingMessage} : (mark fresh rest).fresh = fresh := by
  cases rest with
  | cons msg rest => rfl
  | nil =>
    by_cases h : fresh = []
    · rw [mark, if_pos h, h]
      rfl
    · rw [mark, if_neg h]
      rfl

/-- What a call does between two awaits: it makes a mark or not, finds a message fresh by the mark
it made, or starts its turn. -/
inductive Does (b : Backend) (i : Nat) (h : Home) (s : Store) : Point → Store → Point → Prop
  | quiet {p p' : Point} {s' : Store} : (∀ k ∈ s.processed, k ∈ s'.processed) →
      s'.fresh = s.fresh → s'.turns = s.turns → (∀ m ∈ p'.fresh, m ∈ p.fresh) →
      (p.closed = true → p'.closed = true) → Does b i h s p s' p'
  | finds {p p' : Point} {s' : Store} {msg : IncomingMessage} {now : Time} :
      s.processed.insert ⟨markId b h.agent msg.messageId, some now⟩ = some s'.processed →
      s'.fresh = s.fresh ++ [⟨i, h.agent, msg.messageId⟩] → s'.turns = s.turns →
      p'.fresh = p.fresh ++ [msg] → p.closed = false → Does b i h s p s' p'
  | starts {p : Point} : p.closed = false →
      Does b i h s p { s with turns := s.turns ++ [⟨i, h.agent, p.fresh⟩] } (.running p.fresh)

/-- A step that leaves marks and history alone. -/
theorem Does.rest {i : Nat} {h : Home} {s s' : Store} {p p' : Point}
    (hs : s'.processed = s.processed ∧ s'.fresh = s.fresh ∧ s'.turns = s.turns)
    (hf : ∀ m ∈ p'.fresh, m ∈ p.fresh) (hc : p.closed = true → p'.closed = true) :
    Does b i h s p s' p' :=
  .quiet (fun _ hk => hs.1.symm ▸ hk) hs.2.1 hs.2.2 hf hc

theorem answered_does {i : Nat} {h : Home} {s s' : Store} {p p' : Point}
    (hn : p.answered b s = some (s', p')) : Does b i h s p s' p' := by
  have hmark : ∀ msgs, ∀ m ∈ (mark [] msgs).fresh, m ∈ p.fresh := by
    intro msgs m hm
    rw [fresh_mark] at hm
    cases hm
  unfold Point.answered at hn
  split at hn
  · obtain ⟨owner, -, hq⟩ := Option.map_eq_some_iff.1 hn
    split at hq
    · cases hq
      exact .rest ⟨rfl, rfl, rfl⟩ (hmark _) nofun
    · split at hq <;> cases hq <;> exact .rest ⟨rfl, rfl, rfl⟩ nofun nofun
  · obtain ⟨owner, -, hq⟩ := Option.map_eq_some_iff.1 hn
    split at hq <;> cases hq
    · exact .rest ⟨rfl, rfl, rfl⟩ (hmark _) nofun
    · exact .rest ⟨rfl, rfl, rfl⟩ nofun nofun
  · obtain ⟨owner, -, hq⟩ := Option.map_eq_some_iff.1 hn
    cases hq
    exact .rest ⟨rfl, rfl, rfl⟩ (hmark _) nofun
  · cases hn

/-- What `mark_processed` answers, by the insert. -/
theorem markProcessed_cases (s : Store) (agent postId : String) (now : Time) :
    (∃ processed, s.processed.insert ⟨markId b agent postId, some now⟩ = some processed ∧
      s.markProcessed b agent postId now = (true, { s with processed })) ∨
    s.markProcessed b agent postId now = (false, s) := by
  unfold Store.markProcessed
  split
  · rename_i processed hi
    exact .inl ⟨processed, hi, rfl⟩
  · exact .inr rfl

theorem mark_does {i : Nat} {c : Call} {s s' : Store} {p' : Point}
    (hn : c.mark b i s = some (s', p')) : Does b i c.home s c.point s' p' := by
  obtain ⟨h, p⟩ := c
  unfold Call.mark at hn
  split at hn
  · rename_i fresh msg rest hp
    cases hp
    cases hn
    exact .rest ⟨rfl, rfl, rfl⟩ (fun m hm => hm) nofun
  · rename_i fresh msg rest now hp
    cases hp
    dsimp only at hn
    rcases markProcessed_cases (b := b) s h.agent msg.messageId now with
      ⟨processed, hi, he⟩ | he <;> rw [he] at hn <;> cases hn
    · exact .finds hi rfl rfl fresh_mark rfl
    · refine .rest ⟨rfl, rfl, rfl⟩ (fun m hm => ?_) nofun
      rw [fresh_mark] at hm
      exact hm
  · cases hn

theorem call_does {i : Nat} {c : Call} {s s' : Store} {p' : Point}
    (hn : c.next b i s e = some (s', p')) : Does b i c.home s c.point s' p' := by
  unfold Call.next at hn
  split at hn
  · exact answered_does hn
  · split at hn <;> cases hn
    exact .rest ⟨rfl, rfl, rfl⟩ nofun fun _ => rfl
  · split at hn <;> cases hn
    rename_i hp
    exact .rest ⟨rfl, rfl, rfl⟩ nofun (hp ▸ nofun)
  · exact mark_does hn
  · split at hn <;> cases hn
    exact .rest ⟨rfl, rfl, rfl⟩ nofun fun _ => rfl
  · split at hn
    · rename_i fresh hp
      cases hn
      have := Does.starts (b := b) (i := i) (h := c.home) (s := s) (p := c.point) (by rw [hp]; rfl)
      rw [hp] at this ⊢
      exact this
    · cases hn
  · split at hn <;> cases hn
    exact .rest ⟨rfl, rfl, rfl⟩ nofun fun _ => rfl
  · split at hn <;> cases hn
    exact .rest ⟨rfl, rfl, rfl⟩ nofun fun _ => rfl
  · split at hn
    · rename_i fresh msg rest now hp
      cases hn
      rcases markProcessed_cases (b := b) s c.home.agent msg.messageId now with
        ⟨processed, hi, he⟩ | he <;> rw [he]
      · exact .quiet (fun k hk => (Table.mem_insert hi).2 (.inl hk)) rfl rfl nofun fun _ => rfl
      · exact .rest ⟨rfl, rfl, rfl⟩ nofun fun _ => rfl
    · cases hn
  · cases hn

/-- What an event does: a call goes on, one begins or is lost, marks are deleted, or a call of the
store of claims goes on. -/
inductive Changes (b : Backend) (s : State) : Event → State → Prop
  | goes {e : Event} {i : Nat} {c : Call} {t : Store} {p' : Point} : s.At i c →
      Does b i c.home s.store c.point t p' → Changes b s e (s.put i t ⟨c.home, p'⟩)
  | begins {e : Event} {claims : Replicas.State} {c : Call} : c.point.fresh = [] →
      Changes b s e ({ s with store := { s.store with claims } }.start c)
  | claims {e : Event} {claims : Replicas.State} :
      Changes b s e { s with store := { s.store with claims } }
  | prunes {before : Time} :
      Changes b s (.prune before) { s with store := s.store.pruneProcessed before }
  | lost {e : Event} {i : Nat} : Changes b s e (s.kill i)

theorem onCall_changes {i : Nat} {e' : Event} (hn : onCall b s i e = some s') :
    Changes b s e' s' := by
  unfold onCall at hn
  split at hn
  · rename_i c hc
    obtain ⟨⟨t, p'⟩, hq, rfl⟩ := Option.map_eq_some_iff.1 hn
    exact .goes hc (call_does hq)
  · cases hn

theorem handleOwned_changes {h : Home} {msgs : List IncomingMessage}
    (hn : handleOwned b D s h msgs = some s') : Changes b s e s' := by
  obtain ⟨anchor, -, rfl⟩ := Option.map_eq_some_iff.1 hn
  exact .begins rfl

theorem next_changes (hn : (lts b D).next s e = some s') : Changes b s e s' := by
  change next b D s e = some s' at hn
  cases e with
  | replicas e =>
    obtain ⟨claims, -, rfl⟩ := Option.map_eq_some_iff.1 hn
    exact .claims
  | handleOwned h msgs => exact handleOwned_changes hn
  | handle h msgs =>
    cases hn
    exact @Changes.begins _ s _ s.store.claims _ fresh_mark
  | taken i replica =>
    dsimp only [next] at hn
    split at hn
    · exact handleOwned_changes hn
    · cases hn
  | prune before =>
    cases hn
    exact .prunes
  | drop i =>
    cases hn
    exact .lost
  | _ => exact onCall_changes hn

/-! ## The invariant -/

/-- The history of the message `postId` of `agent`. -/
def Fresh.of (agent postId : String) (r : Fresh) : Bool :=
  r.agent = agent ∧ r.messageId = postId

structure Inv (b : Backend) (agent postId : String) (s : State) : Prop where
  /-- A message found fresh has its mark. -/
  marked : ∀ r ∈ s.store.fresh, r.of agent postId = true →
    ∃ k ∈ s.store.processed, k.id = markId b agent postId
  once : s.store.fresh.countP (Fresh.of agent postId) ≤ 1
  held : ∀ i c, s.At i c → ∀ m ∈ c.point.fresh, ⟨i, c.home.agent, m.messageId⟩ ∈ s.store.fresh
  ran : ∀ t ∈ s.store.turns, ∀ m ∈ t.msgs, ⟨t.call, t.agent, m.messageId⟩ ∈ s.store.fresh
  turned : ∀ t ∈ s.store.turns,
    t.call < s.calls.length ∧ ∀ c, s.At t.call c → c.point.closed = true
  apart : s.store.turns.Pairwise fun t t' => t.call ≠ t'.call

/-- No prune deletes the mark of the message `postId` of `agent`. -/
def Kept (b : Backend) (agent postId : String) (s : State) : Event → Prop
  | .prune before => ∀ r ∈ s.store.processed, r.id = markId b agent postId →
      Store.prunes before r = false
  | _ => True

instance : Decidable (Kept b agent postId s e) := by
  unfold Kept
  split <;> infer_instance

variable (hI : Inv b agent postId s)
include hI

/-- A call goes on: what it held it found fresh, and its turns are those it started. -/
theorem Inv.goes {i : Nat} {c : Call} {t : Store} {p' : Point} (hc : s.At i c)
    (hd : Does b i c.home s.store c.point t p') :
    Inv b agent postId (s.put i t ⟨c.home, p'⟩) := by
  have hlen : (s.put i t ⟨c.home, p'⟩).calls.length = s.calls.length := List.length_set
  cases hd with
  | quiet hp hf ht hfresh hclosed =>
    refine ⟨?_, ?_, ?_, ?_, ?_, ?_⟩ <;> simp only [Pool.put_store, hf, ht, hlen]
    · intro r hr hof
      obtain ⟨k, hk, hid⟩ := hI.marked r hr hof
      exact ⟨k, hp k hk, hid⟩
    · exact hI.once
    · intro j c' hj m hm
      rcases (Pool.at_put hc).1 hj with ⟨rfl, rfl⟩ | ⟨-, hj⟩
      · exact hI.held j c hc m (hfresh m hm)
      · exact hI.held j c' hj m hm
    · exact hI.ran
    · intro u hu
      refine ⟨(hI.turned u hu).1, fun c' hj => ?_⟩
      rcases (Pool.at_put hc).1 hj with ⟨he, rfl⟩ | ⟨-, hj⟩
      · exact hclosed ((hI.turned u hu).2 c (he ▸ hc))
      · exact (hI.turned u hu).2 c' hj
    · exact hI.apart
  | @finds _ _ msg now hi hf ht hfresh hopen =>
    have hold : ∀ r ∈ s.store.fresh, r ∈ t.fresh := fun r hr =>
      hf ▸ List.mem_append_left _ hr
    refine ⟨?_, ?_, ?_, ?_, ?_, ?_⟩ <;> simp only [Pool.put_store, ht, hlen]
    · intro r hr hof
      rw [hf, List.mem_append, List.mem_singleton] at hr
      rcases hr with hr | rfl
      · obtain ⟨k, hk, hid⟩ := hI.marked r hr hof
        exact ⟨k, (Table.mem_insert hi).2 (.inl hk), hid⟩
      · obtain ⟨rfl, rfl⟩ := of_decide_eq_true hof
        exact ⟨_, (Table.mem_insert hi).2 (.inr rfl), rfl⟩
    · rw [hf, List.countP_append, List.countP_singleton]
      split
      · -- The insert was not refused, so nobody found the message fresh before.
        rename_i hof
        obtain ⟨rfl, rfl⟩ := of_decide_eq_true hof
        have hnone : s.store.fresh.countP (Fresh.of c.home.agent msg.messageId) = 0 := by
          rw [List.countP_eq_zero]
          intro r hr hof
          obtain ⟨k, hk, hid⟩ := hI.marked r hr hof
          exact of_decide_eq_false (Table.free_of_insert hi k hk) hid
        exact Nat.add_le_add_right (Nat.le_of_eq hnone) 1
      · exact hI.once
    · intro j c' hj m hm
      rcases (Pool.at_put hc).1 hj with ⟨rfl, rfl⟩ | ⟨-, hj⟩
      · rw [hfresh, List.mem_append, List.mem_singleton] at hm
        rcases hm with hm | rfl
        · exact hold _ (hI.held j c hc m hm)
        · rw [hf]
          exact List.mem_append_right _ (List.mem_singleton_self _)
      · exact hold _ (hI.held j c' hj m hm)
    · exact fun u hu m hm => hold _ (hI.ran u hu m hm)
    · intro u hu
      refine ⟨(hI.turned u hu).1, fun c' hj => ?_⟩
      rcases (Pool.at_put hc).1 hj with ⟨he, rfl⟩ | ⟨-, hj⟩
      · exact absurd ((hI.turned u hu).2 c (he ▸ hc)) (by simp [hopen])
      · exact (hI.turned u hu).2 c' hj
    · exact hI.apart
  | starts hopen =>
    have hnew : ∀ u ∈ s.store.turns, u.call ≠ i := by
      intro u hu he
      exact absurd ((hI.turned u hu).2 c (he ▸ hc)) (by simp [hopen])
    refine ⟨hI.marked, hI.once, ?_, ?_, ?_, ?_⟩ <;> simp only [Pool.put_store, hlen]
    · intro j c' hj m hm
      rcases (Pool.at_put hc).1 hj with ⟨rfl, rfl⟩ | ⟨-, hj⟩
      · exact hI.held j c hc m hm
      · exact hI.held j c' hj m hm
    · intro u hu m hm
      rw [List.mem_append, List.mem_singleton] at hu
      rcases hu with hu | rfl
      · exact hI.ran u hu m hm
      · exact hI.held i c hc m hm
    · intro u hu
      rw [List.mem_append, List.mem_singleton] at hu
      rcases hu with hu | rfl
      · refine ⟨(hI.turned u hu).1, fun c' hj => ?_⟩
        rcases (Pool.at_put hc).1 hj with ⟨he, -⟩ | ⟨-, hj⟩
        · exact absurd he (hnew u hu)
        · exact (hI.turned u hu).2 c' hj
      · refine ⟨hc.lt, fun c' hj => ?_⟩
        rcases (Pool.at_put hc).1 hj with ⟨-, rfl⟩ | ⟨hne, -⟩
        · rfl
        · exact absurd rfl hne
    · rw [List.pairwise_append]
      refine ⟨hI.apart, List.pairwise_singleton _ _, fun u hu u' hu' => ?_⟩
      cases List.mem_singleton.1 hu'
      exact hnew u hu

/-- A call begins with nothing found fresh and no turn. -/
theorem Inv.begins {claims : Replicas.State} {c : Call} (hfresh : c.point.fresh = []) :
    Inv b agent postId ({ s with store := { s.store with claims } }.start c) where
  marked := hI.marked
  once := hI.once
  held i c' hi m hm := by
    rcases Pool.at_start.1 hi with hi | ⟨-, rfl⟩
    · exact hI.held i c' hi m hm
    · rw [hfresh] at hm
      cases hm
  ran := hI.ran
  turned t ht := by
    obtain ⟨hlt, hclosed⟩ := hI.turned t ht
    refine ⟨?_, fun c' hi => ?_⟩
    · simp only [Pool.start, List.length_append]
      omega
    · rcases Pool.at_start.1 hi with hi | ⟨he, -⟩
      · exact hclosed c' hi
      · exact absurd he (Nat.ne_of_lt hlt)
  apart := hI.apart

theorem Inv.lost {i : Nat} : Inv b agent postId (s.kill i) where
  marked := hI.marked
  once := hI.once
  held j c hj := hI.held j c (Pool.at_kill.1 hj).2
  ran := hI.ran
  turned t ht := by
    refine ⟨?_, fun c hj => (hI.turned t ht).2 c (Pool.at_kill.1 hj).2⟩
    rw [Pool.kill, List.length_set]
    exact (hI.turned t ht).1
  apart := hI.apart

theorem Inv.prunes {before : Time} (hkept : Kept b agent postId s (.prune before)) :
    Inv b agent postId { s with store := s.store.pruneProcessed before } where
  marked r hr hof := by
    obtain ⟨k, hk, hid⟩ := hI.marked r hr hof
    exact ⟨k, Table.mem_delete.2 ⟨hk, hkept k hk hid⟩, hid⟩
  once := hI.once
  held := hI.held
  ran := hI.ran
  turned := hI.turned
  apart := hI.apart

theorem Inv.next (hkept : Kept b agent postId s e) (hn : (lts b D).next s e = some s') :
    Inv b agent postId s' := by
  cases next_changes hn with
  | goes hc hd => exact hI.goes hc hd
  | begins hfresh => exact hI.begins hfresh
  | claims => exact ⟨hI.marked, hI.once, hI.held, hI.ran, hI.turned, hI.apart⟩
  | prunes => exact hI.prunes hkept
  | lost => exact hI.lost

omit hI

theorem Inv.reach (h : (lts b D).Reach (Kept b agent postId) s) : Inv b agent postId s := by
  refine h.inv ?_ fun s e s' hI hk hn => hI.next hk hn
  rintro ⟨store, calls⟩ ⟨-, hf, ht, hcalls⟩
  dsimp only at hf ht hcalls
  subst hcalls
  refine ⟨?_, ?_, fun i c hi => ?_, ?_, ?_, ?_⟩ <;> dsimp only <;> try rw [hf]
  · nofun
  · exact Nat.zero_le 1
  · exact absurd hi.lt (Nat.not_lt_zero i)
  · rw [ht]
    nofun
  · rw [ht]
    nofun
  · rw [ht]
    exact .nil

/-- Two messages of a turn's history that were found fresh once were found by one call. -/
theorem Inv.same_call (hI : Inv b agent postId s) {r r' : Fresh} (hr : r ∈ s.store.fresh)
    (hr' : r' ∈ s.store.fresh) (ho : r.of agent postId = true) (ho' : r'.of agent postId = true) :
    r = r' := by
  have hlen := hI.once
  rw [List.countP_eq_length_filter] at hlen
  have hm := List.mem_filter.2 ⟨hr, ho⟩
  have hm' := List.mem_filter.2 ⟨hr', ho'⟩
  match hl : s.store.fresh.filter (Fresh.of agent postId) with
  | [] => simp [hl] at hm
  | [x] =>
    rw [hl, List.mem_singleton] at hm hm'
    rw [hm, hm']
  | x :: y :: l =>
    rw [hl] at hlen
    simp at hlen

/-- At most one of pairwise related elements meets `p`, where no two that meet it are related. -/
theorem count_le_one {α : Type} {R : α → α → Prop} {p : α → Bool} {l : List α} (h : l.Pairwise R)
    (hp : ∀ x ∈ l, ∀ y ∈ l, p x = true → p y = true → ¬R x y) : l.countP p ≤ 1 := by
  induction h with
  | nil => exact Nat.zero_le 1
  | @cons x l hx _ ih =>
    have ih := ih fun y hy z hz => hp y (List.mem_cons_of_mem _ hy) z (List.mem_cons_of_mem _ hz)
    cases hpx : p x with
    | false => rwa [List.countP_cons_of_neg (by simp [hpx])]
    | true =>
      have hnone : l.countP p = 0 := by
        rw [List.countP_eq_zero]
        intro y hy hpy
        exact hp x List.mem_cons_self y (List.mem_cons_of_mem _ hy) hpx hpy (hx y hy)
      rw [List.countP_cons_of_pos hpx, hnone]

/-- The turn holds the message `postId` of `agent`. -/
def Turn.has (agent postId : String) (t : Turn) : Bool :=
  t.agent = agent ∧ ∃ m ∈ t.msgs, m.messageId = postId

/-- A message is handled at most once, in any number of processes and whichever way it came, while
its mark is kept: at most one call of `AgentFlow.handle_batch` finds it fresh, and at most one turn
holds it, which that call started. -/
theorem handled_once (h : (lts b D).Reach (Kept b agent postId) s) :
    s.store.fresh.countP (Fresh.of agent postId) ≤ 1 ∧
      s.store.turns.countP (Turn.has agent postId) ≤ 1 ∧
      ∀ t ∈ s.store.turns, t.has agent postId = true → ⟨t.call, agent, postId⟩ ∈ s.store.fresh := by
  have hI := Inv.reach h
  have hran : ∀ t ∈ s.store.turns, t.has agent postId = true →
      ⟨t.call, agent, postId⟩ ∈ s.store.fresh := by
    intro t ht hhas
    obtain ⟨rfl, m, hm, rfl⟩ := of_decide_eq_true hhas
    exact hI.ran t ht m hm
  refine ⟨hI.once, count_le_one hI.apart fun t ht t' ht' hp hp' hne => hne ?_, hran⟩
  have hsame := hI.same_call (hran t ht hp) (hran t' ht' hp') (by simp [Fresh.of])
    (by simp [Fresh.of])
  exact congrArg Fresh.call hsame

namespace Sample

def deployment : Deployment where
  key _ m := m.conversationId
  forwarded _ gateway := gateway = "http"

def message : IncomingMessage := ⟨"m", "c", "http"⟩

def homeA : Home := ⟨"agent", "a"⟩

def homeB : Home := ⟨"agent", "b"⟩

def start : State :=
  ⟨⟨⟨⟨⟨0, .empty⟩, .empty⟩, []⟩, .empty, [], []⟩, []⟩

/-- Replica `a` is alive and owns the conversation. -/
def owned : List Event :=
  [.replicas (.acquire ⟨"replica:a", "http://a", 60000000⟩), .replicas (.step 0),
    .replicas (.step 0), .replicas (.step 0), .replicas (.claim ⟨⟨"agent", "c"⟩, "a", false⟩),
    .replicas (.step 1), .replicas (.step 1), .replicas (.step 1)]

/-- The message reaches `b`, is forwarded to `a`, whose answer is lost, and is handled in both. -/
def twice : List Event :=
  [.handleOwned homeB [message], .replicas (.step 2), .replicas (.step 2), .replicas (.step 2),
    .replicas (.step 2), .claimed 0, .taken 0 "a", .replicas (.step 3), .replicas (.step 3),
    .replicas (.step 3), .claimed 1, .mark 1, .mark 1, .turn 1, .forwardFailed 0,
    .replicas (.step 4), .replicas (.step 4), .replicas (.step 4), .claimed 0, .mark 0, .mark 0]

end Sample

/-- The message is handled in both replicas and is one turn, in the replica it was forwarded to. -/
theorem handled_once_run : ∃ s : State,
    (lts .sqlite Sample.deployment).Reach (Kept .sqlite "agent" "m") s ∧
    s.At 0 ⟨Sample.homeB, .returned .duplicate⟩ ∧
    s.store.turns = [⟨1, "agent", [Sample.message]⟩] ∧
    s.store.fresh.countP (Fresh.of "agent" "m") ≤ 1 := by
  have h : ((lts .sqlite Sample.deployment).check
      (fun s e => decide (Kept .sqlite "agent" "m" s e)) Sample.start
      (Sample.owned ++ Sample.twice)).any (fun s =>
        decide (s.At 0 ⟨Sample.homeB, .returned .duplicate⟩ ∧
          s.store.turns = [⟨1, "agent", [Sample.message]⟩])) = true := by decide
  obtain ⟨s, hs, hq⟩ := (Option.any_eq_true _ _).1 h
  obtain ⟨h0, ht⟩ := of_decide_eq_true hq
  have hreach : (lts .sqlite Sample.deployment).Reach (Kept .sqlite "agent" "m") s :=
    Lts.reach_of_check (fun _ _ h => of_decide_eq_true h) ⟨⟨rfl, rfl, rfl⟩, rfl, rfl, rfl⟩ hs
  exact ⟨s, hreach, h0, ht, (handled_once hreach).1⟩

end Flows
