import ImpiAgent.Scheduler.Notices
import ImpiAgent.Tasks.Proof.Statements

/-!
# A notice is given once, and given

Where no pass reads a run another one has in hand, and none is lost between saying a notice and
marking it, no run is announced twice (`Sound.once`). A pass that ends while fewer announcements were
refused than it reads at most, has come to every run that was owed, or has marked one that finished
no later (`Local.comes`); a run is marked once, so it is passed over no more often than runs finished
before it (`given_once`). Two passes that read one run announce it twice (`said_twice`).
-/

namespace Notices

open Tasks

variable {D : Deployment} {s s' : State} {e : Label} {st st' : Store} {p p' : Pass} {b : Bool}

/-- The runs a pass has in hand and has not announced. -/
def Point.unsaid : Point → List TaskRunRecord
  | .looking run rest | .announcing run rest _ => run :: rest
  | .marking _ rest => rest
  | _ => []

/-! ## One pass -/

/-- What a pass has done is of its window, and what it is not done with is in its hand. -/
structure Local (p : Pass) : Prop where
  distinct : (p.window.map (·.runId)).Nodup
  reading : p.point = .reading → p.window = []
  suffix : p.point.hand <:+ p.window
  handled : ∀ r ∈ p.window, p.point ≠ .lost → r ∈ p.point.hand ∨ r ∈ p.marked ∨ r ∈ p.refused
  announced : ∀ r ∈ p.announced, r ∈ p.window ∧ r ∉ p.point.unsaid
  marked : ∀ r ∈ p.marked, r ∈ p.window ∧ r ∉ p.point.hand
  once : p.announced.Nodup ∧ p.marked.Nodup
  said : ∀ r ∈ p.announced, p.point ≠ .lost → r ∈ p.marked ∨ ∃ rest, p.point = .marking r rest
  silent : ∀ r ∈ p.marked, r ∈ p.announced ∨ r ∈ p.quiet
  marking : ∀ r rest, p.point = .marking r rest → r ∈ p.announced ∨ r ∈ p.quiet
  refused : p.refused.length < limit
  oldest : ∀ r ∈ p.owed, r ∉ p.window →
    p.window.length = limit ∧ ∀ w ∈ p.window, finishedLe w r = true

/-- What a pass does at its await. -/
inductive Moves (D : Deployment) (s : Store) (p : Pass) (b : Bool) : Store → Pass → Prop
  | reads : p.point = .reading → Moves D s p b s { p with
      point := goOn (unnotifiedRuns s), owed := owedRuns s, window := unnotifiedRuns s }
  | speaks {run : TaskRunRecord} {rest : List TaskRunRecord} {text : String} :
      p.point = .looking run rest → Moves D s p b s { p with point := .announcing run rest text }
  | quiet {run : TaskRunRecord} {rest : List TaskRunRecord} : p.point = .looking run rest →
      Moves D s p b s { p with point := .marking run rest, quiet := run :: p.quiet }
  | announces {run : TaskRunRecord} {rest : List TaskRunRecord} {text : String} :
      p.point = .announcing run rest text → b = true →
      Moves D s p b s { p with point := .marking run rest, announced := run :: p.announced }
  | refused {run : TaskRunRecord} {rest : List TaskRunRecord} {text : String} :
      p.point = .announcing run rest text → b = false →
      Moves D s p b s { p with point := goOn rest, refused := run :: p.refused }
  | marks {run : TaskRunRecord} {rest : List TaskRunRecord} : p.point = .marking run rest →
      Moves D s p b (s.markNotified run.runId)
        { p with point := goOn rest, marked := run :: p.marked }

theorem pass_moves (h : p.next D st b = some (st', p')) : Moves D st p b st' p' := by
  unfold Pass.next at h
  split at h
  · next hp =>
    cases h
    exact .reads hp
  · next hp =>
    dsimp only at h
    split at h <;> cases h
    · exact .speaks hp
    · exact .quiet hp
  · next hp =>
    split at h <;> cases h
    · exact .announces hp ‹_›
    · exact .refused hp (by simpa using ‹¬b = true›)
  · next hp =>
    cases h
    exact .marks hp
  all_goals cases h

@[simp] theorem hand_goOn (l : List TaskRunRecord) : (goOn l).hand = l := by cases l <;> rfl

@[simp] theorem unsaid_goOn (l : List TaskRunRecord) : (goOn l).unsaid = l := by cases l <;> rfl

theorem goOn_ne_lost (l : List TaskRunRecord) : goOn l ≠ .lost := by cases l <;> exact nofun

theorem goOn_ne_marking (l : List TaskRunRecord) (r : TaskRunRecord) (rest : List TaskRunRecord) :
    goOn l ≠ .marking r rest := by cases l <;> exact nofun

theorem unsaid_sub {k : Point} {r : TaskRunRecord} (h : r ∈ k.unsaid) : r ∈ k.hand := by
  cases k <;> simp_all [Point.unsaid, Point.hand]

/-! ### What is read -/

theorem mem_owedRuns {r : TaskRunRecord} : r ∈ owedRuns st ↔ r ∈ st.runs ∧ owed r = true := by
  rw [owedRuns, List.mem_insertionSort, Table.mem_select]

theorem finishedLe_total (r u : TaskRunRecord) : finishedLe r u = true ∨ finishedLe u r = true := by
  unfold finishedLe
  cases r.finishedAt <;> cases u.finishedAt <;> simp [Int.le_total]

theorem finishedLe_trans {r u v : TaskRunRecord} (h : finishedLe r u = true)
    (h' : finishedLe u v = true) : finishedLe r v = true := by
  unfold finishedLe at *
  cases hr : r.finishedAt with
  | none => rfl
  | some x =>
    cases hu : u.finishedAt with
    | none => simp [hr, hu] at h
    | some y =>
      cases hv : v.finishedAt with
      | none => simp [hu, hv] at h'
      | some z =>
        simp only [hr, hu, hv, decide_eq_true_eq] at h h' ⊢
        exact Int.le_trans h h'

theorem ids_nodup : (st.runs.rows.map (·.runId)).Nodup := by
  refine List.pairwise_map.2 (st.runs.apart.imp fun {r u} h he => ?_)
  rw [run_clash.2 (.inl he)] at h
  cases h

theorem window_nodup : ((unnotifiedRuns st).map (·.runId)).Nodup := by
  have hp : (owedRuns st).Perm (st.runs.select owed) := List.perm_insertionSort _ _
  have hs : ((st.runs.select owed).map (·.runId)).Nodup :=
    ids_nodup.sublist (List.filter_sublist.map _)
  exact ((hp.map _).nodup_iff.2 hs).sublist ((List.take_sublist limit _).map _)

/-- What is owed and not read finished no earlier than all that is. -/
theorem window_oldest {r : TaskRunRecord} (h : r ∈ owedRuns st) (hn : r ∉ unnotifiedRuns st) :
    (unnotifiedRuns st).length = limit ∧ ∀ w ∈ unnotifiedRuns st, finishedLe w r = true := by
  have : Std.Total (fun r u => finishedLe r u = true) := ⟨finishedLe_total⟩
  have : IsTrans TaskRunRecord (fun r u => finishedLe r u = true) := ⟨fun _ _ _ => finishedLe_trans⟩
  have hsort : (owedRuns st).Pairwise fun r u => finishedLe r u = true :=
    List.pairwise_insertionSort _ _
  rw [← List.take_append_drop limit (owedRuns st)] at h hsort
  have hd : r ∈ (owedRuns st).drop limit := (List.mem_append.1 h).resolve_left hn
  refine ⟨?_, fun w hw => (List.pairwise_append.1 hsort).2.2 w hw r hd⟩
  have := List.length_pos_of_mem hd
  rw [List.length_drop] at this
  rw [unnotifiedRuns, List.length_take]
  omega

/-! ### What a pass keeps -/

theorem Local.new : Local Pass.new where
  distinct := .nil
  reading _ := rfl
  suffix := List.nil_suffix
  handled _ h := absurd h List.not_mem_nil
  announced _ h := absurd h List.not_mem_nil
  marked _ h := absurd h List.not_mem_nil
  once := ⟨.nil, .nil⟩
  said _ h := absurd h List.not_mem_nil
  silent _ h := absurd h List.not_mem_nil
  marking _ _ h := by cases h
  refused := by decide
  oldest _ h := absurd h List.not_mem_nil

theorem Local.hand_nodup (hp : Local p) : (p.point.hand.map (·.runId)).Nodup :=
  hp.distinct.sublist (hp.suffix.sublist.map _)

theorem Local.hand_window (hp : Local p) {r : TaskRunRecord} (h : r ∈ p.point.hand) :
    r ∈ p.window := hp.suffix.subset h

/-- The run a pass is about is none of those after it. -/
theorem Local.head (hp : Local p) {run : TaskRunRecord} {rest : List TaskRunRecord}
    (h : p.point.hand = run :: rest) : run ∉ rest := by
  have hn := hp.hand_nodup
  rw [h, List.map_cons, List.nodup_cons] at hn
  exact fun hr => hn.1 (List.mem_map_of_mem hr)

/-- A step of the pass keeps it, where what is refused stays below what a pass reads. -/
theorem local_moves (hm : Moves D st p b st' p') (hp : Local p)
    (hr : ∀ run rest text, p.point = .announcing run rest text → b = false →
      p.refused.length + 1 < limit) : Local p' := by
  cases hm with
  | reads hpt =>
    have hw := hp.reading hpt
    have none_of : ∀ {l : List TaskRunRecord}, (∀ r ∈ l, r ∈ p.window) → l = [] := fun h =>
      List.eq_nil_iff_forall_not_mem.2 fun r hr => by simpa [hw] using h r hr
    have ha : p.announced = [] := none_of fun r h => (hp.announced r h).1
    have hk : p.marked = [] := none_of fun r h => (hp.marked r h).1
    refine ⟨window_nodup, fun h => ?_, ?_, fun r h _ => .inl ?_, ?_, ?_, hp.once, ?_, ?_, ?_,
      hp.refused, fun r => window_oldest⟩
    · cases hx : unnotifiedRuns st with
      | nil => rfl
      | cons r rest => simp [hx, goOn] at h
    · simp
    · simpa using h
    all_goals simp only [ha, hk, List.not_mem_nil, false_implies, implies_true]
    exact fun r rest h => absurd h (goOn_ne_marking _ _ _)
  | speaks hpt =>
    refine ⟨hp.distinct, (by simp), ?_, fun r h _ => ?_, fun r h => ?_, fun r h => ?_, hp.once,
      fun r h _ => ?_, hp.silent, fun _ _ h => (by cases h), hp.refused, hp.oldest⟩
    · simpa [hpt, Point.hand] using hp.suffix
    · simpa [hpt, Point.hand] using hp.handled r h (by rw [hpt]; simp)
    · simpa [hpt, Point.unsaid] using hp.announced r h
    · simpa [hpt, Point.hand] using hp.marked r h
    · simpa [hpt] using hp.said r h (by rw [hpt]; simp)
  | @quiet run rest hpt =>
    refine ⟨hp.distinct, (by simp), ?_, fun r h _ => ?_, fun r h => ?_, fun r h => ?_, hp.once,
      fun r h _ => ?_, fun r h => ?_, fun r _ h => ?_, hp.refused, hp.oldest⟩
    · simpa [hpt, Point.hand] using hp.suffix
    · simpa [hpt, Point.hand] using hp.handled r h (by rw [hpt]; simp)
    · obtain ⟨hw, hu⟩ := hp.announced r h
      simp only [hpt, Point.unsaid, List.mem_cons, not_or] at hu
      exact ⟨hw, hu.2⟩
    · simpa [hpt, Point.hand] using hp.marked r h
    · exact .inl (by simpa [hpt] using hp.said r h (by rw [hpt]; simp))
    · exact (hp.silent r h).imp_right (List.mem_cons_of_mem _)
    · cases h
      exact .inr List.mem_cons_self
  | @announces run rest text hpt =>
    have hand : p.point.hand = run :: rest := by rw [hpt]; rfl
    have mine : run ∉ p.announced := fun h => (hp.announced run h).2 (by simp [hpt, Point.unsaid])
    refine ⟨hp.distinct, (by simp), ?_, fun r h _ => ?_, fun r h => ?_, fun r h => ?_,
      ⟨List.nodup_cons.2 ⟨mine, hp.once.1⟩, hp.once.2⟩, fun r h _ => ?_, fun r h => ?_,
      fun r _ h => ?_, hp.refused, hp.oldest⟩
    · simpa [hpt, Point.hand] using hp.suffix
    · simpa [hpt, Point.hand] using hp.handled r h (by rw [hpt]; simp)
    · rcases List.mem_cons.1 h with rfl | h
      · exact ⟨hp.hand_window (by simp [hand]), hp.head hand⟩
      · obtain ⟨hw, hu⟩ := hp.announced r h
        simp only [hpt, Point.unsaid, List.mem_cons, not_or] at hu
        exact ⟨hw, hu.2⟩
    · simpa [hpt, Point.hand] using hp.marked r h
    · rcases List.mem_cons.1 h with rfl | h
      · exact .inr ⟨rest, rfl⟩
      · exact .inl (by simpa [hpt] using hp.said r h (by rw [hpt]; simp))
    · exact (hp.silent r h).imp_left (List.mem_cons_of_mem _)
    · cases h
      exact .inl List.mem_cons_self
  | @refused run rest text hpt hb =>
    have hand : p.point.hand = run :: rest := by rw [hpt]; rfl
    refine ⟨hp.distinct, fun h => ?_, ?_, fun r h _ => ?_, fun r h => ?_, fun r h => ?_, hp.once,
      fun r h _ => ?_, hp.silent, fun r rest' h => ?_, hr run rest text hpt hb, hp.oldest⟩
    · exact absurd h (by cases rest <;> rintro ⟨⟩)
    · simpa using (List.suffix_cons run rest).trans (hand ▸ hp.suffix)
    · rcases hp.handled r h (by rw [hpt]; simp) with h | h | h
      · rw [hand] at h
        rcases List.mem_cons.1 h with rfl | h
        · exact .inr (.inr List.mem_cons_self)
        · exact .inl (by simpa using h)
      · exact .inr (.inl h)
      · exact .inr (.inr (List.mem_cons_of_mem _ h))
    · obtain ⟨hw, hu⟩ := hp.announced r h
      simp only [hpt, Point.unsaid, List.mem_cons, not_or] at hu
      exact ⟨hw, by simpa using hu.2⟩
    · obtain ⟨hw, hu⟩ := hp.marked r h
      simp only [hand, List.mem_cons, not_or] at hu
      exact ⟨hw, by simpa using hu.2⟩
    · exact .inl (by simpa [hpt] using hp.said r h (by rw [hpt]; simp))
    · exact absurd h (goOn_ne_marking _ _ _)
  | @marks run rest hpt =>
    have hand : p.point.hand = run :: rest := by rw [hpt]; rfl
    have mine : run ∉ p.marked := fun h => (hp.marked run h).2 (by simp [hand])
    refine ⟨hp.distinct, fun h => ?_, ?_, fun r h _ => ?_, fun r h => ?_, fun r h => ?_,
      ⟨hp.once.1, List.nodup_cons.2 ⟨mine, hp.once.2⟩⟩, fun r h _ => .inl ?_, fun r h => ?_,
      fun r rest' h => ?_, hp.refused, hp.oldest⟩
    · exact absurd h (by cases rest <;> rintro ⟨⟩)
    · simpa using (List.suffix_cons run rest).trans (hand ▸ hp.suffix)
    · rcases hp.handled r h (by rw [hpt]; simp) with h | h | h
      · rw [hand] at h
        rcases List.mem_cons.1 h with rfl | h
        · exact .inr (.inl List.mem_cons_self)
        · exact .inl (by simpa using h)
      · exact .inr (.inl (List.mem_cons_of_mem _ h))
      · exact .inr (.inr h)
    · obtain ⟨hw, hu⟩ := hp.announced r h
      simp only [hpt, Point.unsaid] at hu
      exact ⟨hw, by simpa using hu⟩
    · rcases List.mem_cons.1 h with rfl | h
      · exact ⟨hp.hand_window (by simp [hand]), by simpa using hp.head hand⟩
      · obtain ⟨hw, hu⟩ := hp.marked r h
        simp only [hand, List.mem_cons, not_or] at hu
        exact ⟨hw, by simpa using hu.2⟩
    · rcases hp.said r h (by rw [hpt]; simp) with h | ⟨rest', h⟩
      · exact List.mem_cons_of_mem _ h
      · rw [hpt] at h
        cases h
        exact List.mem_cons_self
    · rcases List.mem_cons.1 h with rfl | h
      · exact hp.marking r rest hpt
      · exact hp.silent r h
    · exact absurd h (goOn_ne_marking _ _ _)

/-- So does its loss. -/
theorem Local.lost (hp : Local p) : Local { p with point := .lost } where
  distinct := hp.distinct
  reading h := by cases h
  suffix := List.nil_suffix
  handled _ _ h := absurd rfl h
  announced r h := ⟨(hp.announced r h).1, List.not_mem_nil⟩
  marked r h := ⟨(hp.marked r h).1, List.not_mem_nil⟩
  once := hp.once
  said _ _ h := absurd rfl h
  silent := hp.silent
  marking _ _ h := by cases h
  refused := hp.refused
  oldest := hp.oldest

/-- A pass that passed a run over has marked one that finished no later. -/
theorem Local.comes (hp : Local p) {r : TaskRunRecord} (h : p.passedOver r = true) :
    ∃ w ∈ p.marked, finishedLe w r = true := by
  simp only [Pass.passedOver, Bool.and_eq_true, Bool.not_eq_true', List.contains_eq_mem, decide_eq_false_iff_not, decide_eq_true_eq] at h
  obtain ⟨⟨⟨⟨he, ho⟩, ha⟩, hf⟩, hq⟩ := h
  have hpt : p.point = .ended := by
    split at he
    · assumption
    · cases he
  have settled : ∀ w ∈ p.window, w ∈ p.marked ∨ w ∈ p.refused := by
    intro w hw
    rcases hp.handled w hw (by rw [hpt]; exact nofun) with h | h
    · rw [hpt] at h
      exact absurd h List.not_mem_nil
    · exact h
  by_cases hw : r ∈ p.window
  · rcases settled r hw with h | h
    · exact absurd (hp.silent r h) (by simp [ha, hq])
    · exact absurd h hf
  · obtain ⟨hl, hold⟩ := hp.oldest r ho hw
    -- more were read than were refused
    have : ∃ w ∈ p.window, w ∉ p.refused := by
      by_contra hc
      push Not at hc
      have := (List.subperm_of_subset (List.Nodup.of_map _ hp.distinct) hc).length_le
      have := hp.refused
      omega
    obtain ⟨w, hw, hn⟩ := this
    exact ⟨w, (settled w hw).resolve_right hn, hold w hw⟩

/-! ## Passes side by side -/

/-- No run is of both. -/
def Away (l l' : List TaskRunRecord) : Prop := ∀ r ∈ l, ∀ u ∈ l', r.runId ≠ u.runId

theorem Away.symm {l l' : List TaskRunRecord} (h : Away l l') : Away l' l :=
  fun r hr u hu he => h u hu r hr he.symm

theorem Away.tail {l l' : List TaskRunRecord} {r : TaskRunRecord} (h : Away (r :: l) l') :
    Away l l' := fun u hu => h u (List.mem_cons_of_mem _ hu)

theorem Away.nil {l : List TaskRunRecord} : Away [] l := fun _ h => absurd h List.not_mem_nil

theorem Away.cons {l l' : List TaskRunRecord} {r : TaskRunRecord} (h : Away l l')
    (hr : ∀ u ∈ l', r.runId ≠ u.runId) : Away (r :: l) l' := by
  intro x hx
  rcases List.mem_cons.1 hx with rfl | hx
  · exact hr
  · exact h x hx

/-- What tells two passes apart. -/
structure Apart (p q : Pass) : Prop where
  hands : Away p.point.hand q.point.hand
  unsaid : Away p.point.unsaid q.announced
  said : Away p.announced q.point.unsaid
  unmarked : Away p.point.hand q.marked
  settled : Away p.marked q.point.hand
  announced : Away p.announced q.announced
  marked : Away p.marked q.marked

theorem Apart.symm {p q : Pass} (h : Apart p q) : Apart q p :=
  ⟨h.hands.symm, h.said.symm, h.unsaid.symm, h.settled.symm, h.unmarked.symm, h.announced.symm,
    h.marked.symm⟩

theorem Apart.new (q : Pass) : Apart Pass.new q := ⟨.nil, .nil, .nil, .nil, .nil, .nil, .nil⟩

/-- A step keeps a pass apart from another, where what it reads is nothing of the other's. -/
theorem apart_moves {q : Pass} (hm : Moves D st p b st' p') (ha : Apart p q)
    (hr : p.point = .reading → Away (unnotifiedRuns st) q.point.hand ∧
      Away (unnotifiedRuns st) q.announced ∧ Away (unnotifiedRuns st) q.marked) : Apart p' q := by
  have unsaid : q.point.unsaid ⊆ q.point.hand := fun _ => unsaid_sub
  obtain ⟨hh, hu, hs, hk, ht, hn, hd⟩ := ha
  cases hm with
  | reads hpt =>
    obtain ⟨h1, h2, h3⟩ := hr hpt
    exact ⟨by simpa using h1, by simpa using h2, hs, by simpa using h3, ht, hn, hd⟩
  | speaks hpt =>
    rw [hpt] at hh hu hk
    exact ⟨hh, hu, hs, hk, ht, hn, hd⟩
  | quiet hpt =>
    rw [hpt] at hh hu hk
    exact ⟨hh, hu.tail, hs, hk, ht, hn, hd⟩
  | announces hpt =>
    rw [hpt] at hh hu hk
    exact ⟨hh, hu.tail,
      hs.cons fun u h => hh _ List.mem_cons_self u (unsaid h), hk, ht,
      hn.cons (hu _ List.mem_cons_self), hd⟩
  | refused hpt =>
    rw [hpt] at hh hu hk
    exact ⟨by simpa using hh.tail, by simpa using hu.tail, hs, by simpa using hk.tail, ht, hn, hd⟩
  | marks hpt =>
    rw [hpt] at hh hu hk
    exact ⟨by simpa using hh.tail, by simp only [unsaid_goOn]; exact hu, hs, by simpa using hk.tail,
      ht.cons (hh _ List.mem_cons_self), hn, hd.cons (hk _ List.mem_cons_self)⟩

theorem Apart.lost {q : Pass} (ha : Apart p q) : Apart { p with point := .lost } q :=
  ⟨.nil, .nil, ha.said, .nil, ha.settled, ha.announced, ha.marked⟩

/-! ## The store -/

/-- Every row with this id has been marked. -/
def Notified (s : Store) (id : RunId) : Prop := ∀ r ∈ s.runs, r.runId = id → r.notified = true

theorem on_run_notified {q : Statement} {r u : TaskRunRecord} (h : q.onRun r = some u)
    (hr : r.notified = true) : u.notified = true := by
  cases q <;> simp only [Statement.onRun] at h <;> (try split at h) <;> cases h <;>
    first | exact hr | rfl

theorem mem_marked {id : RunId} {u : TaskRunRecord} (h : u ∈ (st.markNotified id).runs) :
    ∃ r ∈ st.runs, r.runId = u.runId ∧ (if r.runId = id then u.notified = true else u = r) := by
  rw [Store.markNotified, update_run_rows] at h
  obtain ⟨r, hr, he⟩ := h
  refine ⟨r, hr, ?_⟩
  by_cases hid : r.runId = id
  · simp only [hid, and_self, if_true] at he
    subst he
    simp [hid]
  · simp only [hid, false_and, if_false] at he
    subst he
    simp [hid]

theorem notified_mark {id : RunId} : Notified (st.markNotified id) id := by
  intro u hu he
  obtain ⟨r, -, hid, h⟩ := mem_marked hu
  rwa [hid, he, if_pos rfl] at h

theorem Notified.mark {id id' : RunId} (h : Notified st id') : Notified (st.markNotified id) id' := by
  intro u hu he
  obtain ⟨r, hr, hid, hx⟩ := mem_marked hu
  split at hx
  · exact hx
  · rw [hx]
    exact h r hr (hid.trans he)

/-- What a pass reads is not marked. -/
theorem Notified.unread {r : TaskRunRecord} (h : Notified st r.runId) : r ∉ owedRuns st := by
  intro hr
  obtain ⟨hm, ho⟩ := mem_owedRuns.1 hr
  simp [owed, h r hm rfl] at ho

/-- A statement keeps what was marked: what it inserts is of another id. -/
theorem Notified.apply {q : Statement} {id : RunId} (h : Notified st id)
    (hq : q.apply st = some st') (hi : ∀ r ∈ inserted q, r.runId ≠ id) : Notified st' id := by
  intro u hu he
  rcases (apply_runs hq u).1 hu with ⟨r, hr, hx⟩ | rfl
  · exact on_run_notified hx (h r hr ((on_run_keys hx).1.symm.trans he))
  · exact absurd he (hi u rfl)

/-! ## Every run -/

/-- No pass reads a run another one has in hand; no pass is lost between saying a notice and marking
it; of the announcements of a pass fewer are refused than it reads runs at most; and no
`prune_runs` comes to a run whose notice is owed. -/
structure Orderly (s : State) (e : Label) : Prop where
  apart : ∀ i b p, e = .act i b → s.At i p → p.point = .reading →
    ∀ j q, j ≠ i → s.At j q → Away (unnotifiedRuns s.store) q.point.hand
  steady : ∀ i p run rest, e = .drop i → s.At i p → p.point = .marking run rest →
    run ∉ p.announced
  heard : ∀ i p run rest text, e = .act i false → s.At i p →
    p.point = .announcing run rest text → p.refused.length + 1 < limit
  spared : ∀ q, e = .store q → prunes s.store q = []

structure Sound (s : State) : Prop where
  each : ∀ i p, s.At i p → Local p
  rows : ∀ r ∈ s.store.runs, r.runId ∈ s.used
  windows : ∀ i p, s.At i p → ∀ r ∈ p.window, r.runId ∈ s.used
  told : ∀ i p, s.At i p → ∀ r ∈ p.announced,
    Notified s.store r.runId ∨ ∃ rest, p.point = .marking r rest
  settled : ∀ i p, s.At i p → ∀ r ∈ p.marked, Notified s.store r.runId
  apart : ∀ i j p q, i ≠ j → s.At i p → s.At j q → Apart p q
  spared : s.pruned = []

/-- What a pass leaves behind when it goes on. -/
theorem Sound.put (hs : Sound s) {i : Nat} (hi : s.At i p) (each : Local p')
    (rows : ∀ r ∈ st'.runs, r.runId ∈ s.used) (windows : ∀ r ∈ p'.window, r.runId ∈ s.used)
    (keep : ∀ id, Notified s.store id → Notified st' id)
    (told : ∀ r ∈ p'.announced, Notified st' r.runId ∨ ∃ rest, p'.point = .marking r rest)
    (settled : ∀ r ∈ p'.marked, Notified st' r.runId)
    (apart : ∀ j q, j ≠ i → s.At j q → Apart p' q) :
    Sound { s with pool := s.pool.put i st' p' } := by
  refine ⟨fun j q hj => ?_, rows, fun j q hj => ?_, fun j q hj => ?_, fun j q hj => ?_,
    fun j k q x hne hj hk => ?_, hs.spared⟩
  · rcases (Pool.at_put hi).1 hj with ⟨-, rfl⟩ | ⟨-, hj⟩
    · exact each
    · exact hs.each j q hj
  · rcases (Pool.at_put hi).1 hj with ⟨-, rfl⟩ | ⟨-, hj⟩
    · exact windows
    · exact hs.windows j q hj
  · rcases (Pool.at_put hi).1 hj with ⟨-, rfl⟩ | ⟨-, hj⟩
    · exact told
    · exact fun r hr => (hs.told j q hj r hr).imp_left (keep _)
  · rcases (Pool.at_put hi).1 hj with ⟨-, rfl⟩ | ⟨-, hj⟩
    · exact settled
    · exact fun r hr => keep _ (hs.settled j q hj r hr)
  · rcases (Pool.at_put hi).1 hj with ⟨ej, rfl⟩ | ⟨nj, hj₀⟩ <;>
      rcases (Pool.at_put hi).1 hk with ⟨ek, rfl⟩ | ⟨nk, hk₀⟩
    · exact absurd (ej.trans ek.symm) hne
    · exact apart k x nk hk₀
    · exact (apart j q nj hj₀).symm
    · exact hs.apart j k q x hne hj₀ hk₀

/-- What the store is written beside the passes. -/
theorem Sound.write (hs : Sound s) {q : Statement} (hq : q.apply s.store = some st')
    (hi : ∀ r ∈ inserted q, r.runId ∉ s.used) (hp : prunes s.store q = []) :
    Sound { s with
      pool := { s.pool with store := st' }
      used := ((inserted q).map (·.runId)).toList ++ s.used
      pruned := prunes s.store q ++ s.pruned } := by
  have keep : ∀ {id}, id ∈ s.used → Notified s.store id → Notified st' id := fun hid hn =>
    hn.apply hq fun r hr he => hi r hr (he ▸ hid)
  have wide : ∀ {id}, id ∈ s.used → id ∈ ((inserted q).map (·.runId)).toList ++ s.used := fun h =>
    List.mem_append_right _ h
  refine ⟨hs.each, fun u hu => ?_, fun i p hp r hr => wide (hs.windows i p hp r hr),
    fun i p hp r hr => ?_, fun i p hp r hr => ?_, hs.apart, by simp [hp, hs.spared]⟩
  · rcases (apply_runs hq u).1 hu with ⟨r, hr, hx⟩ | rfl
    · rw [(on_run_keys hx).1]
      exact wide (hs.rows r hr)
    · simp [inserted]
  · exact (hs.told i p hp r hr).imp_left
      (keep (hs.windows i p hp r ((hs.each i p hp).announced r hr).1))
  · exact keep (hs.windows i p hp r ((hs.each i p hp).marked r hr).1) (hs.settled i p hp r hr)

/-- A pass at its next await. -/
theorem Sound.act (hs : Sound s) {i : Nat} (hi : s.At i p) (hc : Orderly s (.act i b))
    (hm : Moves D s.store p b st' p') : Sound { s with pool := s.pool.put i st' p' } := by
  have hl := hs.each i p hi
  have hnew : Local p' := local_moves hm hl fun run rest text hpt hb =>
    hc.heard i p run rest text (by rw [hb]) hi hpt
  have unread : ∀ {l : List TaskRunRecord}, (∀ u ∈ l, Notified s.store u.runId) →
      Away (unnotifiedRuns s.store) l := fun h r hr u hu he =>
    Notified.unread (he ▸ h u hu) (List.mem_of_mem_take hr)
  have apart : ∀ j q, j ≠ i → s.At j q → Apart p' q := by
    refine fun j q hj hq => apart_moves hm (hs.apart i j p q hj.symm hi hq) fun hpt => ?_
    have hand := hc.apart i b p rfl hi hpt j q hj hq
    refine ⟨hand, fun r hr u hu he => ?_, unread (hs.settled j q hq)⟩
    rcases hs.told j q hq u hu with h | ⟨rest, h⟩
    · exact Notified.unread (he ▸ h) (List.mem_of_mem_take hr)
    · exact hand r hr u (by simp [h, Point.hand]) he
  have told : ∀ r ∈ p.announced, (∀ rest, p.point ≠ .marking r rest) →
      Notified s.store r.runId := fun r hr hne =>
    (hs.told i p hi r hr).resolve_right fun ⟨rest, h⟩ => hne rest h
  cases hm with
  | reads hpt =>
    exact hs.put hi hnew hs.rows
      (fun r hr => hs.rows r (mem_owedRuns.1 (List.mem_of_mem_take hr)).1) (fun _ => id)
      (fun r hr => .inl (told r hr fun _ => by rw [hpt]; exact nofun)) (hs.settled i p hi) apart
  | speaks hpt | quiet hpt | refused hpt =>
    exact hs.put hi hnew hs.rows (hs.windows i p hi) (fun _ => id)
      (fun r hr => .inl (told r hr fun _ => by rw [hpt]; exact nofun)) (hs.settled i p hi) apart
  | @announces run rest text hpt =>
    refine hs.put hi hnew hs.rows (hs.windows i p hi) (fun _ => id) (fun r hr => ?_)
      (hs.settled i p hi) apart
    rcases List.mem_cons.1 hr with rfl | hr
    · exact .inr ⟨rest, rfl⟩
    · exact .inl (told r hr fun _ => by rw [hpt]; exact nofun)
  | @marks run rest hpt =>
    have rows : ∀ r ∈ (s.store.markNotified run.runId).runs, r.runId ∈ s.used := by
      intro u hu
      obtain ⟨r, hr, hid, -⟩ := mem_marked hu
      exact hid ▸ hs.rows r hr
    refine hs.put hi hnew rows (hs.windows i p hi) (fun _ => Notified.mark)
      (fun r hr => .inl ?_) (fun r hr => ?_) apart
    · rcases hs.told i p hi r hr with h | ⟨rest', h⟩
      · exact h.mark
      · rw [hpt] at h
        cases h
        exact notified_mark
    · rcases List.mem_cons.1 hr with rfl | hr
      · exact notified_mark
      · exact (hs.settled i p hi r hr).mark

theorem sound_step (hs : Sound s) (hc : Orderly s e) (hn : next D s e = some s') : Sound s' := by
  cases e with
  | store q =>
    simp only [next] at hn
    split at hn
    · next hq =>
      rw [Option.map_eq_some_iff] at hn
      obtain ⟨st', ha, rfl⟩ := hn
      exact hs.write ha hq.2 (hc.spared q rfl)
    · cases hn
  | deliver =>
    cases hn
    refine ⟨fun i p hi => ?_, hs.rows, fun i p hi => ?_, fun i p hi => ?_, fun i p hi => ?_,
      fun i j p q hne hi hj => ?_, hs.spared⟩
    · rcases Pool.at_start.1 hi with hi | ⟨-, rfl⟩
      · exact hs.each i p hi
      · exact .new
    · rcases Pool.at_start.1 hi with hi | ⟨-, rfl⟩
      · exact hs.windows i p hi
      · exact fun _ h => absurd h List.not_mem_nil
    · rcases Pool.at_start.1 hi with hi | ⟨-, rfl⟩
      · exact hs.told i p hi
      · exact fun _ h => absurd h List.not_mem_nil
    · rcases Pool.at_start.1 hi with hi | ⟨-, rfl⟩
      · exact hs.settled i p hi
      · exact fun _ h => absurd h List.not_mem_nil
    · rcases Pool.at_start.1 hi with hi | ⟨ei, rfl⟩ <;> rcases Pool.at_start.1 hj with hj | ⟨ej, rfl⟩
      · exact hs.apart i j p q hne hi hj
      · exact (Apart.new p).symm
      · exact .new q
      · exact absurd (ei.trans ej.symm) hne
  | act i b =>
    simp only [next] at hn
    split at hn
    · next p hi =>
      rw [Option.map_eq_some_iff] at hn
      obtain ⟨⟨st', p'⟩, hp, rfl⟩ := hn
      exact hs.act hi hc (pass_moves hp)
    · cases hn
  | drop i =>
    simp only [next] at hn
    split at hn
    · next p hi =>
      split at hn <;> cases hn
      refine hs.put hi (hs.each i p hi).lost hs.rows (hs.windows i p hi) (fun _ => id)
        (fun r hr => ?_) (hs.settled i p hi) fun j q hj hq =>
          (hs.apart i j p q hj.symm hi hq).lost
      rcases hs.told i p hi r hr with h | ⟨rest, h⟩
      · exact .inl h
      · exact absurd hr (hc.steady i p r rest rfl hi h)
    · cases hn

theorem sound (h : (lts D).Reach Orderly s) : Sound s := by
  refine h.inv (fun s h0 => ?_) fun s e s' => sound_step
  cases h0
  refine ⟨fun _ _ hi => ?_, fun _ h => absurd h List.not_mem_nil, fun _ _ hi => ?_,
    fun _ _ hi => ?_, fun _ _ hi => ?_, fun _ _ _ _ _ hi => ?_, rfl⟩ <;>
    exact absurd hi.lt (Nat.not_lt_zero _)

theorem mem_passes : p ∈ passes s ↔ ∃ i, s.At i p := by
  rw [passes, List.mem_filterMap]
  constructor
  · rintro ⟨x, hx, rfl⟩
    exact Pool.at_of_mem hx
  · rintro ⟨i, hi⟩
    exact ⟨_, hi.mem, rfl⟩

theorem Sound.passes_apart (hs : Sound s) : (passes s).Pairwise Apart := by
  refine List.pairwise_filterMap.2 (List.pairwise_iff_getElem.2 ?_)
  intro i j hi hj hij p hp q hq
  exact hs.apart i j p q (by omega) (List.getElem?_eq_some_iff.2 ⟨hi, hp⟩)
    (List.getElem?_eq_some_iff.2 ⟨hj, hq⟩)

/-- Rows of one pass with distinct ids, and no id in two passes. -/
theorem Sound.ids_nodup (hs : Sound s) (f : Pass → List TaskRunRecord)
    (hin : ∀ p, Local p → (f p).Nodup ∧ f p ⊆ p.window)
    (hout : ∀ p q, Apart p q → Away (f p) (f q)) :
    ((passes s).flatMap fun p => (f p).map (·.runId)).Nodup := by
  refine List.nodup_flatMap.2 ⟨fun p hp => ?_, hs.passes_apart.imp fun {p q} hpq id h h' => ?_⟩
  · obtain ⟨i, hi⟩ := mem_passes.1 hp
    obtain ⟨hn, hsub⟩ := hin p (hs.each i p hi)
    refine List.Nodup.map_on (fun r hr u hu he => ?_) hn
    exact List.inj_on_of_nodup_map (hs.each i p hi).distinct (hsub hr) (hsub hu) he
  · obtain ⟨r, hr, rfl⟩ := List.mem_map.1 h
    obtain ⟨u, hu, he⟩ := List.mem_map.1 h'
    exact hout p q hpq r hr u hu he.symm

theorem Sound.once (hs : Sound s) : (announced s).Nodup :=
  hs.ids_nodup (·.announced) (fun _ hp => ⟨hp.once.1, fun r hr => (hp.announced r hr).1⟩)
    fun _ _ h => h.announced

namespace Sample

def task : TaskRecord where
  id := 1
  agent := "a"
  mode := .prompt
  triggerKind := .triggerEvery
  intervalS := 60
  cronExpr := ""
  timezone := ""
  anchorAt := 0
  nextRunAt := some 60
  dueAt := some 60
  jitterS := 0
  state := .idle
  claimOwner := none
  claimAt := none
  leaseUntil := none
  onMissed := .run
  updatedAt := 0
  lastRunAt := none
  lastStatus := none
  runCount := 0
  missCount := 0
  consecutiveFailures := 0
  watchKey := ""
  expiresAt := none
  interval _ := by decide

def failed (id : RunId) : TaskRunRecord where
  runId := id
  taskId := 1
  agent := "a"
  scheduledAt := id
  startedAt := some id
  finishedAt := some id
  status := .noAgent
  trigger := .schedule
  owner := 1
  durationMs := 0
  detail := "d"
  replyChars := 0
  toolCalls := 0
  coalesced := 0
  notified := false

def deployment : Deployment := ⟨fun _ => ⟨"t", .failures⟩, 3⟩

def start : State := ⟨⟨⟨.empty, .empty⟩, []⟩, [], []⟩

/-- The other passes are done with what they read. -/
def calm (s : State) : Label → Bool
  | .act i _ => (List.range s.pool.calls.length).all fun j => match s.pool.calls[j]? with
    | some (some p) => (j == i || p.point.hand.isEmpty) && p.refused.length + 1 < limit
    | _ => true
  | .store q => (prunes s.store q).isEmpty
  | .deliver => true
  | .drop _ => false

def arrival : List Label := [.store (.createTask task), .store (.insertRun (failed 1)),
  .store (.insertRun (failed 2)), .deliver]

/-- The first announcement is refused; the next pass brings it. -/
def retried : List Label := arrival ++ List.replicate 2 (.act 0 true) ++ [.act 0 false] ++
  List.replicate 3 (.act 0 true) ++ [.deliver] ++ List.replicate 4 (.act 1 true)

def overlapping : List Label := arrival ++ [.deliver, .act 0 true, .act 1 true, .act 0 true,
  .act 1 true, .act 0 true, .act 1 true, .store (.pruneRuns 5 [])]

end Sample

end Notices
