import Mathlib.Data.List.Basic

/-!
# Labelled transition systems

`Lts σ ε`: initial states, and the state `next s e` after the label `e` (`none` where `e` is not
enabled). All nondeterminism is in the labels, so a run is a list of labels and evaluates
(`Lts.check`).

`Reach L C s`: `s` is reached from an initial state by steps that each meet `C`; `Run L C s es s'`:
the same between two given states. An invariant is proved once, by `Reach.inv` (what every step
keeps holds of every state reached) or by `Reach.inv_using`, which also hands over that the state
before the step is reachable, so that invariants build on one another.
-/

universe u v

/-- A labelled transition system. -/
structure Lts (σ : Type u) (ε : Type v) where
  init : σ → Prop
  next : σ → ε → Option σ

namespace Lts

variable {σ : Type u} {ε : Type v} (L : Lts σ ε)

/-- No condition on the steps. -/
def Any (_ : σ) (_ : ε) : Prop := True

/-- `s` is reached from an initial state by steps that meet `C`. -/
inductive Reach (C : σ → ε → Prop) : σ → Prop
  | init {s : σ} : L.init s → Reach C s
  | step {s s' : σ} {e : ε} : Reach C s → C s e → L.next s e = some s' → Reach C s'

/-- The labels `es` lead from `s` to `s'`, every step meeting `C`. -/
inductive Run (C : σ → ε → Prop) : σ → List ε → σ → Prop
  | nil {s : σ} : Run C s [] s
  | cons {s s₁ s' : σ} {e : ε} {es : List ε} :
      C s e → L.next s e = some s₁ → Run C s₁ es s' → Run C s (e :: es) s'

variable {L} {C C' : σ → ε → Prop}

theorem Reach.mono {s : σ} (h : L.Reach C s) (hC : ∀ s e, C s e → C' s e) : L.Reach C' s := by
  induction h with
  | init h0 => exact .init h0
  | step _ hc hn ih => exact .step ih (hC _ _ hc) hn

theorem Reach.any {s : σ} (h : L.Reach C s) : L.Reach Any s := h.mono fun _ _ _ => trivial

/-- The invariant rule. -/
theorem Reach.inv {I : σ → Prop} {s : σ} (h : L.Reach C s) (h0 : ∀ s, L.init s → I s)
    (hs : ∀ s e s', I s → C s e → L.next s e = some s' → I s') : I s := by
  induction h with
  | init hi => exact h0 _ hi
  | step _ hc hn ih => exact hs _ _ _ ih hc hn

/-- The invariant rule where the step may use what is already known of reachable states. -/
theorem Reach.inv_using {I : σ → Prop} {s : σ} (h : L.Reach C s) (h0 : ∀ s, L.init s → I s)
    (hs : ∀ s e s', L.Reach C s → I s → C s e → L.next s e = some s' → I s') : I s := by
  induction h with
  | init hi => exact h0 _ hi
  | step hr hc hn ih => exact hs _ _ _ hr ih hc hn

theorem Reach.run {s s' : σ} {es : List ε} (h : L.Reach C s) (hr : L.Run C s es s') :
    L.Reach C s' := by
  induction hr with
  | nil => exact h
  | cons hc hn _ ih => exact ih (h.step hc hn)

theorem Run.append {s s₁ s' : σ} {es es' : List ε} (h : L.Run C s es s₁)
    (h' : L.Run C s₁ es' s') : L.Run C s (es ++ es') s' := by
  induction h with
  | nil => exact h'
  | cons hc hn _ ih => exact .cons hc hn (ih h')

theorem Run.snoc {s s₁ s' : σ} {e : ε} {es : List ε} (h : L.Run C s es s₁) (hc : C s₁ e)
    (hn : L.next s₁ e = some s') : L.Run C s (es ++ [e]) s' :=
  h.append (.cons hc hn .nil)

theorem Run.mono {s s' : σ} {es : List ε} (h : L.Run C s es s') (hC : ∀ s e, C s e → C' s e) :
    L.Run C' s es s' := by
  induction h with
  | nil => exact .nil
  | cons hc hn _ ih => exact .cons (hC _ _ hc) hn ih

theorem Run.any {s s' : σ} {es : List ε} (h : L.Run C s es s') : L.Run Any s es s' :=
  h.mono fun _ _ _ => trivial

/-- What every step of a run from a reachable state keeps is kept by the run, where the run's steps
meet more than those that reached it. -/
theorem Run.inv_of {I : σ → Prop} {s s' : σ} {es : List ε} (h : L.Run C s es s')
    (hr : L.Reach C' s) (hC : ∀ s e, C s e → C' s e) (h0 : I s)
    (hs : ∀ s e s', L.Reach C' s → I s → C s e → L.next s e = some s' → I s') : I s' := by
  induction h with
  | nil => exact h0
  | cons hc hn _ ih => exact ih (hr.step (hC _ _ hc) hn) (hs _ _ _ hr h0 hc hn)

/-- What every step keeps is kept by a run from any reachable state. -/
theorem Run.inv {I : σ → Prop} {s s' : σ} {es : List ε} (hr : L.Reach C s)
    (h : L.Run C s es s') (h0 : I s)
    (hs : ∀ s e s', L.Reach C s → I s → C s e → L.next s e = some s' → I s') : I s' :=
  h.inv_of hr (fun _ _ => id) h0 hs

/-- The state after the labels `es`, where each is enabled and passes the check `c`. -/
def check (c : σ → ε → Bool) (s : σ) (es : List ε) : Option σ :=
  es.foldlM (fun s e => if c s e then L.next s e else none) s

/-- A list of labels that evaluates is a run. -/
theorem run_of_check {c : σ → ε → Bool} (hc : ∀ s e, c s e = true → C s e) {s s' : σ} :
    ∀ {es : List ε}, L.check c s es = some s' → L.Run C s es s'
  | [], h => by cases h; exact .nil
  | e :: es, h => by
    rw [check, List.foldlM_cons, Option.bind_eq_bind, Option.bind_eq_some_iff] at h
    obtain ⟨s₁, hn, h⟩ := h
    split at hn
    · exact .cons (hc _ _ ‹_›) hn (run_of_check hc h)
    · cases hn

theorem reach_of_check {c : σ → ε → Bool} (hc : ∀ s e, c s e = true → C s e) {s s' : σ}
    {es : List ε} (h0 : L.init s) (h : L.check c s es = some s') : L.Reach C s' :=
  (Reach.init h0).run (run_of_check hc h)

end Lts
