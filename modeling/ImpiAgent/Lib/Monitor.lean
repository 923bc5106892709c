import ImpiAgent.Lib.Prog

/-!
# Programs under a monitor

A `Monitor` follows the calls of a program and their answers, and says in each of its states which
calls are allowed, and of each call which answers there are. `Safe M p m Q E`: however it is answered,
`p` makes only allowed calls from the state `m` on, returns only where `Q` holds of the value and the
state then, and raises only where `E` does. There is a rule for every way to build a program.
-/

universe u

namespace Prog

structure Monitor (ε C : Type) (R : C → Type) (μ : Type) where
  may : μ → C → Prop
  answers : (c : C) → Except ε (R c) → Prop
  seen : μ → (c : C) → Except ε (R c) → μ

variable {ε C : Type} {R : C → Type} {μ : Type} {α β : Type u}

def Safe (M : Monitor ε C R μ) : Prog ε C R α → μ → (α → μ → Prop) → (ε → μ → Prop) → Prop
  | .ret a, m, Q, _ => Q a m
  | .raise e, m, _, E => E e m
  | .call c k, m, Q, E => M.may m c ∧ ∀ x, M.answers c x → Safe M (k x) (M.seen m c x) Q E

namespace Safe

variable {M : Monitor ε C R μ} {m : μ} {Q Q' : α → μ → Prop} {E E' : ε → μ → Prop}

theorem pure {a : α} (h : Q a m) : Safe M (Pure.pure a) m Q E := h

theorem raise {e : ε} (h : E e m) : Safe M (Prog.raise e : Prog ε C R α) m Q E := h

theorem mono {p : Prog ε C R α} : ∀ {m : μ}, Safe M p m Q E → (∀ a m, Q a m → Q' a m) →
    (∀ e m, E e m → E' e m) → Safe M p m Q' E' := by
  induction p with
  | ret a => exact fun h hQ _ => hQ _ _ h
  | raise e => exact fun h _ hE => hE _ _ h
  | call c k ih => exact fun h hQ hE => ⟨h.1, fun x hx => ih x (h.2 x hx) hQ hE⟩

theorem bind {p : Prog ε C R α} {f : α → Prog ε C R β} {Q : β → μ → Prop} : ∀ {m : μ},
    Safe M p m (fun a m => Safe M (f a) m Q E) E → Safe M (p >>= f) m Q E := by
  induction p with
  | ret a => exact fun h => h
  | raise e => exact fun h => h
  | call c k ih => exact fun h => ⟨h.1, fun x hx => ih x (h.2 x hx)⟩

/-- What is raised goes on where it is handled. -/
theorem handle {h : ε → Prog ε C R α} {p : Prog ε C R α} : ∀ {m : μ},
    Safe M p m Q (fun e m => Safe M (h e) m Q E) → Safe M (Prog.handle h p) m Q E := by
  induction p with
  | ret a => exact fun h => h
  | raise e => exact fun h => h
  | call c k ih => exact fun h => ⟨h.1, fun x hx => ih x (h.2 x hx)⟩

theorem await {c : C} {Q : R c → μ → Prop} (hm : M.may m c)
    (hok : ∀ r, M.answers c (.ok r) → Q r (M.seen m c (.ok r)))
    (herror : ∀ e, M.answers c (.error e) → E e (M.seen m c (.error e))) :
    Safe M (Prog.await c) m Q E := by
  refine ⟨hm, fun x hx => ?_⟩
  cases x with
  | ok r => exact hok r hx
  | error e => exact herror e hx

theorem ite {c : Prop} {_ : Decidable c} {p q : Prog ε C R α} (hp : c → Safe M p m Q E)
    (hq : ¬c → Safe M q m Q E) : Safe M (if c then p else q) m Q E := by
  split
  · next hc => exact hp hc
  · next hc => exact hq hc

end Safe

end Prog
