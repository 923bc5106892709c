import Mathlib.Data.List.Basic
import Mathlib.Data.List.Forall2

/-!
# Programs that await

`Prog ε C R α`: a program that makes calls `c : C`, is answered by an `R c` or an exception `ε` each
time, and returns an `α` or raises. It is a tree, so it ends whatever it is answered; nothing is said
about who answers.

`Exec p tr res`: one way `p` can go: the calls it made with their answers, in order, and what it came
to. Judgements on all of them, each with a rule for every way to build a program: `Avoids`, the calls
a program never makes; `Finds`, what it returns of what it saw; `Guards`, what it has seen wherever it
makes one; `Passes` and `Raises`, how an exception gets out of it; and `Steady`, the answers under
which a program that avoids some calls returns. `Goes p tr q`: on one such way, what is left of `p` after `tr`.
-/

universe u

inductive Prog (ε C : Type) (R : C → Type) (α : Type u) : Type u
  | ret (a : α)
  | raise (e : ε)
  | call (c : C) (k : Except ε (R c) → Prog ε C R α)

namespace Prog

variable {ε C : Type} {R : C → Type} {α β : Type u}

protected def bind : Prog ε C R α → (α → Prog ε C R β) → Prog ε C R β
  | ret a, f => f a
  | raise e, _ => raise e
  | call c k, f => call c fun x => (k x).bind f

instance : Monad (Prog ε C R) where
  pure := ret
  bind := Prog.bind

protected theorem bind_ret (p : Prog ε C R α) : p.bind ret = p := by
  induction p with
  | ret | raise => rfl
  | call c k ih => exact congrArg (call c) (funext ih)

protected theorem bind_assoc {γ : Type u} (p : Prog ε C R α) (f : α → Prog ε C R β)
    (g : β → Prog ε C R γ) : (p.bind f).bind g = p.bind fun a => (f a).bind g := by
  induction p with
  | ret | raise => rfl
  | call c k ih => exact congrArg (call c) (funext ih)

instance : LawfulMonad (Prog ε C R) :=
  LawfulMonad.mk' _ Prog.bind_ret (fun _ _ => rfl) Prog.bind_assoc

/-- The answer of a call; its exception is raised. -/
def await (c : C) : Prog ε C R (R c) :=
  call c fun
    | .ok r => ret r
    | .error e => raise e

/-- The answer of a call or its exception, for the program to look at. -/
def attempt (c : C) : Prog ε C R (Except ε (R c)) := call c ret

/-- `try: .. except: ..`. -/
def handle (h : ε → Prog ε C R α) : Prog ε C R α → Prog ε C R α
  | ret a => ret a
  | raise e => h e
  | call c k => call c fun x => handle h (k x)

/-- A call and what it came to. -/
structure Step (ε C : Type) (R : C → Type) where
  call : C
  reply : Except ε (R call)

inductive Exec : Prog ε C R α → List (Step ε C R) → Except ε α → Prop
  | ret (a : α) : Exec (ret a) [] (.ok a)
  | raise (e : ε) : Exec (raise e) [] (.error e)
  | call {c : C} {k : Except ε (R c) → Prog ε C R α} (x : Except ε (R c)) {tr : List (Step ε C R)}
      {res : Except ε α} : Exec (k x) tr res → Exec (call c k) (⟨c, x⟩ :: tr) res

/-! ## Ways to go -/

variable {tr : List (Step ε C R)}

theorem exec_pure {a : α} {res : Except ε α} :
    Exec (pure a : Prog ε C R α) tr res ↔ tr = [] ∧ res = .ok a := by
  constructor
  · intro h
    cases h
    exact ⟨rfl, rfl⟩
  · rintro ⟨rfl, rfl⟩
    exact .ret a

theorem exec_raise {e : ε} {res : Except ε α} :
    Exec (raise e : Prog ε C R α) tr res ↔ tr = [] ∧ res = .error e := by
  constructor
  · intro h
    cases h
    exact ⟨rfl, rfl⟩
  · rintro ⟨rfl, rfl⟩
    exact .raise e

theorem exec_attempt {C : Type} {R : C → Type} {c : C} {tr : List (Step ε C R)}
    {res : Except ε (Except ε (R c))} :
    Exec (attempt c) tr res ↔ ∃ x, tr = [⟨c, x⟩] ∧ res = .ok x := by
  constructor
  · intro h
    cases h with
    | call x h =>
      cases h
      exact ⟨x, rfl, rfl⟩
  · rintro ⟨x, rfl, rfl⟩
    exact .call x (.ret x)

theorem exec_await {C : Type} {R : C → Type} {c : C} {tr : List (Step ε C R)}
    {res : Except ε (R c)} : Exec (await c) tr res ↔ tr = [⟨c, res⟩] := by
  constructor
  · intro h
    cases h with
    | call x h =>
      cases x <;> cases h <;> rfl
  · rintro rfl
    cases res with
    | ok r => exact .call _ (.ret r)
    | error e => exact .call _ (.raise e)

/-- A program goes on from where its first part returned, or stops where that raised. -/
theorem exec_bind {p : Prog ε C R α} {f : α → Prog ε C R β} {res : Except ε β} :
    Exec (p >>= f) tr res ↔
      (∃ tr₁ tr₂ a, tr = tr₁ ++ tr₂ ∧ Exec p tr₁ (.ok a) ∧ Exec (f a) tr₂ res) ∨
        ∃ e, res = .error e ∧ Exec p tr (.error e) := by
  constructor
  · intro h
    induction p generalizing tr with
    | ret a => exact .inl ⟨[], tr, a, rfl, .ret a, h⟩
    | raise e =>
      cases h
      exact .inr ⟨e, rfl, .raise e⟩
    | call c k ih =>
      cases h with
      | call x h =>
        obtain ⟨tr₁, tr₂, a, rfl, h₁, h₂⟩ | ⟨e, rfl, he⟩ := ih x h
        · exact .inl ⟨_ :: tr₁, tr₂, a, rfl, .call x h₁, h₂⟩
        · exact .inr ⟨e, rfl, .call x he⟩
  · rintro (⟨tr₁, tr₂, a, rfl, h₁, h₂⟩ | ⟨e, rfl, h⟩)
    · generalize hr : (Except.ok a : Except ε α) = r at h₁
      induction h₁ with
      | ret =>
        cases hr
        exact h₂
      | raise => cases hr
      | call x _ ih => exact .call x (ih hr)
    · generalize hr : (Except.error e : Except ε α) = r at h
      induction h with
      | ret => cases hr
      | raise =>
        cases hr
        exact .raise e
      | call x _ ih => exact .call x (ih hr)

theorem exec_bind_ok {p : Prog ε C R α} {f : α → Prog ε C R β} {b : β} :
    Exec (p >>= f) tr (.ok b) ↔
      ∃ tr₁ tr₂ a, tr = tr₁ ++ tr₂ ∧ Exec p tr₁ (.ok a) ∧ Exec (f a) tr₂ (.ok b) := by
  rw [exec_bind]
  exact or_iff_left fun ⟨_, h, _⟩ => nomatch h

/-- What is raised is handled from there on. -/
theorem exec_handle {h : ε → Prog ε C R α} {p : Prog ε C R α} {res : Except ε α} :
    Exec (handle h p) tr res ↔
      (∃ a, res = .ok a ∧ Exec p tr (.ok a)) ∨
        ∃ tr₁ tr₂ e, tr = tr₁ ++ tr₂ ∧ Exec p tr₁ (.error e) ∧ Exec (h e) tr₂ res := by
  constructor
  · intro hx
    induction p generalizing tr with
    | ret a =>
      cases hx
      exact .inl ⟨a, rfl, .ret a⟩
    | raise e => exact .inr ⟨[], tr, e, rfl, .raise e, hx⟩
    | call c k ih =>
      cases hx with
      | call x hx =>
        obtain ⟨a, rfl, ha⟩ | ⟨tr₁, tr₂, e, rfl, h₁, h₂⟩ := ih x hx
        · exact .inl ⟨a, rfl, .call x ha⟩
        · exact .inr ⟨_ :: tr₁, tr₂, e, rfl, .call x h₁, h₂⟩
  · rintro (⟨a, rfl, hx⟩ | ⟨tr₁, tr₂, e, rfl, h₁, h₂⟩)
    · generalize hr : (Except.ok a : Except ε α) = r at hx
      induction hx with
      | ret =>
        cases hr
        exact .ret a
      | raise => cases hr
      | call x _ ih => exact .call x (ih hr)
    · generalize hr : (Except.error e : Except ε α) = r at h₁
      induction h₁ with
      | ret => cases hr
      | raise =>
        cases hr
        exact h₂
      | call x _ ih => exact .call x (ih hr)

/-- Where a program went over a list and returned, it did so for each element, within its own way. -/
theorem exec_mapM {α β : Type} {f : α → Prog ε C R β} {l : List α} {bs : List β}
    (h : Exec (l.mapM f) tr (.ok bs)) :
    List.Forall₂ (fun a b => ∃ tr', tr' ⊆ tr ∧ Exec (f a) tr' (.ok b)) l bs := by
  induction l generalizing tr bs with
  | nil =>
    rw [List.mapM_nil] at h
    cases h
    exact .nil
  | cons a l ih =>
    rw [List.mapM_cons] at h
    obtain ⟨tr₁, _, b, rfl, h₁, h₂⟩ := exec_bind_ok.1 h
    obtain ⟨tr₂, _, bs', rfl, h₃, h₄⟩ := exec_bind_ok.1 h₂
    cases h₄
    refine .cons ⟨tr₁, List.subset_append_left .., h₁⟩ ((ih h₃).imp ?_)
    rintro a b ⟨tr', hs, h⟩
    refine ⟨tr', fun x hx => ?_, h⟩
    exact List.mem_append_right _ (List.mem_append_left _ (hs hx))

theorem exec_mapM_mem {α β : Type} {f : α → Prog ε C R β} {l : List α} {bs : List β}
    (h : Exec (l.mapM f) tr (.ok bs)) {b : β} (hb : b ∈ bs) :
    ∃ a ∈ l, ∃ tr', tr' ⊆ tr ∧ Exec (f a) tr' (.ok b) := by
  have hall := exec_mapM h
  clear h
  induction hall with
  | nil => cases hb
  | @cons a b' l bs hab _ ih =>
    obtain rfl | hb := List.mem_cons.1 hb
    · exact ⟨a, List.mem_cons_self, hab⟩
    · obtain ⟨a', ha', hab'⟩ := ih hb
      exact ⟨a', List.mem_cons_of_mem a ha', hab'⟩

/-- One way to go, for a given answer to each call. -/
def runWith (o : ∀ c, Except ε (R c)) : Prog ε C R α → List (Step ε C R) × Except ε α
  | ret a => ([], .ok a)
  | raise e => ([], .error e)
  | call c k => (⟨c, o c⟩ :: (runWith o (k (o c))).1, (runWith o (k (o c))).2)

theorem exec_runWith (o : ∀ c, Except ε (R c)) (p : Prog ε C R α) :
    Exec p (p.runWith o).1 (p.runWith o).2 := by
  induction p with
  | ret a => exact .ret a
  | raise e => exact .raise e
  | call c k ih => exact .call (o c) (ih (o c))

/-! ## Programs that make no call of a kind -/

/-- `p` makes no call in `S`. -/
def Avoids (S : C → Prop) (p : Prog ε C R α) : Prop :=
  ∀ tr res, Exec p tr res → ∀ x ∈ tr, ¬S x.call

namespace Avoids

variable {S : C → Prop}

theorem mono {S' : C → Prop} {p : Prog ε C R α} (h : Avoids S p) (hS : ∀ c, ¬S c → ¬S' c) :
    Avoids S' p :=
  fun tr res hx x hm => hS _ (h tr res hx x hm)

theorem ret (a : α) : Avoids S (pure a : Prog ε C R α) := by
  intro tr res h
  obtain ⟨rfl, -⟩ := exec_pure.1 h
  exact nofun

theorem raise (e : ε) : Avoids S (Prog.raise e : Prog ε C R α) := by
  intro tr res h
  obtain ⟨rfl, -⟩ := exec_raise.1 h
  exact nofun

theorem call {c : C} {k : Except ε (R c) → Prog ε C R α} (hS : ¬S c) (hk : ∀ x, Avoids S (k x)) :
    Avoids S (Prog.call c k) := by
  intro tr res h
  cases h with
  | call x h => exact List.forall_mem_cons.2 ⟨hS, hk x _ _ h⟩

theorem await {C : Type} {R : C → Type} {S : C → Prop} {c : C} (hS : ¬S c) :
    Avoids S (Prog.await c : Prog ε C R (R c)) := by
  refine call hS fun x => ?_
  cases x with
  | ok r => exact ret r
  | error e => exact raise e

theorem bind {p : Prog ε C R α} {f : α → Prog ε C R β} (hp : Avoids S p)
    (hf : ∀ a, Avoids S (f a)) : Avoids S (p >>= f) := by
  intro tr res h
  obtain ⟨tr₁, tr₂, a, rfl, h₁, h₂⟩ | ⟨e, rfl, he⟩ := exec_bind.1 h
  · exact List.forall_mem_append.2 ⟨hp _ _ h₁, hf a _ _ h₂⟩
  · exact hp _ _ he

theorem handle {h : ε → Prog ε C R α} {p : Prog ε C R α} (hp : Avoids S p)
    (hh : ∀ e, Avoids S (h e)) : Avoids S (Prog.handle h p) := by
  intro tr res hx
  obtain ⟨a, rfl, ha⟩ | ⟨tr₁, tr₂, e, rfl, h₁, h₂⟩ := exec_handle.1 hx
  · exact hp _ _ ha
  · exact List.forall_mem_append.2 ⟨hp _ _ h₁, hh e _ _ h₂⟩

theorem ite {c : Prop} {_ : Decidable c} {p q : Prog ε C R α} (hp : Avoids S p)
    (hq : Avoids S q) : Avoids S (if c then p else q) := by
  split
  · exact hp
  · exact hq

theorem mapM {α β : Type} {f : α → Prog ε C R β} {l : List α} (hf : ∀ a, Avoids S (f a)) :
    Avoids S (l.mapM f) := by
  induction l with
  | nil =>
    rw [List.mapM_nil]
    exact ret []
  | cons a l ih =>
    rw [List.mapM_cons]
    exact (hf a).bind fun b => ih.bind fun bs => ret (b :: bs)

theorem forM {α : Type} {f : α → Prog ε C R PUnit} {l : List α} (hf : ∀ a, Avoids S (f a)) :
    Avoids S (l.forM f) := by
  induction l with
  | nil => exact ret PUnit.unit
  | cons a l ih => exact (hf a).bind fun _ => ih

theorem foldlM {α β : Type} {f : β → α → Prog ε C R β} {l : List α}
    (hf : ∀ b, ∀ a ∈ l, Avoids S (f b a)) (b : β) : Avoids S (l.foldlM f b) := by
  induction l generalizing b with
  | nil => exact ret b
  | cons a l ih =>
    rw [List.foldlM_cons]
    exact (hf b a List.mem_cons_self).bind
      (ih fun b a ha => hf b a (List.mem_cons_of_mem _ ha))

/-- Nothing is found in a way without the calls it would be found in. -/
theorem findSome? {γ : Type} {f : Step ε C R → Option γ} {p : Prog ε C R α} {res : Except ε α}
    (h : Avoids S p) (hf : ∀ x, ¬S x.call → f x = none) (hx : Exec p tr res) :
    tr.findSome? f = none :=
  List.findSome?_eq_none_iff.2 fun x hm => hf x (h tr res hx x hm)

theorem filterMap {γ : Type} {f : Step ε C R → Option γ} {p : Prog ε C R α} {res : Except ε α}
    (h : Avoids S p) (hf : ∀ x, ¬S x.call → f x = none) (hx : Exec p tr res) :
    tr.filterMap f = [] :=
  List.filterMap_eq_nil_iff.2 fun x hm => hf x (h tr res hx x hm)

end Avoids

/-! ## What a program returns of what it saw -/

/-- Where `p` returns, that meets `P` of the first thing `f` finds on its way. -/
def Finds {γ : Type} (f : Step ε C R → Option γ) (P : Option γ → α → Prop) (p : Prog ε C R α) :
    Prop :=
  ∀ tr a, Exec p tr (.ok a) → P (tr.findSome? f) a

namespace Finds

variable {γ : Type} {f : Step ε C R → Option γ} {P : Option γ → α → Prop}

theorem ret {a : α} (h : P none a) : Finds f P (pure a : Prog ε C R α) := by
  intro tr a' hx
  obtain ⟨rfl, ha⟩ := exec_pure.1 hx
  cases ha
  exact h

theorem raise {e : ε} : Finds f P (Prog.raise e : Prog ε C R α) := by
  intro tr a hx
  cases hx

/-- What is done first finds nothing. -/
theorem after {δ : Type u} {p : Prog ε C R δ} {k : δ → Prog ε C R α}
    (hp : ∀ tr a, Exec p tr (.ok a) → tr.findSome? f = none) (hk : ∀ a, Finds f P (k a)) :
    Finds f P (p >>= k) := by
  intro tr b hx
  obtain ⟨tr₁, tr₂, a, rfl, h₁, h₂⟩ := exec_bind_ok.1 hx
  rw [List.findSome?_append, hp _ _ h₁, Option.none_or]
  exact hk a _ _ h₂

/-- What is looked for is in the next call, and nothing after it is. -/
theorem call {c : C} {k : Except ε (R c) → Prog ε C R α}
    (hf : ∀ x tr res, Exec (k x) tr res → tr.findSome? f = none)
    (hk : ∀ x tr a, Exec (k x) tr (.ok a) → P (f ⟨c, x⟩) a) : Finds f P (Prog.call c k) := by
  intro tr a hx
  cases hx with
  | @call _ _ x tr _ h =>
    have hfound : (⟨c, x⟩ :: tr : List (Step ε C R)).findSome? f = f ⟨c, x⟩ := by
      rw [List.findSome?_cons, hf x _ _ h]
      cases f ⟨c, x⟩ <;> rfl
    exact hfound ▸ hk x _ _ h

end Finds

/-! ## Programs that make a call where they have seen enough -/

/-- Wherever `p` makes a call in `S`, what it has seen before meets `P` of the call. -/
def Guards (S : C → Prop) (P : C → List (Step ε C R) → Prop) (p : Prog ε C R α) : Prop :=
  ∀ tr res, Exec p tr res → ∀ seen x rest, tr = seen ++ x :: rest → S x.call → P x.call seen

namespace Guards

variable {S : C → Prop} {P : C → List (Step ε C R) → Prop}

theorem of_avoids {p : Prog ε C R α} (h : Avoids S p) : Guards S P p := by
  rintro tr res hx seen x rest rfl hs
  exact absurd hs (h _ _ hx x (by simp))

theorem mono {P' : C → List (Step ε C R) → Prop} {p : Prog ε C R α} (h : Guards S P p)
    (hP : ∀ c seen, P c seen → P' c seen) : Guards S P' p :=
  fun tr res hx seen x rest htr hs => hP _ _ (h tr res hx seen x rest htr hs)

theorem call {c : C} {k : Except ε (R c) → Prog ε C R α} (hc : S c → P c [])
    (hk : ∀ x, Guards S (fun c' seen => P c' (⟨c, x⟩ :: seen)) (k x)) :
    Guards S P (Prog.call c k) := by
  rintro tr res h seen x rest hsplit hs
  cases h with
  | call y h =>
    cases seen with
    | nil =>
      obtain ⟨rfl, -⟩ := List.cons.inj hsplit
      exact hc hs
    | cons z seen =>
      obtain ⟨rfl, htr⟩ := List.cons.inj hsplit
      exact hk y _ _ h seen x rest htr hs

/-- The calls are in what comes after a part that makes none of them. -/
theorem bind {p : Prog ε C R α} {f : α → Prog ε C R β} (hp : Avoids S p)
    (hf : ∀ tr a, Exec p tr (.ok a) → Guards S (fun c seen => P c (tr ++ seen)) (f a)) :
    Guards S P (p >>= f) := by
  rintro tr res h seen x rest rfl hs
  obtain ⟨tr₁, tr₂, a, heq, h₁, h₂⟩ | ⟨e, -, he⟩ := exec_bind.1 h
  · obtain ⟨tr₃, rfl, hrest⟩ | ⟨seen₂, rfl, rfl⟩ := List.append_eq_append_iff.1 heq
    · cases tr₃ with
      | nil =>
        rw [List.append_nil] at h₁
        exact List.append_nil seen ▸ hf seen a h₁ _ _ h₂ [] x rest hrest.symm hs
      | cons y tr₃ =>
        obtain ⟨rfl, -⟩ := List.cons.inj hrest
        exact absurd hs (hp _ _ h₁ x (by simp))
    · exact hf _ a h₁ _ _ h₂ seen₂ x rest rfl hs
  · exact absurd hs (hp _ _ he x (by simp))

theorem ite {c : Prop} {_ : Decidable c} {p q : Prog ε C R α} (hp : c → Guards S P p)
    (hq : ¬c → Guards S P q) : Guards S P (if c then p else q) := by
  split
  · next hc => exact hp hc
  · next hc => exact hq hc

end Guards

/-! ## Programs an exception passes through -/

/-- `p` ends in `e` exactly if one of its calls did. -/
def Passes (e : ε) (p : Prog ε C R α) : Prop :=
  ∀ tr res, Exec p tr res → (res = .error e ↔ ∃ x ∈ tr, x.reply = .error e)

namespace Passes

variable {e : ε}

theorem ret (a : α) : Passes e (pure a : Prog ε C R α) := by
  intro tr res h
  obtain ⟨rfl, rfl⟩ := exec_pure.1 h
  simp

theorem raise {e' : ε} (he : e' ≠ e) : Passes e (Prog.raise e' : Prog ε C R α) := by
  intro tr res h
  obtain ⟨rfl, rfl⟩ := exec_raise.1 h
  simp [he]

/-- A call that ends in `e` has `e` as its outcome, whatever is done about it. -/
theorem call {c : C} {k : Except ε (R c) → Prog ε C R α}
    (he : ∀ tr res, Exec (k (.error e)) tr res → res = .error e)
    (hk : ∀ x, x ≠ .error e → Passes e (k x)) : Passes e (Prog.call c k) := by
  intro tr res h
  cases h with
  | @call _ _ x tr _ h =>
    simp only [List.exists_mem_cons_iff]
    by_cases hx : x = .error e
    · subst hx
      exact iff_of_true (he _ _ h) (.inl rfl)
    · rw [hk x hx _ _ h]
      exact (or_iff_right hx).symm

theorem await {C : Type} {R : C → Type} {c : C} : Passes e (Prog.await c : Prog ε C R (R c)) := by
  refine call (fun tr res h => (exec_raise.1 h).2) fun x hx => ?_
  cases x with
  | ok r => exact ret r
  | error e' => exact raise fun he => hx (he ▸ rfl)

theorem bind {p : Prog ε C R α} {f : α → Prog ε C R β} (hp : Passes e p)
    (hf : ∀ a, Passes e (f a)) : Passes e (p >>= f) := by
  intro tr res h
  obtain ⟨tr₁, tr₂, a, rfl, h₁, h₂⟩ | ⟨e', rfl, he⟩ := exec_bind.1 h
  · simp only [List.mem_append, or_and_right, exists_or]
    rw [hf a _ _ h₂, ← hp _ _ h₁]
    exact (or_iff_right nofun).symm
  · rw [← hp _ _ he]
    simp

theorem ite {c : Prop} {_ : Decidable c} {p q : Prog ε C R α} (hp : Passes e p)
    (hq : Passes e q) : Passes e (if c then p else q) := by
  split
  · exact hp
  · exact hq

theorem mapM {α β : Type} {f : α → Prog ε C R β} {l : List α} (hf : ∀ a, Passes e (f a)) :
    Passes e (l.mapM f) := by
  induction l with
  | nil =>
    rw [List.mapM_nil]
    exact ret []
  | cons a l ih =>
    rw [List.mapM_cons]
    exact (hf a).bind fun b => ih.bind fun bs => ret (b :: bs)

end Passes

/-! ## What a program may raise -/

/-- `p` raises nothing outside `E`. -/
def Raises (E : ε → Prop) (p : Prog ε C R α) : Prop := ∀ tr e, Exec p tr (.error e) → E e

namespace Raises

variable {E : ε → Prop}

theorem ret (a : α) : Raises E (pure a : Prog ε C R α) := by
  intro tr e h
  cases h

theorem raise {e : ε} (he : E e) : Raises E (Prog.raise e : Prog ε C R α) := by
  intro tr e' h
  cases h
  exact he

theorem call {c : C} {k : Except ε (R c) → Prog ε C R α} (hk : ∀ x, Raises E (k x)) :
    Raises E (Prog.call c k) := by
  intro tr e h
  cases h with
  | call x h => exact hk x _ _ h

theorem bind {p : Prog ε C R α} {f : α → Prog ε C R β} (hp : Raises E p)
    (hf : ∀ a, Raises E (f a)) : Raises E (p >>= f) := by
  intro tr e h
  obtain ⟨_, _, a, _, _, h₂⟩ | ⟨e', he, h'⟩ := exec_bind.1 h
  · exact hf a _ _ h₂
  · cases he
    exact hp _ _ h'

theorem ite {c : Prop} {_ : Decidable c} {p q : Prog ε C R α} (hp : Raises E p)
    (hq : Raises E q) : Raises E (if c then p else q) := by
  split
  · exact hp
  · exact hq

theorem mapM {α β : Type} {f : α → Prog ε C R β} {l : List α} (hf : ∀ a, Raises E (f a)) :
    Raises E (l.mapM f) := by
  induction l with
  | nil =>
    rw [List.mapM_nil]
    exact ret []
  | cons a l ih =>
    rw [List.mapM_cons]
    exact (hf a).bind fun b => ih.bind fun bs => ret (b :: bs)

end Raises

/-! ## Programs on their way -/

/-- `p` has seen `tr`, and `q` is left of it. -/
inductive Goes (p : Prog ε C R α) : List (Step ε C R) → Prog ε C R α → Prop
  | start : Goes p [] p
  | answered {tr : List (Step ε C R)} {c : C} {k : Except ε (R c) → Prog ε C R α}
      (x : Except ε (R c)) : Goes p tr (.call c k) → Goes p (tr ++ [Step.mk c x]) (k x)

/-- What is left goes on from what was seen. -/
theorem Goes.exec {p q : Prog ε C R α} (h : Goes p tr q) {tr' : List (Step ε C R)}
    {res : Except ε α} (hq : Exec q tr' res) : Exec p (tr ++ tr') res := by
  induction h generalizing tr' with
  | start => exact hq
  | @answered tr c k x _ ih =>
    rw [List.append_assoc]
    exact ih (.call x hq)

/-- Who is about to make a guarded call has seen enough. -/
theorem Goes.guarded {S : C → Prop} {P : C → List (Step ε C R) → Prop} {p : Prog ε C R α}
    (hg : Guards S P p) {c : C} {k : Except ε (R c) → Prog ε C R α} (h : Goes p tr (.call c k))
    (e : ε) (hs : S c) : P c tr :=
  hg _ _ (h.exec (.call (.error e) (exec_runWith (fun _ => .error e) (k (.error e))))) tr _ _ rfl hs

/-! ## Programs that return where they are answered well -/

/-- `p` makes no call in `S`, and returns exactly if all its answers meet `Q`. -/
def Steady (Q : Step ε C R → Prop) (S : C → Prop) (p : Prog ε C R α) : Prop :=
  ∀ tr res, Exec p tr res →
    (∀ x ∈ tr, ¬S x.call) ∧ ((∃ a, res = .ok a) ↔ ∀ x ∈ tr, Q x)

namespace Steady

variable {Q : Step ε C R → Prop} {S : C → Prop}

theorem ret (a : α) : Steady Q S (pure a : Prog ε C R α) := by
  intro tr res h
  obtain ⟨rfl, rfl⟩ := exec_pure.1 h
  exact ⟨nofun, fun _ => nofun, fun _ => ⟨a, rfl⟩⟩

/-- A call whose bad answers are raised. -/
theorem call {c : C} {k : Except ε (R c) → Prog ε C R α} (hS : ¬S c)
    (hk : ∀ x, (Q ⟨c, x⟩ ∧ Steady Q S (k x)) ∨ (¬Q ⟨c, x⟩ ∧ ∃ e, k x = .raise e)) :
    Steady Q S (Prog.call c k) := by
  intro tr res h
  cases h with
  | @call _ _ x tr _ h =>
    obtain ⟨hq, hp⟩ | ⟨hq, e, he⟩ := hk x
    · obtain ⟨hs, hr⟩ := hp _ _ h
      simp only [List.forall_mem_cons]
      exact ⟨⟨hS, hs⟩, hr.trans (and_iff_right hq).symm⟩
    · obtain ⟨rfl, rfl⟩ := exec_raise.1 (he ▸ h)
      simp only [List.forall_mem_cons]
      exact ⟨⟨hS, nofun⟩, nofun, fun hx => absurd hx.1 hq⟩

theorem await {C : Type} {R : C → Type} {Q : Step ε C R → Prop} {S : C → Prop} {c : C} (hS : ¬S c)
    (hQ : ∀ x : Except ε (R c), Q ⟨c, x⟩ ↔ ∃ r, x = .ok r) :
    Steady Q S (Prog.await c) := by
  refine call hS fun x => ?_
  cases x with
  | ok r => exact .inl ⟨(hQ _).2 ⟨r, rfl⟩, ret r⟩
  | error e => exact .inr ⟨(nomatch (hQ _).1 ·), e, rfl⟩

theorem bind {p : Prog ε C R α} {f : α → Prog ε C R β} (hp : Steady Q S p)
    (hf : ∀ a, Steady Q S (f a)) : Steady Q S (p >>= f) := by
  intro tr res h
  obtain ⟨tr₁, tr₂, a, rfl, h₁, h₂⟩ | ⟨e, rfl, he⟩ := exec_bind.1 h
  · obtain ⟨hs₁, hr₁⟩ := hp _ _ h₁
    obtain ⟨hs₂, hr₂⟩ := hf a _ _ h₂
    simp only [List.forall_mem_append]
    exact ⟨⟨hs₁, hs₂⟩, hr₂.trans (and_iff_right (hr₁.1 ⟨a, rfl⟩)).symm⟩
  · obtain ⟨hs, hr⟩ := hp _ _ he
    exact ⟨hs, nofun, fun hq => nomatch hr.2 hq⟩

theorem ite {c : Prop} {_ : Decidable c} {p q : Prog ε C R α} (hp : Steady Q S p)
    (hq : Steady Q S q) : Steady Q S (if c then p else q) := by
  split
  · exact hp
  · exact hq

theorem mapM {α β : Type} {f : α → Prog ε C R β} {l : List α} (hf : ∀ a, Steady Q S (f a)) :
    Steady Q S (l.mapM f) := by
  induction l with
  | nil =>
    rw [List.mapM_nil]
    exact ret []
  | cons a l ih =>
    rw [List.mapM_cons]
    exact (hf a).bind fun b => ih.bind fun bs => ret (b :: bs)

theorem foldlM {α β : Type} {f : β → α → Prog ε C R β} {l : List α}
    (hf : ∀ b a, Steady Q S (f b a)) (b : β) : Steady Q S (l.foldlM f b) := by
  induction l generalizing b with
  | nil => exact ret b
  | cons a l ih =>
    rw [List.foldlM_cons]
    exact (hf b a).bind ih

end Steady

end Prog
