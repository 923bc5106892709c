import ImpiAgent.Lib.Prog

/-!
# Two ways a program goes

`Settles D p`: a program that returns saw only steps that meet `D`. Two ways of one program that
return, and saw the same but for calls whose only good answer is known, returned the same
(`Settles.agree`): what it returns depends on nothing else.
-/

universe u

namespace Prog

variable {ε C : Type} {R : C → Type} {α β : Type u} {D : Step ε C R → Prop}

/-- Where `p` returns, everything it saw meets `D`. -/
def Settles (D : Step ε C R → Prop) (p : Prog ε C R α) : Prop :=
  ∀ tr a, Exec p tr (.ok a) → ∀ x ∈ tr, D x

namespace Settles

theorem ret (a : α) : Settles D (pure a : Prog ε C R α) := by
  intro tr a' h
  obtain ⟨rfl, -⟩ := exec_pure.1 h
  exact nofun

theorem raise (e : ε) : Settles D (Prog.raise e : Prog ε C R α) := by
  intro tr a h
  cases h

/-- A call whose other answers are raised. -/
theorem call {c : C} {k : Except ε (R c) → Prog ε C R α}
    (hk : ∀ x, D ⟨c, x⟩ ∧ Settles D (k x) ∨ ∃ e, k x = .raise e) : Settles D (Prog.call c k) := by
  intro tr a h
  cases h with
  | call x h =>
    rcases hk x with ⟨hd, hs⟩ | ⟨e, he⟩
    · exact List.forall_mem_cons.2 ⟨hd, hs _ _ h⟩
    · rw [he] at h
      cases h

theorem bind {p : Prog ε C R α} {f : α → Prog ε C R β} (hp : Settles D p)
    (hf : ∀ a, Settles D (f a)) : Settles D (p >>= f) := by
  intro tr b h
  obtain ⟨tr₁, tr₂, a, rfl, h₁, h₂⟩ := exec_bind_ok.1 h
  exact List.forall_mem_append.2 ⟨hp _ _ h₁, hf a _ _ h₂⟩

theorem ite {c : Prop} {_ : Decidable c} {p q : Prog ε C R α} (hp : Settles D p)
    (hq : Settles D q) : Settles D (if c then p else q) := by
  split
  · exact hp
  · exact hq

theorem forM {α : Type} {f : α → Prog ε C R PUnit} {l : List α} (hf : ∀ a, Settles D (f a)) :
    Settles D (l.forM f) := by
  induction l with
  | nil => exact ret PUnit.unit
  | cons a l ih => exact (hf a).bind fun _ => ih

theorem mapM {α β : Type} {f : α → Prog ε C R β} {l : List α} (hf : ∀ a, Settles D (f a)) :
    Settles D (l.mapM f) := by
  induction l with
  | nil =>
    rw [List.mapM_nil]
    exact ret []
  | cons a l ih =>
    rw [List.mapM_cons]
    exact (hf a).bind fun b => ih.bind fun bs => ret (b :: bs)

theorem foldlM {α β : Type} {f : β → α → Prog ε C R β} {l : List α}
    (hf : ∀ b a, Settles D (f b a)) (b : β) : Settles D (l.foldlM f b) := by
  induction l generalizing b with
  | nil => exact ret b
  | cons a l ih =>
    rw [List.foldlM_cons]
    exact (hf b a).bind ih

/-- A program that makes none of the calls `D` is about. -/
theorem of_avoids {S : C → Prop} {p : Prog ε C R α} (h : Avoids S p)
    (hD : ∀ x : Step ε C R, ¬S x.call → D x) : Settles D p :=
  fun tr _ hx x hm => hD x (h tr _ hx x hm)

section

variable {S : C → Prop} [DecidablePred S] {p : Prog ε C R α} {tr tr' : List (Step ε C R)} {a a' : α}

theorem agree_of (hD : ∀ c (x y : Except ε (R c)), S c → D ⟨c, x⟩ → D ⟨c, y⟩ → x = y)
    (h : Exec p tr (.ok a)) (h' : Exec p tr' (.ok a')) (hd : ∀ x ∈ tr, D x)
    (hd' : ∀ x ∈ tr', D x) (hsame : tr.filter (¬S ·.call) = tr'.filter (¬S ·.call)) : a = a' := by
  induction p generalizing tr tr' with
  | ret =>
    cases h
    cases h'
    rfl
  | raise => cases h
  | call c k ih =>
    cases h with
    | @call _ _ x tr _ h =>
    cases h' with
    | @call _ _ y tr' _ h' =>
      rw [List.forall_mem_cons] at hd hd'
      have hxy : x = y ∧ tr.filter (¬S ·.call) = tr'.filter (¬S ·.call) := by
        by_cases hS : S c
        · rw [List.filter_cons_of_neg (by simpa using hS),
            List.filter_cons_of_neg (by simpa using hS)] at hsame
          exact ⟨hD c x y hS hd.1 hd'.1, hsame⟩
        · rw [List.filter_cons_of_pos (by simpa using hS),
            List.filter_cons_of_pos (by simpa using hS)] at hsame
          obtain ⟨heq, hrest⟩ := List.cons.inj hsame
          cases heq
          exact ⟨rfl, hrest⟩
      obtain ⟨rfl, hrest⟩ := hxy
      exact ih x h h' hd.2 hd'.2 hrest

/-- Two ways that show the same but for calls in `S`, whose answer `D` tells. -/
theorem agree (hs : Settles D p)
    (hD : ∀ c (x y : Except ε (R c)), S c → D ⟨c, x⟩ → D ⟨c, y⟩ → x = y)
    (h : Exec p tr (.ok a)) (h' : Exec p tr' (.ok a'))
    (hsame : tr.filter (¬S ·.call) = tr'.filter (¬S ·.call)) : a = a' :=
  agree_of hD h h' (hs _ _ h) (hs _ _ h') hsame

end

end Settles

end Prog
