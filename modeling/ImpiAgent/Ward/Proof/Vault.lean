import ImpiAgent.Ward.Vault

/-!
# One credential is left

`Kept`: what is known of a call at a point. A rotation that has its new id finds it among the secret
ids of the role, and once it has their list every other one is still to be destroyed. A call goes on
without touching them (`Leads`), and where Vault obliges (`Obliging`) every rotation comes out well
(`Good`, `rotated_well`).
-/

namespace Vault

variable {s st : Store} {p p' : State} {i : Nat} {k : Point} {l : Label} {job : Job}
  {h : Option Bool} {had : Bool} {q : Store × Point} {fresh keep accessor : String}
  {rest : List String}

/-- A rotation that returned left its own id alone; one that raised left a credential that works. -/
def Good : Ended → Prop
  | .returned id live => (∃ x ∈ live, x.2 = id) ∧ ∀ x ∈ live, x.2 = id
  | .raised had works => had → works

/-! ## A call -/

def JobKept (s : Store) : Job → Prop
  | .mint had => had → s.works
  | .list had fresh keep => (had → s.works) ∧ (keep, fresh) ∈ s.live
  | .read => True

/-- What is known of a call at a point. -/
def Kept (s : Store) : Point → Prop
  | .entering had => had → s.works
  | .asking job | .relogin job | .again job => JobKept s job
  | .destroying _ fresh accessor rest =>
    ∃ keep, (keep, fresh) ∈ s.live ∧ keep ∉ accessor :: rest ∧
      ∀ x ∈ s.live, x.2 = fresh ∨ x.1 ∈ accessor :: rest
  | .ended => True

theorem JobKept.works (hj : JobKept s job) : ∀ had, job.had = some had → had → s.works := by
  rintro had h
  cases job with
  | mint had' =>
    cases h
    exact hj
  | list had' fresh keep =>
    cases h
    exact hj.1
  | read => cases h

/-- A call that is no rotation knows nothing of the secret ids. -/
theorem kept_of_idle (hk : k.had = none) : Kept s k := by
  cases k with
  | entering => cases hk
  | destroying => cases hk
  | ended => trivial
  | asking job | relogin job | again job =>
    cases job with
    | mint => cases hk
    | list => cases hk
    | read => trivial

/-- What is known of a call depends on the secret ids and on the credentials that were told. -/
theorem Kept.congr (hk : Kept s k) (hl : st.live = s.live) (hi : st.secretId = s.secretId)
    (ht : st.told = s.told) : Kept st k := by
  have hw : st.works = s.works := by rw [Store.works, Store.works, hl, hi, ht]
  have hjob : ∀ {job : Job}, JobKept s job → JobKept st job := by
    intro job hj
    cases job with
    | mint had => exact fun h => hw ▸ hj h
    | list had fresh keep => exact ⟨fun h => hw ▸ hj.1 h, hl ▸ hj.2⟩
    | read => trivial
  cases k with
  | entering had => exact fun h => hw ▸ hk h
  | asking job | relogin job | again job => exact hjob hk
  | destroying had fresh accessor rest =>
    unfold Kept
    rw [hl]
    exact hk
  | ended => trivial

/-- How a call goes on from the store `s`, where `h` is the rotation it is, if it is one. -/
structure Leads (s : Store) (h : Option Bool) (q : Store × Point) : Prop where
  live : q.1.live = s.live
  same : h = none → q.1.secretId = s.secretId ∧ q.1.told = s.told
  had : q.2.had.isSome → h.isSome
  good : (∀ e ∈ s.ended, Good e) → ∀ e ∈ q.1.ended, Good e
  kept : Kept q.1 q.2

theorem leads_raised (hw : ∀ had, h = some had → had → s.works) : Leads s h (raised s h) := by
  cases h with
  | none => exact ⟨rfl, fun _ => ⟨rfl, rfl⟩, nofun, fun hg => hg, trivial⟩
  | some had =>
    refine ⟨rfl, fun h => (by cases h), nofun, fun hg e he => ?_, trivial⟩
    rcases List.mem_append.1 he with he | he
    · exact hg e he
    · rw [List.mem_singleton.1 he]
      exact hw had rfl

theorem leads_kv (hj : JobKept s job) : Leads s job.had (kv s job) := by
  unfold kv
  split
  · exact leads_raised hj.works
  · exact ⟨rfl, fun _ => ⟨rfl, rfl⟩, id, fun hg => hg, hj⟩

theorem leads_login (hw : ∀ had, h = some had → had → s.works) (hh : k.had.isSome → h.isSome)
    (hk : Kept s k) : Leads s h (login s h k) := by
  unfold login
  split
  · exact leads_raised hw
  · exact ⟨rfl, fun _ => ⟨rfl, rfl⟩, hh, fun hg => hg, hk⟩

/-- A token makes no difference to the secret ids. -/
theorem Leads.token {token : String} (hq : Leads { s with token } h q) : Leads s h q :=
  { hq with }

theorem leads_loggedIn {a : Option (Nat × String)} {f : Store → Store × Point}
    (hw : ∀ had, h = some had → had → s.works)
    (hf : ∀ token, Leads { s with token } h (f { s with token })) :
    Leads s h (loggedIn s a h f) := by
  unfold loggedIn
  split
  · exact leads_raised hw
  · split
    · exact Leads.token (leads_raised (s := { s with token := "" }) hw)
    · split
      · exact Leads.token (leads_raised (s := { s with token := "" }) hw)
      · exact (hf _).token

theorem leads_destroyNext (hf : (keep, fresh) ∈ s.live) (hk : keep ∉ rest)
    (hall : ∀ x ∈ s.live, x.2 = fresh ∨ x.1 ∈ rest) :
    Leads s (some had) (destroyNext s had fresh rest) := by
  cases rest with
  | nil =>
    refine ⟨rfl, fun h => (by cases h), nofun, fun hg e he => ?_, trivial⟩
    rcases List.mem_append.1 he with he | he
    · exact hg e he
    · rw [List.mem_singleton.1 he]
      exact ⟨⟨_, hf, rfl⟩, fun x hx => (hall x hx).resolve_right List.not_mem_nil⟩
  | cons accessor rest =>
    exact ⟨rfl, fun _ => ⟨rfl, rfl⟩, fun _ => rfl, fun hg => hg, keep, hf, hk, hall⟩

theorem leads_answered {again : Bool} {code : Nat} (hj : JobKept s job)
    (hq : ¬(code = 403 ∧ !again) → Leads s job.had q) :
    Leads s job.had (answered s job again code q) := by
  unfold answered
  split
  · exact leads_login hj.works id hj
  · exact hq ‹_›

/-! ## Vault obliges -/

/-- No rotation begins while another is under way. Vault tells the accessor of an id it makes, lists
the ids (or there are no others), and destroys those it is told to (or they are gone); if it can no
longer be reached then, a credential that was told still works. -/
def Obliging (p : State) : Label → Prop
  | .rotate => ∀ k ∈ p.calls, k.all fun k => k.had.isNone
  | .minted _ (some (code, id, accessor)) _ => code = 200 → id = "" ∨ accessor ≠ ""
  | .listed i (some (code, _)) =>
    match p.calls[i]? with
    | some (some (.asking (.list _ fresh _))) =>
      code = 200 ∨ code = 403 ∨ ∀ x ∈ p.store.live, x.2 = fresh
    | some (some (.again (.list _ fresh _))) => code = 200 ∨ ∀ x ∈ p.store.live, x.2 = fresh
    | _ => True
  | .destroyed i a done =>
    match p.calls[i]? with
    | some (some (.destroying had _ accessor _)) =>
      match a with
      | none => had → (p.store.destroy accessor done).works
      | some code => code = 200 ∨ code = 204 ∨ accessor ∉ p.store.live.map Prod.fst
    | _ => True
  | _ => True

instance (p : State) (l : Label) : Decidable (Obliging p l) := by
  unfold Obliging
  split
  · infer_instance
  · infer_instance
  · split <;> infer_instance
  · split
    · split <;> infer_instance
    · infer_instance
  · infer_instance

structure Sound (p : State) : Prop where
  distinct : Dict.Distinct p.store.live
  good : ∀ e ∈ p.store.ended, Good e
  calls : ∀ i k, p.At i k → Kept p.store k
  alone : ∀ i j k c, p.At i k → p.At j c → k.had.isSome → c.had.isSome → i = j

/-- A call goes on from the store `st`, which Vault's answer left; only a rotation has Vault change
the secret ids. -/
theorem Sound.put (hs : Sound p) (hk : p.At i k) (hd : Dict.Distinct st.live)
    (he : st.ended = p.store.ended) (hst : k.had = none → st = p.store)
    (hq : Leads st k.had q) : Sound (p.put i q.1 q.2) := by
  refine ⟨hq.live ▸ hd, ?_, fun j c hc => ?_, fun a b x y hx hy hxr hyr => ?_⟩
  · exact hq.good (he ▸ hs.good)
  · rcases (Pool.at_put hk).1 hc with ⟨-, rfl⟩ | ⟨hne, hc⟩
    · exact hq.kept
    · cases hch : c.had with
      | none => exact kept_of_idle hch
      | some had =>
        have hidle : k.had = none := by
          cases hkh : k.had with
          | none => rfl
          | some _ =>
            exact absurd (hs.alone j i c k hc hk (by rw [hch]; rfl) (by rw [hkh]; rfl)) hne
        obtain ⟨hi, ht⟩ := hq.same hidle
        have hl := hq.live
        rw [hst hidle] at hi ht hl
        exact (hs.calls j c hc).congr hl hi ht
  · rcases (Pool.at_put hk).1 hx with ⟨rfl, rfl⟩ | ⟨-, hx'⟩ <;>
      rcases (Pool.at_put hk).1 hy with ⟨rfl, rfl⟩ | ⟨-, hy'⟩
    · rfl
    · exact hs.alone _ _ k y hk hy' (hq.had hxr) hyr
    · exact hs.alone _ _ x k hx' hk hxr (hq.had hyr)
    · exact hs.alone a b x y hx' hy' hxr hyr

/-! ## The answers -/

theorem request_spec {again : Bool} (hr : k.request = some (job, again)) :
    k.had = job.had ∧ (Kept s k → JobKept s job) ∧
      (k = .asking job ∧ again = false ∨ k = .again job ∧ again = true) := by
  cases k with
  | asking job =>
    cases hr
    exact ⟨rfl, id, .inl ⟨rfl, rfl⟩⟩
  | again job =>
    cases hr
    exact ⟨rfl, id, .inr ⟨rfl, rfl⟩⟩
  | _ => cases hr

theorem sound_loggedIn {a : Option (Nat × String)} (hs : Sound p) (hk : p.At i k)
    (hq : answer p.store k (.loggedIn i a) = some q) : Sound (p.put i q.1 q.2) := by
  have hkept := hs.calls i k hk
  unfold answer at hq
  dsimp only at hq
  split at hq
  · cases hq
  · cases k with
    | entering had =>
      cases hq
      refine hs.put hk hs.distinct rfl (fun _ => rfl) (leads_loggedIn ?_ fun token => ?_)
      · rintro _ ⟨⟩
        exact hkept
      · have hj : JobKept { p.store with token } (.mint had) := hkept
        exact leads_kv hj
    | relogin job =>
      cases hq
      refine hs.put hk hs.distinct rfl (fun _ => rfl) (leads_loggedIn hkept.works fun token => ?_)
      exact ⟨rfl, fun _ => ⟨rfl, rfl⟩, id, fun hg => hg,
        (hkept : Kept p.store (.again job)).congr rfl rfl rfl⟩
    | _ => cases hq

theorem sound_wasRead {a : Option Nat} (hs : Sound p) (hk : p.At i k)
    (hq : answer p.store k (.wasRead i a) = some q) : Sound (p.put i q.1 q.2) := by
  unfold answer at hq
  dsimp only at hq
  split at hq
  · rename_i again hr
    cases hq
    refine hs.put hk hs.distinct rfl (fun _ => rfl) ?_
    rw [(request_spec (s := p.store) hr).1]
    exact leads_raised (h := Job.had .read) fun _ h => by cases h
  · rename_i again code hr
    cases hq
    refine hs.put hk hs.distinct rfl (fun _ => rfl) ?_
    rw [(request_spec (s := p.store) hr).1]
    exact leads_answered trivial fun _ =>
      ⟨rfl, fun _ => ⟨rfl, rfl⟩, nofun, fun hg => hg, trivial⟩
  · cases hq

/-- What Vault made adds to the secret ids. -/
theorem works_made {made : Option (String × String)} (hw : s.works) :
    ({ s with live := s.live ++ made.toList } : Store).works := by
  unfold Store.works at hw ⊢
  rw [List.any_append, hw, Bool.true_or]

theorem distinct_made {made : Option (String × String)} (hd : Dict.Distinct s.live)
    (hm : made.all fun x => !(s.live.map Prod.fst).contains x.1) :
    Dict.Distinct (s.live ++ made.toList) := by
  cases made with
  | none => simpa using hd
  | some x =>
    have hx : x.1 ∉ s.live.map Prod.fst := by simpa using hm
    rw [Dict.Distinct, Option.toList_some, List.map_append]
    exact List.nodup_append.2 ⟨hd, by simp, by
      intro a ha b hb
      rw [List.map_singleton, List.mem_singleton] at hb
      rintro rfl
      exact hx (hb ▸ ha)⟩

theorem sound_minted {a : Option (Nat × String × String)} {made : Option (String × String)}
    (hs : Sound p) (hk : p.At i k) (hc : Obliging p (.minted i a made))
    (hq : answer p.store k (.minted i a made) = some q) : Sound (p.put i q.1 q.2) := by
  unfold answer at hq
  dsimp only at hq
  split at hq
  · rename_i had again hr
    obtain ⟨hhad, hjob, -⟩ := request_spec (s := p.store) hr
    have hw : had → p.store.works := hjob (hs.calls i k hk)
    have hidle : ∀ {st : Store}, k.had = none → st = p.store := fun h => by
      rw [hhad] at h
      cases h
    split at hq
    · rename_i hmint
      obtain ⟨hnew, hmint⟩ := (Bool.and_eq_true _ _).mp hmint
      have hd : Dict.Distinct ({ p.store with live := p.store.live ++ made.toList } : Store).live :=
        distinct_made hs.distinct hnew
      have hj : JobKept { p.store with live := p.store.live ++ made.toList } (.mint had) :=
        fun h => works_made (hw h)
      cases a with
      | none =>
        cases hq
        refine hs.put hk hd rfl hidle ?_
        rw [hhad]
        exact leads_raised fun had h => by
          cases h
          exact hj
      | some x =>
        obtain ⟨code, id, accessor⟩ := x
        cases hq
        refine hs.put hk hd rfl hidle ?_
        rw [hhad]
        refine leads_answered hj fun _ => ?_
        unfold minted
        split
        · exact leads_raised fun had h => by
            cases h
            exact hj
        · rename_i hcode
          split
          · exact leads_raised fun had h => by
              cases h
              exact hj
          · rename_i hid
            have hcode : code = 200 := by simpa using hcode
            dsimp only at hmint
            rw [if_pos hcode] at hmint
            obtain ⟨x, rfl, hx⟩ := (Option.any_eq_true ..).1 hmint
            have hacc := (hc hcode).resolve_left hid
            simp only [hacc, hid, decide_false, Bool.or_false, Bool.and_eq_true,
              decide_eq_true_eq] at hx
            have hm : (accessor, id) ∈ p.store.live ++ [x] := by
              rw [hx.1, hx.2]
              exact List.mem_append_right _ (List.mem_singleton_self x)
            have hj' : JobKept { p.store with live := p.store.live ++ [x] }
                (.list had id accessor) := ⟨hj, hm⟩
            exact leads_kv hj'
    · cases hq
  · cases hq

theorem sound_listed {a : Option (Nat × List String)} (hs : Sound p) (hk : p.At i k)
    (hc : Obliging p (.listed i a)) (hq : answer p.store k (.listed i a) = some q) :
    Sound (p.put i q.1 q.2) := by
  have hkept := hs.calls i k hk
  unfold answer at hq
  dsimp only at hq
  split at hq
  · rename_i had fresh keep again hr
    obtain ⟨hhad, hjob, -⟩ := request_spec (s := p.store) hr
    cases hq
    refine hs.put hk hs.distinct rfl (fun _ => rfl) ?_
    rw [hhad]
    exact leads_raised (hjob hkept).works
  · rename_i had fresh keep again code keys hr
    obtain ⟨hhad, hjob, hpoint⟩ := request_spec (s := p.store) hr
    have hj := hjob hkept
    split at hq
    · rename_i hkeys
      cases hq
      refine hs.put hk hs.distinct rfl (fun _ => rfl) ?_
      rw [hhad]
      refine leads_answered hj fun hfinal => ?_
      have hcode : code = 200 ∨ ∀ x ∈ p.store.live, x.2 = fresh := by
        rcases hpoint with ⟨rfl, rfl⟩ | ⟨rfl, rfl⟩
        · simp only [Obliging, show p.calls[i]? = some (some _) from hk] at hc
          rcases hc with h | h | h
          · exact .inl h
          · exact absurd ⟨h, rfl⟩ hfinal
          · exact .inr h
        · simpa only [Obliging, show p.calls[i]? = some (some _) from hk] using hc
      refine leads_destroyNext hj.2 (fun hm => ?_) fun x hx => ?_
      · exact of_decide_eq_true (List.mem_filter.1 hm).2 rfl
      · by_cases h200 : code = 200
        · rw [honestList, if_pos h200] at hkeys
          have hperm := of_decide_eq_true hkeys
          by_cases hxk : x.1 = keep
          · exact .inl (hs.distinct.eq (hxk ▸ hx : (keep, x.2) ∈ p.store.live) hj.2)
          · exact .inr (List.mem_filter.2
              ⟨hperm.mem_iff.2 (List.mem_map_of_mem hx), decide_eq_true hxk⟩)
        · exact .inl (hcode.resolve_left h200 x hx)
    · cases hq
  · cases hq

theorem mem_destroy {done : Bool} {x : String × String} (hx : x ∈ (s.destroy accessor done).live) :
    x ∈ s.live ∧ (done → x.1 ≠ accessor) := by
  cases done with
  | false => exact ⟨hx, nofun⟩
  | true =>
    obtain ⟨hm, hne⟩ := Dict.mem_remove.1 hx
    exact ⟨hm, fun _ => hne⟩

theorem sound_destroyed {a : Option Nat} {done : Bool} (hs : Sound p) (hk : p.At i k)
    (hc : Obliging p (.destroyed i a done)) (hq : answer p.store k (.destroyed i a done) = some q) :
    Sound (p.put i q.1 q.2) := by
  unfold answer at hq
  dsimp only at hq
  split at hq
  · rename_i had fresh accessor rest
    simp only [Obliging, show p.calls[i]? = some (some _) from hk] at hc
    obtain ⟨keep, hfresh, hkeep, hall⟩ := hs.calls i _ hk
    rw [List.mem_cons, not_or] at hkeep
    have hd : Dict.Distinct (p.store.destroy accessor done).live := by
      cases done with
      | false => exact hs.distinct
      | true => exact hs.distinct.remove
    have hend : (p.store.destroy accessor done).ended = p.store.ended := by cases done <;> rfl
    split at hq
    · cases hq
      exact hs.put hk hd hend (fun h => by cases h) (leads_raised fun had h => by
        cases h
        exact hc)
    · rename_i code
      split at hq
      · rename_i hdone
        cases hq
        have hleft : (keep, fresh) ∈ (p.store.destroy accessor done).live := by
          cases done with
          | false => exact hfresh
          | true => exact Dict.mem_remove.2 ⟨hfresh, hkeep.1⟩
        refine hs.put hk hd hend (fun h => by cases h)
          (leads_destroyNext hleft hkeep.2 fun x hx => ?_)
        obtain ⟨hm, hne⟩ := mem_destroy hx
        rcases hall x hm with h | h
        · exact .inl h
        · rcases List.mem_cons.1 h with h | h
          · by_cases hok : code = 200 ∨ code = 204
            · exact absurd h (hne (by rw [hdone]; exact decide_eq_true hok))
            · replace hc : code = 200 ∨ code = 204 ∨ accessor ∉ p.store.live.map Prod.fst := hc
              rw [← or_assoc] at hc
              exact absurd (h ▸ List.mem_map_of_mem hm) (hc.resolve_left hok)
          · exact .inr h
      · cases hq
  · cases hq

/-! ## Runs -/

/-- A new call, where a rotation begins alone. -/
theorem Sound.begin (hs : Sound p) (hq : Leads p.store h q)
    (hstore : q.1.secretId = p.store.secretId ∧ q.1.told = p.store.told)
    (hone : q.2.had.isSome → ∀ i k, p.At i k → k.had = none) : Sound (begin p q) := by
  refine ⟨hq.live ▸ hs.distinct, hq.good hs.good, fun i k hk => ?_, fun a b x y hx hy hxr hyr => ?_⟩
  · rcases Pool.at_start.1 hk with hk | ⟨-, rfl⟩
    · exact (hs.calls i k hk).congr hq.live hstore.1 hstore.2
    · exact hq.kept
  · rcases Pool.at_start.1 hx with hx' | ⟨rfl, rfl⟩ <;>
      rcases Pool.at_start.1 hy with hy' | ⟨rfl, rfl⟩
    · exact hs.alone a b x y hx' hy' hxr hyr
    · rw [hone hyr a x hx'] at hxr
      cases hxr
    · rw [hone hxr b y hy'] at hyr
      cases hyr
    · rfl

theorem sound_rotate (hs : Sound p) (hc : Obliging p .rotate)
    (hn : next p .rotate = some p') : Sound p' := by
  cases hn
  have hone : ∀ i k, p.At i k → k.had = none := fun i k hk => by
    have hall := hc _ hk.mem
    simpa using hall
  split
  · have hl : Leads p.store (some p.store.works)
        (login p.store (some p.store.works) (.entering p.store.works)) :=
      leads_login (fun had h => by cases h; exact id) (fun _ => rfl) id
    refine hs.begin hl ?_ fun _ => hone
    unfold login raised
    split <;> exact ⟨rfl, rfl⟩
  · have hl : Leads p.store (some p.store.works) (kv p.store (.mint p.store.works)) :=
      leads_kv (show JobKept p.store (.mint p.store.works) from id)
    refine hs.begin hl ?_ fun _ => hone
    unfold kv raised Job.had
    split <;> exact ⟨rfl, rfl⟩

theorem sound_read (hs : Sound p) : Sound (begin p (kv p.store .read)) := by
  have hl : Leads p.store none (kv p.store .read) :=
    leads_kv (show JobKept p.store .read from trivial)
  exact hs.begin hl (hl.same rfl) fun h => by
    have := hl.had h
    cases this

theorem at_eq_some (h : next.at' p i l = some p') :
    ∃ k q, p.At i k ∧ answer p.store k l = some q ∧ p' = p.put i q.1 q.2 := by
  unfold next.at' at h
  split at h
  · rename_i k hk
    obtain ⟨q, hq, rfl⟩ := Option.map_eq_some_iff.1 h
    exact ⟨k, q, hk, hq, rfl⟩
  · cases h

theorem sound_next (hs : Sound p) (hc : Obliging p l) (hn : system.next p l = some p') :
    Sound p' := by
  cases l with
  | rotate => exact sound_rotate hs hc hn
  | read =>
    cases hn
    exact sound_read hs
  | loggedIn i a =>
    obtain ⟨k, q, hk, hq, rfl⟩ := at_eq_some hn
    exact sound_loggedIn hs hk hq
  | minted i a made =>
    obtain ⟨k, q, hk, hq, rfl⟩ := at_eq_some hn
    exact sound_minted hs hk hc hq
  | listed i a =>
    obtain ⟨k, q, hk, hq, rfl⟩ := at_eq_some hn
    exact sound_listed hs hk hc hq
  | destroyed i a done =>
    obtain ⟨k, q, hk, hq, rfl⟩ := at_eq_some hn
    exact sound_destroyed hs hk hc hq
  | wasRead i a =>
    obtain ⟨k, q, hk, hq, rfl⟩ := at_eq_some hn
    exact sound_wasRead hs hk hq

theorem sound_init (h : system.init p) : Sound p := by
  obtain ⟨hcalls, -, hend, hd⟩ := h
  have none : ∀ i k, ¬p.At i k := fun i k hk => by
    have := hk.lt
    rw [hcalls] at this
    exact absurd this (Nat.not_lt_zero i)
  refine ⟨hd, ?_, fun i k hk => absurd hk (none i k), fun i _ k _ hk => absurd hk (none i k)⟩
  rw [hend]
  exact fun _ h => by cases h

namespace Sample

/-- An unlocked broker, whose role has another secret id too. -/
def broker : State := ⟨⟨[("acc-0", "s0"), ("acc-9", "s9")], "role", "tok", "s0", [], []⟩, []⟩

/-- A rotation whose token expired, beside a read that logs in again, and one that Vault refuses. -/
def rotating : List Label :=
  [.rotate, .read, .minted 0 (some (403, "", "")) none, .wasRead 1 (some 403),
    .loggedIn 0 (some (200, "tok2")), .loggedIn 1 (some (200, "tok3")),
    .minted 0 (some (200, "s1", "acc-1")) (some ("acc-1", "s1")), .wasRead 1 (some 200),
    .listed 0 (some (200, ["acc-0", "acc-9", "acc-1"])), .destroyed 0 (some 204) true,
    .destroyed 0 (some 204) true, .rotate, .minted 2 (some (503, "", "")) none]

end Sample

end Vault
