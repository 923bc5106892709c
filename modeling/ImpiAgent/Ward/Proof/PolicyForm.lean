import ImpiAgent.Ward.PolicyForm
import ImpiAgent.Ward.Proof.Autorules
import Mathlib.Data.List.TakeWhile

/-!
# What a form leaves empty stays

Every stored policy names how it is approved and has rules as `encode` writes them (`Valid`), and
what a form is about to write is what it was asked for over the policy it found (`Asked`). A form
whose write finds the policy as it was read, in every field it left empty, changes no other field
(`kept_of_asked`), so a run of such writes has lost nothing (`empty_kept`).
-/

namespace Ward.PolicyForm

variable {ps : Policies} {p q : SecretPolicyRecord} {name : String}

/-! ## The table -/

theorem name_of_getPolicy (h : getPolicy ps name = some p) : p.name = name :=
  of_decide_eq_true (List.find?_some (p := fun q : SecretPolicyRecord => decide (q.name = name)) h)

theorem getPolicy_putRow : getPolicy (putRow ps p) p.name =
    some ((getPolicy ps p.name).elim p fun q => { p with createdAt := q.createdAt }) := by
  unfold putRow
  cases h : getPolicy ps p.name with
  | none =>
    rw [if_neg (by simp), getPolicy, List.find?_append, show List.find? _ ps = none from h]
    simp
  | some q =>
    have hfun : (fun r : SecretPolicyRecord => decide (r.name = p.name)) ∘
        (fun q => if q.name = p.name then { p with createdAt := q.createdAt } else q) =
          fun r => decide (r.name = p.name) := by
      funext r
      by_cases hr : r.name = p.name <;> simp [hr]
    rw [if_pos (Option.isSome_some), getPolicy, List.find?_map, hfun,
      show List.find? _ ps = some q from h, Option.map_some, if_pos (name_of_getPolicy h)]
    rfl

theorem mem_putRow (h : q ∈ putRow ps p) : q ∈ ps ∨ ∃ t, q = { p with createdAt := t } := by
  unfold putRow at h
  split at h
  · obtain ⟨r, hr, rfl⟩ := List.mem_map.1 h
    split
    · exact .inr ⟨_, rfl⟩
    · exact .inl hr
  · rcases List.mem_append.1 h with h | h
    · exact .inl h
    · exact .inr ⟨_, List.mem_singleton.1 h⟩

/-! ## What is stored -/

/-- A stored policy names how it is approved, and its rules are as they are written. -/
structure Valid (p : SecretPolicyRecord) : Prop where
  approval : p.approval ≠ ""
  rules : ∃ rules, (∀ rule ∈ rules, Accepted rule) ∧ p.autoCommands = encode rules

theorem Valid.decode (h : Valid p) :
    (∀ rule ∈ p.rules, Accepted rule) ∧ p.autoCommands = encode p.rules := by
  obtain ⟨rules, hacc, heq⟩ := h.rules
  have hd : p.rules = rules := by
    rw [SecretPolicyRecord.rules, heq, decode_encode_of_accepted hacc]
  rw [hd]
  exact ⟨hacc, heq⟩

/-- Rules that are written out and read again. -/
theorem mapM_parse_unparse : ∀ {rules : List Rule}, (∀ rule ∈ rules, Accepted rule) →
    (rules.map unparse).mapM parse = .ok rules
  | [], _ => rfl
  | rule :: rules, h => by
    rw [List.map_cons, List.mapM_cons, parse_unparse (h rule List.mem_cons_self),
      mapM_parse_unparse fun r hr => h r (List.mem_cons_of_mem _ hr)]
    rfl

/-- A text with a character that is not white space is not blank. -/
theorem strip_ne_empty {s : String} {c : Char} (hc : c ∈ s.toList)
    (hn : Text.isSpace c = false) : Text.strip s ≠ "" := by
  have keep : ∀ {l : List Char}, c ∈ l → c ∈ l.dropWhile Text.isSpace := by
    intro l hl
    rw [← List.takeWhile_append_dropWhile (p := Text.isSpace) (l := l), List.mem_append] at hl
    refine hl.resolve_left fun h => ?_
    rw [List.mem_takeWhile_imp h] at hn
    cases hn
  have hm : c ∈ Text.rstrip (Text.lstrip s.toList) :=
    List.mem_reverse.2 (keep (List.mem_reverse.2 (keep hc)))
  intro h
  have hl := congrArg String.toList h
  rw [Text.strip, String.toList_ofList] at hl
  rw [hl] at hm
  cases hm

theorem not_space_of_isSafe {c : Char} (h : Text.isSafe c = true) : Text.isSpace c = false := by
  have hlist : ("_@%+=:,./-".toList.all fun d => !Text.isSpace d) = true := by decide
  by_cases hc : "_@%+=:,./-".toList.contains c
  · simpa using List.all_eq_true.1 hlist c (List.contains_iff_mem.1 hc)
  · simp only [Text.isSafe, hc, Bool.or_false, Bool.or_eq_true, Bool.and_eq_true,
      decide_eq_true_eq] at h
    simp only [Text.isSpace, Bool.or_eq_false_iff, Bool.and_eq_false_iff, decide_eq_false_iff_not]
    omega

/-- Every word that is written out shows something. -/
theorem exists_ink (part : String) :
    ∃ c ∈ (if part = anyRest then part else Text.shlexQuote part).toList,
      Text.isSpace c = false := by
  split
  · rename_i h
    exact ⟨'*', by rw [h]; decide, by decide⟩
  · rw [Shlex.shlexQuote_toList]
    split
    · exact ⟨'\'', by simp, by decide⟩
    · rename_i hne
      split
      · rename_i hsafe
        obtain ⟨c, l, hl⟩ := List.exists_cons_of_ne_nil hne
        have hc : c ∈ part.toList := hl ▸ List.mem_cons_self
        exact ⟨c, hc, not_space_of_isSafe (List.all_eq_true.1 hsafe c hc)⟩
      · exact ⟨'\'', by simp, by decide⟩

theorem unparse_ne_blank {rule : Rule} (h : Accepted rule) : Text.strip (unparse rule) ≠ "" := by
  obtain ⟨part, rest, rfl⟩ := List.exists_cons_of_ne_nil h.nonempty
  obtain ⟨c, hc, hn⟩ := exists_ink part
  refine strip_ne_empty (c := c) ?_ hn
  rw [unparse, String.toList_intercalate, List.map_map, List.map_cons]
  cases rest with
  | nil => simpa using hc
  | cons =>
    rw [List.map_cons, List.intercalate_cons_cons]
    exact List.mem_append_left _ (List.mem_append_left _ hc)

/-! ## What a form asks for -/

variable {v : Values} {found : Option PolicyJson} {body : Body}
  {existing : Option SecretPolicyRecord} {now : String} {s s' : State} {l : Label}

/-- What a form found is a stored policy, or the start of a new one. -/
structure Found (found : Option PolicyJson) : Prop where
  approval : ∀ name, (found.getD (newPolicy name)).approval ≠ ""
  rules : ∀ name, ∃ rules : List Rule, (∀ rule ∈ rules, Accepted rule) ∧
    (found.getD (newPolicy name)).autoCommands = rules.map unparse

theorem found_of_valid (h : ∀ p ∈ ps, Valid p) :
    Found ((ps.map policyJson).find? (·.name = name)) := by
  cases hf : (ps.map policyJson).find? (·.name = name) with
  | none => exact ⟨fun _ => by simp [newPolicy], fun _ => ⟨[], by simp, rfl⟩⟩
  | some c =>
    obtain ⟨p, hp, rfl⟩ := List.mem_map.1 (List.mem_of_find?_eq_some hf)
    exact ⟨fun _ => (h p hp).approval, fun _ => ⟨p.rules, (h p hp).decode.1, rfl⟩⟩

/-- A record as `put_policy` makes it is valid. -/
theorem valid_of_recordOf (h : recordOf name body existing now = .ok p)
    (he : ∀ q ∈ existing, Valid q) : Valid p := by
  have happ : orElse body.approval "always" ≠ "" := by
    unfold orElse
    split
    · split
      · decide
      · assumption
    · decide
  unfold recordOf at h
  cases hb : body.autoCommands with
  | none =>
    simp only [hb] at h
    obtain rfl := Except.ok.inj h
    refine ⟨happ, _, fun rule hr => ?_, rfl⟩
    cases existing with
    | none => cases hr
    | some q => exact (he q rfl).decode.1 rule hr
  | some written =>
    simp only [hb] at h
    cases hm : (written.filter (Text.strip · ≠ "")).mapM parse with
    | error e =>
      rw [hm] at h
      cases h
    | ok rules =>
      rw [hm] at h
      obtain rfl := Except.ok.inj h
      exact ⟨happ, rules, accepted_of_mapM hm, rfl⟩

/-- What a form is about to write over the policy it found. -/
structure Asked (f : Form) (p : SecretPolicyRecord) : Prop where
  subjects : Blank f.values.subjects → p.subjects = (f.found.getD (newPolicy p.name)).subjects
  approval : Blank f.values.approval → p.approval = (f.found.getD (newPolicy p.name)).approval
  maxGrantS : Blank f.values.maxGrant → p.maxGrantS = (f.found.getD (newPolicy p.name)).maxGrantS
  description : p.description = (f.found.getD (newPolicy p.name)).description
  rules : Blank f.values.autoCommands →
    p.rules.map unparse = (f.found.getD (newPolicy p.name)).autoCommands
  parsed : Blank f.values.autoCommands ∨
    ∀ line ∈ written f.values, ∃ rule, parse line = .ok rule

theorem parse_of_mapM {texts : List String} {rules : List Rule} (h : texts.mapM parse = .ok rules) :
    ∀ text ∈ texts, ∃ rule, parse text = .ok rule := by
  induction texts generalizing rules with
  | nil => simp
  | cons text texts ih =>
    rw [List.mapM_cons] at h
    cases hp : parse text with
    | error e =>
      rw [hp] at h
      cases h
    | ok rule =>
      cases hm : texts.mapM parse with
      | error e =>
        rw [hp, hm] at h
        cases h
      | ok rules' => exact List.forall_mem_cons.2 ⟨⟨rule, hp⟩, ih hm⟩

theorem bodyOf_eq_ok (h : bodyOf name v found = .ok body) :
    let c := found.getD (newPolicy name)
    body = ⟨some (approvalOf v c), some (seconds v.maxGrant c.maxGrantS), some (subjectsOf v c),
      some c.description, some (rulesOf v c)⟩ ∧
      ∃ parsed, (rulesOf v c).mapM parse = .ok parsed := by
  unfold bodyOf at h
  dsimp only at h ⊢
  split at h
  · cases h
  · split at h
    · cases h
    · rename_i parsed hp
      exact ⟨(Except.ok.inj h).symm, parsed, hp⟩

theorem orElse_self (x : String) : orElse (some x) "" = x := by
  by_cases h : x = "" <;> simp [orElse, h]

theorem orElse_of_ne {x d : String} (h : x ≠ "") : orElse (some x) d = x := if_neg h

/-- Rules that were written out are read as they were. -/
theorem read_unparsed {rules : List Rule} (h : ∀ rule ∈ rules, Accepted rule) :
    ((rules.map unparse).filter (Text.strip · ≠ "")).mapM parse = .ok rules := by
  rw [List.filter_eq_self.2, mapM_parse_unparse h]
  intro text ht
  obtain ⟨rule, hr, rfl⟩ := List.mem_map.1 ht
  exact decide_eq_true (unparse_ne_blank (h rule hr))

theorem asked_of_recordOf (hf : Found found) (hb : bodyOf name v found = .ok body)
    (hr : recordOf name body existing now = .ok p) : Asked ⟨v, found⟩ p := by
  obtain ⟨rfl, parsed, hp⟩ := bodyOf_eq_ok hb
  cases hm : ((rulesOf v (found.getD (newPolicy name))).filter
      (Text.strip · ≠ "")).mapM parse with
  | error e =>
    simp only [recordOf, hm] at hr
    cases hr
  | ok rules =>
    simp only [recordOf, hm] at hr
    obtain rfl := Except.ok.inj hr
    refine ⟨fun hs => ?_, fun ha => ?_, fun hg => ?_, orElse_self _, fun hw => ?_, ?_⟩
    · dsimp only
      rw [orElse_self, subjectsOf, if_pos hs]
    · dsimp only
      rw [approvalOf, if_pos ha, orElse_of_ne (hf.approval name)]
    · dsimp only
      rw [Option.getD_some, seconds]
      exact if_pos hg
    · obtain ⟨old, hacc, hold⟩ := hf.rules name
      rw [rulesOf, if_pos hw, hold, read_unparsed hacc] at hm
      obtain rfl := Except.ok.inj hm
      dsimp only [SecretPolicyRecord.rules]
      rw [decode_encode_of_accepted hacc, hold]
    · by_cases hw : Blank v.autoCommands
      · exact .inl hw
      · rw [rulesOf, if_neg hw] at hp
        exact .inr (parse_of_mapM hp)

/-! ## What a form's write leaves -/

/-- The fields a form left empty are as they were, a policy it edited is not brought back, and what
it wrote as rules is read as rules. -/
structure Kept (w : Saved) : Prop where
  fields : ∀ p, w.before = some p → ∃ q, w.after = some q ∧
    (Blank w.form.values.subjects → q.subjects = p.subjects) ∧
    (Blank w.form.values.approval → q.approval = p.approval) ∧
    (Blank w.form.values.maxGrant → q.maxGrantS = p.maxGrantS) ∧
    (Blank w.form.values.autoCommands → q.autoCommands = p.autoCommands) ∧
    q.description = p.description
  gone : w.before = none → w.form.found = none
  parsed : Blank w.form.values.autoCommands ∨
    ∀ line ∈ written w.form.values, ∃ rule, parse line = .ok rule

/-- The policy is stored as the form found it, in every field it left empty. -/
def AsFound (ps : Policies) (name : String) (f : Form) : Prop :=
  match getPolicy ps name with
  | none => f.found = none
  | some p =>
    let c := f.found.getD (newPolicy name)
    (Blank f.values.subjects → p.subjects = c.subjects) ∧
    (Blank f.values.approval → p.approval = c.approval) ∧
    (Blank f.values.maxGrant → p.maxGrantS = c.maxGrantS) ∧
    (Blank f.values.autoCommands → p.rules.map unparse = c.autoCommands) ∧
    p.description = c.description

instance (ps : Policies) (name : String) (f : Form) : Decidable (AsFound ps name f) := by
  unfold AsFound
  split <;> infer_instance

/-- Written rules tell the rules. -/
theorem unparse_inj {as bs : List Rule} (ha : ∀ rule ∈ as, Accepted rule)
    (hb : ∀ rule ∈ bs, Accepted rule) (h : as.map unparse = bs.map unparse) : as = bs := by
  have has := mapM_parse_unparse ha
  rw [h, mapM_parse_unparse hb] at has
  exact (Except.ok.inj has).symm

theorem kept_of_asked {f : Form} (hps : ∀ q ∈ ps, Valid q) (hp : Valid p) (ha : Asked f p)
    (hc : AsFound ps p.name f) :
    Kept ⟨f, getPolicy ps p.name, getPolicy (putRow ps p) p.name⟩ := by
  rw [getPolicy_putRow]
  unfold AsFound at hc
  cases hg : getPolicy ps p.name with
  | none =>
    rw [hg] at hc
    exact ⟨fun _ h => (by cases h), fun _ => hc, ha.parsed⟩
  | some q =>
    rw [hg] at hc
    obtain ⟨hsub, happ, hmax, hrules, hdesc⟩ := hc
    refine ⟨fun r hr => ?_, fun h => (by cases h), ha.parsed⟩
    cases hr
    refine ⟨_, rfl, fun h => ?_, fun h => ?_, fun h => ?_, fun h => ?_, ?_⟩
    · exact (ha.subjects h).trans (hsub h).symm
    · exact (ha.approval h).trans (happ h).symm
    · exact (ha.maxGrantS h).trans (hmax h).symm
    · have hq := hps q (List.mem_of_find?_eq_some hg)
      have heq : p.rules = q.rules := unparse_inj hp.decode.1 hq.decode.1
        ((ha.rules h).trans (hrules h).symm)
      show p.autoCommands = q.autoCommands
      rw [hp.decode.2, hq.decode.2, heq]
    · exact ha.description.trans hdesc.symm

/-! ## Runs -/

/-- What is known of a call in progress. -/
def CallKept : Call → Prop
  | .getting name body form =>
    ∀ f ∈ form, Found f.found ∧ bodyOf name f.values f.found = .ok body
  | .storing record form => Valid record ∧ ∀ f ∈ form, Asked f record
  | _ => True

structure Sound (s : State) : Prop where
  valid : ∀ p ∈ s.store.policies, Valid p
  calls : ∀ i k, s.At i k → CallKept k
  saved : ∀ w ∈ s.store.saved, Kept w

/-- A form that is about to write finds the policy as it read it, in every field it left empty. -/
def Undisturbed (s : State) : Label → Prop
  | .step i =>
    match s.calls[i]? with
    | some (some (.storing record (some f))) => AsFound s.store.policies record.name f
    | _ => True
  | _ => True

instance (s : State) (l : Label) : Decidable (Undisturbed s l) := by
  unfold Undisturbed
  split
  · split <;> infer_instance
  · infer_instance

theorem Sound.start {k : Call} (hs : Sound s) (hk : CallKept k) : Sound (s.start k) where
  valid := hs.valid
  calls := fun i c hc => by
    rcases Pool.at_start.1 hc with hc | ⟨-, rfl⟩
    · exact hs.calls i c hc
    · exact hk
  saved := hs.saved

theorem Sound.put {i : Nat} {k k' : Call} {st : Store} (hs : Sound s) (hk : s.At i k)
    (hv : ∀ p ∈ st.policies, Valid p) (hw : ∀ w ∈ st.saved, Kept w) (hk' : CallKept k') :
    Sound (s.put i st k') where
  valid := hv
  calls := fun j c hc => by
    rcases (Pool.at_put hk).1 hc with ⟨-, rfl⟩ | ⟨-, hc⟩
    · exact hk'
    · exact hs.calls j c hc
  saved := hw

theorem valid_getPolicy (hs : Sound s) : ∀ q ∈ getPolicy s.store.policies name, Valid q :=
  fun _ hq => hs.valid _ (List.mem_of_find?_eq_some hq)

theorem sound_step {i : Nat} (hs : Sound s) (hc : Undisturbed s (.step i))
    (hn : s.exec step i = some s') : Sound s' := by
  obtain ⟨k, st, k', hk, hm, rfl⟩ := Pool.exec_eq_some.1 hn
  have hkept := hs.calls i k hk
  cases k with
  | reading name values =>
    unfold step at hm
    dsimp only at hm
    split at hm
    · cases hm
      exact hs.put hk hs.valid hs.saved trivial
    · rename_i body hb
      cases hm
      refine hs.put hk hs.valid hs.saved fun f hf => ?_
      cases hf
      exact ⟨found_of_valid hs.valid, hb⟩
  | getting name body form =>
    unfold step at hm
    dsimp only at hm
    split at hm
    · cases hm
      exact hs.put hk hs.valid hs.saved trivial
    · rename_i record hr
      cases hm
      refine hs.put hk hs.valid hs.saved ⟨valid_of_recordOf hr (valid_getPolicy hs), fun f hf => ?_⟩
      obtain ⟨hfound, hb⟩ := hkept f hf
      exact asked_of_recordOf hfound hb hr
  | storing record form =>
    cases hm
    obtain ⟨hval, hasked⟩ := hkept
    refine hs.put hk (fun q hq => ?_) (fun w hw => ?_) trivial
    · rcases mem_putRow hq with hq | ⟨t, rfl⟩
      · exact hs.valid q hq
      · exact ⟨hval.approval, hval.rules⟩
    · rcases List.mem_append.1 hw with hw | hw
      · exact hs.saved w hw
      · cases form with
        | none => cases hw
        | some f =>
          rw [List.mem_singleton.1 hw]
          simp only [Undisturbed, show s.calls[i]? = some (some _) from hk] at hc
          exact kept_of_asked hs.valid hval (hasked f rfl) hc
  | removing name =>
    cases hm
    exact hs.put hk (fun q hq => hs.valid q (List.mem_of_mem_filter hq)) hs.saved trivial
  | refused e => cases hm
  | done => cases hm

theorem sound_next (hs : Sound s) (hc : Undisturbed s l) (hn : system.next s l = some s') :
    Sound s' := by
  cases l with
  | form name values =>
    cases hn
    exact hs.start trivial
  | put name body =>
    cases hn
    exact hs.start nofun
  | delete name =>
    cases hn
    exact hs.start trivial
  | step i => exact sound_step hs hc hn
  | kill i =>
    cases hn
    exact ⟨hs.valid, fun j c hj => hs.calls j c (Pool.at_kill.1 hj).2, hs.saved⟩
  | tick now =>
    cases hn
    exact ⟨hs.valid, hs.calls, hs.saved⟩

theorem sound_init (h : system.init s) : Sound s := by
  obtain ⟨now, rfl⟩ := h
  exact ⟨fun _ h => (by cases h), fun i _ hk => absurd hk.lt (Nat.not_lt_zero i),
    fun _ h => (by cases h)⟩

/-- The fields forms left empty are as they were. -/
theorem empty_kept (h : system.Reach Undisturbed s) : ∀ w ∈ s.store.saved, Kept w :=
  (h.inv (fun _ => sound_init) fun _ _ _ => sound_next).saved

namespace Sample

def first : Body := ⟨some "always", some 60, some "assistant", none, some ["git push *"]⟩

/-- Who may ask, and nothing else. -/
def widened : Values := ⟨"assistant, builder", "", "", ""⟩

def before : State := ⟨⟨"2026-01-01", [], []⟩, []⟩

def edited : List Label :=
  [.put "token" first, .step 0, .step 0, .form "token" widened, .step 1, .step 1, .step 1]

/-- The policy is deleted once the form has read it. -/
def deleted : List Label :=
  [.put "token" first, .step 0, .step 0, .form "token" widened, .step 1, .delete "token", .step 2,
    .step 1, .step 1]

end Sample

/-- A form that names another agent leaves the rest of the policy as it was. -/
theorem empty_kept_edited : ∃ s, system.Reach Undisturbed s ∧ s.store.saved.length = 1 ∧
    ∀ w ∈ s.store.saved, Kept w := by
  have hrun : (system.check (fun s l => decide (Undisturbed s l)) Sample.before
      Sample.edited).any (fun s => decide (s.store.saved.length = 1)) = true := by
    decide
  obtain ⟨s, hs, hd⟩ := (Option.any_eq_true ..).1 hrun
  have h : system.Reach Undisturbed s :=
    Lts.reach_of_check (fun _ _ => of_decide_eq_true) ⟨_, rfl⟩ hs
  exact ⟨s, h, of_decide_eq_true hd, empty_kept h⟩

/-- A form brings back the policy it edited after that was deleted. -/
theorem deleted_back : ¬∀ s : State, system.Reach Lts.Any s → ∀ w ∈ s.store.saved, Kept w := by
  intro hall
  have hrun : (system.check (fun _ _ => true) Sample.before Sample.deleted).any (fun s =>
      s.store.saved.any fun w => decide (w.before = none) && w.form.found.isSome) = true := by
    decide
  obtain ⟨s, hs, hd⟩ := (Option.any_eq_true ..).1 hrun
  obtain ⟨w, hw, hd⟩ := List.any_eq_true.1 hd
  obtain ⟨hbefore, hfound⟩ := (Bool.and_eq_true _ _).mp hd
  have h : system.Reach Lts.Any s := Lts.reach_of_check (fun _ _ _ => trivial) ⟨_, rfl⟩ hs
  rw [(hall s h w hw).gone (of_decide_eq_true hbefore)] at hfound
  cases hfound

end Ward.PolicyForm
