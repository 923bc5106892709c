import ImpiAgent.Lib.Attempt
import ImpiAgent.Ward.Proof.Lease
import ImpiAgent.Ward.Proof.Wire

/-!
# From the command line to the command

The command lines `secret-exec` accepts, as a grammar (`parse_iff`), and what is read of the request
it posts (`lease_payload`).
-/

namespace Ward

open Json Prog Text SecretExec
open Internal (get truthy)

variable {identifier : String → Bool} {shown : PyValue → String}

/-! ## The options -/

namespace SecretExec

/-- What an option says. -/
inductive Item
  | bind (name ref : String)
  | why (reason : String)

namespace Item

def flags : Item → List String
  | bind .. => ["--env", "-e"]
  | why _ => ["--reason"]

def value : Item → String
  | bind name ref => name ++ "=" ++ ref
  | why reason => reason

/-- How it is written: with its value, or before it. -/
inductive Written (item : Item) : List String → Prop
  | joined {flag : String} : flag ∈ item.flags → Written item [flag ++ "=" ++ item.value]
  | apart {flag : String} : flag ∈ item.flags → Written item [flag, item.value]

/-- A binding is of an identifier to a reference. -/
def Sound (identifier : String → Bool) : Item → Prop
  | bind name ref => '=' ∉ name.toList ∧ identifier name = true ∧ ∃ r, parseRef ref = .ok r
  | why _ => True

def binding? : Item → Option (String × String)
  | bind name ref => some (name, ref)
  | why _ => none

def reason? : Item → Option String
  | bind .. => none
  | why reason => some reason

/-- It binds no name again. -/
def New (t : Taken) : Item → Prop
  | bind name _ => name ∉ t.bindings.map Prod.fst
  | why _ => True

end Item

def Taken.add (t : Taken) : Item → Taken
  | .bind name ref => { t with bindings := t.bindings ++ [(name, ref)] }
  | .why reason => { t with reason := reason }

variable {t t' : Taken} {flag value : String}

theorem cut_joined {flag : String} (h : '=' ∉ flag.toList) (value : String) :
    cut '=' (flag ++ "=" ++ value) = (flag, some value) :=
  cut_some_iff.2 ⟨h, by simp⟩

theorem written_joined {option value : String} (h : (cut '=' option).2 = some value) :
    option = (cut '=' option).1 ++ "=" ++ value := by
  rw [← String.toList_inj, (cut_some_iff.1 (Prod.ext rfl h)).2]
  simp

theorem cut_alone {option : String} (h : (cut '=' option).2 = none) : (cut '=' option).1 = option :=
  (cut_none_iff.1 (Prod.ext rfl h)).2

theorem no_equals {flag : String} (h : flag ∈ flags) : '=' ∉ flag.toList := by
  revert flag
  decide

theorem flags_of_item {item : Item} (h : flag ∈ item.flags) : flag ∈ flags := by
  cases item with
  | bind =>
    rcases List.mem_cons.1 h with rfl | h
    · decide
    · cases List.mem_singleton.1 h
      decide
  | why =>
    cases List.mem_singleton.1 h
    decide

/-- What one option does to what the options before it said. -/
theorem take_iff (hflag : flag ∈ flags) : t.take identifier flag value = .ok t' ↔
    ∃ item : Item, flag ∈ item.flags ∧ item.value = value ∧ item.Sound identifier ∧ item.New t ∧
      t' = t.add item := by
  constructor
  · intro h
    unfold Taken.take at h
    split at h
    · next henv =>
      split at h
      · cases h
      · next name ref hcut =>
        obtain ⟨hno, htext⟩ := cut_some_iff.1 hcut
        split at h
        · cases h
        next hid =>
        split at h
        · cases h
        next hnew =>
        split at h
        · cases h
        · next r hr =>
          cases h
          refine ⟨.bind name ref, henv, ?_, ⟨hno, by simpa using hid, r, hr⟩, hnew, rfl⟩
          rw [← String.toList_inj, htext]
          simp [Item.value]
    · next henv =>
      cases h
      refine ⟨.why value, ?_, rfl, trivial, trivial, rfl⟩
      rcases List.mem_cons.1 hflag with rfl | hf
      · exact absurd (by decide) henv
      · rcases List.mem_cons.1 hf with rfl | hf
        · exact absurd (by decide) henv
        · exact hf
  · rintro ⟨item, hf, rfl, hsound, hnew, rfl⟩
    cases item with
    | bind name ref =>
      obtain ⟨hno, hid, r, hr⟩ := hsound
      have hmem : flag ∈ ["--env", "-e"] := hf
      simp only [Taken.take, if_pos hmem, Item.value, cut_joined hno, hid, not_true, if_false,
        if_neg (show name ∉ t.bindings.map Prod.fst from hnew), hr]
      rfl
    | why reason =>
      have hno : flag ∉ ["--env", "-e"] := by
        cases List.mem_singleton.1 hf
        decide
      rw [Taken.take, if_neg hno]
      rfl

/-- What the options say, one after the other. -/
inductive Says (identifier : String → Bool) : Taken → List String → Taken → Prop
  | done (t : Taken) : Says identifier t [] t
  | item {t t' : Taken} {item : Item} {words options : List String} : item.Written words →
      item.Sound identifier → item.New t → Says identifier (t.add item) options t' →
      Says identifier t (words ++ options) t'

theorem parseOptions_iff {options : List String} :
    parseOptions identifier t options = .ok t' ↔ Says identifier t options t' := by
  constructor
  · intro h
    fun_induction parseOptions identifier t options with
    | case1 t =>
      cases h
      exact .done _
    | case2 => cases h
    | case3 t option options hflag value hcut e he =>
      cases h
    | case4 t option hflag value options hcut t₁ ht ih =>
      obtain ⟨item, hf, rfl, hsound, hnew, rfl⟩ := (take_iff (not_not.1 hflag)).1 ht
      have hsays := Says.item (.joined hf) hsound hnew (ih h)
      rwa [← written_joined hcut] at hsays
    | case5 => cases h
    | case6 => cases h
    | case7 t option hflag value options hcut t₁ ht ih =>
      obtain ⟨item, hf, rfl, hsound, hnew, rfl⟩ := (take_iff (not_not.1 hflag)).1 ht
      have hw : (cut '=' option).1 = option := cut_alone hcut
      rw [hw] at hf
      exact .item (.apart hf) hsound hnew (ih h)
  · intro h
    induction h with
    | done => rfl
    | item hw hsound hnew _ ih =>
      cases hw with
      | @joined flag hf =>
        have hflag := flags_of_item hf
        have ht := (take_iff hflag).2 ⟨_, hf, rfl, hsound, hnew, rfl⟩
        unfold parseOptions
        simp only [List.singleton_append, cut_joined (no_equals hflag), hflag, ht, not_true,
          if_false, ih]
      | @apart flag hf =>
        have hflag := flags_of_item hf
        have ht := (take_iff hflag).2 ⟨_, hf, rfl, hsound, hnew, rfl⟩
        have hcut : cut '=' flag = (flag, none) := cut_none_iff.2 ⟨no_equals hflag, rfl⟩
        unfold parseOptions
        simp only [List.cons_append, List.nil_append, hcut, hflag, ht, not_true, if_false, ih]

/-- What was bound stays bound, under distinct names; the last reason stands. -/
structure Sums (identifier : String → Bool) (t : Taken) (items : List Item) (t' : Taken) :
    Prop where
  sound : ∀ item ∈ items, item.Sound identifier
  distinct : (t'.bindings.map Prod.fst).Nodup
  bindings : t'.bindings = t.bindings ++ items.filterMap Item.binding?
  reason : t'.reason = ((items.filterMap Item.reason?).getLast?).getD t.reason

variable {items : List Item} {item : Item}

theorem sums_nil (h : (t.bindings.map Prod.fst).Nodup) : Sums identifier t [] t' ↔ t' = t := by
  constructor
  · intro hs
    have hb := hs.bindings
    have hr := hs.reason
    cases t
    cases t'
    simp_all
  · rintro rfl
    exact ⟨nofun, h, by simp, rfl⟩

theorem sums_cons : Sums identifier t (item :: items) t' ↔
    item.Sound identifier ∧ item.New t ∧ Sums identifier (t.add item) items t' := by
  cases item with
  | bind name ref =>
    constructor
    · rintro ⟨hsound, hd, hb, hr⟩
      have hb' : t'.bindings = t.bindings ++ [(name, ref)] ++ items.filterMap Item.binding? := by
        rw [hb, List.append_assoc]
        rfl
      refine ⟨hsound _ List.mem_cons_self, fun hm => ?_,
        fun i hi => hsound i (List.mem_cons_of_mem _ hi), hd, hb', hr⟩
      rw [hb, List.map_append, List.nodup_append] at hd
      exact hd.2.2 name hm name List.mem_cons_self rfl
    · rintro ⟨hi, -, hsound, hd, hb, hr⟩
      refine ⟨List.forall_mem_cons.2 ⟨hi, hsound⟩, hd, ?_, hr⟩
      rw [hb, Taken.add, List.append_assoc]
      rfl
  | why reason =>
    have hlast : ((Item.why reason :: items).filterMap Item.reason?).getLast?.getD t.reason =
        (items.filterMap Item.reason?).getLast?.getD reason := by
      change (reason :: items.filterMap Item.reason?).getLast?.getD t.reason = _
      rw [List.getLast?_cons]
      rfl
    constructor
    · rintro ⟨hsound, hd, hb, hr⟩
      exact ⟨trivial, trivial, fun i hi => hsound i (List.mem_cons_of_mem _ hi), hd, hb,
        hr.trans hlast⟩
    · rintro ⟨-, -, hsound, hd, hb, hr⟩
      exact ⟨List.forall_mem_cons.2 ⟨trivial, hsound⟩, hd, hb, hr.trans hlast.symm⟩

theorem Item.New.distinct (hnew : item.New t) (h : (t.bindings.map Prod.fst).Nodup) :
    ((t.add item).bindings.map Prod.fst).Nodup := by
  cases item with
  | bind name ref =>
    rw [Taken.add, List.map_append, List.nodup_append]
    refine ⟨h, List.nodup_singleton _, fun a ha b hb hab => hnew ?_⟩
    rwa [hab, List.mem_singleton.1 hb] at ha
  | why => exact h

theorem says_iff {options : List String} (h : (t.bindings.map Prod.fst).Nodup) :
    Says identifier t options t' ↔ ∃ items words, List.Forall₂ Item.Written items words ∧
      options = words.flatten ∧ Sums identifier t items t' := by
  constructor
  · intro hs
    induction hs with
    | done => exact ⟨[], [], .nil, rfl, (sums_nil h).2 rfl⟩
    | @item _ _ item words _ hw hsound hnew _ ih =>
      obtain ⟨items, wordss, hall, rfl, hsums⟩ := ih (hnew.distinct h)
      exact ⟨item :: items, words :: wordss, .cons hw hall, rfl,
        sums_cons.2 ⟨hsound, hnew, hsums⟩⟩
  · rintro ⟨items, wordss, hall, rfl, hsums⟩
    induction hall generalizing t with
    | nil =>
      rw [(sums_nil h).1 hsums]
      exact .done _
    | cons hw _ ih =>
      obtain ⟨hsound, hnew, hsums⟩ := sums_cons.1 hsums
      exact .item hw hsound hnew (ih (hnew.distinct h) hsums)

/-! ## The command line -/

theorem parse_at {options command : List String} (h : "--" ∉ options) :
    parse identifier (options ++ "--" :: command) =
      if command = [] then .error .noCommand
      else
        match parseOptions identifier ⟨[], ""⟩ options with
        | .error e => .error e
        | .ok t => if t.bindings = [] then .error .nothingToFetch else .ok (t, command) := by
  have hsplit : (options ++ "--" :: command).idxOf "--" = options.length := by
    rw [List.idxOf_append_of_notMem h, List.idxOf_cons_self, Nat.add_zero]
  rw [parse, if_neg (by simp)]
  simp only [hsplit, List.take_left']
  rw [← List.drop_drop, List.drop_left, List.drop_one, List.tail_cons] <;> rfl

/-- The command lines that are accepted, and what is taken of them: options that each say one thing,
with at least one binding, none of a name twice, and after the first `--` the command. -/
theorem parse_iff {args command : List String} {t : Taken} :
    parse identifier args = .ok (t, command) ↔
      ∃ items words, List.Forall₂ Item.Written items words ∧
        args = words.flatten ++ "--" :: command ∧ "--" ∉ words.flatten ∧ command ≠ [] ∧
        t.bindings ≠ [] ∧ Sums identifier ⟨[], ""⟩ items t := by
  constructor
  · intro h
    have hmem : "--" ∈ args := by
      unfold parse at h
      split at h
      · cases h
      · next hm => exact not_not.1 hm
    obtain ⟨options, rest, rfl, hno⟩ := List.eq_append_cons_of_mem hmem
    rw [parse_at hno] at h
    split at h
    · cases h
    next hc =>
    split at h
    · cases h
    next t' ht =>
    split at h
    · cases h
    next hb =>
    cases h
    obtain ⟨items, words, hall, rfl, hsums⟩ :=
      (says_iff (t := ⟨[], ""⟩) List.nodup_nil).1 (parseOptions_iff.1 ht)
    exact ⟨items, words, hall, rfl, hno, hc, hb, hsums⟩
  · rintro ⟨items, words, hall, rfl, hno, hc, hb, hsums⟩
    have ht := parseOptions_iff.2 ((says_iff (t := ⟨[], ""⟩) List.nodup_nil).2
      ⟨items, words, hall, rfl, hsums⟩)
    rw [parse_at hno, if_neg hc, ht]
    exact if_neg hb

end SecretExec

/-! ## The request -/

theorem sums_bound {items : List Item} {t : Taken} (h : Sums identifier ⟨[], ""⟩ items t)
    {x : String × String} (hx : x ∈ t.bindings) :
    identifier x.1 = true ∧ ∃ ref, parseRef x.2 = .ok ref := by
  rw [h.bindings, List.nil_append] at hx
  obtain ⟨item, hi, hb⟩ := List.mem_filterMap.1 hx
  cases item with
  | bind name ref =>
    cases hb
    exact (h.sound _ hi).2
  | why => cases hb

theorem binding_record {name ref : String} {r : SecretRef} (hname : identifier name = true)
    (href : parseRef ref = .ok r) :
    binding identifier shown (Internal.record [("env", .str name), ("ref", .str ref)]) =
      .ok (name, r) := by
  have henv : get "env" (Internal.record [("env", .str name), ("ref", .str ref)]) =
      some (.str name) := Internal.get_record ..
  have href' : get "ref" (Internal.record [("env", .str name), ("ref", .str ref)]) =
      some (.str ref) := Internal.get_record ..
  unfold Internal.record at henv href' ⊢
  simp only [binding, henv, href', strOr, hname, href, not_true, if_false]

/-- The references of the bindings. -/
def Read (bindings : List (String × String)) (refs : List (String × SecretRef)) : Prop :=
  List.Forall₂ (fun x y => y.1 = x.1 ∧ parseRef x.2 = .ok y.2) bindings refs

theorem exists_read {bindings : List (String × String)}
    (h : ∀ x ∈ bindings, identifier x.1 = true ∧ ∃ ref, parseRef x.2 = .ok ref) :
    ∃ refs, Read bindings refs ∧ (bindings.map fun x =>
      Internal.record [("env", .str x.1), ("ref", .str x.2)]).mapM (binding identifier shown) =
        .ok refs := by
  induction bindings with
  | nil => exact ⟨[], .nil, rfl⟩
  | cons x bindings ih =>
    obtain ⟨hx, hrest⟩ := List.forall_mem_cons.1 h
    obtain ⟨refs, hread, hm⟩ := ih hrest
    obtain ⟨hid, ref, href⟩ := hx
    refine ⟨(x.1, ref) :: refs, .cons ⟨rfl, href⟩ hread, ?_⟩
    rw [List.map_cons, List.mapM_cons, binding_record hid href, hm]
    rfl

/-- The broker reads of what the client posts what the client said, of five secrets at most. -/
theorem lease_payload {args command : List String} {t : Taken} (agent : String)
    (h : SecretExec.parse identifier args = .ok (t, command)) : ∃ refs, Read t.bindings refs ∧
      leaseRequest identifier shown agent (payload t command) =
        if maxSecretsPerRequest < (refs.map (·.2.name)).dedup.length then .error .tooMany
        else .ok ⟨agent, refs, t.reason, command⟩ := by
  obtain ⟨items, _, -, -, -, -, hne, hsums⟩ := parse_iff.1 h
  obtain ⟨refs, hread, hm⟩ := @exists_read _ shown _ fun x hx => sums_bound hsums hx
  refine ⟨refs, hread, ?_⟩
  have hcommand : commandOf shown (some (.list (command.map .str))) = command := by
    rw [commandOf, List.map_map]
    exact List.map_id command
  obtain ⟨x, bindings, hb⟩ := List.exists_cons_of_ne_nil hne
  rw [hb, List.map_cons] at hm
  have hbindings : get "bindings" (payload t command) = some (.list (t.bindings.map fun x =>
      Internal.record [("env", .str x.1), ("ref", .str x.2)])) := Internal.get_record ..
  have hreason : get "reason" (payload t command) = some (.str t.reason) := Internal.get_record ..
  have hcmd : get "command" (payload t command) = some (.list (command.map .str)) :=
    Internal.get_record ..
  rw [hb, List.map_cons] at hbindings
  unfold payload Internal.record at hbindings hreason hcmd ⊢
  unfold Internal.record at hm
  simp only [leaseRequest, hbindings, hreason, hcmd, hcommand, strOr, hm]

/-! ## The values of a lease -/

variable {b : Broker} {d : Draws} {r : LeaseRequest} {tr : List Seen}

/-- The values are what the backend answered for the references, each under its own name. -/
def Valued (tr : List Seen) (bindings : List (String × SecretRef))
    (values : List (String × String)) : Prop :=
  List.Forall₂ (fun x v => v.1 = x.1 ∧ (⟨.read x.2, .ok v.2⟩ : Seen) ∈ tr) bindings values

theorem Valued.mono {tr' : List Seen} {bindings : List (String × SecretRef)}
    {values : List (String × String)} (h : Valued tr bindings values) (hs : tr ⊆ tr') :
    Valued tr' bindings values :=
  h.imp fun _ _ ⟨hk, hv⟩ => ⟨hk, hs hv⟩

theorem exec_readAll {bindings : List (String × SecretRef)} {values : List (String × String)}
    (h : Exec (readAll bindings) tr (.ok (.ok values))) : Valued tr bindings values := by
  induction bindings generalizing tr values with
  | nil =>
    cases h
    exact .nil
  | cons x bindings ih =>
    cases h with
    | @call _ _ y tr' _ h =>
      cases y with
      | error e => cases e <;> cases h
      | ok value =>
        obtain ⟨tr₁, tr₂, rest, rfl, h₁, h₂⟩ := exec_bind_ok.1 h
        obtain ⟨rfl, hv⟩ := exec_pure.1 h₂
        cases rest with
        | error => cases hv
        | ok rest =>
          cases hv
          have hrest : Valued (⟨.read x.2, .ok value⟩ :: (tr₁ ++ [])) bindings rest :=
            (ih h₁).mono fun y hy => List.mem_cons_of_mem _ (List.mem_append_left _ hy)
          exact .cons ⟨rfl, List.mem_cons_self⟩ hrest

theorem serve_values {verdicts : Verdicts} {uncovered : List String} {decisions : Decisions}
    {grantIds : GrantIds} {approver : String} {result : LeaseResult}
    (h : Exec (serve b d r verdicts uncovered decisions grantIds approver) tr (.ok result))
    (hg : result.granted = true) :
    ∃ values, result.values = Dict.ofPairs values ∧ Valued tr r.bindings values := by
  obtain ⟨tr₁, tr₂, values, rfl, h₁, h2⟩ := exec_bind_ok.1 h
  cases values with
  | error sealed =>
    rw [(refuse_empty h2).1] at hg
    cases hg
  | ok values =>
    obtain ⟨_, _, _, rfl, -, h3⟩ := exec_bind_ok.1 h2
    refine ⟨values, ?_, (exec_readAll h₁).mono (List.subset_append_left ..)⟩
    split at h3
    · obtain ⟨_, _, _, _, _, h4⟩ := exec_bind_ok.1 h3
      cases h4
      rfl
    · cases h3
      rfl

/-- A granted lease carries a value for each binding. -/
theorem lease_values {result : LeaseResult} (h : Exec (lease b d r) tr (.ok result))
    (hg : result.granted = true) :
    ∃ values, result.values = Dict.ofPairs values ∧ Valued tr r.bindings values := by
  have hempty {tr : List Seen} {verdicts : Verdicts} {governing : Decision} {approver : String}
      {grantIds : GrantIds} {P : Prop}
      (h : Exec (refuse d r verdicts governing approver grantIds) tr (.ok result)) : P := by
    rw [(refuse_empty h).1] at hg
    cases hg
  obtain ⟨tr₁, _, policies, rfl, -, h2⟩ := exec_bind_ok.1 h
  dsimp only at h2
  split at h2
  · exact hempty h2
  obtain ⟨tr₂, _, state, rfl, -, h3⟩ := exec_bind_ok.1 h2
  split at h3
  · exact hempty h3
  obtain ⟨tr₃, tr₄, covered, rfl, -, h4⟩ := exec_bind_ok.1 h3
  have hlift {tr : List Seen} (hs : tr ⊆ tr₄)
      (hv : ∃ values, result.values = Dict.ofPairs values ∧ Valued tr r.bindings values) :
      ∃ values, result.values = Dict.ofPairs values ∧
        Valued (tr₁ ++ (tr₂ ++ (tr₃ ++ tr₄))) r.bindings values := by
    obtain ⟨values, hvalues, hvalued⟩ := hv
    refine ⟨values, hvalues, hvalued.mono fun x hx => ?_⟩
    simp [hs hx]
  split at h4
  · exact hlift (List.Subset.refl _) (serve_values h4 hg)
  obtain ⟨tr₅, _, answer, rfl, -, h5⟩ := exec_bind_ok.1 h4
  cases answer with
  | none => exact hempty h5
  | some answer =>
    dsimp only at h5
    split at h5
    · exact hempty h5
    obtain ⟨_, tr₆, _, rfl, -, h6⟩ := exec_bind_ok.1 h5
    exact hlift (fun x hx => by simp [hx]) (serve_values h6 hg)

/-! ## What the command sees -/

theorem lookup_updated {environ values : List (String × String)} (hd : Dict.Distinct values)
    (name : String) : (updated environ values).lookup name =
      (values.lookup name).or (environ.lookup name) := by
  induction values generalizing environ with
  | nil => rfl
  | cons x values ih =>
    obtain ⟨hnew, hd⟩ := List.nodup_cons.1 hd
    change (updated (Dict.assign x.1 x.2 environ) values).lookup name = _
    rw [ih hd, Dict.lookup_assign, List.lookup_cons]
    by_cases hname : name = x.1
    · rw [if_pos hname, hname, Dict.lookup_eq_none.2 hnew, beq_self_eq_true]
      rfl
    · rw [if_neg hname, beq_false_of_ne hname]

/-- The command is run where the lease was granted, and nowhere else. -/
theorem finish_sent {environ : List (String × String)} {command cmd : List String}
    {env : List (String × String)} {res : Except Exc Response} :
    finish shown environ command (Response.sent res) = .runs cmd env ↔
      cmd = command ∧ ∃ values, res = .ok (.granted values) ∧ env = updated environ values := by
  cases res with
  | error => simp [Response.sent, finish]
  | ok response =>
    cases response with
    | notAnAgent => simp [Response.sent, finish]
    | malformed => simp [Response.sent, finish]
    | refused status =>
      have hgranted : get "granted" (Internal.record [("granted", .bool false),
        ("status", .str status)]) = some (.bool false) := Internal.get_record ..
      have hstatus : get "status" (Internal.record [("granted", .bool false),
        ("status", .str status)]) = some (.str status) := Internal.get_record ..
      simp [Response.sent, finish, hgranted, hstatus]
    | granted values =>
      have hgranted : get "granted" (Internal.record [("granted", .bool true), ("values",
        Internal.record (values.map fun x => (x.1, .str x.2)))]) = some (.bool true) :=
        Internal.get_record ..
      have hvalues : get "values" (Internal.record [("granted", .bool true), ("values",
        Internal.record (values.map fun x => (x.1, .str x.2)))]) =
          some (Internal.record (values.map fun x => (x.1, .str x.2))) := Internal.get_record ..
      have hrun : finish shown environ command (Response.sent (.ok (.granted values))) =
          .runs command (updated environ values) := by
        cases values with
        | nil => simp only [Response.sent, finish, hgranted, hvalues]; rfl
        | cons x values =>
          have hfilter : (some (Internal.record ((x :: values).map fun x =>
              (x.1, PyValue.str x.2)))).filter truthy = some (.dict (((x :: values).map fun x =>
                (x.1, PyValue.str x.2)).map fun x => (Key.str x.1, x.2))) := rfl
          have htexts : (((x :: values).map fun x => (x.1, PyValue.str x.2)).map fun x =>
              ((Key.str x.1, x.2) : Key × PyValue)).map
                (fun x => (x.1.text.getD "", strOf shown x.2)) = x :: values := by
            rw [List.map_map, List.map_map]
            exact List.map_id _
          simp only [Response.sent, finish, hgranted, hvalues, hfilter, htexts]
          rfl
      rw [hrun]
      constructor
      · intro h
        cases h
        exact ⟨rfl, values, rfl, rfl⟩
      · rintro ⟨rfl, _, h, rfl⟩
        cases h
        rfl

theorem keys_eq {α β : Type} {R : String × α → String × β → Prop} {xs : List (String × α)}
    {ys : List (String × β)} (h : List.Forall₂ R xs ys) (hR : ∀ x y, R x y → y.1 = x.1) :
    ys.map Prod.fst = xs.map Prod.fst := by
  induction h with
  | nil => rfl
  | cons hxy _ ih => rw [List.map_cons, List.map_cons, hR _ _ hxy, ih]

theorem Valued.value {bindings : List (String × SecretRef)} {values : List (String × String)}
    (h : Valued tr bindings values) {x : String × SecretRef} (hx : x ∈ bindings) :
    ∃ value, (x.1, value) ∈ values ∧ (⟨.read x.2, .ok value⟩ : Seen) ∈ tr := by
  unfold Valued at h
  induction h with
  | nil => cases hx
  | @cons y v _ _ hyv _ ih =>
    rcases List.mem_cons.1 hx with rfl | hx
    · exact ⟨v.2, by rw [← hyv.1]; exact List.mem_cons_self, hyv.2⟩
    · obtain ⟨value, hm, hread⟩ := ih hx
      exact ⟨value, List.mem_cons_of_mem _ hm, hread⟩

/-- The command `secret-exec` runs is the one it was given, and it sees the environment it would see
anyway but for the variables that were asked for: each holds what the backend answered for its
reference, in a lease every policy permits and that was cleared for each of the secrets. -/
theorem secret_exec_runs {args command cmd : List String} {t : Taken} {agent : String}
    {environ env : List (String × String)} {res : Except Exc Response}
    (hparse : SecretExec.parse identifier args = .ok (t, command))
    (h : Exec (door identifier shown b d agent (some (payload t command))) tr res)
    (hrun : finish shown environ command (Response.sent res) = .runs cmd env) :
    cmd = command ∧ ∃ refs, Read t.bindings refs ∧
      (∀ x ∈ refs, Served b d ⟨agent, refs, t.reason, command⟩ tr x.2.name ∧
        ∃ value, (⟨.read x.2, .ok value⟩ : Seen) ∈ tr ∧ env.lookup x.1 = some value) ∧
      ∀ name, name ∉ t.bindings.map Prod.fst → env.lookup name = environ.lookup name := by
  obtain ⟨rfl, values, rfl, rfl⟩ := finish_sent.1 hrun
  obtain ⟨refs, hread, hrequest⟩ := @lease_payload _ shown _ _ _ agent hparse
  refine ⟨rfl, refs, hread, ?_⟩
  unfold door at h
  split at h
  · cases h
  rw [Option.getD_some, hrequest] at h
  split at h
  · cases h
  next r hr =>
  split at hr
  · cases hr
  cases hr
  obtain ⟨tr₁, tr₂, result, rfl, h₁, h₂⟩ := exec_bind_ok.1 h
  obtain ⟨rfl, hresponse⟩ := exec_pure.1 h₂
  have hg : result.granted = true := by
    apply Classical.byContradiction
    intro hg
    rw [LeaseResult.response, if_pos hg] at hresponse
    cases hresponse
  rw [LeaseResult.response, if_neg (not_not.2 hg)] at hresponse
  cases hresponse
  obtain ⟨values, hvalues, hvalued⟩ := lease_values h₁ hg
  -- each variable is bound once, so the values are there as they were read
  have hnames : values.map Prod.fst = t.bindings.map Prod.fst :=
    (keys_eq hvalued fun _ _ h => h.1).trans (keys_eq hread fun _ _ h => h.1)
  obtain ⟨items, _, -, -, -, -, -, hsums⟩ := parse_iff.1 hparse
  have hd : Dict.Distinct values := by
    rw [Dict.Distinct, hnames]
    exact hsums.distinct
  rw [hvalues, Dict.ofPairs_of_distinct hd]
  have hserved : ∀ name ∈ LeaseRequest.names ⟨agent, refs, t.reason, cmd⟩,
      Served b d ⟨agent, refs, t.reason, cmd⟩ tr₁ name := by
    rcases lease_safe h₁ with hempty | ⟨-, hserved⟩
    · rw [(hempty result rfl).1] at hg
      cases hg
    · exact hserved
  rw [List.append_nil]
  constructor
  · intro x hx
    obtain ⟨value, hm, hv⟩ := hvalued.value hx
    refine ⟨hserved _ (mem_names.2 (List.mem_map_of_mem hx)), value, hv, ?_⟩
    rw [lookup_updated hd, hd.lookup hm]
    rfl
  · intro name hname
    rw [lookup_updated hd, Dict.lookup_eq_none.2 (hnames ▸ hname)]
    rfl

namespace Sample

def args : List String :=
  ["--env", "TOKEN=vault://github", "--reason=to push", "--", "git", "push"]

def asked : Taken := ⟨[("TOKEN", "vault://github")], "to push"⟩

def exchange : List Seen × Except Exc Response :=
  (door (· ≠ "") (fun _ => "") broker draws "ops" (some (payload asked ["git", "push"]))).runWith
    (answers (policy .always []))

end Sample

theorem secret_exec_runs_sample : ["git", "push"] = ["git", "push"] ∧
    ∃ refs, Read Sample.asked.bindings refs ∧
      (∀ x ∈ refs,
        Served Sample.broker Sample.draws ⟨"ops", refs, "to push", ["git", "push"]⟩ Sample.exchange.1
          x.2.name ∧
        ∃ value, (⟨.read x.2, .ok value⟩ : Seen) ∈ Sample.exchange.1 ∧
          [("HOME", "/root"), ("TOKEN", "s3cret")].lookup x.1 = some value) ∧
      ∀ name, name ∉ Sample.asked.bindings.map Prod.fst →
        [("HOME", "/root"), ("TOKEN", "s3cret")].lookup name = [("HOME", "/root")].lookup name := by
  have hparse : SecretExec.parse (· ≠ "") Sample.args =
      .ok (Sample.asked, ["git", "push"]) := by decide
  have hrun : finish (fun _ => "") [("HOME", "/root")] ["git", "push"]
      (Response.sent Sample.exchange.2) =
        .runs ["git", "push"] [("HOME", "/root"), ("TOKEN", "s3cret")] := by
    decide
  exact secret_exec_runs hparse (exec_runWith _ _) hrun

end Ward
