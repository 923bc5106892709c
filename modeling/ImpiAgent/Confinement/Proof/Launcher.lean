import ImpiAgent.Confinement.Launcher
import ImpiAgent.Lib.Attempt

/-!
# What a launched process can reach

The launcher reads back what `confined_command` wrote, but for a command, a port or a path it cannot
tell apart (`parse_written_iff`). The kernel takes the ruleset it makes of it: no rule grants what
the ABI does not know (`testBit_granted`, `confineSelf_iff`). So a process that is started can do
what its scope names and nothing else (`started_named`).
-/

namespace Confinement

open Posix (Resolved PurePath)

variable {other : Char → Option Nat} {found : String → Found} {abi : Nat}

/-! ## The command line -/

@[simp] theorem ofText_text (o : Opt) : Opt.ofText o.text = some o := by cases o <;> rfl

theorem text_ne_separator (o : Opt) : o.text ≠ "--" := by cases o <;> decide

/-- The options a list of rules is written as. -/
def written (rules : List (Opt × String)) : List String :=
  rules.flatMap fun rule => [rule.1.text, rule.2]

@[simp] theorem written_cons (rule : Opt × String) (rules : List (Opt × String)) :
    written (rule :: rules) = rule.1.text :: rule.2 :: written rules := rfl

theorem length_written (rules : List (Opt × String)) :
    (written rules).length = 2 * rules.length := by
  induction rules with
  | nil => rfl
  | cons rule rules ih =>
    rw [written_cons, List.length_cons, List.length_cons, List.length_cons, ih]
    omega

theorem mem_written {rules : List (Opt × String)} {s : String} (h : s ∈ written rules) :
    ∃ rule ∈ rules, s = rule.1.text ∨ s = rule.2 := by
  obtain ⟨rule, hr, hs⟩ := List.mem_flatMap.1 h
  exact ⟨rule, hr, by simpa using hs⟩

theorem separator_not_mem {rules : List (Opt × String)} (h : ∀ rule ∈ rules, rule.2 ≠ "--") :
    "--" ∉ written rules := by
  intro hm
  obtain ⟨rule, hr, hs | hs⟩ := mem_written hm
  · exact text_ne_separator rule.1 hs.symm
  · exact h rule hr hs.symm

theorem parseRules_written {rules rs : List (Opt × String)} :
    parseRules other (written rules) = .ok rs ↔
      rs = rules ∧ ∀ rule ∈ rules, rule.1 = .connectTcp → isPort other rule.2 = true := by
  induction rules generalizing rs with
  | nil =>
    have hnil : parseRules other (written []) = .ok [] := rfl
    rw [hnil, Except.ok.injEq, eq_comm]
    exact (and_iff_left fun _ h => absurd h List.not_mem_nil).symm
  | cons rule rules ih =>
    rw [written_cons, parseRules, ofText_text]
    dsimp only
    by_cases hp : rule.1 = .connectTcp ∧ isPort other rule.2 = false
    · simp [hp]
    · rw [if_neg hp, Attempt.map_ok]
      rw [not_and, Bool.not_eq_false] at hp
      constructor
      · rintro ⟨rs, hrs, rfl⟩
        obtain ⟨rfl, hports⟩ := ih.1 hrs
        exact ⟨rfl, List.forall_mem_cons.2 ⟨hp, hports⟩⟩
      · rintro ⟨rfl, hports⟩
        exact ⟨rules, ih.2 ⟨rfl, (List.forall_mem_cons.1 hports).2⟩, rfl⟩

/-- The rules end at the first separator. -/
theorem parse_at {front rest : List String} (h : "--" ∉ front) :
    parseCommandLine other (front ++ "--" :: rest) =
      if rest = [] then .error .noCommand
      else if front.length % 2 ≠ 0 then .error .oddOptions
      else (parseRules other front).map (·, rest) := by
  have hsplit : (front ++ "--" :: rest).idxOf "--" = front.length := by
    rw [List.idxOf_append_of_notMem h, List.idxOf_cons_self, Nat.add_zero]
  rw [parseCommandLine, if_neg (by simp)]
  simp only [hsplit, List.take_left']
  rw [← List.drop_drop, List.drop_left, List.drop_one, List.tail_cons]

theorem parse_written_iff {rules : List (Opt × String)} {command : List String}
    {out : List (Opt × String) × List String} :
    parseCommandLine other (written rules ++ "--" :: command) = .ok out ↔
      out = (rules, command) ∧ command ≠ [] ∧ (∀ rule ∈ rules, rule.2 ≠ "--") ∧
        ∀ rule ∈ rules, rule.1 = .connectTcp → isPort other rule.2 = true := by
  by_cases hsep : ∀ rule ∈ rules, rule.2 ≠ "--"
  · rw [parse_at (separator_not_mem hsep)]
    by_cases hc : command = []
    · simp [hc]
    · have heven : ¬(written rules).length % 2 ≠ 0 := by
        rw [length_written]
        omega
      rw [if_neg hc, if_neg heven, Attempt.map_ok]
      constructor
      · rintro ⟨rs, hrs, rfl⟩
        obtain ⟨rfl, hports⟩ := parseRules_written.1 hrs
        exact ⟨rfl, hc, hsep, hports⟩
      · rintro ⟨rfl, -, -, hports⟩
        exact ⟨rules, parseRules_written.2 ⟨rfl, hports⟩, rfl⟩
  · -- the first value that is a separator is taken for one, and leaves its option without a value
    refine ⟨fun h => ?_, fun h => absurd h.2.2.1 hsep⟩
    push Not at hsep
    obtain ⟨rule, hr, hv⟩ := hsep
    obtain ⟨first, before, after, hbefore, hfirst, rfl, -⟩ :=
      List.exists_of_eraseP (p := fun rule : Opt × String => rule.2 = "--") hr (by simpa using hv)
    rw [decide_eq_true_eq] at hfirst
    have hargv : written (before ++ first :: after) ++ "--" :: command =
        (written before ++ [first.1.text]) ++ "--" :: (written after ++ "--" :: command) := by
      simp [written, hfirst]
    have hfront : "--" ∉ written before ++ [first.1.text] := by
      rw [List.mem_append, List.mem_singleton, not_or]
      exact ⟨separator_not_mem fun rule hr => by simpa using hbefore rule hr,
        (text_ne_separator first.1).symm⟩
    have hodd : (written before ++ [first.1.text]).length % 2 ≠ 0 := by
      rw [List.length_append, length_written, List.length_singleton]
      omega
    rw [hargv, parse_at hfront, if_neg (by simp), if_pos hodd] at h
    cases h

theorem isPort_toString {port : Int} :
    isPort other (toString port) = true ↔ 0 < port ∧ port < 65536 := by
  rw [isPort, Decimal.number_toString]
  split
  · simp only [Option.any_some, Bool.and_eq_true, decide_eq_true_eq]
    omega
  · simp only [Option.any_none, Bool.false_eq_true, false_iff]
    omega

theorem launched_confined (scope : ProcessScope) (command : List String)
    (python launcher : String) :
    launched (confinedCommand scope command python launcher) =
      written scope.rules ++ "--" :: command := rfl

theorem forall_mem_rules {scope : ProcessScope} {p : Opt × String → Prop} :
    (∀ rule ∈ scope.rules, p rule) ↔ (∀ rule ∈ scope.paths, p (rule.1, rule.2.text)) ∧
      ∀ port ∈ scope.tcpPorts, p (.connectTcp, toString port) := by
  rw [ProcessScope.rules, List.forall_mem_append, List.forall_mem_map, List.forall_mem_map]

theorem connectTcp_not_mem_paths {scope : ProcessScope} {rule : Opt × PurePath}
    (h : rule ∈ scope.paths) : rule.1 ≠ .connectTcp := by
  simp only [ProcessScope.paths, List.mem_append, List.mem_map] at h
  rcases h with ((⟨_, -, rfl⟩ | ⟨_, -, rfl⟩) | ⟨_, -, rfl⟩) | ⟨_, -, rfl⟩ <;> simp

theorem isPort_separator : isPort other "--" = false := by
  have htext : "--".toList = ['-', '-'] := rfl
  rw [isPort, htext, Decimal.number_minus]
  rfl

/-- The launcher reads back the scope and the command, unless there is no command, a path that is
spelled like the separator, or a port that is none. -/
theorem parse_confined_iff {scope : ProcessScope} {command : List String}
    {python launcher : String} {out : List (Opt × String) × List String} :
    parseCommandLine other (launched (confinedCommand scope command python launcher)) = .ok out ↔
      out = (scope.rules, command) ∧ command ≠ [] ∧
        (∀ rule ∈ scope.paths, rule.2.text ≠ "--") ∧
        ∀ port ∈ scope.tcpPorts, 0 < port ∧ port < 65536 := by
  rw [launched_confined, parse_written_iff, forall_mem_rules, forall_mem_rules]
  refine and_congr_right fun _ => and_congr_right fun _ => ?_
  constructor
  · rintro ⟨⟨hpaths, -⟩, -, hports⟩
    exact ⟨hpaths, fun port hp => isPort_toString.1 (hports port hp rfl)⟩
  · rintro ⟨hpaths, hports⟩
    have hport (port) (hp : port ∈ scope.tcpPorts) : isPort other (toString port) = true :=
      isPort_toString.2 (hports port hp)
    refine ⟨⟨hpaths, fun port hp heq => ?_⟩, ?_, fun port hp _ => hport port hp⟩
    · have := hport port hp
      rw [show toString port = "--" from heq, isPort_separator] at this
      cases this
    · exact fun rule hr hc => absurd hc (connectTcp_not_mem_paths hr)

/-! ## What a rule grants -/

theorem testBit_mask (r r' : Right) : r'.mask.testBit r.bit = decide (r = r') := by
  cases r <;> cases r' <;> rfl

theorem testBit_when (p : Prop) [Decidable p] (rights : Nat) (r r' : Right) :
    (if p then rights ||| r'.mask else rights).testBit r.bit =
      (rights.testBit r.bit || decide (p ∧ r = r')) := by
  by_cases h : p
  · rw [if_pos h, Nat.testBit_or, testBit_mask]
    simp [h]
  · simp [h]

theorem testBit_if (p : Prop) [Decidable p] (r r' : Right) :
    (if p then r'.mask else 0).testBit r.bit = decide (p ∧ r = r') := by
  by_cases h : p <;> simp [h, testBit_mask]

theorem testBit_handled (habi : abi ≠ 0) (r : Right) :
    (handledAccess abi).testBit r.bit = true ↔ r.Known abi := by
  have hpos : 1 ≤ abi := by omega
  simp only [handledAccess, testBit_when, Nat.testBit_or, testBit_mask]
  cases r <;> simp [Right.Known, Right.since, hpos]

theorem testBit_granted {o : Opt} {isDir : Bool} {mask : Nat} (habi : abi ≠ 0)
    (h : grantedAccess o abi isDir = some mask) (r : Right) :
    mask.testBit r.bit = true ↔ o.Grants isDir r ∧ r.Known abi := by
  have hpos : 1 ≤ abi := by omega
  have hhandled := testBit_handled habi r
  -- each option, of a directory and of a file, and each right there is
  cases o <;> cases isDir <;>
    simp only [grantedAccess, Bool.false_eq_true, if_false, if_true, Option.map_some,
      Option.map_none, Option.some.injEq, reduceCtorEq] at h <;>
    obtain rfl := h <;>
    simp only [Nat.testBit_and, Nat.testBit_or, testBit_if, testBit_mask, Bool.and_eq_true,
      hhandled] <;>
    cases r <;> simp [Opt.Grants, Right.Known, Right.since, hpos]

/-- No rule grants a right that is not handled, and each grants some. -/
theorem granted_within {o : Opt} {isDir : Bool} {mask : Nat}
    (h : grantedAccess o abi isDir = some mask) :
    mask ≠ 0 ∧ Beneath.Within mask (handledAccess abi) := by
  cases o <;> cases isDir <;>
    simp only [grantedAccess, Bool.false_eq_true, if_false, if_true, Option.map_some,
      Option.map_none, Option.some.injEq, reduceCtorEq] at h <;>
    obtain rfl := h <;> unfold handledAccess <;> split_ifs <;> decide

theorem granted_isSome {o : Opt} (ho : o ≠ .connectTcp) (abi : Nat) (isDir : Bool) :
    ∃ mask, grantedAccess o abi isDir = some mask := by
  cases o with
  | connectTcp => exact absurd rfl ho
  | readable | writable | writableFile | mkdirOnly => cases isDir <;> exact ⟨_, rfl⟩

theorem handled_known (abi : Nat) : Beneath.Within (handledAccess abi) (knownFs abi) := by
  unfold handledAccess knownFs
  split_ifs <;> first | omega | decide

/-! ## The ruleset -/

/-- The rules the kernel is given for what the launcher finds. -/
def grantedRules (found : String → Found) (abi : Nat) (rules : List (Opt × String)) :
    List (Beneath.Rule String) :=
  rules.filterMap fun rule =>
    match found rule.2 with
    | .here place isDir => (grantedAccess rule.1 abi isDir).map fun mask => ⟨place, mask⟩
    | _ => none

/-- A domain with more rules beneath places. -/
def Domain.withRules (d : Domain) (rules : List (Beneath.Rule String)) : Domain :=
  { d with fs := { d.fs with rules := d.fs.rules ++ rules } }

@[simp] theorem Domain.withRules_nil (d : Domain) : d.withRules [] = d := by
  simp [Domain.withRules]

@[simp] theorem Domain.withRules_withRules (d : Domain) (rs rs' : List (Beneath.Rule String)) :
    (d.withRules rs).withRules rs' = d.withRules (rs ++ rs') := by
  simp [Domain.withRules]

theorem addRule_iff {d d' : Domain} {rule : Opt × String} (hd : d.fs.handled = handledAccess abi) :
    addRule found abi d rule = .ok d' ↔
      (rule.1 ≠ .connectTcp → found rule.2 ≠ .error) ∧
        d' = d.withRules (grantedRules found abi [rule]) := by
  obtain ⟨o, path⟩ := rule
  by_cases ho : o = .connectTcp
  · subst ho
    have hnone : grantedRules found abi [(.connectTcp, path)] = [] := by
      cases hf : found path with
      | missing | error => simp [grantedRules, hf]
      | here place isDir => cases isDir <;> simp [grantedRules, hf, grantedAccess]
    rw [hnone, addRule, if_pos rfl, Domain.withRules_nil]
    simp [eq_comm]
  · rw [addRule, if_neg ho]
    cases hf : found path with
    | missing => simp [grantedRules, hf, eq_comm]
    | error => simp [ho]
    | here place isDir =>
      obtain ⟨mask, hm⟩ := granted_isSome ho abi isDir
      obtain ⟨hne, hin⟩ := granted_within hm
      have hadd : d.addPath mask place = some (d.withRules [⟨place, mask⟩]) := by
        rw [Domain.addPath, Beneath.Ruleset.add_eq hne (hd ▸ hin)]
        rfl
      simp [grantedRules, hf, hm, hadd, eq_comm]

theorem grantedRules_cons (rule : Opt × String) (rules : List (Opt × String)) :
    grantedRules found abi (rule :: rules) =
      grantedRules found abi [rule] ++ grantedRules found abi rules := by
  rw [grantedRules, grantedRules, grantedRules, ← List.filterMap_append, List.singleton_append]

theorem addRules_iff {rules : List (Opt × String)} : ∀ {d d' : Domain},
    d.fs.handled = handledAccess abi →
      (rules.foldlM (addRule found abi) d = .ok d' ↔
        (∀ rule ∈ rules, rule.1 ≠ .connectTcp → found rule.2 ≠ .error) ∧
          d' = d.withRules (grantedRules found abi rules)) := by
  induction rules with
  | nil =>
    intro d d' _
    rw [List.foldlM_nil]
    simp [grantedRules, pure, Except.pure, eq_comm]
  | cons rule rules ih =>
    intro d d' hd
    rw [List.foldlM_cons, Attempt.bind_ok, grantedRules_cons, ← Domain.withRules_withRules,
      List.forall_mem_cons]
    have hnext : (d.withRules (grantedRules found abi [rule])).fs.handled = handledAccess abi := hd
    constructor
    · rintro ⟨e, he, h⟩
      obtain ⟨hrule, rfl⟩ := (addRule_iff hd).1 he
      obtain ⟨hrules, rfl⟩ := (ih hnext).1 h
      exact ⟨⟨hrule, hrules⟩, rfl⟩
    · rintro ⟨⟨hrule, hrules⟩, rfl⟩
      exact ⟨_, (addRule_iff hd).2 ⟨hrule, rfl⟩, (ih hnext).2 ⟨hrules, rfl⟩⟩

theorem addPorts_eq {ports : List Nat} : ∀ {d : Domain}, Beneath.Within (1 <<< connectTcp) d.net →
    (∀ port ∈ ports, port < 65536) →
      ports.foldlM addPort d =
        .ok { d with ports := d.ports ++ ports.map fun port => (port, 1 <<< connectTcp) } := by
  induction ports with
  | nil => 
    intro d _ _
    simp [pure, Except.pure]
  | cons port ports ih =>
    intro d hnet hports
    obtain ⟨hport, hrest⟩ := List.forall_mem_cons.1 hports
    have hadd : d.addPort (1 <<< connectTcp) port =
        some { d with ports := d.ports ++ [(port, 1 <<< connectTcp)] } :=
      if_pos ⟨by decide, hnet, hport⟩
    have hone : addPort d port = .ok { d with ports := d.ports ++ [(port, 1 <<< connectTcp)] } := by
      rw [addPort, hadd]
    have hnext := ih (d := { d with ports := d.ports ++ [(port, 1 <<< connectTcp)] }) hnet hrest
    rw [List.foldlM_cons, hone]
    refine hnext.trans ?_
    simp

/-- The domain a list of rules makes, on a kernel with Landlock. -/
def domainOf (found : String → Found) (abi : Nat) (ports : List Nat)
    (rules : List (Opt × String)) : Domain where
  fs := ⟨handledAccess abi, grantedRules found abi rules⟩
  net := if ports = [] then 0 else 1 <<< bindTcp ||| 1 <<< connectTcp
  ports := ports.map fun port => (port, 1 <<< connectTcp)
  scopes := if 6 ≤ abi then 1 <<< scopeAbstractUnixSocket ||| 1 <<< scopeSignal else 0

theorem createRuleset_eq (habi : abi ≠ 0) (net : Nat) (hnet : net = 0 ∨ netAbi ≤ abi ∧ net = 3) :
    createRuleset abi ⟨handledAccess abi, net,
        if 6 ≤ abi then 1 <<< scopeAbstractUnixSocket ||| 1 <<< scopeSignal else 0⟩
        (if abi < netAbi then 8 else if abi < 6 then 16 else 24) =
      some ⟨⟨handledAccess abi, []⟩, net, [],
        if 6 ≤ abi then 1 <<< scopeAbstractUnixSocket ||| 1 <<< scopeSignal else 0⟩ := by
  have hexecute : handledAccess abi ≠ 0 := by
    intro h0
    have := (testBit_handled habi .execute).2 (by simp only [Right.Known, Right.since]; omega)
    rw [h0, Nat.zero_testBit] at this
    cases this
  have hread : (RulesetAttr.mk (handledAccess abi) net
      (if 6 ≤ abi then 1 <<< scopeAbstractUnixSocket ||| 1 <<< scopeSignal else 0)).read
        (if abi < netAbi then 8 else if abi < 6 then 16 else 24) =
      ⟨handledAccess abi, net,
        if 6 ≤ abi then 1 <<< scopeAbstractUnixSocket ||| 1 <<< scopeSignal else 0⟩ := by
    have h4 : netAbi = 4 := rfl
    simp only [RulesetAttr.read, RulesetAttr.mk.injEq, true_and]
    constructor <;> split_ifs <;> omega
  have hknown : Beneath.Within net (knownNet abi) := by
    rcases hnet with rfl | ⟨h4, rfl⟩
    · exact Nat.zero_and _
    · rw [knownNet, if_neg (by unfold netAbi at h4; omega)]
      decide
  have hscopes : Beneath.Within
      (if 6 ≤ abi then 1 <<< scopeAbstractUnixSocket ||| 1 <<< scopeSignal else 0)
      (knownScopes abi) := by
    unfold knownScopes
    split_ifs <;> first | omega | decide
  rw [createRuleset, hread]
  exact if_pos ⟨handled_known abi, hknown, hscopes, fun h => hexecute h.1⟩

/-- No ruleset the launcher asks for is refused by the kernel it asks. -/
theorem confineSelf_iff {rules : List (Opt × String)} {d : Domain} (habi : abi ≠ 0)
    (hports : ∀ port ∈ tcpPorts other rules, port < 65536) :
    confineSelf other found abi rules = .ok d ↔
      (∀ rule ∈ rules, rule.1 ≠ .connectTcp → found rule.2 ≠ .error) ∧
        d = domainOf found abi (if netAbi ≤ abi then tcpPorts other rules else []) rules := by
  unfold confineSelf
  dsimp only
  generalize hp : (if netAbi ≤ abi then tcpPorts other rules else []) = ports
  have hlt : ∀ port ∈ ports, port < 65536 ∧ netAbi ≤ abi := by
    intro port hm
    rw [← hp] at hm
    split at hm
    · exact ⟨hports port hm, ‹_›⟩
    · cases hm
  rw [createRuleset_eq habi _ (by
    split
    · exact .inl rfl
    · next hne =>
      obtain ⟨port, hm⟩ := List.exists_mem_of_ne_nil ports hne
      exact .inr ⟨(hlt port hm).2, rfl⟩)]
  dsimp only
  have hfold : ports.foldlM addPort (⟨⟨handledAccess abi, []⟩,
      if ports = [] then 0 else 1 <<< bindTcp ||| 1 <<< connectTcp, [],
      if 6 ≤ abi then 1 <<< scopeAbstractUnixSocket ||| 1 <<< scopeSignal else 0⟩ : Domain) =
        .ok (domainOf found abi ports []) := by
    by_cases hnil : ports = []
    · rw [hnil]
      rfl
    · have hnet : Beneath.Within (1 <<< connectTcp) (1 <<< bindTcp ||| 1 <<< connectTcp) := by
        decide
      rw [if_neg hnil, addPorts_eq hnet fun port hm => (hlt port hm).1, domainOf, if_neg hnil]
      rfl
  rw [hfold]
  change rules.foldlM (addRule found abi) (domainOf found abi ports []) = .ok d ↔ _
  rw [addRules_iff rfl]
  rfl

/-! ## What is permitted -/

theorem mem_grantedRules {rules : List (Opt × String)} {r : Beneath.Rule String} :
    r ∈ grantedRules found abi rules ↔ ∃ rule ∈ rules, ∃ isDir,
      found rule.2 = .here r.place isDir ∧ grantedAccess rule.1 abi isDir = some r.mask := by
  rw [grantedRules, List.mem_filterMap]
  refine exists_congr fun rule => and_congr_right fun _ => ?_
  cases hf : found rule.2 with
  | missing | error => simp
  | here place isDir =>
    simp only [Option.map_eq_some_iff, Found.here.injEq]
    constructor
    · rintro ⟨mask, hm, rfl⟩
      exact ⟨isDir, ⟨rfl, rfl⟩, hm⟩
    · rintro ⟨_, ⟨rfl, rfl⟩, hm⟩
      exact ⟨r.mask, hm, rfl⟩

theorem permits_path_iff {rules : List (Opt × String)} {ports : List Nat} {right : Right}
    {place : Resolved} (habi : abi ≠ 0) :
    (domainOf found abi ports rules).Permits (.path right place) ↔
      (right.Known abi → ∃ rule ∈ rules, ∃ root isDir, found rule.2 = .here root isDir ∧
        root <+: place ∧ rule.1.Grants isDir right) := by
  unfold Domain.Permits Beneath.Ruleset.Allows domainOf
  dsimp only
  rw [testBit_handled habi]
  refine forall_congr' fun hknown => ?_
  constructor
  · rintro ⟨r, hr, hroot, hbit⟩
    obtain ⟨rule, hrule, isDir, hf, hm⟩ := mem_grantedRules.1 hr
    exact ⟨rule, hrule, r.place, isDir, hf, hroot, ((testBit_granted habi hm right).1 hbit).1⟩
  · rintro ⟨rule, hrule, root, isDir, hf, hroot, hg⟩
    have ho : rule.1 ≠ .connectTcp := by
      intro ho
      rw [ho] at hg
      exact hg
    obtain ⟨mask, hm⟩ := granted_isSome ho abi isDir
    exact ⟨⟨root, mask⟩, mem_grantedRules.2 ⟨rule, hrule, isDir, hf, hm⟩, hroot,
      (testBit_granted habi hm right).2 ⟨hg, hknown⟩⟩

theorem tcpPorts_rules {scope : ProcessScope} (h : ∀ port ∈ scope.tcpPorts, 0 < port) :
    tcpPorts other scope.rules = scope.tcpPorts.map Int.toNat := by
  have hpaths : (scope.paths.map fun rule => (rule.1, rule.2.text)).filter
      (fun rule => rule.1 = Opt.connectTcp) = [] := by
    rw [List.filter_eq_nil_iff]
    intro rule hr
    obtain ⟨path, hp, rfl⟩ := List.mem_map.1 hr
    simpa using connectTcp_not_mem_paths hp
  have hports : (scope.tcpPorts.map fun port => (Opt.connectTcp, toString port)).filter
      (fun rule => rule.1 = Opt.connectTcp) =
        scope.tcpPorts.map fun port => (Opt.connectTcp, toString port) := by
    rw [List.filter_eq_self]
    intro rule hr
    obtain ⟨port, -, rfl⟩ := List.mem_map.1 hr
    rfl
  rw [tcpPorts, ProcessScope.rules, List.filter_append, hpaths, hports, List.nil_append,
    List.filterMap_map, ← List.filterMap_eq_map]
  refine List.filterMap_congr fun port hp => ?_
  have hnum := Decimal.number_toString other port
  rwa [if_pos (Int.le_of_lt (h port hp))] at hnum

theorem exists_mem_rules {scope : ProcessScope} {p : Opt × String → Prop}
    (h : ∀ value, ¬p (.connectTcp, value)) :
    (∃ rule ∈ scope.rules, p rule) ↔ ∃ rule ∈ scope.paths, p (rule.1, rule.2.text) := by
  simp only [ProcessScope.rules, List.mem_append, or_and_right, exists_or]
  constructor
  · rintro (⟨rule, hr, hp⟩ | ⟨rule, hr, hp⟩)
    · obtain ⟨path, hm, rfl⟩ := List.mem_map.1 hr
      exact ⟨path, hm, hp⟩
    · obtain ⟨port, -, rfl⟩ := List.mem_map.1 hr
      exact absurd hp (h _)
  · rintro ⟨path, hm, hp⟩
    exact .inl ⟨_, List.mem_map_of_mem hm, hp⟩

theorem domain_named {scope : ProcessScope} (habi : abi ≠ 0)
    (hports : ∀ port ∈ scope.tcpPorts, 0 < port) (access : Access) :
    (domainOf found abi (if netAbi ≤ abi then tcpPorts other scope.rules else [])
      scope.rules).Permits access ↔ scope.Named found abi access := by
  rw [tcpPorts_rules hports]
  have hnil : scope.tcpPorts.map Int.toNat = [] ↔ scope.tcpPorts = [] := List.map_eq_nil_iff
  cases access with
  | path right place =>
    rw [permits_path_iff habi]
    unfold ProcessScope.Named
    refine forall_congr' fun _ => exists_mem_rules fun value => ?_
    rintro ⟨_, isDir, -, -, hg⟩
    exact hg
  | connect port =>
    unfold Domain.Permits ProcessScope.Named domainOf
    by_cases h4 : netAbi ≤ abi
    · by_cases hp : scope.tcpPorts = []
      · simp [hp]
      · rw [if_pos h4, if_neg (mt hnil.1 hp)]
        have hbit : (1 <<< bindTcp ||| 1 <<< connectTcp).testBit connectTcp = true := by decide
        have hone : (1 <<< connectTcp).testBit connectTcp = true := by decide
        simp only [hbit, h4, hp, ne_eq, not_false_eq_true, forall_const, List.map_map,
          List.mem_map, Function.comp_def]
        constructor
        · rintro ⟨_, ⟨z, hz, rfl⟩, hport, -⟩
          have := hports z hz
          obtain rfl : z = port := by
            simp only at hport
            omega
          exact hz
        · intro hm
          exact ⟨_, ⟨port, hm, rfl⟩, Int.toNat_natCast port, hone⟩
    · simp [h4]
  | bind port =>
    unfold Domain.Permits ProcessScope.Named domainOf
    by_cases h4 : netAbi ≤ abi
    · by_cases hp : scope.tcpPorts = []
      · simp [hp]
      · rw [if_pos h4, if_neg (mt hnil.1 hp)]
        have hbit : (1 <<< bindTcp ||| 1 <<< connectTcp).testBit bindTcp = true := by decide
        have hone : (1 <<< connectTcp).testBit bindTcp = false := by decide
        simp only [hbit, h4, hp, forall_const, iff_false, List.map_map, List.mem_map,
          Function.comp_def]
        rintro ⟨_, ⟨z, hz, rfl⟩, -, hbind⟩
        rw [hone] at hbind
        cases hbind
    · simp [h4]
  | signal =>
    unfold Domain.Permits ProcessScope.Named domainOf
    by_cases h6 : 6 ≤ abi
    · have hbit : (1 <<< scopeAbstractUnixSocket ||| 1 <<< scopeSignal).testBit scopeSignal =
          true := by decide
      simp only [h6, if_true, hbit, Bool.true_eq_false, false_iff]
      omega
    · simp [h6, Nat.not_le.1 h6]
  | abstractSocket =>
    unfold Domain.Permits ProcessScope.Named domainOf
    by_cases h6 : 6 ≤ abi
    · have hbit : (1 <<< scopeAbstractUnixSocket ||| 1 <<< scopeSignal).testBit
          scopeAbstractUnixSocket = true := by decide
      simp only [h6, if_true, hbit, Bool.true_eq_false, false_iff]
      omega
    · simp [h6, Nat.not_le.1 h6]

/-- A process that is started is the scope's command, and can do what the scope names, of what the
kernel can restrict, and nothing else. -/
theorem started_named {scope : ProcessScope} {command cmd : List String} {python launcher : String}
    {domain : Option Domain}
    (h : main other found abi (launched (confinedCommand scope command python launcher)) =
      .started domain cmd) :
    cmd = command ∧ ((abi = 0 ∧ domain = none) ∨ ∃ d, abi ≠ 0 ∧ domain = some d ∧
      ∀ access, d.Permits access ↔ scope.Named found abi access) := by
  unfold main at h
  split at h
  · cases h
  · next rules command' hparse =>
    obtain ⟨hout, -, -, hports⟩ := parse_confined_iff.1 hparse
    obtain ⟨rfl, rfl⟩ := Prod.mk.inj hout
    split at h
    · next h0 =>
      cases h
      exact ⟨rfl, .inl ⟨h0, rfl⟩⟩
    · next h0 =>
      split at h
      · cases h
      · next d hconfine =>
        cases h
        refine ⟨rfl, .inr ⟨d, h0, rfl, ?_⟩⟩
        have hlt : ∀ port ∈ tcpPorts other scope.rules, port < 65536 := by
          rw [tcpPorts_rules fun port hp => (hports port hp).1]
          intro port hm
          obtain ⟨z, hz, rfl⟩ := List.mem_map.1 hm
          have := hports z hz
          omega
        obtain ⟨-, rfl⟩ := (confineSelf_iff h0 hlt).1 hconfine
        exact domain_named h0 fun port hp => (hports port hp).1

namespace Sample

/-- A program that reads the system, writes one directory and connects to one port. -/
def scope : ProcessScope where
  readable := [.ofText "/usr", .ofText "/gone"]
  writable := [.ofText "/work"]
  writableFiles := []
  mkdirOnly := []
  tcpPorts := [443]
  env := []

def files (path : String) : Found :=
  if path = "/usr" then .here ["usr"] true
  else if path = "/work" then .here ["work"] true
  else .missing

def domain : Domain where
  fs := ⟨2 ^ 16 - 1, [⟨["usr"], 13⟩, ⟨["work"], 2 ^ 16 - 1⟩]⟩
  net := 3
  ports := [(443, 2)]
  scopes := 3

end Sample

theorem started_named_sample : ["pi"] = ["pi"] ∧ ((6 = 0 ∧ some Sample.domain = none) ∨
    ∃ d, 6 ≠ 0 ∧ some Sample.domain = some d ∧
      ∀ access, d.Permits access ↔ Sample.scope.Named Sample.files 6 access) := by
  have h : main (fun _ => none) Sample.files 6 (launched (confinedCommand Sample.scope ["pi"]
      "python3" "launcher.py")) = .started (some Sample.domain) ["pi"] := by decide +kernel
  exact started_named h

end Confinement
