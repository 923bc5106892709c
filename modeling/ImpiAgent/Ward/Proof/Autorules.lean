import ImpiAgent.Ward.Autorules

/-!
# What a stored rule covers

A rule the parser accepts is read back from the store as it was (`decode_encode`) and from its
written form as it was (`parse_unparse`), and whatever requests store policies, only such rules are
ever decoded (`accepted_run`). From a text that was not stored this way `decode` also takes the rule
the parser refuses for covering every command: exactly the line that says so (`exact_iff`).
-/

namespace Ward

/-- What the parser lets through. -/
structure Accepted (rule : Rule) : Prop where
  nonempty : rule ≠ []
  limited : rule ≠ [anyRest]
  placed : anyRest ∉ rule.dropLast

/-- Every word of a rule is written so that the reader of words gives it back. -/
theorem writes_part (part : String) :
    Shlex.Writes (if part = anyRest then part else Text.shlexQuote part).toList part.toList := by
  split
  · next h =>
    subst h
    exact Shlex.writes_ordinary (by decide) (List.forall_mem_singleton.2 (by decide))
  · exact Shlex.writes_shlexQuote part

theorem split_unparse (rule : Rule) :
    Shlex.split (unparse rule).toList = .ok (rule.map String.toList) := by
  have h : List.Forall₂ Shlex.Writes
      (rule.map fun part => (if part = anyRest then part else Text.shlexQuote part).toList)
      (rule.map String.toList) := by
    induction rule with
    | nil => exact .nil
    | cons part rule ih => exact .cons (writes_part part) ih
  have hs := Shlex.split_words h
  rw [unparse, String.toList_intercalate, List.map_map]
  exact hs

theorem parse_cases {text : String} {rule : Rule} (h : parse text = .ok rule) :
    ∃ words, Shlex.split text.toList = .ok words ∧ rule = words.map String.ofList ∧
      Accepted rule := by
  unfold parse at h
  split at h
  · cases h
  next words hw =>
  dsimp only at h
  split at h
  · cases h
  next hn =>
  split at h
  · cases h
  next hl =>
  split at h
  · cases h
  next hp =>
  obtain rfl := Except.ok.inj h
  exact ⟨words, hw, rfl, hn, hl, hp⟩

theorem parse_unparse {rule : Rule} (h : Accepted rule) : parse (unparse rule) = .ok rule := by
  have hm : (rule.map String.toList).map String.ofList = rule := by simp [Function.comp_def]
  simp only [parse, split_unparse, hm]
  rw [if_neg h.nonempty, if_neg h.limited, if_neg h.placed]

theorem decodeLine_dumps {rule : Rule} (h : rule ≠ []) :
    decodeLine (Ascii.dumps (rule.map String.toList)) = some rule := by
  obtain ⟨word, argv, rfl⟩ := List.exists_cons_of_ne_nil h
  have hne : Ascii.dumps ((word :: argv).map String.toList) ≠ [] := by simp [Ascii.dumps]
  simp only [decodeLine, Ascii.strip_dumps, if_neg hne, Ascii.loads_dumps]
  simp [Function.comp_def]

theorem lines_intercalate : ∀ {parts : List Text.Str}, parts ≠ [] →
    (∀ part ∈ parts, Text.Unbroken part) → Text.lines (['\n'].intercalate parts) = parts
  | [], h, _ => absurd rfl h
  | [part], _, h => by
    simpa using Text.lines_of_unbroken (h part List.mem_cons_self)
  | part :: next :: parts, _, h => by
    have ih := @lines_intercalate (next :: parts) (by simp)
      fun p hp => h p (List.mem_cons_of_mem _ hp)
    rw [List.intercalate_cons_cons, List.append_assoc, List.singleton_append,
      Text.lines_append_break (by decide), ih, Text.lines_of_unbroken (h part List.mem_cons_self)]
    rfl

theorem decode_encode {rules : List Rule} (h : ∀ rule ∈ rules, rule ≠ []) :
    decode (encode rules) = rules := by
  rcases eq_or_ne rules [] with rfl | hne
  · decide
  have hlines : Text.lines (encode rules).toList =
      rules.map fun rule => Ascii.dumps (rule.map String.toList) := by
    rw [encode, String.toList_intercalate, List.map_map]
    simp only [Function.comp_def, String.toList_ofList]
    refine lines_intercalate (by simpa using hne) fun part hpart => ?_
    obtain ⟨rule, -, rfl⟩ := List.mem_map.1 hpart
    exact Ascii.unbroken_dumps _
  rw [decode, hlines, List.filterMap_map]
  clear hlines hne
  induction rules with
  | nil => rfl
  | cons rule rules ih =>
    have hd : (decodeLine ∘ fun rule : Rule => Ascii.dumps (rule.map String.toList)) rule =
        some rule := decodeLine_dumps (h rule List.mem_cons_self)
    rw [List.filterMap_cons_some hd, ih fun r hr => h r (List.mem_cons_of_mem _ hr)]

/-! ## Which rules come out of the store -/

theorem decodeLine_eq_some {line : Text.Str} {rule : Rule} :
    decodeLine line = some rule ↔
      rule ≠ [] ∧ Ascii.loads (Text.rstrip (Text.lstrip line)) = some (rule.map String.toList) := by
  unfold decodeLine
  dsimp only
  split
  · next hn =>
    rw [hn]
    exact ⟨nofun, fun h => absurd h.2 nofun⟩
  split
  · next word argv hl =>
    rw [hl, Option.some_inj, Option.some_inj]
    constructor
    · rintro rfl
      simp [Function.comp_def]
    · rintro ⟨-, h⟩
      simp [h, Function.comp_def]
  · next hl =>
    rw [hl]
    refine ⟨nofun, fun ⟨hr, h⟩ => absurd ?_ hr⟩
    simpa using (Option.some.inj h).symm
  · next hl =>
    rw [hl]
    exact ⟨nofun, fun h => absurd h.2 nofun⟩

theorem mem_decode {stored : String} {rule : Rule} :
    rule ∈ decode stored ↔ ∃ line ∈ Text.lines stored.toList, rule ≠ [] ∧
      Ascii.loads (Text.rstrip (Text.lstrip line)) = some (rule.map String.toList) := by
  simp only [decode, List.mem_filterMap, decodeLine_eq_some]

theorem ne_nil_of_mem_decode {stored : String} {rule : Rule} (h : rule ∈ decode stored) :
    rule ≠ [] := by
  obtain ⟨_, _, hn, _⟩ := mem_decode.1 h
  exact hn

/-- Every rule stored is one the parser let through. -/
def Sound (stored : Option String) : Prop := ∀ text ∈ stored, ∀ rule ∈ decode text, Accepted rule

theorem decode_encode_of_accepted {rules : List Rule} (h : ∀ rule ∈ rules, Accepted rule) :
    decode (encode rules) = rules :=
  decode_encode fun rule hr => (h rule hr).nonempty

theorem accepted_of_mapM {texts : List String} {rules : List Rule}
    (h : texts.mapM parse = .ok rules) : ∀ rule ∈ rules, Accepted rule := by
  induction texts generalizing rules with
  | nil =>
    obtain rfl := Except.ok.inj h
    simp
  | cons text texts ih =>
    rw [List.mapM_cons] at h
    cases hp : parse text with
    | error e => rw [hp] at h; cases h
    | ok rule =>
      cases hm : texts.mapM parse with
      | error e => rw [hp, hm] at h; cases h
      | ok rules' =>
        rw [hp, hm] at h
        obtain rfl := Except.ok.inj h
        obtain ⟨_, _, _, ha⟩ := parse_cases hp
        exact List.forall_mem_cons.2 ⟨ha, ih hm⟩

theorem putPolicy_sound {stored : Option String} (h : Sound stored)
    (written : Option (List String)) : Sound (putPolicy stored written) := by
  unfold putPolicy
  split
  · next text ht =>
    have hrules : ∃ rules, text = encode rules ∧ ∀ rule ∈ rules, Accepted rule := by
      cases written with
      | none =>
        refine ⟨_, (Except.ok.inj ht).symm, fun rule hr => ?_⟩
        cases stored with
        | none => simp at hr
        | some old => exact h old rfl rule hr
      | some texts =>
        cases hm : (texts.filter (Text.strip · ≠ "")).mapM parse with
        | error e => rw [putRules, hm] at ht; cases ht
        | ok rules =>
          rw [putRules, hm] at ht
          exact ⟨rules, (Except.ok.inj ht).symm, accepted_of_mapM hm⟩
    obtain ⟨rules, rfl, hr⟩ := hrules
    intro text htext
    obtain rfl := Option.some.inj htext
    rwa [decode_encode_of_accepted hr]
  · exact h

/-- Whatever requests store policies, in whatever order. -/
theorem accepted_run (puts : List (Option (List String))) : Sound (puts.foldl putPolicy none) := by
  have hrun : ∀ stored, Sound stored → Sound (puts.foldl putPolicy stored) := by
    induction puts with
    | nil => exact fun _ h => h
    | cons written puts ih => exact fun stored h => ih _ (putPolicy_sound h written)
  exact hrun none nofun

/-! ## What a rule covers -/

theorem ruleMatches_iff {rule : Rule} (h : rule ≠ []) (command : List String) :
    ruleMatches rule command = true ↔
      command = rule ∨ ∃ front, rule = front ++ [anyRest] ∧ front <+: command := by
  obtain ⟨front, last, rfl⟩ := (List.eq_nil_or_concat' rule).resolve_left h
  unfold ruleMatches
  simp only [List.getLast?_concat, List.dropLast_concat]
  split
  · next hl =>
    subst hl
    rw [decide_eq_true_eq, eq_comm, ← List.prefix_iff_eq_take]
    constructor
    · exact fun hp => .inr ⟨front, rfl, hp⟩
    · rintro (rfl | ⟨front', he, hp⟩)
      · exact List.prefix_append front _
      · rwa [List.append_cancel_right he]
  · next hl =>
    rw [decide_eq_true_eq]
    refine ⟨.inl, ?_⟩
    rintro (rfl | ⟨front', he, -⟩)
    · rfl
    · exact absurd (List.append_inj_right' he rfl) (by simpa using hl)

/-- The command without words is covered by the one rule that covers everything. -/
theorem ruleMatches_nil {rule : Rule} (h : rule ≠ []) :
    ruleMatches rule [] = true ↔ rule = [anyRest] := by
  rw [ruleMatches_iff h]
  constructor
  · rintro (rfl | ⟨front, rfl, hp⟩)
    · exact absurd rfl h
    · rw [List.prefix_nil.1 hp, List.nil_append]
  · rintro rfl
    exact .inr ⟨[], rfl, List.prefix_rfl⟩

/-- A rule of this deployment: one that may be stored, or one that `decode` reads from the text the
store holds. -/
def Held (stored : String) (rule : Rule) : Prop :=
  (∃ text, parse text = .ok rule) ∨ rule ∈ decode stored

theorem Held.ne_nil {stored : String} {rule : Rule} (h : Held stored rule) : rule ≠ [] := by
  rcases h with ⟨text, hp⟩ | hd
  · obtain ⟨_, _, _, ha⟩ := parse_cases hp
    exact ha.nonempty
  · exact ne_nil_of_mem_decode hd

/-- Rules survive the store and being written out, cover what they spell, and none of them covers
every command. -/
structure Exact (stored : String) : Prop where
  decoded : ∀ rules, (∀ rule ∈ rules, ∃ text, parse text = .ok rule) →
    decode (encode rules) = rules
  parsed : ∀ text rule, parse text = .ok rule → parse (unparse rule) = .ok rule
  spelled : ∀ rule, Held stored rule → ∀ command, ruleMatches rule command = true ↔
    command = rule ∨ ∃ front, rule = front ++ [anyRest] ∧ front <+: command
  limited : ∀ rule, Held stored rule → ∃ command, ruleMatches rule command = false

/-- A line of the stored text that is the JSON list of just `*`. -/
def Unlimited (line : Text.Str) : Prop :=
  Ascii.loads (Text.rstrip (Text.lstrip line)) = some [anyRest.toList]

/-- Exactly a stored line that is the list of just `*` lets a rule cover every command. -/
theorem exact_iff (stored : String) :
    Exact stored ↔ ∀ line ∈ Text.lines stored.toList, ¬Unlimited line := by
  constructor
  · intro h line hline hu
    have hmem : [anyRest] ∈ decode stored := mem_decode.2 ⟨line, hline, by simp, hu⟩
    obtain ⟨command, hc⟩ := h.limited _ (.inr hmem)
    have hcovers := (@ruleMatches_iff [anyRest] (by simp) command).2
      (.inr ⟨[], rfl, List.nil_prefix⟩)
    rw [hc] at hcovers
    cases hcovers
  · intro h
    refine ⟨fun rules hr => ?_, fun text rule hp => ?_, fun rule hr => ruleMatches_iff hr.ne_nil,
      fun rule hr => ⟨[], ?_⟩⟩
    · refine decode_encode_of_accepted fun rule hrule => ?_
      obtain ⟨text, hp⟩ := hr rule hrule
      obtain ⟨_, _, _, ha⟩ := parse_cases hp
      exact ha
    · obtain ⟨_, _, _, ha⟩ := parse_cases hp
      exact parse_unparse ha
    · rw [← Bool.not_eq_true, ruleMatches_nil hr.ne_nil]
      rcases hr with ⟨text, hp⟩ | hd
      · obtain ⟨_, _, _, ha⟩ := parse_cases hp
        exact ha.limited
      · rintro rfl
        obtain ⟨line, hline, -, hl⟩ := mem_decode.1 hd
        exact h line hline hl

/-- The store holds the rule that the parser refuses. -/
theorem bare_star : decode "[\"*\"]" = [[anyRest]] ∧
    (∀ command, ruleMatches [anyRest] command = true) ∧
    parse "*" = .error .everything ∧ ¬Exact "[\"*\"]" := by
  have hd : decode "[\"*\"]" = [[anyRest]] := by decide
  have hall : ∀ command, ruleMatches [anyRest] command = true := fun command =>
    (ruleMatches_iff (by simp) command).2 (.inr ⟨[], rfl, List.nil_prefix⟩)
  refine ⟨hd, hall, by decide, fun h => ?_⟩
  obtain ⟨command, hc⟩ := h.limited [anyRest] (.inr (by rw [hd]; exact List.mem_cons_self))
  rw [hall command] at hc
  cases hc

end Ward
