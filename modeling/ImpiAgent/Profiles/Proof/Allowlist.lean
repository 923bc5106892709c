import ImpiAgent.Lib.Attempt
import ImpiAgent.Profiles.Allowlist
import ImpiAgent.Profiles.Proof.Entitled

/-!
# What the runtime reads of a profile's tools

Both regular expressions match what they describe (`isServerTools_iff`, `of_mcpToolOf`), the first
with a line feed behind it too. Joining and splitting give a list back that holds no comma and is
not one empty entry (`entries_intercalate_iff`), and what a gateway's list stands for the profile's
stands for (`standsFor_of_parse`): the runtime is given the profile's tools just when the list is
`Plain` (`listed_exactly_iff`).
-/

namespace Allowlist

open Json (PyValue Key)
open Text (Str)

/-! ## The regular expressions -/

theorem nil_mem_repeats (s : Str) : ([], s) ∈ repeats s := by
  fun_cases repeats s <;> simp

theorem mem_repeats_word {c : Char} {s g rest : Str} (hc : isWord c) (h : (g, rest) ∈ repeats s) :
    (c :: g, rest) ∈ repeats (c :: s) := by
  have hne : c ≠ '_' := by
    rintro rfl
    simp [isWord, isAlnum] at hc
  rw [repeats.eq_def]
  split
  · next heq => exact absurd (List.cons_eq_cons.1 heq).1 hne
  · next heq =>
    obtain ⟨rfl, rfl⟩ := List.cons_eq_cons.1 heq
    rw [if_pos hc]
    exact List.mem_append_left _ (List.mem_map_of_mem h)
  · next heq => cases heq

theorem mem_repeats_under {c : Char} {s g rest : Str} (hc : isWord c) (h : (g, rest) ∈ repeats s) :
    ('_' :: c :: g, rest) ∈ repeats ('_' :: c :: s) := by
  rw [repeats, if_pos hc]
  exact List.mem_append_left _ (List.mem_map_of_mem h)

theorem serverRest_of_mem {s : Str} : ∀ {g rest : Str}, (g, rest) ∈ repeats s →
    s = g ++ rest ∧ ServerRest g := by
  fun_induction repeats s with
  | case1 c s ih =>
    intro g rest h
    rcases List.mem_append.1 h with h | h
    · split at h
      · next hc =>
        obtain ⟨x, hx, heq⟩ := List.mem_map.1 h
        obtain ⟨rfl, rfl⟩ := Prod.mk.inj heq
        obtain ⟨rfl, hr⟩ := ih hx
        exact ⟨rfl, .under hc hr⟩
      · cases h
    · obtain ⟨rfl, rfl⟩ := Prod.mk.inj (List.mem_singleton.1 h)
      exact ⟨rfl, .nil⟩
  | case2 c s _ ih =>
    intro g rest h
    rcases List.mem_append.1 h with h | h
    · split at h
      · next hc =>
        obtain ⟨x, hx, heq⟩ := List.mem_map.1 h
        obtain ⟨rfl, rfl⟩ := Prod.mk.inj heq
        obtain ⟨rfl, hr⟩ := ih hx
        exact ⟨rfl, .word hc hr⟩
      · cases h
    · obtain ⟨rfl, rfl⟩ := Prod.mk.inj (List.mem_singleton.1 h)
      exact ⟨rfl, .nil⟩
  | case3 =>
    intro g rest h
    obtain ⟨rfl, rfl⟩ := Prod.mk.inj (List.mem_singleton.1 h)
    exact ⟨rfl, .nil⟩

theorem mem_repeats {s g rest : Str} : (g, rest) ∈ repeats s ↔ s = g ++ rest ∧ ServerRest g := by
  refine ⟨serverRest_of_mem, ?_⟩
  rintro ⟨rfl, h⟩
  induction h with
  | nil => exact nil_mem_repeats _
  | word hc _ ih => exact mem_repeats_word hc ih
  | under hc _ ih => exact mem_repeats_under hc ih

theorem mem_servers {s g rest : Str} : (g, rest) ∈ servers s ↔ s = g ++ rest ∧ Server g := by
  cases s with
  | nil =>
    refine iff_of_false (by simp [servers]) ?_
    rintro ⟨heq, c, _, rfl, -⟩
    cases heq
  | cons c s =>
    rw [servers]
    split
    · next hc =>
      rw [List.mem_map]
      constructor
      · rintro ⟨x, hx, heq⟩
        obtain ⟨rfl, rfl⟩ := Prod.mk.inj heq
        obtain ⟨rfl, hr⟩ := mem_repeats.1 hx
        exact ⟨rfl, c, x.1, rfl, hc, hr⟩
      · rintro ⟨heq, c', g', rfl, -, hr⟩
        obtain ⟨rfl, rfl⟩ := List.cons_eq_cons.1 heq
        exact ⟨(g', rest), mem_repeats.2 ⟨rfl, hr⟩, rfl⟩
    · next hc =>
      refine iff_of_false List.not_mem_nil ?_
      rintro ⟨heq, c', g', rfl, hc', -⟩
      exact hc ((List.cons_eq_cons.1 heq).1 ▸ hc')

theorem afterMcp_eq_some {s rest : Str} : afterMcp s = some rest ↔ s = mcpPrefix ++ rest := by
  unfold afterMcp
  split
  · next h =>
    obtain ⟨t, rfl⟩ := List.isPrefixOf_iff_prefix.1 h
    rw [Option.some.injEq, List.append_cancel_left_eq]
    exact iff_of_eq rfl
  · next h =>
    refine iff_of_false (by simp) ?_
    rintro rfl
    exact h (List.isPrefixOf_iff_prefix.2 (List.prefix_append _ _))

theorem toList_serverTools (server : Str) :
    (serverTools server).toList = mcpPrefix ++ server ++ Text.str "__*" := by
  simp [serverTools]

/-- The loader's pattern takes a server's tools, and those with a line feed behind them. -/
theorem isServerTools_iff {tool : String} : isServerTools tool ↔
    ∃ server, Server server ∧ (tool = serverTools server ∨ tool = serverTools server ++ "\n") := by
  simp only [isServerTools, Option.any_eq_true, List.any_eq_true, afterMcp_eq_some, Prod.exists,
    Bool.or_eq_true, decide_eq_true_eq, mem_servers, ← String.toList_inj, String.toList_append,
    toList_serverTools]
  constructor
  · rintro ⟨_, heq, server, tail, ⟨rfl, hs⟩, rfl | rfl⟩
    · exact ⟨server, hs, .inl (by rw [heq, List.append_assoc])⟩
    · exact ⟨server, hs, .inr (by rw [heq]; simp [Text.str])⟩
  · rintro ⟨server, hs, heq | heq⟩
    · exact ⟨_, by rw [heq, List.append_assoc], server, _, ⟨rfl, hs⟩, .inl rfl⟩
    · have hfeed : tool.toList = mcpPrefix ++ (server ++ Text.str "__*\n") := by
        rw [heq]
        simp [Text.str]
      exact ⟨_, hfeed, server, _, ⟨rfl, hs⟩, .inr rfl⟩

/-- What `_MCP_TOOL_OF` takes is a tool of the server it names, after that server's prefix. -/
theorem of_mcpToolOf {name : String} {server : Str} (h : mcpToolOf name = some server) :
    ∃ c rest, name.toList = mcpPrefix ++ server ++ '_' :: '_' :: c :: rest := by
  obtain ⟨s, hs, hfind⟩ := Option.bind_eq_some_iff.1 h
  obtain ⟨⟨g, tail⟩, hg, rfl⟩ := Option.map_eq_some_iff.1 hfind
  have hmatch := List.find?_some hg
  obtain ⟨rfl, -⟩ := mem_servers.1 (List.mem_of_find?_eq_some hg)
  dsimp only at hmatch
  split at hmatch
  · next c rest => exact ⟨c, rest, by rw [afterMcp_eq_some.1 hs, List.append_assoc]⟩
  · cases hmatch

/-! ## The entries -/

variable {tool e : String} {server : Str}

theorem not_wild_serverTools (h : Server server) : ¬Wild (serverTools server) :=
  fun hw => hw.2 ⟨server, h, rfl⟩

theorem not_edits_serverTools : ¬Edits (serverTools server) := by
  rintro ⟨c, hc, hedit⟩
  rw [toList_serverTools] at hc
  obtain rfl : 'm' = c := by simpa [mcpPrefix, Text.str] using hc
  simp at hedit

/-- With the line feed it is a pattern of its own. -/
theorem wild_feed : Wild (serverTools server ++ "\n") := by
  refine ⟨by simp [toList_serverTools, Text.str], ?_⟩
  rintro ⟨other, -, heq⟩
  have hlast := congrArg (fun s : String => s.toList.getLast?) heq
  simp [toList_serverTools, Text.str] at hlast

theorem strip_head {c : Char} (h : c ∈ e.toList.head?) (hc : Text.isSpace c = false) :
    c ∈ (Text.strip e).toList.head? := by
  obtain ⟨rest, heq⟩ : ∃ rest, e.toList = c :: rest := by
    cases hl : e.toList with
    | nil => simp [hl] at h
    | cons b l =>
      obtain rfl : b = c := by simpa [hl] using h
      exact ⟨l, rfl⟩
  have hback : ∃ l, (rest.reverse ++ [c]).dropWhile Text.isSpace = l ++ [c] := by
    induction rest.reverse with
    | nil => exact ⟨[], by simp [hc]⟩
    | cons b l ih =>
      rw [List.cons_append, List.dropWhile_cons]
      split
      · exact ih
      · exact ⟨b :: l, rfl⟩
  obtain ⟨l, hl⟩ := hback
  simp [Text.strip, Text.lstrip, Text.rstrip, heq, hc, hl]

/-- An entry the loader takes that is no server's is neither a pattern nor an edit. -/
theorem of_takes (h : takes e) : isServerTools e ∨ '*' ∉ e.toList ∧ ¬Edits e := by
  simp only [takes, Bool.or_eq_true, Bool.not_eq_true', Bool.or_eq_false_iff] at h
  refine h.imp_right fun ⟨hstar, hedit⟩ => ⟨by simpa using hstar, ?_⟩
  rintro ⟨c, hc, hpm⟩
  have hs : Text.isSpace c = false := by rcases hpm with rfl | rfl <;> rfl
  have hnot := (Option.any_eq_false _ _).1 hedit c (strip_head hc hs)
  rcases hpm with rfl | rfl <;> cases hnot

/-! ## The command line -/

section

variable {tools : List String}

theorem intercalate_ne_empty (hne : tools ≠ []) (hone : tools ≠ [""]) :
    ",".intercalate tools ≠ "" := by
  rcases tools with _ | ⟨t, _ | ⟨u, rest⟩⟩
  · exact absurd rfl hne
  · rw [String.intercalate_singleton]
    rintro rfl
    exact hone rfl
  · rw [String.intercalate_cons_cons]
    intro h
    have hlen := congrArg String.length h
    simp at hlen

theorem entries_intercalate (hone : tools ≠ [""]) (h : ∀ t ∈ tools, ',' ∉ t.toList) :
    entries (",".intercalate tools) = tools := by
  by_cases hne : tools = []
  · subst hne
    rfl
  rw [entries, if_neg (intercalate_ne_empty hne hone), Text.split, String.toList_intercalate]
  have hsplit : ([','].intercalate (tools.map String.toList)).splitOn ',' =
      tools.map String.toList :=
    List.splitOn_intercalate ',' (by simpa using h) (by simpa using hne)
  rw [show ",".toList = [','] from rfl, hsplit, List.map_map]
  simp

theorem no_comma_of_mem_entries {value t : String} (h : t ∈ entries value) : ',' ∉ t.toList := by
  rw [entries] at h
  split at h
  · cases h
  · obtain ⟨part, hpart, rfl⟩ := List.mem_map.1 h
    rw [List.splitOn_eq_splitOnP] at hpart
    intro hmem
    have := Text.not_of_mem_splitOnP hpart ',' (by simpa using hmem)
    simp at this

/-- A list is read back just when no entry holds a comma and it is not one empty entry. -/
theorem entries_intercalate_iff : entries (",".intercalate tools) = tools ↔
    (∀ t ∈ tools, ',' ∉ t.toList) ∧ tools ≠ [""] := by
  refine ⟨fun h => ⟨fun t ht => no_comma_of_mem_entries (h.symm ▸ ht), ?_⟩,
    fun h => entries_intercalate h.2 h.1⟩
  rintro rfl
  exact absurd h (by decide)

theorem named_profileArgs {r : SpawnRequest} :
    named (profileArgs r) = entries (",".intercalate r.tools) := rfl

end

/-! ## The profile -/

section

variable {runtime : List (Key × PyValue)} {profile : Profile}

theorem toolsOf_takes {tools : List String} (h : toolsOf runtime = .ok tools) :
    ∀ e ∈ tools, takes e := by
  unfold toolsOf at h
  dsimp only at h
  split at h
  · cases h
  · split at h
    · cases h
    · next hfind =>
      cases h
      simpa using hfind

theorem parse_ok (h : parse runtime = .ok profile) :
    toolsOf runtime = .ok profile.tools ∧
      toolsByGateway profile.tools ((runtime.lookup (.str "tools_by_gateway")).getD .null) =
        .ok profile.byGateway := by
  obtain ⟨tools, htools, h⟩ := Attempt.bind_ok.1 h
  obtain ⟨byGateway, hgateway, h⟩ := Attempt.bind_ok.1 h
  cases h
  exact ⟨htools, hgateway⟩

theorem gatewayOf_narrows {tools : List String} {item : Key × PyValue} {g : Key × List String}
    (h : gatewayOf tools item = .ok g) : ∀ name ∈ g.2, narrows tools name := by
  unfold gatewayOf at h
  split at h
  · cases h
  · obtain ⟨names, -, h⟩ := Attempt.bind_ok.1 h
    split at h
    · cases h
    · next hfind =>
      cases h
      simpa using hfind

/-- A gateway's list narrows the profile's, name by name. -/
theorem narrows_of_parse (h : parse runtime = .ok profile) :
    ∀ g ∈ profile.byGateway, ∀ name ∈ g.2, narrows profile.tools name := by
  intro g hg
  have hgateway := (parse_ok h).2
  unfold toolsByGateway at hgateway
  split at hgateway
  · rw [← Except.ok.inj hgateway] at hg
    cases hg
  · obtain ⟨item, -, hitem⟩ := Attempt.mem_mapM hgateway hg
    exact gatewayOf_narrows hitem
  · cases hgateway

/-! ## What a list stands for -/

variable {registry : Tools.Registry} {name : String}

theorem mem_declared_family (he : Entitled.isFamily e) : name ∈ Tools.declared registry [e] ↔
    name ∈ registry.names ∧ e.toList.dropLast <+: name.toList := by
  have hstep : Tools.declareStep registry [] e = [] ++ registry.names.filter fun n =>
      e.toList.dropLast.isPrefixOf n.toList ∧ n ∉ [] := if_pos he
  rw [Tools.declared_eq, List.foldl_cons, List.foldl_nil, hstep]
  simp

theorem isFamily_serverTools : Entitled.isFamily (serverTools server) := by
  rw [Entitled.isFamily, toList_serverTools]
  exact List.isSuffixOf_iff_suffix.2 (List.suffix_append _ _)

/-- The server's family stands for each tool with the server's prefix. -/
theorem mem_declared_serverTools (rest : Str) (hname : name ∈ registry.names)
    (h : name.toList = mcpPrefix ++ server ++ '_' :: '_' :: rest) :
    name ∈ Tools.declared registry [serverTools server] := by
  refine (mem_declared_family isFamily_serverTools).2 ⟨hname, rest, ?_⟩
  rw [h, toList_serverTools, List.dropLast_append_of_ne_nil (by simp [Text.str])]
  simp [Text.str]

/-- A name that narrows a list stands for nothing that the list does not. -/
theorem declared_of_narrows {tools : List String} {entry : String} (h : narrows tools entry)
    (hname : name ∈ registry.names) (hd : name ∈ Tools.declared registry [entry]) :
    name ∈ Tools.declared registry tools := by
  rw [narrows, Bool.or_eq_true] at h
  rcases h with h | h
  · exact Tools.mem_declared.2 ⟨entry, by simpa using h, hd⟩
  · obtain ⟨server, hserver, h⟩ := (Option.any_eq_true _ _).1 h
    obtain ⟨c, rest, hentry⟩ := of_mcpToolOf hserver
    refine Tools.mem_declared.2 ⟨serverTools server, by simpa using h, ?_⟩
    by_cases he : Entitled.isFamily entry
    · -- the family of an entry that is longer than the server's prefix
      obtain ⟨-, tail, htail⟩ := (mem_declared_family he).1 hd
      rw [hentry, List.dropLast_append_of_ne_nil (by simp)] at htail
      exact mem_declared_serverTools ((c :: rest).dropLast ++ tail) hname (by rw [← htail]; simp)
    · rw [Bool.not_eq_true] at he
      obtain rfl := (Tools.mem_declared_singleton he).1 hd
      exact mem_declared_serverTools (c :: rest) hname hentry

/-- In every accepted profile a gateway's tools are among the profile's. -/
theorem standsFor_of_parse (h : parse runtime = .ok profile) {g : Key × List String}
    (hg : g ∈ profile.byGateway) (hs : Entitled.standsFor registry g.2 name) :
    Entitled.standsFor registry profile.tools name := by
  obtain ⟨entry, hentry, hd⟩ := Tools.mem_declared.1 hs.2
  exact ⟨hs.1, declared_of_narrows (narrows_of_parse h g hg entry hentry) hs.1 hd⟩

/-! ## What the runtime is given -/

/-- A list whose entries the command line gives over as they stand: none with a comma, none a
server's with a line feed behind it, and not one empty entry. -/
structure Plain (tools : List String) : Prop where
  comma : ∀ t ∈ tools, ',' ∉ t.toList
  empty : tools ≠ [""]
  feed : ∀ server, Server server → serverTools server ++ "\n" ∉ tools

theorem plain_of_last {tools : List String} (hcomma : ∀ t ∈ tools, ',' ∉ t.toList)
    (hempty : tools ≠ [""]) (hlast : ∀ t ∈ tools, t.toList.getLast? ≠ some '\n') : Plain tools :=
  ⟨hcomma, hempty, fun server _ hmem => hlast _ hmem (by simp [toList_serverTools, Text.str])⟩

theorem plain_entry (h : parse runtime = .ok profile) (hp : Plain profile.tools) {entry : String}
    (he : entry ∈ profile.tools) : ¬Wild entry ∧ ¬Edits entry := by
  rcases of_takes (toolsOf_takes (parse_ok h).1 entry he) with hs | ⟨hstar, hedit⟩
  · obtain ⟨server, hserver, rfl | rfl⟩ := isServerTools_iff.1 hs
    · exact ⟨not_wild_serverTools hserver, not_edits_serverTools⟩
    · exact absurd he (hp.feed server hserver)
  · exact ⟨fun hw => hstar hw.1, hedit⟩

/-- The runtime is given exactly the profile's tools, none a pattern or an edit, just when the list
is plain; a gateway's list never adds to them. -/
theorem listed_exactly_iff (h : parse runtime = .ok profile) (r : SpawnRequest)
    (hr : r.tools = profile.tools) : (named (profileArgs r) = profile.tools ∧
      (∀ entry ∈ named (profileArgs r), ¬Wild entry ∧ ¬Edits entry) ∧
      ∀ g ∈ profile.byGateway, ∀ registry name, Entitled.standsFor registry g.2 name →
        Entitled.standsFor registry profile.tools name) ↔ Plain profile.tools := by
  rw [named_profileArgs, hr]
  constructor
  · rintro ⟨hread, hentries, -⟩
    have hback := entries_intercalate_iff.1 hread
    rw [hread] at hentries
    exact ⟨hback.1, hback.2, fun server _ hmem => (hentries _ hmem).1 wild_feed⟩
  · intro hp
    have hread := entries_intercalate hp.empty hp.comma
    refine ⟨hread, fun entry he => plain_entry h hp (hread ▸ he), ?_⟩
    exact fun g hg registry name hs => standsFor_of_parse h hg hs

end

/-! ## Profiles -/

namespace Sample

/-- A profile that names one tool and a server's, fewer of them on one gateway. -/
def runtime : List (Key × PyValue) :=
  [(.str "tools", .list [.str "read", .str "mcp__jira__*"]),
   (.str "tools_by_gateway", .dict [(.str "slack", .list [.str "mcp__jira__search"])])]

def profile : Profile where
  tools := ["read", "mcp__jira__*"]
  byGateway := [(.str "slack", ["mcp__jira__search"])]

def request (tools : List String) : SpawnRequest where
  tools := tools
  skills := []
  provider := ""
  model := ""
  thinking := ""
  appendSystemPrompt := ""

end Sample

theorem listed_exactly_sample :
    named (profileArgs (Sample.request ["read", "mcp__jira__*"])) = ["read", "mcp__jira__*"] ∧
      ∀ registry name, Entitled.standsFor registry ["mcp__jira__search"] name →
        Entitled.standsFor registry ["read", "mcp__jira__*"] name := by
  have hparse : parse Sample.runtime = .ok Sample.profile := by rfl
  have hp : Plain Sample.profile.tools := by
    refine plain_of_last (by decide) (by decide) (by decide)
  obtain ⟨hread, -, hstands⟩ := (listed_exactly_iff hparse (Sample.request Sample.profile.tools) rfl).2 hp
  exact ⟨hread, hstands _ List.mem_cons_self⟩

/-- The loader takes an entry with a comma in it, which the runtime reads as two, and one of them as
an edit of its defaults; and a server's tools with a line feed behind them, which is a pattern. -/
theorem not_exact :
    parse [(.str "tools", .list [.str "read,-bash"])] = .ok ⟨["read,-bash"], []⟩ ∧
      named (profileArgs (Sample.request ["read,-bash"])) = ["read", "-bash"] ∧ Edits "-bash" ∧
      parse [(.str "tools", .list [.str "mcp__jira__*\n"])] = .ok ⟨["mcp__jira__*\n"], []⟩ ∧
      named (profileArgs (Sample.request ["mcp__jira__*\n"])) = ["mcp__jira__*\n"] ∧
      Wild "mcp__jira__*\n" := by
  have hwild : Wild (serverTools (Text.str "jira") ++ "\n") := wild_feed
  exact ⟨rfl, by decide, ⟨'-', rfl, .inr rfl⟩, rfl, by decide, hwild⟩

end Allowlist
