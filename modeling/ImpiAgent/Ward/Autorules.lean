import ImpiAgent.Ward.Policy
import ImpiAgent.Lib.Ascii
import ImpiAgent.Lib.Shlex

/-!
# Rules, written and stored

The reading, writing and storing of `ward/autorules.py`, and the one place that stores rules,
`put_policy` of `ward/operations.py`. A stored text may also come from elsewhere: `decode` is defined
on any, and drops a line it cannot read. Lines on which Python's reader of JSON gives up with another
error (for its depth, or for the length of a number) are among those dropped here.
-/

namespace Ward

/-- Why a rule is not stored, in the order in which the reasons are looked for. -/
inductive RuleError
  | unreadable (reason text : String)
  | empty
  | everything
  | misplaced (text : String)
  deriving DecidableEq

def parse (text : String) : Except RuleError Rule :=
  match Shlex.split text.toList with
  | .error reason => .error (.unreadable reason text)
  | .ok words =>
    let argv := words.map String.ofList
    if argv = [] then .error .empty
    else if argv = [anyRest] then .error .everything
    else if anyRest ∈ argv.dropLast then .error (.misplaced text)
    else .ok argv

/-- JSON, one rule per line. -/
def encode (rules : List Rule) : String :=
  "\n".intercalate (rules.map fun rule => .ofList (Ascii.dumps (rule.map String.toList)))

/-- The rule of a stored line. -/
def decodeLine (line : Text.Str) : Option Rule :=
  let line := Text.rstrip (Text.lstrip line)
  if line = [] then none
  else
    match Ascii.loads line with
    | some (word :: argv) => some ((word :: argv).map String.ofList)
    -- no rule is empty, and what is not a list of strings is none
    | some [] | none => none

def decode (stored : String) : List Rule := (Text.lines stored.toList).filterMap decodeLine

/-- What `put_policy` stores: the rules as they were written, or those already there. -/
def putRules (written : Option (List String)) (existing : Option String) :
    Except RuleError String :=
  match written with
  | some texts => do return encode (← (texts.filter (Text.strip · ≠ "")).mapM parse)
  | none => .ok (encode (existing.elim [] decode))

/-- The stored rules after one request to store a policy, which changes nothing if it is refused. -/
def putPolicy (stored : Option String) (written : Option (List String)) : Option String :=
  match putRules written stored with
  | .ok text => some text
  | .error _ => stored

end Ward
