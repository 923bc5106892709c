import Mathlib.Data.Nat.Bitwise

/-!
# The browser's seccomp profile

`generate_chrome_profile.py` derives it from the profile containers get (`patch`): what a container
may ask `clone` for is four kinds of namespace more. What a profile means for a call is what the
runtime makes of it: the rules for the container it starts (`Rule.Applies`), and of those the ones
that match the call (`Profile.Judged`).
-/

namespace Seccomp

/-! ## Profiles -/

inductive Op
  | ne
  | lt
  | le
  | eq
  | ge
  | gt
  | maskedEq
  deriving DecidableEq

/-- A condition on an argument of a call. -/
structure Arg where
  index : Nat
  value : Nat
  valueTwo : Nat
  op : Op
  deriving DecidableEq

/-- `includes` or `excludes`. -/
structure Filter where
  caps : List String
  arches : List String
  minKernel : Option (Nat × Nat)
  deriving DecidableEq

inductive Action
  | allow
  | errno (errnoRet : Option Nat)
  | other (name : String)
  deriving DecidableEq

structure Rule where
  names : List String
  action : Action
  args : List Arg
  includes : Filter
  excludes : Filter
  deriving DecidableEq

structure Profile where
  defaultAction : Action
  syscalls : List Rule
  deriving DecidableEq

/-! ## What a profile means -/

/-- What the runtime knows of the container it starts. -/
structure Container where
  caps : List String
  arch : String
  kernel : Nat × Nat

/-- A system call, its arguments as the kernel has them. -/
structure Call where
  name : String
  args : Nat → Nat

/-- The kernel is not older than the one named. -/
def notOlder (kernel named : Nat × Nat) : Prop :=
  named.1 < kernel.1 ∨ named.1 = kernel.1 ∧ named.2 ≤ kernel.2

instance notOlderDecidable (kernel named : Nat × Nat) : Decidable (notOlder kernel named) :=
  inferInstanceAs (Decidable (_ ∨ _))

/-- A rule is one for this container. -/
def Rule.Applies (rule : Rule) (box : Container) : Prop :=
  (rule.includes.arches ≠ [] → box.arch ∈ rule.includes.arches) ∧
    (∀ cap ∈ rule.includes.caps, cap ∈ box.caps) ∧
    (∀ named ∈ rule.includes.minKernel, notOlder box.kernel named) ∧
    box.arch ∉ rule.excludes.arches ∧
    (∀ cap ∈ rule.excludes.caps, cap ∉ box.caps) ∧
    ∀ named ∈ rule.excludes.minKernel, ¬notOlder box.kernel named

def Arg.Matches (arg : Arg) (call : Call) : Prop :=
  match arg.op with
  | .ne => call.args arg.index ≠ arg.value
  | .lt => call.args arg.index < arg.value
  | .le => call.args arg.index ≤ arg.value
  | .eq => call.args arg.index = arg.value
  | .ge => arg.value ≤ call.args arg.index
  | .gt => arg.value < call.args arg.index
  | .maskedEq => call.args arg.index &&& arg.value = arg.valueTwo

/-- A rule is one for this call of this container. -/
structure Rule.Judges (rule : Rule) (box : Container) (call : Call) : Prop where
  applies : rule.Applies box
  named : call.name ∈ rule.names
  matched : ∀ arg ∈ rule.args, arg.Matches call

/-- What the rules for a call have in store for it. -/
def Profile.Judged (profile : Profile) (box : Container) (call : Call) (action : Action) : Prop :=
  ∃ rule ∈ profile.syscalls, rule.Judges box call ∧ rule.action = action

/-! ## The generator -/

def cloneNewns : Nat := 0x00020000

def cloneNewcgroup : Nat := 0x02000000

def cloneNewuts : Nat := 0x04000000

def cloneNewipc : Nat := 0x08000000

def cloneNewuser : Nat := 0x10000000

def cloneNewpid : Nat := 0x20000000

def cloneNewnet : Nat := 0x40000000

def upstreamMask : Nat :=
  cloneNewns ||| cloneNewcgroup ||| cloneNewuts ||| cloneNewipc ||| cloneNewuser ||| cloneNewpid |||
    cloneNewnet

def chromeNeeds : Nat := cloneNewns ||| cloneNewuser ||| cloneNewpid ||| cloneNewnet

/-- The bits of one number that are not in the other: `a & ~b`. -/
def without (a b : Nat) : Nat := a ^^^ (a &&& b)

def relaxedMask : Nat := without upstreamMask chromeNeeds

/-- The argument of `clone` that is masked upstream. -/
def Arg.isUpstream (arg : Arg) : Bool := arg.op = .maskedEq && arg.value = upstreamMask

def Arg.patch (arg : Arg) : Arg := if arg.isUpstream then { arg with value := relaxedMask } else arg

/-- A turn of the `for` over the rules. -/
def Rule.patch (rule : Rule) : Rule :=
  if "clone" ∉ rule.names then rule else { rule with args := rule.args.map Arg.patch }

/-- How many arguments of a rule are patched. -/
def Rule.patched (rule : Rule) : Nat :=
  if "clone" ∉ rule.names then 0 else rule.args.countP Arg.isUpstream

def unshareRule : Rule where
  names := ["unshare"]
  action := .allow
  args := [⟨0, relaxedMask, 0, .maskedEq⟩]
  includes := ⟨[], [], none⟩
  excludes := ⟨["CAP_SYS_ADMIN"], [], none⟩

/-- `patch`: none where the layout is not the one it knows. -/
def patch (profile : Profile) : Option Profile :=
  if (profile.syscalls.map Rule.patched).sum ≠ 2 then none
  else some { profile with syscalls := profile.syscalls.map Rule.patch ++ [unshareRule] }

/-! ## What it is for -/

/-- The masked conditions on `clone` say that no namespace is asked for. -/
def Profile.Upstream (profile : Profile) : Prop :=
  ∀ rule ∈ profile.syscalls, "clone" ∈ rule.names → ∀ arg ∈ rule.args, arg.isUpstream = true →
    arg.valueTwo = 0

/-- An argument asks for some of the namespaces a browser needs, and for no other. -/
def Browsers (flags : Nat) : Prop := flags &&& relaxedMask = 0 ∧ flags &&& chromeNeeds ≠ 0

/-- A rule of `clone` is one for this call, but for the namespaces it asks for. -/
structure Rule.Clones (rule : Rule) (box : Container) (call : Call) : Prop where
  clone : "clone" ∈ rule.names
  applies : rule.Applies box
  named : call.name ∈ rule.names

/-- A call a container may make now: `unshare`, of what a browser needs. -/
structure Unshares (box : Container) (call : Call) : Prop where
  named : call.name = "unshare"
  unprivileged : "CAP_SYS_ADMIN" ∉ box.caps
  flags : call.args 0 &&& relaxedMask = 0

/-- One profile lets through what another does, and the namespaces a browser needs. -/
structure Relaxes (profile patched : Profile) : Prop where
  /-- What is judged by a rule is judged so by one now. -/
  kept : ∀ box call action, profile.Judged box call action → patched.Judged box call action
  /-- Nothing else is but what asks for the namespaces of a browser alone. -/
  only : ∀ box call action, patched.Judged box call action → profile.Judged box call action ∨
    (∃ rule ∈ profile.syscalls, rule.Clones box call ∧ rule.action = action ∧
      ∃ arg ∈ rule.args, arg.isUpstream = true ∧ Browsers (call.args arg.index)) ∨
    (Unshares box call ∧ action = .allow)
  /-- And that is. -/
  clones : ∀ box call, ∀ rule ∈ profile.syscalls, rule.Clones box call →
    (∀ arg ∈ rule.args, arg.isUpstream = true ∧ call.args arg.index &&& relaxedMask = 0) →
      patched.Judged box call rule.action
  unshares : ∀ box call, Unshares box call → patched.Judged box call .allow
  default : patched.defaultAction = profile.defaultAction
  /-- It is not derived from again. -/
  once : patch patched = none

end Seccomp
