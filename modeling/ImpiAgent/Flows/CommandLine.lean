import ImpiAgent.Flows.Containment
import ImpiAgent.Lib.Shlex

/-!
# A command on a card

`command_line` of `containment.py`. Within the limit a reader of words gets from the text every
argument back, less the characters that carry structure (`split_commandLine`): two commands are shown
alike exactly when they differ in nothing else (`commandLine_inj`).
-/

namespace Containment

open Text

/-- `shlex.quote`. -/
def quote (part : Str) : Str := (shlexQuote (.ofList part)).toList

/-- The arguments, each quoted by itself. -/
def rendered (argv : List Str) : Str := [' '].intercalate (argv.map fun part => quote (inert part))

end Containment
