import ImpiAgent.Lib.Text

/-!
# Splitting a long post

`chunk_text` of the chat clients, whose loop is given so many turns, and what it is for: the text is
its chunks with only whitespace between them (`Joined`).
-/

namespace Chunks

open Text (Str isSpace rstrip)

/-- `str.rfind`, none where it is -1. -/
def rfind (sub s : Str) : Option Nat :=
  (List.range (s.length + 1)).reverse.find? fun i => sub.isPrefixOf (s.drop i)

/-- Where the next chunk ends: at the window's last paragraph break, at its last line break, or with
the window. -/
def cutOf (limit : Nat) (rest : Str) : Nat :=
  let window := rest.take limit
  let usable (cut : Option Nat) : Option Nat := cut.filter (limit / 2 ≤ ·)
  ((usable (rfind ['\n', '\n'] window)).or (usable (rfind ['\n'] window))).getD limit

/-- What is left after a cut. -/
def after (limit : Nat) (rest : Str) : Str := (rest.drop (cutOf limit rest)).dropWhile (· = '\n')

def Blank (s : Str) : Prop := ∀ c ∈ s, isSpace c = true

instance (s : Str) : Decidable (Blank s) := List.decidableBAll (fun c => isSpace c = true) s

/-- The places of a text the loop comes to. -/
inductive Place (limit : Nat) (text : Str) : Str → Prop
  | start : Place limit text text
  | next {rest : Str} : Place limit text rest → limit < rest.length →
      Place limit text (after limit rest)

/-- What is cut off at a place. -/
def piece (limit : Nat) (rest : Str) : Str :=
  if rest.length ≤ limit then rest else rest.take (cutOf limit rest)

/-- At each place there is more than whitespace up to the cut. -/
def Filled (limit : Nat) (text : Str) : Prop :=
  ∀ rest, Place limit text rest → ¬Blank (piece limit rest)

end Chunks
