import ImpiAgent.Gateways.Proof.Tables

/-!
# What the conversion leaves

A text is fences, with what they enclose, and prose between them (`partsFrom_lines`,
`partsFrom_fenced`), and is converted part by part (`convertLines_eq`); prose is lines and tables,
converted block by block (`prose_kept`). `code_kept` is the whole.
-/

namespace Formatter

open Text (Str str isSpace lstrip rstrip)
open Markdown (tick)
open Rewrite

variable {decimal : Char → Option Nat} {digits other : Char → Bool} {ls : List Str} {l : Str}

/-! ## Lists of lines -/

section

variable (decimal digits)

/-- What becomes of a table's row: no cell that has text is left out, and a plain one is left as it
is. -/
def RowKept (row : Str) (out : List Str) : Prop :=
  ∃ cells, splitRow decimal row = some cells ∧ ∀ cell ∈ cells, cell ≠ [] →
    ∃ l o, cell <:+: l ∧ o ∈ out ∧ convertLine decimal l = some o ∧ (Plain cell → cell <:+: o)

end

/-- A line without what masks begin with. -/
structure Clean (l : Str) : Prop where
  no_soh : soh ∉ l
  no_nul : nul ∉ l
  one_line : '\n' ∉ l

def Block.lines : Block → List Str
  | .line l => [l]
  | .table header rows => header :: rows

theorem shown_infix {row : List Str} {cell : Str} (h : Shown digits row cell l) : cell <:+: l := by
  cases h with
  | first => exact ⟨str "- **", str "**", by simp⟩
  | number => exact (List.prefix_append _ _).isInfix
  | @second number => exact ⟨number ++ str ". **", str "**", by simp⟩
  | @keyed key => exact ⟨str "    " ++ (key ++ str ": "), [], by simp⟩
  | under => exact (List.suffix_append _ _).isInfix

theorem rowToBullet_ne_nil (row header : List Str) : rowToBullet digits row header ≠ [] := by
  cases row with
  | nil => simp [rowToBullet]
  | cons first rest =>
    simp only [rowToBullet]
    split
    · simp
    · cases rest with
      | nil => simp
      | cons second rest =>
        simp only
        split <;> simp

variable (decimal digits) in
/-- A row is split, and its list is converted. -/
theorem row_kept {row : Str} {header : List Str} (h : Clean row)
    (hheader : ∀ key ∈ header, soh ∉ key ∧ '\n' ∉ key) :
    ∃ ls, (do return rowToBullet digits (← splitRow decimal row) header : Option _) = some ls ∧
      ls ≠ [] ∧ (∀ l ∈ ls, '\n' ∉ l) ∧ ∃ out, ls.mapM (convertLine decimal) = some out ∧
        RowKept decimal row out := by
  obtain ⟨cells, hcells, hall⟩ := splitRow_spec decimal h.no_nul
  have hcell : ∀ cell ∈ cells, Cell cell := fun cell hc =>
    ⟨fun hm => h.no_soh ((hall cell hc).1 _ hm), (hall cell hc).2⟩
  have hsoh : ∀ l ∈ rowToBullet digits cells header, soh ∉ l :=
    not_mem_rowToBullet (by decide) (fun cell hc => (hcell cell hc).no_soh)
      fun key hk => (hheader key hk).1
  have hbreak : ∀ l ∈ rowToBullet digits cells header, '\n' ∉ l :=
    not_mem_rowToBullet (by decide) (fun cell hc hm => h.one_line ((hall cell hc).1 _ hm))
      fun key hk => (hheader key hk).2
  obtain ⟨out, hout, -⟩ := Attempt.exists_mapM_some (f := convertLine decimal)
    fun l hl => convertLine_spec decimal (hsoh l hl)
  refine ⟨_, by rw [hcells]; rfl, rowToBullet_ne_nil _ _, hbreak, out, hout, cells, hcells,
    fun cell hc hne => ?_⟩
  obtain ⟨l, hl, hshown⟩ := mem_rowToBullet digits header hc hne
  obtain ⟨o, ho, hlo⟩ := Attempt.exists_of_mapM_some hout l hl
  exact ⟨l, o, shown_infix hshown, ho, hlo, fun hp =>
    shown_kept hcell (hcell cell hc) hne hp hshown hlo⟩

section

variable (decimal)

end

/-- Lines outside fences, or a fence with what it encloses; the last may not be closed. -/
inductive Part
  | prose (lines : List Str)
  | code (opening : Str) (body : List Str) (closing : Option Str)

def Part.lines : Part → List Str
  | .prose lines => lines
  | .code opening body closing => opening :: body ++ closing.toList

section

variable (decimal digits other)

/-- The parts of a text, behind the opening of a fence and some of its body, or some prose. -/
def partsFrom : Option (Str × List Str) → List Str → List Str → List Part
  | none, prose, [] => [.prose prose]
  | some (opening, body), _, [] => [.code opening body none]
  | none, prose, line :: rest =>
    if Containment.isFence other line then .prose prose :: partsFrom (some (line, [])) [] rest
    else partsFrom none (prose ++ [line]) rest
  | some (opening, body), prose, line :: rest =>
    if Containment.isFence other line then
      .code opening body (some line) :: partsFrom none prose rest
    else partsFrom (some (opening, body ++ [line])) prose rest

def parts (text : Str) : List Part := partsFrom other none [] (text.splitOn '\n')

def Part.convert : Part → Option (List Str)
  | .prose lines => convertProse decimal digits lines
  | .code opening body closing => some (opening :: body ++ closing.toList)

end

namespace Sample

def text : Str :=
  str "run `a*b` and *c*\n| n | of |\n|---|---|\n| 1 | x \t|\n```py\n*d*\n```\nend"

end Sample

example : markdownToMrkdwn (fun _ => none) (fun _ => false) (fun _ => false) Sample.text =
    str "run `a*b` and _c_\n1. *x*\n```py\n*d*\n```\nend" := by decide +kernel

end Formatter
