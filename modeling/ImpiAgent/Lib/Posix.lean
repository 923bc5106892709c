import ImpiAgent.Lib.Text

/-!
# POSIX paths and the file systems they resolve in

A `PurePath` is what `pathlib` makes of a text; a resolved path is the list of its components, the
outermost first (`Resolved`). A `FileSystem` resolves paths; a `Mount` shows a directory of one file
system in another. A resolved path inside the directory, written relative to it and read against the
mounted directory, resolves to its place there (`Mount.resolve_relative`).
-/

namespace Posix

/-- A resolved path. -/
abbrev Resolved := List String

structure PurePath where
  absolute : Bool
  parts : List String
  deriving DecidableEq

/-- A name a directory can have an entry under. -/
def Component (c : String) : Prop := c ≠ "" ∧ c ≠ "." ∧ c ≠ ".." ∧ '/' ∉ c.toList

instance : DecidablePred Component := fun _ => inferInstanceAs (Decidable (_ ∧ _ ∧ _ ∧ _))

/-- The components with a slash between any two. -/
def slashed (parts : List String) : String :=
  .ofList (['/'].intercalate (parts.map String.toList))

namespace PurePath

def real (p : Resolved) : PurePath := ⟨true, p⟩

/-- `Path(text)`. -/
def ofText (s : String) : PurePath :=
  ⟨s.toList.head? = some '/', (Text.split '/' s).filter fun c => c ≠ "" ∧ c ≠ "."⟩

/-- `p / q`. -/
def join (p q : PurePath) : PurePath := if q.absolute then q else ⟨p.absolute, p.parts ++ q.parts⟩

/-- `str(path)`. -/
def text (p : PurePath) : String :=
  if p.absolute then "/" ++ slashed p.parts else if p.parts = [] then "." else slashed p.parts

end PurePath

/-- `path.relative_to(root).as_posix()`, of a path inside `root`. -/
def relative (p root : Resolved) : String := (PurePath.mk false (p.drop root.length)).text

/-- `path.is_relative_to(root)`. -/
def isRelativeTo (p root : Resolved) : Bool := root.isPrefixOf p

theorem isRelativeTo_iff {p root : Resolved} :
    isRelativeTo p root = true ↔ ∃ rel, p = root ++ rel := by
  rw [isRelativeTo, List.isPrefixOf_iff_prefix]
  exact exists_congr fun _ => eq_comm

theorem not_mem_component {c : String} (h : Component c) : '/' ∉ c.toList := h.2.2.2

theorem toList_ne_nil {c : String} (h : Component c) : c.toList ≠ [] := by
  intro hc
  exact h.1 (String.toList_inj.1 (by simpa using hc))

/-- Components read back from between the slashes. -/
theorem split_slashed {rel : List String} (hc : ∀ c ∈ rel, Component c) (hrel : rel ≠ []) :
    Text.split '/' (slashed rel) = rel := by
  have hfree : ∀ l ∈ rel.map String.toList, '/' ∉ l := by
    intro l hl
    obtain ⟨c, hcm, rfl⟩ := List.mem_map.1 hl
    exact not_mem_component (hc c hcm)
  have hne : rel.map String.toList ≠ [] := by simpa using hrel
  rw [Text.split, slashed, String.toList_ofList, List.splitOn_intercalate _ hfree hne, List.map_map]
  exact (List.map_congr_left fun _ _ => String.ofList_toList).trans (List.map_id _)

theorem filter_components {rel : List String} (hc : ∀ c ∈ rel, Component c) :
    (rel.filter fun c => c ≠ "" ∧ c ≠ ".") = rel := by
  rw [List.filter_eq_self]
  intro c hcm
  simpa using ⟨(hc c hcm).1, (hc c hcm).2.1⟩

theorem head_slashed {rel : List String} (hc : ∀ c ∈ rel, Component c) :
    (slashed rel).toList.head? ≠ some '/' := by
  rw [slashed, String.toList_ofList]
  cases rel with
  | nil => simp
  | cons c rel =>
    have hcc := hc c List.mem_cons_self
    obtain ⟨a, l, hl⟩ := List.exists_cons_of_ne_nil (toList_ne_nil hcc)
    have ha : a ≠ '/' := fun h => not_mem_component hcc (by rw [hl, h]; exact List.mem_cons_self)
    cases rel with
    | nil => simpa [List.intercalate, hl] using ha
    | cons c' rel => simpa [List.intercalate, List.intersperse, hl] using ha

/-- A relative path is read back as it was written. -/
theorem ofText_text {rel : List String} (hc : ∀ c ∈ rel, Component c) :
    PurePath.ofText (PurePath.mk false rel).text = ⟨false, rel⟩ := by
  by_cases hrel : rel = []
  · subst hrel
    decide
  · have ht : (PurePath.mk false rel).text = slashed rel := by simp [PurePath.text, hrel]
    rw [ht, PurePath.ofText, split_slashed hc hrel, filter_components hc]
    simp [head_slashed hc]

/-! ## File systems -/

structure FileSystem where
  /-- `path.resolve()` -/
  resolve : PurePath → Resolved
  exist : Resolved → Bool
  /-- `read_text`, none where it fails. -/
  read : PurePath → Option String
  proper : ∀ p, ∀ c ∈ resolve p, Component c
  settled : ∀ p, resolve (.real (resolve p)) = resolve p

/-- `h` has the directory `root` of `e` at `dir`: a path without links has none there either. -/
structure Mount (e h : FileSystem) (root dir : Resolved) : Prop where
  leads : ∀ rel, e.resolve (.real (root ++ rel)) = root ++ rel →
    h.resolve (.real (dir ++ rel)) = dir ++ rel
  exist : ∀ rel, e.resolve (.real (root ++ rel)) = root ++ rel →
    h.exist (dir ++ rel) = e.exist (root ++ rel)

/-- `m` is where the mount of `root` at `dir` has `p`. -/
def Seen (root dir p m : Resolved) : Prop := ∃ rel, p = root ++ rel ∧ m = dir ++ rel

/-- `Seen`, of directories that may be absent. -/
def SeenAt (root dir : Option Resolved) (p m : Resolved) : Prop :=
  ∃ r, root = some r ∧ ∃ d, dir = some d ∧ Seen r d p m

namespace Mount

variable {e h : FileSystem} {root dir : Resolved}

/-- What is written relative to the directory is found under the mounted one. -/
theorem resolve_relative (m : Mount e h root dir) {path : PurePath}
    (hin : isRelativeTo (e.resolve path) root = true) :
    ∃ rel, e.resolve path = root ++ rel ∧ e.resolve (.real (root ++ rel)) = root ++ rel ∧
      h.resolve ((PurePath.real dir).join (.ofText (relative (e.resolve path) root))) =
        dir ++ rel := by
  obtain ⟨rel, hrel⟩ := isRelativeTo_iff.1 hin
  have hset : e.resolve (.real (root ++ rel)) = root ++ rel := hrel ▸ e.settled path
  have hc : ∀ c ∈ rel, Component c := fun c hc =>
    e.proper path c (hrel ▸ List.mem_append_right _ hc)
  refine ⟨rel, hrel, hset, ?_⟩
  rw [relative, hrel, List.drop_left, ofText_text hc]
  exact m.leads rel hset

end Mount

/-! ## A file system without links -/

/-- One component on: `..` is one back. -/
def walk (p : Resolved) (c : String) : Resolved :=
  if c = ".." then p.dropLast else if Component c then p ++ [c] else p

theorem walk_proper {p : Resolved} (hp : ∀ c ∈ p, Component c) (c : String) :
    ∀ c' ∈ walk p c, Component c' := by
  unfold walk
  split
  · exact fun c' hc' => hp c' (List.dropLast_subset _ hc')
  · split
    · intro c' hc'
      rcases List.mem_append.1 hc' with h | h
      · exact hp c' h
      · rw [List.mem_singleton.1 h]
        assumption
    · exact hp

theorem foldl_walk_proper (parts : List String) : ∀ {p : Resolved}, (∀ c ∈ p, Component c) →
    ∀ c ∈ parts.foldl walk p, Component c := by
  induction parts with
  | nil => exact fun hp => hp
  | cons c parts ih => exact fun hp => ih (walk_proper hp c)

theorem foldl_walk {parts : List String} (hc : ∀ c ∈ parts, Component c) :
    ∀ p : Resolved, parts.foldl walk p = p ++ parts := by
  induction parts with
  | nil => simp
  | cons c parts ih =>
    intro p
    have hcc := hc c List.mem_cons_self
    rw [List.foldl_cons, ih fun c' hc' => hc c' (List.mem_cons_of_mem _ hc'), walk,
      if_neg hcc.2.2.1, if_pos hcc, List.append_assoc]
    rfl

/-- A file system without links, whose working directory is its root. -/
def plain (exist : Resolved → Bool) (read : PurePath → Option String) : FileSystem where
  resolve p := p.parts.foldl walk []
  exist
  read
  proper p := foldl_walk_proper p.parts (by simp)
  settled p := foldl_walk (foldl_walk_proper p.parts (by simp)) []

/-- Between two of them any directory can be mounted anywhere. -/
theorem plain_mount {exist : Resolved → Bool} {read read' : PurePath → Option String}
    {root dir : Resolved} (hdir : ∀ c ∈ dir, Component c) (hexist : ∀ p, exist p = true) :
    Mount (plain exist read) (plain exist read') root dir where
  leads rel h := by
    have hproper : ∀ c ∈ root ++ rel, Component c := h ▸ (plain exist read).proper _
    refine foldl_walk (fun c hc => ?_) []
    rcases List.mem_append.1 hc with hc | hc
    · exact hdir c hc
    · exact hproper c (List.mem_append_right _ hc)
  exist rel _ := (hexist _).trans (hexist _).symm

end Posix
