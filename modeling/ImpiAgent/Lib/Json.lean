import ImpiAgent.Lib.Dict

/-!
# Python values through JSON

`reload v` is `json.loads(json.dumps(v))`, `none` where `dumps` raises. JSON has no tuples and no keys
but strings, so a value comes back as it was exactly if it has neither and nothing JSON cannot write
(`Plain`). A float is its `repr`.
-/

namespace Json

/-- A key of a Python dict. -/
inductive Key
  | str (s : String)
  | int (n : Int)
  | float (r : String)
  | bool (b : Bool)
  | null
  | other (r : String)
  deriving DecidableEq

/-- The string `dumps` writes for a key. -/
def Key.text : Key → Option String
  | .str s => some s
  | .int n => some (toString n)
  | .float r => some r
  | .bool true => some "true"
  | .bool false => some "false"
  | .null => some "null"
  | .other _ => none

/-- A Python value. -/
inductive PyValue
  | null
  | bool (b : Bool)
  | int (n : Int)
  | float (r : String)
  | str (s : String)
  | list (xs : List PyValue)
  | tuple (xs : List PyValue)
  | dict (xs : List (Key × PyValue))
  | other (r : String)

mutual

def reload : PyValue → Option PyValue
  | .list xs => (reloadAll xs).map .list
  | .tuple xs => (reloadAll xs).map .list
  | .dict xs => (reloadItems xs).map fun ys => .dict (Dict.ofPairs ys)
  | .other _ => none
  | .null => some .null
  | .bool b => some (.bool b)
  | .int n => some (.int n)
  | .float r => some (.float r)
  | .str s => some (.str s)

def reloadAll : List PyValue → Option (List PyValue)
  | [] => some []
  | x :: xs =>
    match reload x, reloadAll xs with
    | some y, some ys => some (y :: ys)
    | _, _ => none

def reloadItems : List (Key × PyValue) → Option (List (Key × PyValue))
  | [] => some []
  | (k, x) :: xs =>
    match k.text, reload x, reloadItems xs with
    | some s, some y, some ys => some ((.str s, y) :: ys)
    | _, _, _ => none

end

/-- The key is a string. -/
def Key.Plain : Key → Prop
  | .str _ => True
  | _ => False

mutual

/-- What JSON can write and read back as it was. -/
def Plain : PyValue → Prop
  | .list xs => PlainAll xs
  | .dict xs => PlainItems xs ∧ Dict.Distinct xs
  | .tuple _ | .other _ => False
  | .null | .bool _ | .int _ | .float _ | .str _ => True

def PlainAll : List PyValue → Prop
  | [] => True
  | x :: xs => Plain x ∧ PlainAll xs

def PlainItems : List (Key × PyValue) → Prop
  | [] => True
  | (k, x) :: xs => k.Plain ∧ Plain x ∧ PlainItems xs

end

theorem length_reloadItems : ∀ {xs ys : List (Key × PyValue)}, reloadItems xs = some ys →
    ys.length = xs.length
  | [], ys, h => by
    cases h
    rfl
  | (k, x) :: xs, ys, h => by
    unfold reloadItems at h
    split at h
    · rename_i s y zs _ _ hz
      cases h
      simp [length_reloadItems hz]
    · cases h

/-- A key that `dumps` writes as it is. -/
theorem Key.plain_iff {k : Key} : (∃ s, k.text = some s ∧ .str s = k) ↔ k.Plain := by
  cases k with
  | str s => exact ⟨fun _ => trivial, fun _ => ⟨s, rfl, rfl⟩⟩
  | _ => exact ⟨fun ⟨_, _, h⟩ => (nomatch h), fun h => (nomatch h)⟩

mutual

theorem reload_iff : ∀ v : PyValue, reload v = some v ↔ Plain v
  | .null | .bool _ | .int _ | .float _ | .str _ => by simp [reload, Plain]
  | .other _ => by simp [reload, Plain]
  | .tuple xs => by
    simp only [reload, Plain, iff_false]
    intro h
    obtain ⟨ys, -, h⟩ := Option.map_eq_some_iff.1 h
    cases h
  | .list xs => by
    rw [reload, Plain, ← reloadAll_iff xs, Option.map_eq_some_iff]
    simp
  | .dict xs => by
    rw [reload, Plain, ← reloadItems_iff xs, Option.map_eq_some_iff]
    constructor
    · rintro ⟨ys, hys, heq⟩
      obtain ⟨rfl, hd⟩ := (Dict.ofPairs_eq_iff (length_reloadItems hys)).1 (PyValue.dict.inj heq)
      exact ⟨hys, hd⟩
    · rintro ⟨hxs, hd⟩
      exact ⟨xs, hxs, by rw [Dict.ofPairs_of_distinct hd]⟩

theorem reloadAll_iff : ∀ xs : List PyValue, reloadAll xs = some xs ↔ PlainAll xs
  | [] => by simp [reloadAll, PlainAll]
  | x :: xs => by
    rw [reloadAll, PlainAll, ← reload_iff x, ← reloadAll_iff xs]
    cases reload x <;> cases reloadAll xs <;> simp

theorem reloadItems_iff : ∀ xs : List (Key × PyValue), reloadItems xs = some xs ↔ PlainItems xs
  | [] => by simp [reloadItems, PlainItems]
  | (k, x) :: xs => by
    rw [reloadItems, PlainItems, ← Key.plain_iff, ← reload_iff x, ← reloadItems_iff xs]
    cases k.text <;> cases reload x <;> cases reloadItems xs <;> simp [and_assoc]

end

end Json
