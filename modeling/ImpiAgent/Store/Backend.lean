import Mathlib.Init

/-!
# The store backends
-/

/-- `store/sqlite` or `store/mongo`. -/
inductive Backend
  | sqlite | mongo
  deriving DecidableEq, Repr
