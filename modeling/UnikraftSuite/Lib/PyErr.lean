import UnikraftSuite.Lib.Raise

/-!
# Python's exceptions and list access

A script that can raise is a computation in `Except PyErr`. `getIdx` is `l[i]` for an index
that is not negative; it raises exactly past the end of the list.
-/

namespace PyStr

/-- The exceptions scripts raise on lists, numbers and paths. -/
inductive PyErr where
  | indexError
  | valueError
  | zeroDivisionError
  | isADirectoryError
  | notADirectoryError
deriving DecidableEq, Repr

/-- `l[i]`. -/
def getIdx {α : Type} (l : List α) (i : Nat) : Except PyErr α :=
  match l[i]? with
  | some x => .ok x
  | none => .error .indexError

theorem getIdx_eq_ok {α : Type} {l : List α} {i : Nat} {x : α} :
    getIdx l i = .ok x ↔ l[i]? = some x := by
  rw [getIdx]
  cases l[i]? with
  | none => exact iff_of_false nofun nofun
  | some y => rw [Except.ok.injEq, Option.some.injEq]

theorem getIdx_map {α γ : Type} (g : α → γ) {l : List α} {i : Nat} (hi : i < l.length) :
    getIdx (l.map g) i = .ok (g l[i]) := by
  rw [getIdx, List.getElem?_map, List.getElem?_eq_getElem hi]
  rfl

/-- An access returns exactly inside the list. -/
theorem returns_getIdx {α : Type} {l : List α} {i : Nat} :
    Raise.Returns (getIdx l i) ↔ i < l.length := by
  rw [getIdx]
  rcases Nat.lt_or_ge i l.length with h | h
  · rw [List.getElem?_eq_getElem h]
    exact iff_of_true (Raise.returns_ok _) h
  · rw [List.getElem?_eq_none h]
    exact iff_of_false (Raise.not_returns_error _) (Nat.not_lt.mpr h)

end PyStr
