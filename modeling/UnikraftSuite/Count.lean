import UnikraftSuite.Labels
import UnikraftSuite.Overlap

/-!
# `count.py`

`count.py` lists the folders of `./syscalls` with the number of their entries, the smallest
first. Two parallel lists are exchanged together in the same doubly nested loop as in
`runtest`, here by one key, so that the loop really sorts.

- `countScript` is the text the script prints.
- `sortLists_listsOf`: the loops are an exchange sort of the folders.
- `countScript_sorted`: the lines printed are those of the folders, permuted and sorted.
-/

namespace UnikraftSuite

open PyStr

/-! ## The script -/

/-- A folder of `./syscalls`, with what `os.listdir` finds in it. -/
structure App where
  name : Text
  entries : List Text
deriving DecidableEq

/-- The lists `count` and `names`. -/
structure CountLists where
  count : List Nat
  names : List Text

/-- The body of `for app in apps`. -/
def CountLists.append (l : CountLists) (app : App) : CountLists where
  count := l.count ++ [app.entries.length]
  names := l.names ++ [app.name]

/-- The body of the `if`: both lists are exchanged at `i` and `j`. -/
def CountLists.exchange (l : CountLists) (i j : Nat) : Except PyErr CountLists := do
  let count ← swapAt l.count i j
  let names ← swapAt l.names i j
  return ⟨count, names⟩

/-- One turn of the inner sorting loop. -/
def countTurn (l : CountLists) (ij : Nat × Nat) : Except PyErr CountLists := do
  let ci ← getIdx l.count ij.1
  let cj ← getIdx l.count ij.2
  if ci > cj then l.exchange ij.1 ij.2 else return l

/-- Both sorting loops. -/
def sortLists (l : CountLists) : Except PyErr CountLists :=
  (ExchangeSort.pairs l.count.length).foldlM countTurn l

/-- `names[i] + ": " + str(count[i])`. -/
def appLine (name : Text) (count : Nat) : Text := name ++ ": ".toList ++ str count

/-- The printing loop. -/
def countLines (l : CountLists) : Except PyErr (List Text) :=
  (List.range l.count.length).mapM fun i => do
    let name ← getIdx l.names i
    let count ← getIdx l.count i
    return appLine name count

/-- What `count.py` prints for the listing of `./syscalls`. -/
def countScript (apps : List App) : Except PyErr Text := do
  let l ← sortLists (apps.foldl CountLists.append ⟨[], []⟩)
  let ls ← countLines l
  return unlines ls ++ unlines ["total: ".toList ++ str l.count.sum]

/-! ## Folders instead of lists -/

/-- The number the script counts for a folder. -/
def App.count (app : App) : Nat := app.entries.length

/-- The line of a folder. -/
def App.line (app : App) : Text := appLine app.name app.count

/-- The two lists of a listing. -/
def listsOf (apps : List App) : CountLists := ⟨apps.map App.count, apps.map App.name⟩

/-- The condition of the sorting loops: `count[i] > count[j]`. -/
def larger (x y : App) : Bool := decide (x.count > y.count)

/-- The first loop. -/
theorem foldl_append (apps done : List App) :
    apps.foldl CountLists.append (listsOf done) = listsOf (done ++ apps) := by
  induction apps generalizing done with
  | nil => rw [List.foldl_nil, List.append_nil]
  | cons app apps ih =>
    have hnext : (listsOf done).append app = listsOf (done ++ [app]) := by
      simp [CountLists.append, listsOf, App.count]
    rw [List.foldl_cons, hnext, ih, List.append_assoc, List.singleton_append]

/-- One turn exchanges two folders or none. -/
theorem countTurn_listsOf (apps : List App) (i j : Nat) (hi : i < apps.length)
    (hj : j < apps.length) : countTurn (listsOf apps) (i, j) =
      pure (listsOf (ExchangeSort.step larger apps (i, j))) := by
  rw [ExchangeSort.step_of_lt hi hj]
  simp only [countTurn, listsOf, getIdx_map _ hi, getIdx_map _ hj, Raise.ok_bind]
  by_cases h : apps[i].count > apps[j].count
  · rw [if_pos h, if_pos (show larger apps[i] apps[j] = true from decide_eq_true h)]
    simp only [CountLists.exchange, swapAt_map _ hi hj, Raise.ok_bind]
  · rw [if_neg h, if_neg (show ¬ larger apps[i] apps[j] = true by simpa [larger] using h)]

/-- The loops sort folders. -/
theorem sortLists_listsOf (apps : List App) :
    sortLists (listsOf apps) = .ok (listsOf (ExchangeSort.sort larger apps)) := by
  have hlen : (listsOf apps).count.length = apps.length := List.length_map App.count
  rw [sortLists, hlen]
  exact ExchangeSort.foldlM_pairs countTurn_listsOf apps

theorem countLines_listsOf (apps : List App) :
    countLines (listsOf apps) = .ok (apps.map App.line) := by
  have hlen : (listsOf apps).count.length = apps.length := List.length_map App.count
  rw [countLines, hlen, Raise.mapM_eq_ok_iff, List.forall₂_iff_get]
  refine ⟨by simp, fun i h₁ h₂ => ?_⟩
  have hi : i < apps.length := by simpa using h₁
  simp only [List.get_eq_getElem, List.getElem_range, List.getElem_map, listsOf,
    getIdx_map _ hi, Raise.ok_bind]
  rfl

/-- The script never raises, and prints the sorted folders. -/
theorem countScript_eq (apps : List App) : countScript apps =
    .ok (unlines ((ExchangeSort.sort larger apps).map App.line) ++
      unlines ["total: ".toList ++ str ((ExchangeSort.sort larger apps).map App.count).sum]) := by
  have hgather : apps.foldl CountLists.append ⟨[], []⟩ = listsOf apps := foldl_append apps []
  rw [countScript, hgather, sortLists_listsOf, Raise.ok_bind, countLines_listsOf, Raise.ok_bind]
  rfl

/-! ## The listing -/

/-- The order of the listing. -/
def App.le (x y : App) : Prop := x.count ≤ y.count

/-- Folders that are not exchanged are in order, and those exchanged were not, so the loops
sort. -/
theorem sort_larger (apps : List App) : (ExchangeSort.sort larger apps).Pairwise App.le := by
  have hout : ∀ {x y : App}, ¬ larger x y → x.le y := by
    intro x y h
    simpa [larger, App.le] using h
  have hfaithful : ∀ x y : App, ExchangeSort.Faithful larger App.le x y :=
    fun x y h => Nat.le_of_lt (of_decide_eq_true h)
  have hrefl : ∀ x : App, x.le x := fun x => Nat.le_refl _
  have htrans : ∀ {x y z : App}, x.le y → y.le z → x.le z := Nat.le_trans
  refine (ExchangeSort.sort_pairwise_iff hrefl htrans hout apps).mpr ?_
  exact List.pairwise_of_forall hfaithful

/-- **`count.py` prints the folders sorted**: for every listing the lines are those of the
folders, each once, with counts that do not decrease, and the total is the sum of all
counts. -/
theorem countScript_sorted (apps : List App) : ∃ sorted : List App,
    sorted.Perm apps ∧ sorted.Pairwise (fun x y => x.entries.length ≤ y.entries.length) ∧
      countScript apps = .ok (unlines (sorted.map fun app =>
          app.name ++ ": ".toList ++ str app.entries.length) ++
        unlines
          ["total: ".toList ++ str ((apps.map fun app => app.entries.length).sum : Nat)]) := by
  have hperm := ExchangeSort.sort_perm larger apps
  refine ⟨ExchangeSort.sort larger apps, hperm, sort_larger apps, ?_⟩
  have hsum : ((ExchangeSort.sort larger apps).map App.count).sum = (apps.map App.count).sum :=
    (hperm.map App.count).sum_eq
  rw [countScript_eq, hsum]
  rfl

end UnikraftSuite
