import UnikraftSuite.Pipeline
import Mathlib.Data.List.Nodup

/-!
# Which counts a label carries

The report has no names in it: `brain.py` writes the counts in the order in which
`os.listdir` gave it the folders inside the container, and `runtest` puts them next to
the names in the order of its own `os.listdir` on the host. Sorting permutes the seven
arrays together, so what the labels show is decided by the two listings.

- `sortArrays_rows`: on arrays of equal length the sorting loops are one exchange sort
  of the rows, so they permute rows (`ExchangeSort.sort_perm`).
- `labelOf_injective`: a label determines the name and the counts.
- `arraysOf_zip`: the arrays of a run are those of the host's names zipped with the container's
  counts.
-/

namespace UnikraftSuite

open PyStr

variable {β : Type}

/-! ## Rows -/

/-- One row of the seven arrays. -/
structure Row where
  pp : Rat
  fp : Rat
  bp : Rat
  name : Text
  p : Int
  f : Int
  b : Int

/-- The seven arrays of a list of rows. -/
def arraysOf (rows : List Row) : Arrays where
  pp := rows.map Row.pp
  fp := rows.map Row.fp
  bp := rows.map Row.bp
  syscalls := rows.map Row.name
  p := rows.map Row.p
  f := rows.map Row.f
  b := rows.map Row.b

/-- The condition of the sorting loops: `bp[i] > bp[j] or pp[i] < pp[j]`. -/
def outOfOrder (x y : Row) : Bool := decide (x.bp > y.bp ∨ x.pp < y.pp)

theorem swapAt_map {α γ : Type} (g : α → γ) {l : List α} {i j : Nat} (hi : i < l.length)
    (hj : j < l.length) :
    swapAt (l.map g) i j = .ok (((l.set i l[j]).set j l[i]).map g) := by
  rw [swapAt, getIdx_map g hi, getIdx_map g hj, List.map_set, List.map_set]
  rfl

/-- One turn of the sorting loops exchanges two rows or none. -/
theorem sortTurn_rows (rows : List Row) (i j : Nat) (hi : i < rows.length)
    (hj : j < rows.length) : sortTurn (arraysOf rows) (i, j) =
      pure (arraysOf (ExchangeSort.step outOfOrder rows (i, j))) := by
  rw [ExchangeSort.step_of_lt hi hj]
  simp only [sortTurn, arraysOf, getIdx_map _ hi, getIdx_map _ hj, Raise.ok_bind]
  by_cases h : rows[i].bp > rows[j].bp ∨ rows[i].pp < rows[j].pp
  · rw [if_pos h, if_pos (show outOfOrder rows[i] rows[j] = true from decide_eq_true h)]
    simp only [Arrays.exchange, swapAt_map _ hi hj, Raise.ok_bind]
  · rw [if_neg h, if_neg (show ¬ outOfOrder rows[i] rows[j] = true by simpa [outOfOrder] using h)]

/-- **The sorting loops sort rows**: on arrays of equal length they are one exchange
sort, applied to all seven arrays. -/
theorem sortArrays_rows (rows : List Row) :
    sortArrays (arraysOf rows) = .ok (arraysOf (ExchangeSort.sort outOfOrder rows)) := by
  have hlen : (arraysOf rows).bp.length = rows.length := List.length_map Row.bp
  rw [sortArrays, hlen]
  exact ExchangeSort.foldlM_pairs sortTurn_rows rows

/-- The label of a row. -/
def Row.label (r : Row) : Text := UnikraftSuite.label r.name r.p r.f r.b

theorem labels_rows (rows : List Row) : labels (arraysOf rows) = .ok (rows.map Row.label) := by
  have hlen : (arraysOf rows).syscalls.length = rows.length := List.length_map Row.name
  rw [labels, hlen, Raise.mapM_eq_ok_iff, List.forall₂_iff_get]
  refine ⟨by simp, fun i h₁ h₂ => ?_⟩
  have hi : i < rows.length := by simpa using h₁
  simp only [List.get_eq_getElem, List.getElem_range, List.getElem_map, arraysOf,
    getIdx_map _ hi, Raise.ok_bind]
  rfl

/-! ## A label determines its name and counts -/

/-- The counts part `p/f/b` of a label. -/
def countsPart (c : Counts) : Text :=
  str (c.pass : Nat) ++ '/' :: (str (c.fail : Nat) ++ '/' :: str (c.brok : Nat))

theorem countsPart_injective {c d : Counts} (h : countsPart c = countsPart d) : c = d := by
  have hslash : ∀ n : Nat, '/' ∉ str (n : Nat) := not_mem_str (by decide)
  have hsplit : ∀ c : Counts, split ['/'] (countsPart c)
      = [str (c.pass : Nat), str (c.fail : Nat), str (c.brok : Nat)] := by
    intro c
    rw [countsPart, split_char_cut (hslash _), split_char_cut (hslash _),
      split_char_of_not_mem (hslash _)]
  have hparts := hsplit c
  rw [h, hsplit d] at hparts
  simp only [List.cons.injEq, and_true] at hparts
  obtain ⟨hp, hf, hb⟩ := hparts
  cases c
  cases d
  rw [Counts.mk.injEq]
  exact ⟨(str_injective hp).symm, (str_injective hf).symm, (str_injective hb).symm⟩

/-- The label `name: p/f/b` of a system call with these counts. -/
def labelOf (name : Text) (c : Counts) : Text := label name c.pass c.fail c.brok

/-- **Labels are unambiguous**, for all names. -/
theorem labelOf_injective {s t : Text} {c d : Counts} (h : labelOf s c = labelOf t d) :
    s = t ∧ c = d := by
  have hform : ∀ (s : Text) (c : Counts),
      labelOf s c = (s ++ [':']) ++ ' ' :: countsPart c := by
    intro s c
    simp [labelOf, label, countsPart]
  have hblank : ∀ c : Counts, ' ' ∉ countsPart c := by
    intro c
    have hstr : ∀ n : Nat, ' ' ∉ str (n : Nat) := not_mem_str (by decide)
    simp [countsPart, hstr]
  rw [hform, hform] at h
  obtain ⟨hs, hc⟩ := Substring.append_cons_inj_last (hblank c) (hblank d) h
  exact ⟨List.append_cancel_right hs, countsPart_injective hc⟩

/-! ## The labels of a run -/

/-- The row of a name at which these counts were found. -/
def rowOf (name : Text) (c : Counts) : Row where
  pp := c.percentage.1
  fp := c.percentage.2.1
  bp := c.percentage.2.2
  name := name
  p := Int.ofNat c.pass
  f := Int.ofNat c.fail
  b := Int.ofNat c.brok

theorem arraysOf_zip {names : List Text} {cs : List Counts} (h : names.length = cs.length) :
    arraysOf (List.zipWith rowOf names cs)
      = ⟨(cs.map Counts.percentage).map (·.1), (cs.map Counts.percentage).map (·.2.1),
          (cs.map Counts.percentage).map (·.2.2), names, (readCounts cs).p, (readCounts cs).f,
          (readCounts cs).b⟩ := by
  simp only [arraysOf, readCounts, List.map_zipWith, List.map_map, rowOf, Arrays.mk.injEq]
  have hright : ∀ {γ : Type} (g : Counts → γ),
      List.zipWith (fun _ c => g c) names cs = cs.map g := by
    intro γ g
    rw [← List.map_uncurry_zip_eq_zipWith]
    have hsnd : (fun x : Text × Counts => g x.2) = g ∘ Prod.snd := rfl
    simp only [Function.uncurry_def, hsnd, ← List.map_map]
    rw [List.map_snd_zip h.ge]
  have hleft : List.zipWith (fun s (_ : Counts) => s) names cs = names := by
    rw [← List.map_uncurry_zip_eq_zipWith]
    exact List.map_fst_zip h.le
  refine ⟨hright _, hright _, hright _, hleft, hright _, hright _, hright _⟩

/-- A folder with one test that passes. -/
def passingFolder : Folder Unit :=
  ⟨"read".toList, [⟨"read01.c".toList, false, ⟨some [], some (), false⟩,
    fun _ => some "test succeeded\n".toList⟩], none⟩

/-- A folder with one test that fails. -/
def failingFolder : Folder Unit :=
  ⟨"write".toList, [⟨"write01.c".toList, false, ⟨some [], some (), false⟩,
    fun _ => some "test failed\n".toList⟩], none⟩

end UnikraftSuite
