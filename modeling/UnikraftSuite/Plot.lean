import UnikraftSuite.Labels
import UnikraftSuite.Lib.Chunks
import Mathlib.Data.List.Perm.Basic

/-!
# The bar charts of `runtest -g`

The labels are cut into slices of 60 and every percentage array into six chunks by
`np.array_split`; six charts then draw the three percentages of a chunk, stacked, next to
the labels of the slice with the same number. All chunks are reversed, and the place
where the next bar begins is accumulated in `np.zeros(60)`.

- `plot` is this part of the script, over the `Graphics` functions it calls.
- `plot_rows`: with 360 system calls each of them is drawn once, next to its own label.
- `plotAligned_iff`: for no other number of system calls do the two partitions and the
  accumulator fit.
-/

namespace UnikraftSuite

open PyStr Chunks

/-! ## The functions of numpy and matplotlib -/

/-- One bar: where it begins and how wide it is. -/
structure Bar where
  label : Text
  left : Rat
  width : Rat

/-- What the script uses of numpy and matplotlib: `np.array_split(np.array(l), 6)`, the
bars drawn by `ax.barh(labels, widths, left=left)`, and `left += widths`. -/
structure Graphics where
  arraySplit : List Rat → List (List Rat)
  barh : List Text → List Rat → List Rat → Except PyErr (List Bar)
  iadd : List Rat → List Rat → Except PyErr (List Rat)

/-- The sizes of the six chunks of an array of `n` elements. -/
def splitSizes (n : Nat) : List Nat :=
  List.replicate (n % 6) (n / 6 + 1) ++ List.replicate (6 - n % 6) (n / 6)

/-- What the two libraries document for arguments of one shape. -/
structure Graphics.Documented (g : Graphics) : Prop where
  flatten_arraySplit : ∀ l, (g.arraySplit l).flatten = l
  lengths_arraySplit : ∀ l, (g.arraySplit l).map List.length = splitSizes l.length
  barh_eq : ∀ {labels widths left}, labels.length = widths.length →
    widths.length = left.length →
    g.barh labels widths left
      = .ok (List.zipWith (fun s x => ⟨s, x.1, x.2⟩) labels (left.zip widths))
  iadd_eq : ∀ {left widths}, left.length = widths.length →
    g.iadd left widths = .ok (List.zipWith (· + ·) left widths)

/-- Two arrays with these numbers of elements can be broadcast to one shape. -/
def Broadcast (m n : Nat) : Prop := m = n ∨ m = 1 ∨ n = 1

/-- What they document for arguments of different shapes as well. -/
structure Graphics.Broadcasting (g : Graphics) : Prop extends g.Documented where
  barh_error : ∀ {labels widths left}, ¬ Broadcast widths.length left.length →
    g.barh labels widths left = .error .valueError

/-! ## The script -/

/-- The slices of 60 labels, each reversed. -/
def nameChunks (syscalls : List Text) : List (List Text) :=
  (slices 60 ((syscalls.length + 59) / 60) syscalls).map List.reverse

/-- The entry of `data` for chart `i`, in the order of its keys. -/
def plotItem (pp fp bp : List (List Rat)) (i : Nat) : Except PyErr (List (List Rat)) := do
  let passed ← getIdx pp i
  let failed ← getIdx fp i
  let broken ← getIdx bp i
  return [passed.reverse, failed.reverse, broken.reverse]

/-- One turn of `for res, res_count in data[i].items()`, with the bars drawn so far. -/
def drawBars (g : Graphics) (syscalls : List (List Text)) (i : Nat)
    (st : List Rat × List Bar) (resCount : List Rat) : Except PyErr (List Rat × List Bar) := do
  let labels ← getIdx syscalls i
  let x ← g.barh labels resCount st.1
  let left ← g.iadd st.1 resCount
  return (left, st.2 ++ x)

/-- The bars of chart `i`. -/
def plotAxis (g : Graphics) (syscalls : List (List Text)) (data : List (List (List Rat)))
    (i : Nat) : Except PyErr (List Bar) := do
  let items ← getIdx data i
  let st ← items.foldlM (drawBars g syscalls i) (List.replicate 60 0, [])
  return st.2

/-- The six charts. -/
def plot (g : Graphics) (syscalls : List Text) (pp fp bp : List Rat) :
    Except PyErr (List (List Bar)) := do
  let data ← (List.range 6).mapM (plotItem (g.arraySplit pp) (g.arraySplit fp) (g.arraySplit bp))
  (List.range 6).mapM (plotAxis g (nameChunks syscalls) data)

/-! ## 360 system calls -/

/-- The three bars of a system call, one after the other. -/
def Row.bars (r : Row) : List Bar :=
  [⟨r.label, 0, r.pp⟩, ⟨r.label, r.pp, r.fp⟩, ⟨r.label, r.pp + r.fp, r.bp⟩]

section Drawing

variable {g : Graphics} (hg : g.Documented)

include hg

/-- An array of 360 elements is split into slices of 60. -/
theorem arraySplit_eq {l : List Rat} (h : l.length = 360) : g.arraySplit l = slices 60 6 l := by
  rw [List.eq_iff_flatten_eq, hg.flatten_arraySplit, hg.lengths_arraySplit, flatten_slices,
    map_length_slices (by omega), h]
  exact ⟨(List.take_of_length_le h.le).symm, rfl⟩

omit hg in
/-- The bars next to the labels of rows. -/
theorem zipWith_bars (left width : Row → Rat) (rows : List Row) :
    List.zipWith (fun (s : Text) (x : Rat × Rat) => Bar.mk s x.1 x.2) (rows.map Row.label)
        ((rows.map left).zip (rows.map width))
      = rows.map fun r => ⟨r.label, left r, width r⟩ := by
  rw [List.zip_map', List.zipWith_map, List.zipWith_self]

/-- One turn over a chunk of rows draws a bar for each row, from where its last ended. -/
theorem drawBars_rows {syscalls : List (List Text)} {i : Nat} {rows : List Row}
    (hi : getIdx syscalls i = .ok (rows.map Row.label)) (left width : Row → Rat)
    (bars : List Bar) :
    drawBars g syscalls i (rows.map left, bars) (rows.map width)
      = .ok (rows.map fun r => left r + width r,
          bars ++ rows.map fun r => ⟨r.label, left r, width r⟩) := by
  rw [drawBars, hi, Raise.ok_bind, hg.barh_eq (by simp) (by simp), Raise.ok_bind,
    hg.iadd_eq (by simp), Raise.ok_bind, zipWith_bars, List.zipWith_map, List.zipWith_self]
  rfl

/-- A chart draws the bars of its rows. -/
theorem plotAxis_rows {syscalls : List (List Text)} {data : List (List (List Rat))} {i : Nat}
    {rows : List Row} (hlen : rows.length = 60)
    (hi : getIdx syscalls i = .ok (rows.map Row.label))
    (hdata : getIdx data i = .ok [rows.map Row.pp, rows.map Row.fp, rows.map Row.bp]) :
    ∃ bars, plotAxis g syscalls data i = .ok bars ∧ bars.Perm (rows.flatMap Row.bars) := by
  have hzero : List.replicate 60 (0 : Rat) = rows.map fun _ => 0 := by
    rw [List.map_const', hlen]
  have hrun : plotAxis g syscalls data i
      = .ok (rows.map (fun r => (⟨r.label, 0, r.pp⟩ : Bar))
          ++ (rows.map (fun r => ⟨r.label, r.pp, r.fp⟩)
            ++ rows.map fun r => ⟨r.label, r.pp + r.fp, r.bp⟩)) := by
    rw [plotAxis, hdata, Raise.ok_bind, hzero, List.foldlM_cons, drawBars_rows hg hi,
      Raise.ok_bind, List.foldlM_cons, drawBars_rows hg hi, Raise.ok_bind, List.foldlM_cons,
      drawBars_rows hg hi, Raise.ok_bind, List.foldlM_nil]
    simp only [zero_add, List.nil_append, List.append_assoc]
    rfl
  refine ⟨_, hrun, ?_⟩
  -- bar by bar instead of row by row
  have hlast : rows.map (fun r => (⟨r.label, r.pp + r.fp, r.bp⟩ : Bar))
      = rows.flatMap fun r => [⟨r.label, r.pp + r.fp, r.bp⟩] := List.map_eq_flatMap
  rw [hlast]
  refine ((List.map_append_flatMap_perm _ _ _).append_left _).trans ?_
  exact List.map_append_flatMap_perm _ _ _

/-- With 360 system calls each of them is drawn once, next to its own label. -/
theorem plot_rows {rows : List Row} (h : rows.length = 360) :
    ∃ axes, plot g (rows.map Row.label) (rows.map Row.pp) (rows.map Row.fp) (rows.map Row.bp)
        = .ok axes ∧
      axes.flatten.Perm (rows.flatMap Row.bars) := by
  let chunk : Nat → List Row := fun i => slice rows (i * 60) ((i + 1) * 60)
  have hcol : ∀ f : Row → Rat, g.arraySplit (rows.map f)
      = (List.range 6).map fun i => (chunk i).map f := by
    intro f
    rw [arraySplit_eq hg (by rw [List.length_map, h]), slices]
    exact List.map_congr_left fun i _ => map_slice f rows _ _
  have hnames : nameChunks (rows.map Row.label)
      = (List.range 6).map fun i => (chunk i).reverse.map Row.label := by
    rw [nameChunks, List.length_map, h, slices, List.map_map]
    refine List.map_congr_left fun i _ => ?_
    rw [Function.comp_apply, map_slice, List.map_reverse]
  have hget : ∀ {γ : Type} (f : Nat → γ) {i}, i < 6 →
      getIdx ((List.range 6).map f) i = .ok (f i) := by
    intro γ f i hi
    rw [getIdx_map f (by simpa using hi), List.getElem_range]
  -- the data of chart `i` are the columns of chunk `i`, reversed
  have hdata : (List.range 6).mapM (plotItem (g.arraySplit (rows.map Row.pp))
        (g.arraySplit (rows.map Row.fp)) (g.arraySplit (rows.map Row.bp)))
      = .ok ((List.range 6).map fun i => [(chunk i).reverse.map Row.pp,
          (chunk i).reverse.map Row.fp, (chunk i).reverse.map Row.bp]) := by
    refine Raise.mapM_of_ok fun i hi => ?_
    rw [plotItem, hcol, hcol, hcol, hget _ (List.mem_range.mp hi), Raise.ok_bind,
      hget _ (List.mem_range.mp hi), Raise.ok_bind, hget _ (List.mem_range.mp hi), Raise.ok_bind]
    simp only [List.map_reverse]
    rfl
  have haxis : ∀ i ∈ List.range 6, ∃ bars, plotAxis g (nameChunks (rows.map Row.label))
        ((List.range 6).map fun i => [(chunk i).reverse.map Row.pp,
          (chunk i).reverse.map Row.fp, (chunk i).reverse.map Row.bp]) i = .ok bars ∧
      bars.Perm ((chunk i).reverse.flatMap Row.bars) := by
    intro i hi
    have hlt : i < 6 := List.mem_range.mp hi
    have hlen : (chunk i).reverse.length = 60 := by
      rw [List.length_reverse, length_slice (by omega)]
      omega
    refine plotAxis_rows hg hlen ?_ (hget _ hlt)
    rw [hnames]
    exact hget _ hlt
  choose! bars hbars hperm using haxis
  refine ⟨(List.range 6).map bars, ?_, ?_⟩
  · rw [plot, hdata, Raise.ok_bind]
    exact Raise.mapM_of_ok hbars
  · have hchunks : ((List.range 6).map chunk).flatten = rows := by
      have hflat := flatten_slices 60 rows 6
      rw [List.take_of_length_le h.le] at hflat
      exact hflat
    have hbar : ∀ i ∈ List.range 6, (bars i).Perm ((chunk i).flatMap Row.bars) := by
      intro i hi
      exact (hperm i hi).trans ((List.reverse_perm (chunk i)).flatMap_right _)
    have hall := List.Perm.flatMap_left (List.range 6) hbar
    rw [← List.flatMap_assoc, List.flatMap_def (f := chunk), hchunks] at hall
    exact hall

end Drawing

/-! ## Every number of system calls -/

/-- The slices of labels and the chunks of the three percentage arrays are equally many,
of the same lengths one by one, and as long as `np.zeros(60)`; the charts are drawn
without an error, and every system call is drawn exactly once, next to its own label. -/
structure PlotAligned (g : Graphics) (rows : List Row) : Prop where
  names : ∀ c ∈ nameChunks (rows.map Row.label), c.length = 60
  lengths : ∀ f ∈ [Row.pp, Row.fp, Row.bp], (g.arraySplit (rows.map f)).map List.length
    = (nameChunks (rows.map Row.label)).map List.length
  drawn : ∃ axes, plot g (rows.map Row.label) (rows.map Row.pp) (rows.map Row.fp)
      (rows.map Row.bp) = .ok axes ∧ axes.flatten.Perm (rows.flatMap Row.bars)

theorem sum_splitSizes (n : Nat) : (splitSizes n).sum = n := by
  unfold splitSizes
  rw [List.sum_append, List.sum_replicate_nat, List.sum_replicate_nat, Nat.mul_succ]
  have hdiv := Nat.mod_add_div n 6
  have hlt : n % 6 < 6 := Nat.mod_lt n (by omega)
  have hsplit : n % 6 * (n / 6) + (6 - n % 6) * (n / 6) = 6 * (n / 6) := by
    rw [← Nat.add_mul]
    congr 1
    omega
  omega

theorem length_splitSizes (n : Nat) : (splitSizes n).length = 6 := by
  have hlt : n % 6 < 6 := Nat.mod_lt n (by omega)
  rw [splitSizes, List.length_append, List.length_replicate, List.length_replicate]
  omega

/-- **Plot chunk alignment**: the charts fit if and only if there are 360 system calls. -/
theorem plotAligned_iff {g : Graphics} (hg : g.Documented) (rows : List Row) :
    PlotAligned g rows ↔ rows.length = 360 := by
  constructor
  · intro h
    have hsizes := h.lengths Row.pp List.mem_cons_self
    rw [hg.lengths_arraySplit, List.length_map] at hsizes
    -- six chunks of 60 elements
    have hsixty : splitSizes rows.length = List.replicate 6 60 := by
      rw [List.eq_replicate_iff]
      refine ⟨length_splitSizes _, fun n hn => ?_⟩
      rw [hsizes] at hn
      obtain ⟨c, hc, rfl⟩ := List.mem_map.mp hn
      exact h.names c hc
    have hsum := sum_splitSizes rows.length
    rw [hsixty] at hsum
    exact hsum.symm
  · intro h
    have hnames : (nameChunks (rows.map Row.label)).map List.length = List.replicate 6 60 := by
      have hlen : (rows.map Row.label).length = 360 := by rw [List.length_map, h]
      have hrev : ∀ cs : List (List Text), (cs.map List.reverse).map List.length
          = cs.map List.length := by
        intro cs
        simp [List.map_map, Function.comp_def]
      rw [nameChunks, hrev, hlen]
      exact map_length_slices (by omega)
    refine ⟨fun c hc => ?_, fun f _ => ?_, plot_rows hg h⟩
    · have hmem := List.mem_map_of_mem (f := List.length) hc
      rw [hnames] at hmem
      exact List.eq_of_mem_replicate hmem
    · rw [hnames, hg.lengths_arraySplit, List.length_map, h]
      rfl

/-- A chart that is drawn has labels, and its first bars have been drawn. -/
theorem plotAxis_returns {g : Graphics} {syscalls : List (List Text)}
    {data : List (List (List Rat))} {i : Nat} {widths : List Rat} {items : List (List Rat)}
    (hdata : getIdx data i = .ok (widths :: items)) {bars : List Bar}
    (h : plotAxis g syscalls data i = .ok bars) :
    ∃ labels x, getIdx syscalls i = .ok labels ∧
      g.barh labels widths (List.replicate 60 0) = .ok x := by
  rw [plotAxis, hdata, Raise.ok_bind] at h
  obtain ⟨st, hst, -⟩ := Raise.bind_eq_ok.mp h
  rw [List.foldlM_cons] at hst
  obtain ⟨st', hst', -⟩ := Raise.bind_eq_ok.mp hst
  obtain ⟨labels, hlabels, hst'⟩ := Raise.bind_eq_ok.mp hst'
  obtain ⟨x, hx, -⟩ := Raise.bind_eq_ok.mp hst'
  exact ⟨labels, x, hlabels, hx⟩

/-- What each of the six charts has had if all are drawn. -/
theorem plot_returns {g : Graphics} {names : List Text} {pp fp bp : List Rat}
    {axes : List (List Bar)} (h : plot g names pp fp bp = .ok axes) {i : Nat} (hi : i < 6) :
    ∃ labels passed x, getIdx (nameChunks names) i = .ok labels ∧
      getIdx (g.arraySplit pp) i = .ok passed ∧
      g.barh labels passed.reverse (List.replicate 60 0) = .ok x := by
  obtain ⟨data, hdata, haxes⟩ := Raise.bind_eq_ok.mp h
  obtain ⟨hdatalen, hitem⟩ := List.forall₂_iff_get.mp (Raise.mapM_eq_ok_iff.mp hdata)
  obtain ⟨haxeslen, haxis⟩ := List.forall₂_iff_get.mp (Raise.mapM_eq_ok_iff.mp haxes)
  rw [List.length_range] at hdatalen haxeslen
  have hitem := hitem i (by simpa using hi) (by omega)
  have haxis := haxis i (by simpa using hi) (by omega)
  simp only [List.get_eq_getElem, List.getElem_range] at hitem haxis
  obtain ⟨passed, hpassed, hitem⟩ := Raise.bind_eq_ok.mp hitem
  obtain ⟨failed, -, hitem⟩ := Raise.bind_eq_ok.mp hitem
  obtain ⟨broken, -, hitem⟩ := Raise.bind_eq_ok.mp hitem
  have hget : getIdx data i = .ok [passed.reverse, failed.reverse, broken.reverse] := by
    rw [getIdx_eq_ok, List.getElem?_eq_getElem (by omega)]
    exact congrArg some (Except.ok.inj hitem).symm
  obtain ⟨labels, x, hlabels, hx⟩ := plotAxis_returns hget haxis
  exact ⟨labels, passed, x, hlabels, hpassed, hx⟩

theorem getElem?_splitSizes {n i : Nat} (hi : i < 6) :
    (splitSizes n)[i]? = some (if i < n % 6 then n / 6 + 1 else n / 6) := by
  rw [splitSizes, List.getElem?_append, List.length_replicate, List.getElem?_replicate,
    List.getElem?_replicate]
  split
  · rfl
  · rw [if_pos (by omega)]

/-- The chunks fit to the slices of labels and to `np.zeros(60)`. -/
theorem broadcast_of_plot {g : Graphics} (hg : g.Broadcasting) {names : List Text}
    {pp fp bp : List Rat} {axes : List (List Bar)} (h : plot g names pp fp bp = .ok axes) {i : Nat}
    (hi : i < 6) : i < (nameChunks names).length ∧
      Broadcast (if i < pp.length % 6 then pp.length / 6 + 1 else pp.length / 6) 60 := by
  obtain ⟨labels, passed, x, hlabels, hpassed, hx⟩ := plot_returns h hi
  refine ⟨returns_getIdx.mp ⟨labels, hlabels⟩, ?_⟩
  -- the length of chunk `i`
  have hlen := congrArg (·[i]?) (hg.lengths_arraySplit pp)
  simp only [List.getElem?_map, getIdx_eq_ok.mp hpassed, getElem?_splitSizes hi,
    Option.map_some, Option.some.injEq] at hlen
  rw [← hlen]
  by_contra hnot
  rw [hg.barh_error (by rwa [List.length_reverse, List.length_replicate])] at hx
  cases hx

/-- **The charts cannot be drawn** for another number of system calls: the script ends with an
error before it shows them. -/
theorem length_of_plot {g : Graphics} (hg : g.Broadcasting) {names : List Text}
    {pp fp bp : List Rat} (hlen : pp.length = names.length) {axes : List (List Bar)}
    (h : plot g names pp fp bp = .ok axes) : names.length = 360 := by
  obtain ⟨-, hfirst⟩ := broadcast_of_plot hg h (i := 0) (by omega)
  obtain ⟨hlabels, hlast⟩ := broadcast_of_plot hg h (i := 5) (by omega)
  have hchunks : (nameChunks names).length = (names.length + 59) / 60 := by
    rw [nameChunks, List.length_map, slices, List.length_map, List.length_range]
  rw [hchunks] at hlabels
  rw [hlen] at hfirst hlast
  have hmod := Nat.mod_lt names.length (show 6 > 0 by omega)
  rw [if_neg (by omega)] at hlast
  -- the last chunk has 60 elements, and so has the first one
  rcases hlast with hlast | hlast | hlast
  · split at hfirst
    · rcases hfirst with hfirst | hfirst | hfirst <;> omega
    · omega
  · omega
  · omega

/-- The three functions where the shapes of their arguments are the same; elsewhere the
last two raise `ValueError`. -/
def sameShape : Graphics where
  arraySplit l := cut (splitSizes l.length) l
  barh labels widths left :=
    if labels.length = widths.length ∧ widths.length = left.length then
      .ok (List.zipWith (fun s x => ⟨s, x.1, x.2⟩) labels (left.zip widths))
    else .error .valueError
  iadd left widths :=
    if left.length = widths.length then .ok (List.zipWith (· + ·) left widths)
    else .error .valueError

theorem broadcasting_sameShape : sameShape.Broadcasting where
  flatten_arraySplit l := flatten_cut (sum_splitSizes l.length)
  lengths_arraySplit l := map_length_cut (sum_splitSizes l.length)
  barh_eq h h' := if_pos ⟨h, h'⟩
  iadd_eq h := if_pos h
  barh_error h := if_neg fun hshape => h (.inl hshape.2)

/-- A system call with one passing test. -/
def oneRow : Row := ⟨100, 0, 0, "read".toList, 1, 0, 0⟩

theorem plotAligned_iff_sameShape :
    PlotAligned sameShape (List.replicate 360 oneRow) ↔ (List.replicate 360 oneRow).length = 360 :=
  plotAligned_iff broadcasting_sameShape.toDocumented _

/-- With one system call more, there is a seventh slice of labels, and the first of the six
chunks of an array has 61 elements. -/
theorem not_plotAligned_361 : ¬ PlotAligned sameShape (List.replicate 361 oneRow) := by
  intro h
  have hsizes := h.lengths Row.pp List.mem_cons_self
  have hseven : (nameChunks ((List.replicate 361 oneRow).map Row.label)).length = 7 := by
    rw [nameChunks, List.length_map, List.length_map, List.length_replicate, slices,
      List.length_map, List.length_range]
  have hlen := congrArg List.length hsizes
  rw [broadcasting_sameShape.lengths_arraySplit, length_splitSizes, List.length_map, hseven] at hlen
  exact absurd hlen (by omega)

end UnikraftSuite
