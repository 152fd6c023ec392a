import UnikraftSuite.Labels
import Mathlib.Data.List.OfFn

/-!
# What the sorting loops of `runtest` achieve

The loops exchange two folders in all seven arrays when `bp[i] > bp[j] or pp[i] < pp[j]`,
so that the unimplemented system calls come last.

- `sortTurns_coherent`: after any number of turns the seven arrays are the original ones
  under one common permutation, so the rows are the same rows.
- `sortsReport_iff`: the rows end up in the order the loops are after if and only if no
  folder is listed before another one that has both the larger part of broken tests and
  the larger part of passing tests. The condition exchanges such a pair in either order.
-/

namespace UnikraftSuite

open PyStr

/-! ## Rows stay together -/

/-- The seven arrays have `n` elements each. -/
structure Arrays.Aligned (a : Arrays) (n : Nat) : Prop where
  pp : a.pp.length = n
  fp : a.fp.length = n
  bp : a.bp.length = n
  syscalls : a.syscalls.length = n
  p : a.p.length = n
  f : a.f.length = n
  b : a.b.length = n

/-- The rows of aligned arrays. -/
def Arrays.rows (a : Arrays) {n : Nat} (h : a.Aligned n) : List Row :=
  List.ofFn fun i : Fin n =>
    { pp := a.pp.get (i.cast h.pp.symm)
      fp := a.fp.get (i.cast h.fp.symm)
      bp := a.bp.get (i.cast h.bp.symm)
      name := a.syscalls.get (i.cast h.syscalls.symm)
      p := a.p.get (i.cast h.p.symm)
      f := a.f.get (i.cast h.f.symm)
      b := a.b.get (i.cast h.b.symm) }

theorem length_rows {a : Arrays} {n : Nat} (h : a.Aligned n) : (a.rows h).length = n :=
  List.length_ofFn

theorem aligned_arraysOf {rows : List Row} {n : Nat} (h : rows.length = n) :
    (arraysOf rows).Aligned n := by
  constructor <;> exact (List.length_map _).trans h

/-- Aligned arrays are the arrays of their rows. -/
theorem arraysOf_rows {a : Arrays} {n : Nat} (h : a.Aligned n) : arraysOf (a.rows h) = a := by
  have hcol : ∀ {γ : Type} (l : List γ) (hl : l.length = n),
      List.ofFn (fun i : Fin n => l.get (i.cast hl.symm)) = l := by
    intro γ l hl
    subst hl
    exact List.ofFn_get l
  unfold arraysOf Arrays.rows
  simp only [List.map_ofFn, Function.comp_def]
  rw [hcol _ h.pp, hcol _ h.fp, hcol _ h.bp, hcol _ h.syscalls, hcol _ h.p, hcol _ h.f, hcol _ h.b]

/-- Rows are the rows of their arrays. -/
theorem rows_arraysOf {rows : List Row} {n : Nat} (h : (arraysOf rows).Aligned n) :
    (arraysOf rows).rows h = rows := by
  have hlen : rows.length = n := (List.length_map Row.pp).symm.trans h.pp
  subst hlen
  refine List.ext_get (length_rows h) fun i h₁ h₂ => ?_
  simp [Arrays.rows, arraysOf]

/-- The percentages of a row are its own counts over its own total. -/
def Row.OwnPercentages (r : Row) : Prop :=
  let tot : Rat := ((r.p + r.f + r.b : Int) : Rat)
  r.pp = r.p / tot * 100 ∧ r.fp = r.f / tot * 100 ∧ r.bp = r.b / tot * 100

/-- `a'` is `a` with all seven arrays under one permutation of the positions. -/
def Reorders (σ : Equiv.Perm Nat) (a a' : Arrays) : Prop :=
  ∀ k, a'.pp[k]? = a.pp[σ k]? ∧ a'.fp[k]? = a.fp[σ k]? ∧ a'.bp[k]? = a.bp[σ k]? ∧
    a'.syscalls[k]? = a.syscalls[σ k]? ∧ a'.p[k]? = a.p[σ k]? ∧ a'.f[k]? = a.f[σ k]? ∧
    a'.b[k]? = a.b[σ k]?

/-- Every array is a column of the rows. -/
theorem reorders_arraysOf {σ : Equiv.Perm Nat} {rows rows' : List Row}
    (h : ∀ k, rows'[k]? = rows[σ k]?) : Reorders σ (arraysOf rows) (arraysOf rows') := by
  intro k
  simp only [arraysOf, List.getElem?_map, h, and_self]

/-- `a'` has the rows of `a`: aligned again, reordered in common, each row as often as
before, and with its own percentages if all had them. -/
structure Coherent {a : Arrays} {n : Nat} (h : a.Aligned n) (a' : Arrays) : Prop where
  aligned : a'.Aligned n
  reordered : ∃ σ, Reorders σ a a'
  perm : (a'.rows aligned).Perm (a.rows h)
  own : (∀ r ∈ a.rows h, r.OwnPercentages) → ∀ r ∈ a'.rows aligned, r.OwnPercentages

/-- Any turns of the inner loop, at positions of the arrays, keep the rows. -/
theorem foldlM_sortTurn_coherent {a : Arrays} {n : Nat} (h : a.Aligned n) {ps : List (Nat × Nat)}
    (hps : ∀ ij ∈ ps, ij.1 < n ∧ ij.2 < n) :
    ∃ a', ps.foldlM sortTurn a = .ok a' ∧ Coherent h a' := by
  have hrun : ps.foldlM sortTurn a
      = .ok (arraysOf (ps.foldl (ExchangeSort.step outOfOrder) (a.rows h))) := by
    have hrows := ExchangeSort.foldlM_step sortTurn_rows ps (a.rows h) (by rwa [length_rows])
    rw [arraysOf_rows] at hrows
    exact hrows
  have hperm := ExchangeSort.foldl_step_perm outOfOrder ps (a.rows h)
  obtain ⟨σ, hσ⟩ := ExchangeSort.foldl_step_reorders outOfOrder ps (a.rows h)
  have haligned := aligned_arraysOf (hperm.length_eq.trans (length_rows h))
  have hreorders := reorders_arraysOf hσ
  rw [arraysOf_rows h] at hreorders
  refine ⟨_, hrun, haligned, ⟨σ, hreorders⟩, ?_, ?_⟩
  · rw [rows_arraysOf]
    exact hperm
  · intro hown r hr
    rw [rows_arraysOf] at hr
    exact hown r (hperm.subset hr)

/-- **Rows stay together**: after every turn of the sorting loops, and when they end, the
seven arrays hold the rows they held before. -/
theorem sortTurns_coherent {a : Arrays} {n : Nat} (h : a.Aligned n) :
    (∀ k, ∃ a', ((ExchangeSort.pairs a.bp.length).take k).foldlM sortTurn a = .ok a' ∧
      Coherent h a') ∧
    ∃ a', sortArrays a = .ok a' ∧ Coherent h a' := by
  have hbelow : ∀ ij ∈ ExchangeSort.pairs a.bp.length, ij.1 < n ∧ ij.2 < n := by
    intro ij hij
    have hlt := ExchangeSort.mem_pairs.mp hij
    rw [h.bp] at hlt
    omega
  constructor
  · intro k
    exact foldlM_sortTurn_coherent h fun ij hij => hbelow ij (List.mem_of_mem_take hij)
  · exact foldlM_sortTurn_coherent h hbelow

/-- Two rows whose exchange is due, the second of them twice. -/
def threeRows : List Row :=
  [⟨0, 100, 0, "write".toList, 0, 1, 0⟩, ⟨50, 0, 50, "read".toList, 1, 0, 1⟩,
    ⟨50, 0, 50, "read".toList, 1, 0, 1⟩]

theorem aligned_threeRows : (arraysOf threeRows).Aligned 3 := aligned_arraysOf rfl

theorem sortTurns_coherent_three :
    (∀ k, ∃ a', ((ExchangeSort.pairs (arraysOf threeRows).bp.length).take k).foldlM sortTurn
        (arraysOf threeRows) = .ok a' ∧
      Coherent (aligned_threeRows) a') ∧
    ∃ a', sortArrays (arraysOf threeRows) = .ok a' ∧
      Coherent (aligned_threeRows) a' :=
  sortTurns_coherent aligned_threeRows

/-! ## The order of the rows -/

/-- `runtest -g` up to the end of the sorting loops. -/
def sortReport (report : Text) (syscalls : List Text) : Except PyErr Arrays := do
  let c ← parseCounts report
  let pct ← percentages c
  sortArrays ⟨pct.map (·.1), pct.map (·.2.1), pct.map (·.2.2), syscalls, c.p, c.f, c.b⟩

/-- The report with these counts and these logs. -/
def reportOf (cs : List Counts) (logs : Text) : Text :=
  countText (cs.map Counts.pass) (cs.map Counts.fail) (cs.map Counts.brok)
    ++ ("DIVIDER".toList ++ logs)

/-- The report of `brain.py` is of this form. -/
theorem brain_reportOf {β : Type} {folders : List (Folder β)} {out : Text}
    (h : brain folders = .ok out) : ∃ logs, out = reportOf (folders.map folderCounts) logs := by
  rcases Nat.lt_or_ge 361 folders.length with hl | hl
  · rw [brain_raises hl] at h
    cases h
  · rw [brain_eq hl] at h
    cases h
    refine ⟨(visitAll folders World.init).logs, ?_⟩
    simp only [reportOf, List.map_map, Function.comp_def]

/-- The broken percentage does not decrease, and where it stays the same the passing
percentage does not increase. -/
def Arrays.InOrder (a : Arrays) : Prop :=
  ∀ i j (_ : i < j) (_ : j < a.bp.length) (_ : j < a.pp.length),
    a.bp[i] ≤ a.bp[j] ∧ (a.bp[i] = a.bp[j] → a.pp[j] ≤ a.pp[i])

/-- The order the loops are after. -/
def rowLe (x y : Row) : Prop := x.bp ≤ y.bp ∧ (x.bp = y.bp → y.pp ≤ x.pp)

theorem rowLe_refl (x : Row) : rowLe x x := ⟨le_refl x.bp, fun _ => le_refl x.pp⟩

theorem rowLe_trans {x y z : Row} (hxy : rowLe x y) (hyz : rowLe y z) : rowLe x z := by
  refine ⟨hxy.1.trans hyz.1, fun h => ?_⟩
  have hx : x.bp = y.bp := le_antisymm hxy.1 (h ▸ hyz.1)
  exact (hyz.2 (hx.symm.trans h)).trans (hxy.2 hx)

theorem rowLe_of_not_outOfOrder {x y : Row} (h : ¬ outOfOrder x y) : rowLe x y := by
  have h' : ¬ (x.bp > y.bp ∨ x.pp < y.pp) := by simpa [outOfOrder] using h
  rw [not_or, not_lt, not_lt] at h'
  exact ⟨h'.1, fun _ => h'.2⟩

/-- The condition of the loops misjudges exactly the pairs that grow in both percentages. -/
theorem faithful_iff (x y : Row) :
    ExchangeSort.Faithful outOfOrder rowLe x y ↔ ¬ (x.bp < y.bp ∧ x.pp < y.pp) := by
  have hout : outOfOrder x y = true ↔ y.bp < x.bp ∨ x.pp < y.pp := decide_eq_true_iff
  unfold ExchangeSort.Faithful
  rw [hout]
  constructor
  · rintro h ⟨hb, hp⟩
    exact absurd hb (not_lt.mpr (h (.inr hp)).1)
  · rintro h (hb | hp)
    · exact ⟨hb.le, fun heq => absurd hb (heq ▸ lt_irrefl _)⟩
    · have hb : y.bp ≤ x.bp := not_lt.mp fun hb => h ⟨hb, hp⟩
      exact ⟨hb, fun _ => hp.le⟩

theorem inOrder_arraysOf (rows : List Row) : (arraysOf rows).InOrder ↔ rows.Pairwise rowLe := by
  rw [List.pairwise_iff_getElem]
  constructor
  · intro h i j hi hj hij
    have hrow := h i j hij (by simpa [arraysOf] using hj) (by simpa [arraysOf] using hj)
    simpa [arraysOf, rowLe] using hrow
  · intro h i j hij hj _
    have hj' : j < rows.length := by simpa [arraysOf] using hj
    simpa [arraysOf, rowLe] using h i j (hij.trans hj') hj' hij

/-- The rows after the loops: the folders' counts next to the names, exchange-sorted. -/
theorem sortReport_reportOf {cs : List Counts} {names : List Text}
    (hlen : names.length = cs.length) (hpos : ∀ c ∈ cs, 0 < c.total) (logs : Text) :
    sortReport (reportOf cs logs) names
      = .ok (arraysOf (ExchangeSort.sort outOfOrder (List.zipWith rowOf names cs))) := by
  have hparse : parseCounts (reportOf cs logs) = .ok (readCounts cs) :=
    parseCounts_countText _ _ _ logs
  rw [sortReport, hparse, Raise.ok_bind,
    percentages_eq fun c hc => Nat.pos_iff_ne_zero.mp (hpos c hc), Raise.ok_bind,
    ← arraysOf_zip hlen, sortArrays_rows]

/-- Of two folders the second has both the larger part of broken tests and the larger part
of passing tests. -/
def Exceeded (c d : Counts) : Prop :=
  c.brok * d.total < d.brok * c.total ∧ c.pass * d.total < d.pass * c.total

instance (c d : Counts) : Decidable (Exceeded c d) := inferInstanceAs (Decidable (_ ∧ _))

theorem percentage_lt_iff {m n k l : Nat} (hk : 0 < k) (hl : 0 < l) :
    (m : Rat) / k * 100 < (n : Rat) / l * 100 ↔ m * l < n * k := by
  have hk' : (0 : Rat) < k := by exact_mod_cast hk
  have hl' : (0 : Rat) < l := by exact_mod_cast hl
  rw [mul_lt_mul_iff_left₀ (by norm_num), div_lt_div_iff₀ hk' hl']
  exact_mod_cast Iff.rfl

theorem faithful_rowOf_iff {c d : Counts} (hc : 0 < c.total) (hd : 0 < d.total) (s t : Text) :
    ExchangeSort.Faithful outOfOrder rowLe (rowOf s c) (rowOf t d) ↔ ¬ Exceeded c d := by
  rw [faithful_iff, Exceeded, ← percentage_lt_iff hc hd, ← percentage_lt_iff hc hd]
  rfl

theorem pairwise_rows_iff : ∀ {names : List Text} {cs : List Counts},
    names.length = cs.length → (∀ c ∈ cs, 0 < c.total) →
    ((List.zipWith rowOf names cs).Pairwise (ExchangeSort.Faithful outOfOrder rowLe)
      ↔ cs.Pairwise fun c d => ¬ Exceeded c d)
  | [], [], _, _ => iff_of_true List.Pairwise.nil List.Pairwise.nil
  | s :: names, c :: cs, hlen, hpos => by
    obtain ⟨hc, hcs⟩ := List.forall_mem_cons.mp hpos
    have hlen' : names.length = cs.length := Nat.succ.inj hlen
    rw [List.zipWith_cons_cons, List.pairwise_cons, List.pairwise_cons,
      pairwise_rows_iff hlen' hcs]
    refine and_congr_left fun _ => ⟨fun h d hd => ?_, fun h r hr => ?_⟩
    · -- the row of `d` is one of the rows
      obtain ⟨i, hi, rfl⟩ := List.mem_iff_getElem.mp hd
      have hi' : i < (List.zipWith rowOf names cs).length := by
        rw [List.length_zipWith]
        omega
      have hrow := h _ (List.getElem_mem hi')
      rw [List.getElem_zipWith] at hrow
      exact (faithful_rowOf_iff hc (hcs _ hd) _ _).mp hrow
    · obtain ⟨i, hi, rfl⟩ := List.mem_iff_getElem.mp hr
      have hi' : i < cs.length := by
        rw [List.length_zipWith] at hi
        omega
      rw [List.getElem_zipWith]
      have hmem := List.getElem_mem hi'
      exact (faithful_rowOf_iff hc (hcs _ hmem) _ _).mpr (h _ hmem)

/-- Only a partly broken folder exceeds another. -/
theorem not_exceeded_of_unmixed {c d : Counts} (hd : d.brok = 0 ∨ d.brok = d.total) :
    ¬ Exceeded c d := by
  rintro ⟨hb, hp⟩
  rcases hd with hd | hd
  · rw [hd, Nat.zero_mul] at hb
    exact absurd hb (Nat.not_lt_zero _)
  · have hpass : d.pass = 0 := by
      unfold Counts.total at hd
      omega
    rw [hpass, Nat.zero_mul] at hp
    exact absurd hp (Nat.not_lt_zero _)

/-- The sorted rows are in order, for a report with these counts. -/
def SortsReport (cs : List Counts) (names : List Text) (logs : Text) : Prop :=
  ∃ a, sortReport (reportOf cs logs) names = .ok a ∧ a.InOrder

/-- **Sort order**: the loops put the rows of a report in order if and only if no folder
is listed before one that exceeds it in both percentages. -/
theorem sortsReport_iff {cs : List Counts} {names : List Text}
    (hlen : names.length = cs.length) (hpos : ∀ c ∈ cs, 0 < c.total) (logs : Text) :
    SortsReport cs names logs ↔ cs.Pairwise fun c d => ¬ Exceeded c d := by
  unfold SortsReport
  rw [sortReport_reportOf hlen hpos logs]
  simp only [Except.ok.injEq, exists_eq_left', inOrder_arraysOf]
  rw [ExchangeSort.sort_pairwise_iff rowLe_refl rowLe_trans rowLe_of_not_outOfOrder]
  exact pairwise_rows_iff hlen hpos

theorem sortsReport_iff_two :
    SortsReport [⟨1, 0, 1⟩, ⟨0, 1, 0⟩] ["read".toList, "write".toList] [] ↔
      [Counts.mk 1 0 1, ⟨0, 1, 0⟩].Pairwise fun c d => ¬ Exceeded c d :=
  sortsReport_iff rfl (by decide) []

/-- A folder whose only test fails, and after it one with a passing and a broken test: the
loops exchange them, and the broken percentages go down. -/
theorem not_sortsReport_partlyBroken :
    ¬ SortsReport [⟨0, 1, 0⟩, ⟨1, 0, 1⟩] ["read".toList, "write".toList] [] := by
  rintro ⟨a, ha, horder⟩
  rw [sortReport_reportOf rfl (by decide)] at ha
  cases ha
  have hrows := (inOrder_arraysOf _).mp horder
  rw [ExchangeSort.sort_pairwise_iff rowLe_refl rowLe_trans rowLe_of_not_outOfOrder,
    pairwise_rows_iff rfl (by decide)] at hrows
  exact absurd hrows (by decide)

end UnikraftSuite
