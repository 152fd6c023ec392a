import UnikraftSuite.Plot
import UnikraftSuite.Sorting
import Mathlib.Algebra.BigOperators.Group.List.Basic

/-!
# `runtest` from the report to the charts

`runtest` writes the log files, and with `-g` it goes on to count, sort, label and draw. Here the
parts are put together, for the report that `brain.py` prints.

- `graphs` is this part of the script, and `sixCharts` what comes in front of its last chart. What
  is drawn is shown by the last line only, so nothing is if an exception ends the script.
- `safe_iff`: when no counter is accessed out of range and nothing is divided by zero.
- `labelsRight_iff`: the labels that are shown are right if the two listings have equal counts at
  every position.
- `charts_of_run`: then 360 folders that all have a test are shown with their own counts.
-/

namespace UnikraftSuite

open PyStr

/-! ## The script -/

/-- What `runtest -g` prints and draws: the sums of `p`, `f` and `b`, the bars of the first six
charts, and those of the last one. -/
structure Charts where
  sums : Int × Int × Int
  axes : List (List Bar)
  total : List Bar

/-- The last chart: three bars of one width, one on the other. -/
def totalBars (weight : Rat × Rat × Rat) : List Bar :=
  [⟨"Total".toList, 0, weight.1⟩, ⟨"Total".toList, weight.1, weight.2.1⟩,
    ⟨"Total".toList, weight.1 + weight.2.1, weight.2.2⟩]

/-- The script behind `if(ENABLE_GRAPHS is False): exit(0)`, up to the total plot: the sorted
arrays, and the bars of the six charts. -/
def sixCharts (g : Graphics) (report : Text) (syscalls : List Text) :
    Except PyErr (Arrays × List (List Bar)) := do
  let a ← sortReport report syscalls
  let names ← labels a
  let axes ← plot g names a.pp a.fp a.bp
  return (a, axes)

/-- The script behind `if(ENABLE_GRAPHS is False): exit(0)`. -/
def graphs (g : Graphics) (report : Text) (syscalls : List Text) : Except PyErr Charts := do
  let (a, axes) ← sixCharts g report syscalls
  -- the sums are taken over the sorted arrays
  let weight ← totalWeight ⟨a.p, a.f, a.b⟩
  return ⟨(a.p.sum, a.f.sum, a.b.sum), axes, totalBars weight⟩

/-- `runtest` behind the docker run: the directory `./logs` afterwards, and the charts. -/
def runtest (g : Graphics) (graph : Bool) (report : Text) (syscalls : List Text) (dir : LogDir) :
    LogDir × Except PyErr (Option Charts) :=
  (writeLogs report dir, if graph then (graphs g report syscalls).map some else .ok none)

/-! ## Sorting keeps what is counted -/

theorem swapAt_perm {α : Type} {l l' : List α} {i j : Nat} (h : swapAt l i j = .ok l') :
    l'.Perm l := by
  obtain ⟨x, hx, h⟩ := Raise.bind_eq_ok.mp h
  obtain ⟨y, hy, h⟩ := Raise.bind_eq_ok.mp h
  cases h
  obtain ⟨hi, rfl⟩ := List.getElem?_eq_some_iff.mp (getIdx_eq_ok.mp hx)
  obtain ⟨hj, rfl⟩ := List.getElem?_eq_some_iff.mp (getIdx_eq_ok.mp hy)
  exact List.set_set_perm hi hj

/-- The numbers in `p`, `f` and `b` are these, in some order. -/
structure Arrays.Holds (c : ReportCounts) (a : Arrays) : Prop where
  p : a.p.Perm c.p
  f : a.f.Perm c.f
  b : a.b.Perm c.b

theorem Arrays.Holds.exchange {c : ReportCounts} {a a' : Arrays} (h : a.Holds c) {i j : Nat}
    (ha : a.exchange i j = .ok a') : a'.Holds c := by
  obtain ⟨pp, -, ha⟩ := Raise.bind_eq_ok.mp ha
  obtain ⟨fp, -, ha⟩ := Raise.bind_eq_ok.mp ha
  obtain ⟨bp, -, ha⟩ := Raise.bind_eq_ok.mp ha
  obtain ⟨syscalls, -, ha⟩ := Raise.bind_eq_ok.mp ha
  obtain ⟨p, hp, ha⟩ := Raise.bind_eq_ok.mp ha
  obtain ⟨f, hf, ha⟩ := Raise.bind_eq_ok.mp ha
  obtain ⟨b, hb, ha⟩ := Raise.bind_eq_ok.mp ha
  cases ha
  exact ⟨(swapAt_perm hp).trans h.p, (swapAt_perm hf).trans h.f, (swapAt_perm hb).trans h.b⟩

theorem Arrays.Holds.turn {c : ReportCounts} {a a' : Arrays} (h : a.Holds c) {ij : Nat × Nat}
    (ha : sortTurn a ij = .ok a') : a'.Holds c := by
  obtain ⟨bi, -, ha⟩ := Raise.bind_eq_ok.mp ha
  obtain ⟨bj, -, ha⟩ := Raise.bind_eq_ok.mp ha
  obtain ⟨pi, -, ha⟩ := Raise.bind_eq_ok.mp ha
  obtain ⟨pj, -, ha⟩ := Raise.bind_eq_ok.mp ha
  split at ha
  · exact h.exchange ha
  · cases ha
    exact h

/-- What is sorted is what has been read, for every listing. -/
theorem sortReport_holds {report : Text} {syscalls : List Text} {c : ReportCounts} {a : Arrays}
    (hparse : parseCounts report = .ok c) (h : sortReport report syscalls = .ok a) :
    a.Holds c := by
  rw [sortReport, hparse, Raise.ok_bind] at h
  obtain ⟨pct, -, h⟩ := Raise.bind_eq_ok.mp h
  exact Raise.foldlM_invariant (Arrays.Holds c) (fun _ _ _ hs ht => hs.turn ht)
    ⟨.refl _, .refl _, .refl _⟩ h

theorem Arrays.Holds.sum_eq {c : ReportCounts} {a : Arrays} (h : a.Holds c) :
    a.p.sum + a.f.sum + a.b.sum = c.p.sum + c.f.sum + c.b.sum := by
  rw [h.p.sum_eq, h.f.sum_eq, h.b.sum_eq]

/-! ## Index and division errors -/

variable {β : Type}

/-- Nothing is divided by zero, in the percentage loop and, where the script gets so far, in the
total plot. -/
def DivisionSafe (g : Graphics) (folders : List (Folder β)) (syscalls : List Text) : Prop :=
  ∀ out, brain folders = .ok out →
    (∀ c, parseCounts out = .ok c → percentages c ≠ .error .zeroDivisionError) ∧
    ∀ a axes, sixCharts g out syscalls = .ok (a, axes) →
      totalWeight ⟨a.p, a.f, a.b⟩ ≠ .error .zeroDivisionError

/-- On an empty tree the script ends at the first chart, with an `IndexError`. -/
theorem counts_of_sixCharts {g : Graphics} {report : Text} {syscalls : List Text}
    {c : ReportCounts} (hparse : parseCounts report = .ok c) {a : Arrays} {axes : List (List Bar)}
    (h : sixCharts g report syscalls = .ok (a, axes)) : a.Holds c ∧ c.p ≠ [] := by
  obtain ⟨a', ha, h⟩ := Raise.bind_eq_ok.mp h
  obtain ⟨names, hnames, h⟩ := Raise.bind_eq_ok.mp h
  obtain ⟨axes', haxes, h⟩ := Raise.bind_eq_ok.mp h
  cases h
  have hholds := sortReport_holds hparse ha
  refine ⟨hholds, fun hnil => ?_⟩
  -- there is a first label, and it has a count
  obtain ⟨labels, passed, bars, hfirst, -⟩ := plot_returns haxes (i := 0) (by omega)
  have hchunks := returns_getIdx.mp ⟨labels, hfirst⟩
  rw [nameChunks, List.length_map, Chunks.slices, List.length_map, List.length_range] at hchunks
  obtain ⟨name, hname⟩ := List.exists_mem_of_length_pos (l := names) (by omega)
  obtain ⟨i, -, hi⟩ := (Raise.mem_mapM hnames).mp hname
  obtain ⟨x, -, hi⟩ := Raise.bind_eq_ok.mp hi
  obtain ⟨p, hp, -⟩ := Raise.bind_eq_ok.mp hi
  have hlt := returns_getIdx.mp ⟨p, hp⟩
  rw [hholds.p.length_eq, hnil] at hlt
  exact absurd hlt (Nat.not_lt_zero i)

/-- With at most 361 folders nothing is divided by zero if and only if something is counted in
every folder. -/
theorem divisionSafe_iff {folders : List (Folder β)} (h : folders.length ≤ 361) (g : Graphics)
    (syscalls : List Text) :
    DivisionSafe g folders syscalls ↔ ∀ folder ∈ folders, folder.counted ≠ [] := by
  have hparse := (parseCounts_brain (brain_eq h)).2
  constructor
  · intro hsafe folder hf hc
    -- a folder without a counted file has the total zero
    refine (hsafe _ (brain_eq h)).1 _ hparse (percentages_raises
      ⟨folderCounts folder, List.mem_map_of_mem hf, ?_⟩)
    exact (total_eq_zero_iff folder).mpr hc
  · intro hall out hout
    rw [brain_eq h] at hout
    cases hout
    have htotal : ∀ c ∈ folders.map folderCounts, c.total ≠ 0 := by
      intro c hc
      obtain ⟨folder, hf, rfl⟩ := List.mem_map.mp hc
      exact fun hz => hall folder hf ((total_eq_zero_iff folder).mp hz)
    constructor
    · intro c hc
      rw [hparse] at hc
      cases hc
      rw [percentages_eq htotal]
      exact nofun
    · intro a axes ha herr
      obtain ⟨hholds, hne⟩ := counts_of_sixCharts hparse ha
      rw [totalWeight_error_iff, hholds.sum_eq, sum_readCounts, Int.natCast_eq_zero,
        List.sum_eq_zero_iff] at herr
      cases folders with
      | nil => exact hne rfl
      | cons folder rest =>
        exact htotal _ List.mem_cons_self (herr _ (List.mem_map_of_mem List.mem_cons_self))

/-- **The pipeline is free of index and division errors** if and only if no folder past the 361st
touches a counter and, unless there are so many folders that nothing is reported, every folder
has an entry that is counted. -/
theorem safe_iff (g : Graphics) (folders : List (Folder β)) (syscalls : List Text) :
    IndexSafe folders ∧ DivisionSafe g folders syscalls ↔
      (∀ folder ∈ folders.drop 361, ¬ folder.Touches) ∧
      (folders.length ≤ 361 → ∀ folder ∈ folders, folder.counted ≠ []) := by
  have hindex : IndexSafe folders ↔ ∀ folder ∈ folders.drop 361, ¬ folder.Touches := by
    rw [IndexSafe, Ne, countLoop_error_iff]
    exact ⟨fun h f hf ht => h ⟨f, hf, ht⟩, fun h ⟨f, hf, ht⟩ => h f hf ht⟩
  rw [hindex]
  refine and_congr_right fun _ => ?_
  rcases Nat.lt_or_ge 361 folders.length with hl | hl
  · refine iff_of_true (fun out hout => ?_) fun h => absurd hl (Nat.not_lt.mpr h)
    rw [brain_raises hl] at hout
    cases hout
  · rw [divisionSafe_iff hl]
    exact ⟨fun h _ => h, fun h => h hl⟩

/-- One empty folder makes the percentage loop divide by zero, and a 362nd folder without
`incl.h` is counted out of range. -/
theorem not_safe_emptyFolder :
    ¬ (IndexSafe [emptyFolder] ∧ DivisionSafe sameShape [emptyFolder] ["ipc".toList]) ∧
      ¬ IndexSafe (List.replicate 362 emptyFolder) := by
  constructor
  · rintro ⟨-, hdiv⟩
    exact (divisionSafe_iff (by decide) _ _).mp hdiv emptyFolder (by simp) (by decide)
  · refine fun h => h ((countLoop_error_iff _).mpr ⟨emptyFolder, ?_, .inl (by decide)⟩)
    rw [List.drop_replicate]
    exact List.mem_cons_self

/-! ## The charts of a run -/

/-- The rows of a run, sorted: the host's names next to the container's counts. -/
def sortedRows (names : List Text) (cs : List Counts) : List Row :=
  ExchangeSort.sort outOfOrder (List.zipWith rowOf names cs)

theorem sortedRows_perm (names : List Text) (cs : List Counts) :
    (sortedRows names cs).Perm (List.zipWith rowOf names cs) := ExchangeSort.sort_perm _ _

theorem length_sortedRows {names : List Text} {cs : List Counts} (h : names.length = cs.length) :
    (sortedRows names cs).length = cs.length := by
  rw [sortedRows, ExchangeSort.length_sort, List.length_zipWith, h, Nat.min_self]

/-- What is sorted for a run in which every folder has a test. -/
theorem sortReport_brain {container : List (Folder β)} {names : List Text} {out : Text}
    (hlen : names.length = container.length) (hout : brain container = .ok out)
    (hcounted : ∀ folder ∈ container, folder.counted ≠ []) :
    sortReport out names = .ok (arraysOf (sortedRows names (container.map folderCounts))) := by
  have htotal : ∀ c ∈ container.map folderCounts, c.total ≠ 0 := by
    intro c hc
    obtain ⟨folder, hf, rfl⟩ := List.mem_map.mp hc
    exact fun hz => hcounted folder hf ((total_eq_zero_iff folder).mp hz)
  have hlen' : names.length = (container.map folderCounts).length := by
    rw [hlen, List.length_map]
  -- the columns are those of the rows, so sorting them is sorting the rows
  rw [sortReport, (parseCounts_brain hout).2, Raise.ok_bind, percentages_eq htotal, Raise.ok_bind,
    ← arraysOf_zip hlen', sortArrays_rows]
  rfl

/-- The script does not come to the charts if a folder has no test. -/
theorem counted_of_sortReport {container : List (Folder β)} {names : List Text} {out : Text}
    (hout : brain container = .ok out) {a : Arrays} (h : sortReport out names = .ok a) :
    ∀ folder ∈ container, folder.counted ≠ [] := by
  intro folder hf hc
  rw [sortReport, (parseCounts_brain hout).2, Raise.ok_bind, percentages_raises
    ⟨folderCounts folder, List.mem_map_of_mem hf, (total_eq_zero_iff folder).mpr hc⟩] at h
  cases h

/-- The six charts of a run with 360 folders that all have a test. -/
theorem sixCharts_eq {g : Graphics} (hg : g.Documented) {container : List (Folder β)}
    {names : List Text} {out : Text} (hlen : names.length = container.length)
    (hout : brain container = .ok out) (h360 : container.length = 360)
    (hcounted : ∀ folder ∈ container, folder.counted ≠ []) :
    ∃ axes, sixCharts g out names
        = .ok (arraysOf (sortedRows names (container.map folderCounts)), axes) ∧
      axes.flatten.Perm ((sortedRows names (container.map folderCounts)).flatMap Row.bars) := by
  have hrows : (sortedRows names (container.map folderCounts)).length = 360 := by
    rw [length_sortedRows (by rw [hlen, List.length_map]), List.length_map, h360]
  obtain ⟨axes, haxes, hperm⟩ := plot_rows hg hrows
  refine ⟨axes, ?_, hperm⟩
  rw [sixCharts, sortReport_brain hlen hout hcounted, Raise.ok_bind, labels_rows, Raise.ok_bind]
  show (plot g _ (List.map Row.pp _) (List.map Row.fp _) (List.map Row.bp _) >>= _) = _
  rw [haxes]
  rfl

/-- **What is shown of a run**: the six charts are drawn for 360 folders that all have a test
only. -/
theorem sixCharts_brain {g : Graphics} (hg : g.Broadcasting) {container : List (Folder β)}
    {names : List Text} {out : Text} (hlen : names.length = container.length)
    (hout : brain container = .ok out) {a : Arrays} {axes : List (List Bar)}
    (h : sixCharts g out names = .ok (a, axes)) :
    container.length = 360 ∧ (∀ folder ∈ container, folder.counted ≠ []) ∧
      axes.flatten.Perm ((sortedRows names (container.map folderCounts)).flatMap Row.bars) := by
  obtain ⟨a', ha, hrest⟩ := Raise.bind_eq_ok.mp h
  have hcounted := counted_of_sortReport hout ha
  have hsort := sortReport_brain hlen hout hcounted
  rw [ha] at hsort
  cases hsort
  obtain ⟨ls, hls, hrest⟩ := Raise.bind_eq_ok.mp hrest
  rw [labels_rows] at hls
  cases hls
  obtain ⟨axes', haxes', -⟩ := Raise.bind_eq_ok.mp hrest
  have h360 := length_of_plot hg (by simp [arraysOf]) haxes'
  rw [List.length_map, length_sortedRows (by rw [hlen, List.length_map]), List.length_map] at h360
  obtain ⟨axes'', haxes'', hperm⟩ := sixCharts_eq hg.toDocumented hlen hout h360 hcounted
  rw [h] at haxes''
  cases haxes''
  exact ⟨h360, hcounted, hperm⟩

/-- The script comes to its end on such a run. -/
theorem graphs_eq {g : Graphics} (hg : g.Documented) {container : List (Folder β)}
    {names : List Text} {out : Text} (hlen : names.length = container.length)
    (hout : brain container = .ok out) (h360 : container.length = 360)
    (hcounted : ∀ folder ∈ container, folder.counted ≠ []) :
    ∃ charts, graphs g out names = .ok charts ∧
      charts.sums = ((readCounts (container.map folderCounts)).p.sum,
        (readCounts (container.map folderCounts)).f.sum,
        (readCounts (container.map folderCounts)).b.sum) ∧
      charts.axes.flatten.Perm
        ((sortedRows names (container.map folderCounts)).flatMap Row.bars) := by
  obtain ⟨axes, haxes, hperm⟩ := sixCharts_eq hg hlen hout h360 hcounted
  have hholds := (counts_of_sixCharts (parseCounts_brain hout).2 haxes).1
  -- the total plot divides by the number of tests
  have hsafe := ((divisionSafe_iff (by omega) g names).mpr hcounted out hout).2 _ _ haxes
  obtain ⟨weight, hweight⟩ : Raise.Returns (totalWeight
      ⟨(arraysOf (sortedRows names (container.map folderCounts))).p,
        (arraysOf (sortedRows names (container.map folderCounts))).f,
        (arraysOf (sortedRows names (container.map folderCounts))).b⟩) := by
    rw [Ne, totalWeight_error_iff] at hsafe
    exact ⟨_, if_neg hsafe⟩
  refine ⟨_, Raise.bind_eq_ok.mpr ⟨_, haxes, Raise.bind_eq_ok.mpr ⟨weight, hweight, rfl⟩⟩, ?_,
    hperm⟩
  rw [← hholds.p.sum_eq, ← hholds.f.sum_eq, ← hholds.b.sum_eq]

/-- The labels in the bars of rows. -/
theorem mem_labels_bars {rows : List Row} {l : Text} :
    (∃ bar ∈ rows.flatMap Row.bars, bar.label = l) ↔ ∃ r ∈ rows, r.label = l := by
  constructor
  · rintro ⟨bar, hbar, rfl⟩
    obtain ⟨r, hr, hbar⟩ := List.mem_flatMap.mp hbar
    refine ⟨r, hr, ?_⟩
    simp only [Row.bars, List.mem_cons, List.not_mem_nil, or_false] at hbar
    rcases hbar with rfl | rfl | rfl
    · rfl
    · rfl
    · rfl
  · rintro ⟨r, hr, rfl⟩
    exact ⟨⟨r.label, 0, r.pp⟩, List.mem_flatMap.mpr ⟨r, hr, List.mem_cons_self⟩, rfl⟩

/-- The labels of a run: the host's names next to the container's counts. -/
theorem mem_labels_sortedRows {names : List Text} {cs : List Counts} {l : Text} :
    (∃ r ∈ sortedRows names cs, r.label = l) ↔ l ∈ List.zipWith labelOf names cs := by
  have hmap : (List.zipWith rowOf names cs).map Row.label = List.zipWith labelOf names cs := by
    rw [List.map_zipWith]
    rfl
  rw [← hmap, List.mem_map]
  exact exists_congr fun r => and_congr_left' (sortedRows_perm names cs).mem_iff

/-! ## The labels -/

/-- Every label that is shown carries the counts of the folder it names. The folders are listed in
one order inside the container and in another on the host. -/
def LabelsRight (g : Graphics) (container host : List (Folder β)) : Prop :=
  ∀ out charts, brain container = .ok out → graphs g out (host.map Folder.name) = .ok charts →
    ∀ bar ∈ charts.axes.flatten,
      ∃ folder ∈ container, bar.label = labelOf folder.name (folderCounts folder)

section Labels

variable {g : Graphics} {container host : List (Folder β)}

/-- If the labels of 360 folders are right, the two listings agree in the counts. -/
theorem counts_of_labelsRight (hg : g.Documented) (hperm : host.Perm container)
    (hnames : (container.map Folder.name).Nodup) (h360 : container.length = 360)
    (hcounted : ∀ folder ∈ container, folder.counted ≠ []) (hright : LabelsRight g container host) :
    container.map folderCounts = host.map folderCounts := by
  have hlen : (host.map Folder.name).length = container.length := by
    rw [List.length_map, hperm.length_eq]
  have hout := brain_eq (show container.length ≤ 361 by omega)
  obtain ⟨charts, hcharts, -, haxes⟩ := graphs_eq hg hlen hout h360 hcounted
  refine List.ext_getElem (by simp [hperm.length_eq]) fun i h₁ h₂ => ?_
  rw [List.length_map] at h₁ h₂
  -- the label at position `i` names the host's folder and shows the container's counts
  have hi : labelOf host[i].name (folderCounts container[i])
      ∈ List.zipWith labelOf (host.map Folder.name) (container.map folderCounts) :=
    List.mem_iff_getElem.mpr ⟨i, by simp [h₁, h₂], by simp⟩
  obtain ⟨bar, hbar, hlabel⟩ := mem_labels_bars.mpr (mem_labels_sortedRows.mpr hi)
  obtain ⟨folder, hf, hl⟩ := hright _ charts hout hcharts bar (haxes.mem_iff.mpr hbar)
  rw [hlabel] at hl
  obtain ⟨hname, hcounts⟩ := labelOf_injective hl
  have hsame : host[i] = folder :=
    List.inj_on_of_nodup_map hnames (hperm.subset (List.getElem_mem h₂)) hf hname
  rw [List.getElem_map, List.getElem_map, hcounts, hsame]

/-- **Labels carry the right counts** exactly when the two listings agree in the counts at every
position, or nothing is shown because there are not 360 folders or one of them has no entry that
is counted. -/
theorem labelsRight_iff (hg : g.Broadcasting) (hperm : host.Perm container)
    (hnames : (container.map Folder.name).Nodup) :
    LabelsRight g container host ↔
      container.length ≠ 360 ∨ (∃ folder ∈ container, folder.counted = []) ∨
        container.map folderCounts = host.map folderCounts := by
  constructor
  · intro hright
    by_cases h360 : container.length = 360
    · by_cases hempty : ∃ folder ∈ container, folder.counted = []
      · exact .inr (.inl hempty)
      · exact .inr (.inr (counts_of_labelsRight hg.toDocumented hperm hnames h360
          (fun f hf hc => hempty ⟨f, hf, hc⟩) hright))
    · exact .inl h360
  · intro h out charts hout hcharts bar hbar
    have hlen : (host.map Folder.name).length = container.length := by
      rw [List.length_map, hperm.length_eq]
    obtain ⟨⟨a, axes⟩, hsix, hcharts⟩ := Raise.bind_eq_ok.mp hcharts
    obtain ⟨weight, -, hcharts⟩ := Raise.bind_eq_ok.mp hcharts
    cases hcharts
    obtain ⟨h360, hcounted, haxes⟩ := sixCharts_brain hg hlen hout hsix
    rcases h with h | ⟨folder, hf, hc⟩ | h
    · exact absurd h360 h
    · exact absurd hc (hcounted folder hf)
    · have hl := mem_labels_sortedRows.mp (mem_labels_bars.mp ⟨bar, haxes.mem_iff.mp hbar, rfl⟩)
      rw [h, List.zipWith_map, List.zipWith_self] at hl
      obtain ⟨folder, hf, hl⟩ := List.mem_map.mp hl
      exact ⟨folder, hperm.subset hf, hl.symm⟩

end Labels

/-- `n` folders with one passing test each. -/
def passingFolders (n : Nat) : List (Folder Unit) :=
  (List.range n).map fun i : Nat => { passingFolder with name := "sys".toList ++ str (i : Nat) }

theorem nodup_passingFolders (n : Nat) : ((passingFolders n).map Folder.name).Nodup := by
  rw [passingFolders, List.map_map]
  refine List.nodup_range.map fun i j h => ?_
  exact str_injective (List.append_cancel_left h)

theorem counted_passingFolders {n : Nat} : ∀ folder ∈ passingFolders n, folder.counted ≠ [] := by
  intro folder hfolder
  obtain ⟨i, -, rfl⟩ := List.mem_map.mp hfolder
  exact (by decide : passingFolder.counted ≠ [])

theorem labelsRight_iff_same : LabelsRight sameShape (passingFolders 360) (passingFolders 360) :=
  (labelsRight_iff broadcasting_sameShape (.refl _) (nodup_passingFolders 360)).mpr
    (.inr (.inr rfl))

/-- When the container lists the folder whose test fails first, and the host lists it last, a
system call is shown as failing that passes. -/
theorem not_labelsRight_swapped : ¬ LabelsRight sameShape (failingFolder :: passingFolders 359)
    (passingFolders 359 ++ [failingFolder]) := by
  intro hright
  have hlength : (passingFolders 359).length = 359 := by
    rw [passingFolders, List.length_map, List.length_range]
  have hnames : ((failingFolder :: passingFolders 359).map Folder.name).Nodup := by
    refine List.nodup_cons.mpr ⟨fun hmem => ?_, nodup_passingFolders 359⟩
    obtain ⟨folder, hfolder, hname⟩ := List.mem_map.mp hmem
    obtain ⟨i, -, rfl⟩ := List.mem_map.mp hfolder
    exact absurd (List.cons.inj hname).1 (by decide)
  have hcounts := counts_of_labelsRight broadcasting_sameShape.toDocumented
    (List.perm_append_singleton _ _) hnames (by rw [List.length_cons, hlength])
    (List.forall_mem_cons.mpr ⟨by decide, counted_passingFolders⟩) hright
  have hfirst := congrArg List.head? hcounts
  rw [passingFolders, List.range_succ_eq_map] at hfirst
  exact absurd hfirst (by decide)

/-! ## A run that is shown -/

/-- The row of a folder. -/
def Folder.row (folder : Folder β) : Row := rowOf folder.name (folderCounts folder)

/-- The charts show these folders. -/
structure Charts.Show (charts : Charts) (folders : List (Folder β)) : Prop where
  /-- The three sums printed are those of the tests that passed, failed and were not finished. -/
  sums : charts.sums = (((folders.map fun folder => (folderCounts folder).pass).sum : Int),
    ((folders.map fun folder => (folderCounts folder).fail).sum : Int),
    ((folders.map fun folder => (folderCounts folder).brok).sum : Int))
  /-- Each folder is drawn once, as three bars next to its own label. -/
  drawn : charts.axes.flatten.Perm (folders.flatMap fun folder => folder.row.bars)

theorem sum_ofNat (cs : List Counts) (f : Counts → Nat) :
    ((cs.map f).map Int.ofNat).sum = ((cs.map f).sum : Nat) := by
  induction cs with
  | nil => rfl
  | cons c cs ih =>
    rw [List.map_cons, List.map_cons, List.sum_cons, List.sum_cons, ih, Nat.cast_add]
    rfl

/-- **The charts of a run** of `brain.py`: with 360 folders that all have a test, and the same
counts at every position of the two listings, `runtest -g` draws every folder with its own label
and its own percentages, and prints the sums of what has been counted in the folders. -/
theorem charts_of_run {g : Graphics} (hg : g.Documented) {container host : List (Folder β)}
    (hperm : host.Perm container) (h360 : container.length = 360)
    (hcounted : ∀ folder ∈ container, folder.counted ≠ [])
    (hsame : container.map folderCounts = host.map folderCounts) (dir : LogDir) :
    ∃ out charts, brain container = .ok out ∧
      runtest g true out (host.map Folder.name) dir = (writeLogs out dir, .ok (some charts)) ∧
      charts.Show container := by
  have hlen : (host.map Folder.name).length = container.length := by
    rw [List.length_map, hperm.length_eq]
  have hout := brain_eq (show container.length ≤ 361 by omega)
  obtain ⟨charts, hcharts, hsums, haxes⟩ := graphs_eq hg hlen hout h360 hcounted
  refine ⟨_, charts, hout, ?_, ?_, ?_⟩
  · rw [runtest, if_pos rfl, hcharts]
    rfl
  · rw [hsums]
    simp only [readCounts, sum_ofNat]
    simp only [List.map_map]
    rfl
  · have hrows : List.zipWith rowOf (host.map Folder.name) (host.map folderCounts)
        = host.map Folder.row := by
      rw [List.zipWith_map, List.zipWith_self]
      rfl
    refine haxes.trans (((sortedRows_perm _ _).flatMap_right Row.bars).trans ?_)
    rw [hsame, hrows, List.flatMap_map]
    exact hperm.flatMap_right _

/-- 360 folders with one passing test each. -/
theorem charts_of_run_passing : ∃ out charts, brain (passingFolders 360) = .ok out ∧
    runtest sameShape true out ((passingFolders 360).map Folder.name) (fun _ => none)
      = (writeLogs out fun _ => none, .ok (some charts)) ∧
    charts.Show (passingFolders 360) :=
  charts_of_run broadcasting_sameShape.toDocumented (.refl _)
    (by rw [passingFolders, List.length_map, List.length_range]) counted_passingFolders rfl _

end UnikraftSuite
