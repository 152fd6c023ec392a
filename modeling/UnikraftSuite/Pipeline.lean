import UnikraftSuite.CountReport
import Mathlib.Algebra.Order.BigOperators.Group.List

/-!
# Index and division errors in the reporting pipeline

`brain.py` counts into arrays of 361 cells, and `runtest` divides by the number of
tests of every folder and by the number of all tests. Nothing ties the number of
folders to the arrays or the contents of a folder to the divisors.

- `countLoop_error_iff` says exactly when the counting loop stays inside its arrays:
  the folders past the 361st make it touch no cell.
- `brain_eq` and `brain_raises` are the report for at most and for more than 361
  folders.
- `percentages_eq`, `percentages_raises` and `totalWeight_error_iff` are the divisions.
-/

namespace UnikraftSuite

open PyStr

variable {β : Type}

/-! ## The counting loop past the end of the arrays -/

/-- The turn of the counting loop for this folder accesses a counter. -/
def Folder.Touches (folder : Folder β) : Prop := folder.unfinished ∨ folder.counted ≠ []

/-- Index `i` is outside all three arrays. -/
def BrainState.OutOfRange (st : BrainState β) (i : Nat) : Prop :=
  st.passList.length ≤ i ∧ st.failList.length ≤ i ∧ st.brokList.length ≤ i

/-- Past the end of the arrays the first test of a folder raises. -/
theorem countFile_outOfRange {i : Nat} {st : BrainState β} (hi : st.OutOfRange i)
    {file : Entry β} (hf : isTest file) : countFile i st file = .error .indexError := by
  obtain ⟨hp, hfa, hb⟩ := hi
  rw [countFile, if_neg (isTest_iff.mp hf)]
  by_cases h0 : (runTest file st.world).1 = 0
  · simp only [h0, if_true, incr, if_neg (Nat.not_lt.mpr hfa), Except.map]
  · by_cases h1 : (runTest file st.world).1 = 1
    · simp only [h1, Int.one_ne_zero, if_false, if_true, incr, if_neg (Nat.not_lt.mpr hp),
        Except.map]
    · simp only [h0, h1, if_false, incr, if_neg (Nat.not_lt.mpr hb), Except.map]

theorem countFiles_outOfRange {i : Nat} : ∀ (entries : List (Entry β)) {st : BrainState β},
    st.OutOfRange i →
    entries.foldlM (countFile i) st
      = if entries.filter isTest = [] then .ok st else .error .indexError
  | [], _, _ => rfl
  | e :: entries, st, hi => by
    rw [List.foldlM_cons]
    cases he : isTest e with
    | false =>
      rw [countFile_header he, List.filter_cons_of_neg (by simp [he]), Raise.ok_bind]
      exact countFiles_outOfRange entries hi
    | true =>
      rw [countFile_outOfRange hi he, List.filter_cons_of_pos he, Raise.error_bind,
        if_neg (List.cons_ne_nil _ _)]

/-- Past the end of the arrays a folder raises exactly when it touches a counter; if it
does not, the arrays stay as they are. -/
theorem countFolder_outOfRange {i : Nat} {st : BrainState β} (hi : st.OutOfRange i)
    (folder : Folder β) :
    (folder.Touches ∧ countFolder i st folder = .error .indexError) ∨
    (¬ folder.Touches ∧ ∃ w, countFolder i st folder = .ok { st with world := w }) := by
  by_cases h : folder.unfinished
  · refine .inl ⟨.inl h, ?_⟩
    rw [countFolder, if_pos h, incr, if_neg (Nat.not_lt.mpr hi.2.2)]
    rfl
  · have hst : BrainState.OutOfRange { st with world := { st.world with aout := folder.aout } } i :=
      hi
    have hcounted : folder.counted = folder.entries.filter isTest := if_neg h
    rw [countFolder, if_neg h, countFiles_outOfRange folder.entries hst, ← hcounted]
    by_cases hc : folder.counted = []
    · refine .inr ⟨fun ht => ht.elim h fun ht => ht hc, ?_⟩
      rw [if_pos hc]
      exact ⟨_, rfl⟩
    · rw [if_neg hc]
      exact .inl ⟨.inr hc, rfl⟩

/-- Past the end of the arrays the loop gets through exactly when no folder touches a
counter. -/
theorem countLoop_outOfRange : ∀ (folders : List (Folder β)) {i : Nat} {st : BrainState β},
    st.OutOfRange i →
    ((∃ folder ∈ folders, folder.Touches) ∧ countLoop i st folders = .error .indexError) ∨
    ((∀ folder ∈ folders, ¬ folder.Touches) ∧
      ∃ w, countLoop i st folders = .ok { st with world := w })
  | [], i, st, _ => .inr ⟨by simp, st.world, rfl⟩
  | folder :: rest, i, st, hi => by
    rcases countFolder_outOfRange hi folder with ⟨ht, herr⟩ | ⟨ht, w, hok⟩
    · refine .inl ⟨⟨folder, List.mem_cons_self, ht⟩, ?_⟩
      rw [countLoop, herr]
      rfl
    · have hi' : BrainState.OutOfRange { st with world := w } (i + 1) :=
        ⟨Nat.le_succ_of_le hi.1, Nat.le_succ_of_le hi.2.1, Nat.le_succ_of_le hi.2.2⟩
      rw [countLoop, hok]
      rcases countLoop_outOfRange rest hi' with ⟨⟨g, hg, ht'⟩, herr⟩ | ⟨hrest, hok'⟩
      · exact .inl ⟨⟨g, List.mem_cons_of_mem _ hg, ht'⟩, herr⟩
      · exact .inr ⟨List.forall_mem_cons.mpr ⟨ht, hrest⟩, hok'⟩

theorem countLoop_append : ∀ (fs gs : List (Folder β)) (i : Nat) (st : BrainState β),
    countLoop i st (fs ++ gs)
      = (countLoop i st fs).bind fun st' => countLoop (i + fs.length) st' gs
  | [], _, _, _ => rfl
  | folder :: fs, gs, i, st => by
    rw [List.cons_append, countLoop, countLoop]
    cases countFolder i st folder with
    | error e => rfl
    | ok st' =>
      show countLoop (i + 1) st' (fs ++ gs)
        = (countLoop (i + 1) st' fs).bind fun st'' => countLoop (i + (fs.length + 1)) st'' gs
      rw [countLoop_append fs gs (i + 1) st', Nat.add_right_comm, Nat.add_assoc]

/-- The counting loop over more than 361 folders: the arrays are full after 361 of
them, and the rest must not touch a counter. -/
theorem countLoop_long {folders : List (Folder β)} (h : 361 < folders.length) :
    ((∃ folder ∈ folders.drop 361, folder.Touches) ∧
      countLoop 0 BrainState.init folders = .error .indexError) ∨
    ((∀ folder ∈ folders.drop 361, ¬ folder.Touches) ∧
      ∃ done w, done.length = 361 ∧
        countLoop 0 BrainState.init folders = .ok (filled done 0 w)) := by
  have hlen : (folders.take 361).length = 361 := List.length_take_of_le h.le
  have hfirst := countLoop_init hlen.le
  rw [hlen, Nat.sub_self] at hfirst
  have hdone : ((folders.take 361).map folderCounts).length = 361 := by
    rw [List.length_map, hlen]
  have hout : BrainState.OutOfRange
      (filled ((folders.take 361).map folderCounts) 0 (visitAll (folders.take 361) World.init))
      361 := by
    simp only [BrainState.OutOfRange, filled, List.replicate_zero, List.append_nil,
      List.length_map, hlen, le_refl, and_self]
  have hsplit : countLoop 0 BrainState.init folders
      = countLoop 361 (filled ((folders.take 361).map folderCounts) 0
          (visitAll (folders.take 361) World.init)) (folders.drop 361) := by
    conv_lhs => rw [← List.take_append_drop 361 folders]
    rw [countLoop_append, hfirst, hlen]
    rfl
  -- from here on the arrays are full
  rw [hsplit]
  rcases countLoop_outOfRange (folders.drop 361) hout with herr | ⟨ht, w, hok⟩
  · exact .inl herr
  · exact .inr ⟨ht, _, w, hdone, hok⟩

/-- **The counting loop stays inside its arrays** if and only if no folder past the
361st touches a counter. -/
theorem countLoop_error_iff (folders : List (Folder β)) :
    countLoop 0 BrainState.init folders = .error .indexError
      ↔ ∃ folder ∈ folders.drop 361, folder.Touches := by
  rcases Nat.lt_or_ge 361 folders.length with h | h
  · rcases countLoop_long h with ⟨ht, herr⟩ | ⟨ht, done, w, -, hok⟩
    · exact iff_of_true herr ht
    · rw [hok]
      refine iff_of_false (fun h => by cases h) ?_
      rintro ⟨folder, hf, htf⟩
      exact ht folder hf htf
  · rw [countLoop_init h, List.drop_eq_nil_of_le h]
    refine iff_of_false (fun h => by cases h) ?_
    rintro ⟨folder, hf, -⟩
    cases hf

/-! ## The report of a run -/

/-- The report for at most 361 folders. -/
theorem brain_eq {folders : List (Folder β)} (h : folders.length ≤ 361) :
    brain folders = .ok
      (countText (folders.map fun f => (folderCounts f).pass)
        (folders.map fun f => (folderCounts f).fail)
        (folders.map fun f => (folderCounts f).brok)
        ++ ("DIVIDER".toList ++ (visitAll folders World.init).logs)) := by
  have hlen : ∀ g : Counts → Nat,
      folders.length ≤ ((folders.map folderCounts).map g
        ++ List.replicate (361 - folders.length) 0).length := by
    intro g
    simp only [List.length_append, List.length_map]
    omega
  -- the report reads the entries of the folders, not the zeros behind them
  have htake : ∀ g : Counts → Nat,
      ((folders.map folderCounts).map g ++ List.replicate (361 - folders.length) 0).take
        folders.length = folders.map fun f => g (folderCounts f) := by
    intro g
    rw [List.take_append_of_le_length (by simp), List.take_of_length_le (by simp), List.map_map]
    rfl
  rw [brain, countLoop_init h, Raise.ok_bind]
  show report folders.length _ _ _ _ = _
  rw [filled, report_eq (hlen _) (hlen _) (hlen _), htake, htake, htake]

/-- For more than 361 folders there is no report: if the counting loop gets through,
the loop that writes the counts does not. -/
theorem brain_raises {folders : List (Folder β)} (h : 361 < folders.length) :
    brain folders = .error .indexError := by
  rcases countLoop_long h with ⟨-, herr⟩ | ⟨-, done, w, hdone, hok⟩
  · rw [brain, herr]
    rfl
  · have hlen : (filled done 0 w).passList.length < folders.length := by
      simpa [filled, hdone] using h
    rw [brain, hok, Raise.ok_bind, report, countLine_error hlen]
    rfl

/-! ## The divisions -/

/-- What `runtest` reads for a list of folders with these counts. -/
def readCounts (cs : List Counts) : ReportCounts where
  p := (cs.map Counts.pass).map Int.ofNat
  f := (cs.map Counts.fail).map Int.ofNat
  b := (cs.map Counts.brok).map Int.ofNat

/-- Reading the report of a run gives the counts of its folders. -/
theorem parseCounts_brain {folders : List (Folder β)} {out : Text}
    (h : brain folders = .ok out) :
    folders.length ≤ 361 ∧ parseCounts out = .ok (readCounts (folders.map folderCounts)) := by
  rcases Nat.lt_or_ge 361 folders.length with hl | hl
  · rw [brain_raises hl] at h
    cases h
  · rw [brain_eq hl] at h
    cases h
    refine ⟨hl, ?_⟩
    rw [parseCounts_countText]
    simp [readCounts, List.map_map, Function.comp_def]

/-- The percentages of one folder. -/
def Counts.percentage (c : Counts) : Rat × Rat × Rat :=
  ((c.pass : Rat) / c.total * 100, (c.fail : Rat) / c.total * 100, (c.brok : Rat) / c.total * 100)

/-- One turn of the percentage loop divides by the total of the folder. -/
theorem percentage_eq {cs : List Counts} {i : Nat} (hi : i < cs.length) :
    percentage (readCounts cs) i
      = if cs[i].total = 0 then .error .zeroDivisionError else .ok cs[i].percentage := by
  have htot : Int.ofNat cs[i].pass + Int.ofNat cs[i].fail + Int.ofNat cs[i].brok
      = (cs[i].total : Int) := by
    simp [Counts.total]
  simp only [percentage, readCounts, getIdx, List.getElem?_map, List.getElem?_eq_getElem hi,
    Option.map_some, Raise.ok_bind, htot]
  by_cases hz : cs[i].total = 0
  · rw [if_pos hz, if_pos (by exact_mod_cast hz)]
  · rw [if_neg hz, if_neg (by exact_mod_cast hz)]
    rfl

/-- The percentage loop over folders that all have tests. -/
theorem percentages_eq {cs : List Counts} (h : ∀ c ∈ cs, c.total ≠ 0) :
    percentages (readCounts cs) = .ok (cs.map Counts.percentage) := by
  have hlen : (readCounts cs).p.length = cs.length := by simp [readCounts]
  rw [percentages, hlen, Raise.mapM_eq_ok_iff, List.forall₂_iff_get]
  refine ⟨by simp, fun i h₁ h₂ => ?_⟩
  have hi : i < cs.length := by simpa using h₁
  simp only [List.get_eq_getElem, List.getElem_range, List.getElem_map]
  rw [percentage_eq hi, if_neg (h _ (List.getElem_mem hi))]

/-- The percentage loop over folders of which one has no tests. -/
theorem percentages_raises {cs : List Counts} (h : ∃ c ∈ cs, c.total = 0) :
    percentages (readCounts cs) = .error .zeroDivisionError := by
  have hlen : (readCounts cs).p.length = cs.length := by simp [readCounts]
  rw [percentages, hlen]
  refine Raise.mapM_eq_error (fun i hi => ?_) fun hret => ?_
  · rw [percentage_eq (List.mem_range.mp hi)]
    split
    · exact .inl rfl
    · exact .inr (Raise.returns_ok _)
  · obtain ⟨c, hc, hz⟩ := h
    obtain ⟨i, hi, rfl⟩ := List.mem_iff_getElem.mp hc
    have hreti := hret i (List.mem_range.mpr hi)
    rw [percentage_eq hi, if_pos hz] at hreti
    exact Raise.not_returns_error _ hreti

/-- The sum of three counters is the sum of the totals. -/
theorem sum_readCounts (cs : List Counts) :
    (readCounts cs).p.sum + (readCounts cs).f.sum + (readCounts cs).b.sum
      = ((cs.map Counts.total).sum : Int) := by
  induction cs with
  | nil => rfl
  | cons c cs ih =>
    simp only [readCounts, List.map_cons, List.sum_cons, Counts.total] at ih ⊢
    rw [Nat.cast_add, ← ih]
    simp only [Int.ofNat_eq_natCast, Nat.cast_add]
    ring

/-- The total plot divides by zero exactly when nothing was counted at all. -/
theorem totalWeight_error_iff (c : ReportCounts) :
    totalWeight c = .error .zeroDivisionError ↔ c.p.sum + c.f.sum + c.b.sum = 0 := by
  rw [totalWeight]
  by_cases hz : c.p.sum + c.f.sum + c.b.sum = 0
  · exact iff_of_true (if_pos hz) hz
  · refine iff_of_false (fun h => ?_) hz
    rw [show (if c.p.sum + c.f.sum + c.b.sum = 0 then _ else _) = _ from if_neg hz] at h
    cases h

/-! ## Safety -/

/-- No list access of the counting loop is out of range. -/
def IndexSafe (folders : List (Folder β)) : Prop :=
  countLoop 0 BrainState.init folders ≠ .error .indexError

theorem total_eq_zero_iff (folder : Folder β) :
    (folderCounts folder).total = 0 ↔ folder.counted = [] := by
  rw [total_folderCounts, List.length_eq_zero_iff]

/-- The folder that is left for an original without C files at its top level. -/
def emptyFolder : Folder Unit := ⟨"ipc".toList, [], none⟩

end UnikraftSuite
