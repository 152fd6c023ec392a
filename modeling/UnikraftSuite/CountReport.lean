import UnikraftSuite.BrainTheory
import UnikraftSuite.Runtest

/-!
# The counts survive the report

`brain.py` writes the three lists of counts as decimal numbers followed by blanks,
one list a line, then `DIVIDER`, then the logs. `runtest` reads them back. The two
programs share nothing but this text format.

`report_eq` is the text written, `parseCounts_countText` what is read from such a
text, whatever follows the divider. The numbers end up where they came from because
neither digits nor blanks nor line breaks occur in `DIVIDER`, so its first occurrence
is the one `brain.py` wrote after the counts.
-/

namespace UnikraftSuite

open PyStr Substring

/-! ## The text written -/

/-- One line of counts: every number is followed by a blank. -/
def renderLine (ks : List Nat) : Text := ks.flatMap fun k => str (k : Nat) ++ " ".toList

/-- The first piece of the report. -/
def countText (ps fs bs : List Nat) : Text :=
  renderLine ps ++ "\n".toList ++ renderLine fs ++ "\n".toList ++ renderLine bs

/-- The loop writes the first `n` numbers, if there are so many. -/
theorem countLine_eq {l : List Nat} {n : Nat} (h : n ≤ l.length) :
    countLine l n = .ok (renderLine (l.take n)) := by
  induction n with
  | zero => rfl
  | succ n ih =>
    have hn : n < l.length := h
    rw [countLine, List.range_succ, List.foldlM_append]
    have ih' := ih (Nat.le_of_succ_le h)
    rw [countLine] at ih'
    rw [ih', Raise.ok_bind, List.foldlM_cons, List.getElem?_eq_getElem hn,
      List.take_succ_eq_append_getElem hn]
    simp only [renderLine, List.flatMap_append, List.flatMap_singleton]
    rfl

/-- With fewer than `n` numbers the loop raises. -/
theorem countLine_error {l : List Nat} {n : Nat} (h : l.length < n) :
    countLine l n = .error .indexError := by
  obtain ⟨m, rfl⟩ := Nat.exists_eq_add_of_lt h
  have hsplit : List.range (l.length + m + 1)
      = List.range l.length ++ l.length :: (List.range m).map (l.length + 1 + ·) := by
    rw [Nat.add_assoc, List.range_add, Nat.add_comm m 1, List.range_add]
    simp [List.map_map, Function.comp_def, Nat.add_assoc]
  have hfull := countLine_eq (Nat.le_refl l.length)
  rw [countLine] at hfull ⊢
  rw [hsplit, List.foldlM_append, hfull, Raise.ok_bind, List.foldlM_cons,
    List.getElem?_eq_none (Nat.le_refl _)]
  rfl

/-- **The text of the report.** -/
theorem report_eq {n : Nat} {ps fs bs : List Nat} (hp : n ≤ ps.length) (hf : n ≤ fs.length)
    (hb : n ≤ bs.length) (logs : Text) :
    report n ps fs bs logs
      = .ok (countText (ps.take n) (fs.take n) (bs.take n) ++ ("DIVIDER".toList ++ logs)) := by
  rw [report, countLine_eq hp, countLine_eq hf, countLine_eq hb]
  rfl

/-! ## What occurs in a line of counts -/

theorem mem_renderLine {ks : List Nat} {c : Char} (h : c ∈ renderLine ks) :
    c.isDigit ∨ c = ' ' := by
  obtain ⟨k, -, hk⟩ := List.mem_flatMap.mp h
  rcases List.mem_append.mp hk with hk | hk
  · exact .inl (isDigit_of_mem_str hk)
  · exact .inr (List.mem_singleton.mp hk)

theorem not_mem_renderLine {c : Char} (hd : c.isDigit = false) (hb : c ≠ ' ') (ks : List Nat) :
    c ∉ renderLine ks := by
  intro h
  rcases mem_renderLine h with h | h
  · rw [h] at hd
    cases hd
  · exact hb h

theorem not_mem_countText {c : Char} (hd : c.isDigit = false) (hb : c ≠ ' ') (hn : c ≠ '\n')
    (ps fs bs : List Nat) : c ∉ countText ps fs bs := by
  have hline := not_mem_renderLine hd hb
  simp only [countText, List.mem_append, not_or]
  exact ⟨⟨⟨⟨hline ps, by simpa using hn⟩, hline fs⟩, by simpa using hn⟩, hline bs⟩

/-- No divider begins inside the counts. -/
theorem firstAt_countText (ps fs bs : List Nat) :
    FirstAt "DIVIDER".toList (countText ps fs bs) := by
  refine FirstAt.of_unbordered (by decide) fun h => ?_
  have hD : 'D' ∈ countText ps fs bs := h.subset (by decide)
  exact not_mem_countText (by decide) (by decide) (by decide) ps fs bs hD

/-- **The divider splits off the counts**, whatever the logs contain. -/
theorem split_report (ps fs bs : List Nat) (logs : Text) :
    split "DIVIDER".toList (countText ps fs bs ++ ("DIVIDER".toList ++ logs))
      = countText ps fs bs :: split "DIVIDER".toList logs :=
  split_cut (by decide) (firstAt_countText ps fs bs) logs

/-! ## What is read back -/

theorem split_countText (ps fs bs : List Nat) :
    split "\n".toList (countText ps fs bs) = [renderLine ps, renderLine fs, renderLine bs] := by
  have hline := not_mem_renderLine (c := '\n') (by decide) (by decide)
  have hcut : countText ps fs bs
      = renderLine ps ++ '\n' :: (renderLine fs ++ '\n' :: renderLine bs) := by
    simp [countText]
  rw [hcut]
  show split ['\n'] _ = _
  rw [split_char_cut (hline ps), split_char_cut (hline fs), split_char_of_not_mem (hline bs)]

/-- A line of counts splits at its blanks into the numerals and one empty piece. -/
theorem split_renderLine : ∀ ks : List Nat,
    split " ".toList (renderLine ks) = ks.map (fun k => str (k : Nat)) ++ [[]]
  | [] => rfl
  | k :: ks => by
    have hk : ' ' ∉ str (k : Nat) := not_mem_str (by decide) k
    have hcut : renderLine (k :: ks) = str (k : Nat) ++ ' ' :: renderLine ks := by
      simp [renderLine]
    have ih := split_renderLine ks
    rw [hcut]
    show split [' '] _ = _
    rw [split_char_cut hk]
    exact congrArg (str (k : Nat) :: ·) ih

/-- A line of counts is read back as the numbers written. -/
theorem parseLine_renderLine (ks : List Nat) :
    parseLine (renderLine ks) = .ok (ks.map Int.ofNat) := by
  have hfilter : (split " ".toList (renderLine ks)).filter (· ≠ [])
      = ks.map fun k => str (k : Nat) := by
    rw [split_renderLine, List.filter_append, List.filter_eq_self.mpr, List.filter_cons_of_neg,
      List.filter_nil, List.append_nil]
    · simp
    · intro s hs
      obtain ⟨k, -, rfl⟩ := List.mem_map.mp hs
      simpa using str_ne_nil k
  rw [parseLine, hfilter, List.mapM_map]
  refine Raise.mapM_of_ok fun k _ => ?_
  rw [Function.comp_apply, int_str]
  rfl

/-- **Reading a report**: the counts are read back, whatever the logs contain. -/
theorem parseCounts_countText (ps fs bs : List Nat) (logs : Text) :
    parseCounts (countText ps fs bs ++ ("DIVIDER".toList ++ logs))
      = .ok ⟨ps.map Int.ofNat, fs.map Int.ofNat, bs.map Int.ofNat⟩ := by
  rw [parseCounts, split_report, List.headD_cons, split_countText]
  simp only [getIdx, List.getElem?_cons_zero, List.getElem?_cons_succ]
  show (do
    let p ← parseLine (renderLine ps)
    let f ← parseLine (renderLine fs)
    let b ← parseLine (renderLine bs)
    return (⟨p, f, b⟩ : ReportCounts)) = _
  rw [parseLine_renderLine, parseLine_renderLine, parseLine_renderLine]
  rfl

/-- **The counts survive the report**: for at most 361 folders and any logs, what
`runtest` reads is what `brain.py` counted. -/
theorem report_roundtrip {n : Nat} (hn : n ≤ 361) {ps fs bs : List Nat}
    (hp : ps.length = 361) (hf : fs.length = 361) (hb : bs.length = 361) (logs : Text) :
    ∃ out, report n ps fs bs logs = .ok out ∧
      parseCounts out = .ok ⟨(ps.take n).map Int.ofNat,
        (fs.take n).map Int.ofNat, (bs.take n).map Int.ofNat⟩ :=
  ⟨_, report_eq (hp ▸ hn) (hf ▸ hn) (hb ▸ hn) logs, parseCounts_countText _ _ _ logs⟩

/-- A run over two folders whose log contains the divider. -/
theorem report_roundtrip_two :
    ∃ out, report 2 (7 :: List.replicate 360 0) (List.replicate 361 12) (List.replicate 361 0)
        "a.c\n1 2\n\nDIVIDER3 4".toList = .ok out ∧
      parseCounts out = .ok ⟨[7, 0], [12, 12], [0, 0]⟩ := by
  have h7 : (7 :: List.replicate 360 0).length = 361 := by
    rw [List.length_cons, List.length_replicate]
  exact report_roundtrip (by decide) h7 List.length_replicate List.length_replicate _

end UnikraftSuite
