import UnikraftSuite.Brain
import Mathlib.Data.List.Count

/-!
# What `brain.py` computes

The specification lemmas of `Brain.lean`:

- `runTest` has five ways to end, one equation for each
  (`runTest_undecodable` … `runTest_failed`), and its verdict depends on the world
  only through the `a.out` in the folder (`runTest_congr`);
- `runTests` is the sequence of calls made for one folder, `visit` and `visitAll`
  the worlds left by one folder and by a run over many;
- `folderCounts` is what a folder contributes to the three counters, and
  `countLoop_eq` says that the loop fills the arrays with the counts of the folders
  in listing order, as long as there are at most as many folders as cells.
-/

namespace UnikraftSuite

open PyStr

variable {β : Type}

/-! ## The compiler -/

theorem Gcc.aout_of_binary {g : Gcc β} {b : β} (h : g.binary = some b) (old : Option β) :
    g.aout old = some b := by
  rw [Gcc.aout, h]
  rfl

/-- Where there was no `a.out`, it is the one written. -/
theorem Gcc.aout_none (g : Gcc β) : g.aout none = g.binary := by
  rw [Gcc.aout, ite_self]
  cases g.binary <;> rfl

/-! ## The five ends of `runTest` -/

/-- The world after `gcc` ran and `comp.txt` was logged. -/
def World.compiled (w : World β) (t : Entry β) (cont : Text) : World β :=
  { w with
    comp := some cont
    aout := t.gcc.aout w.aout
    logs := w.logs ++ compEntry t.name cont }

/-- The world after `a.out` was moved to `/root` and run. -/
def World.ran (w : World β) (t : Entry β) (cont : Text) (a : β) : World β :=
  { w.compiled t cont with aout := none, rootAout := some a, log := t.exec a }

section Ends

variable {t : Entry β} {w : World β} {cont out : Text} {a : β}

/-- `comp.txt` does not decode: the exception leaves a fresh `a.out` behind. -/
theorem runTest_undecodable (h : t.gcc.stdout = none) :
    runTest t w = (-1, { w with comp := none, aout := t.gcc.aout w.aout }) := by
  simp only [runTest, h]

theorem runTest_notCompiled (h : t.gcc.stdout = some cont)
    (ha : t.gcc.aout w.aout = none) : runTest t w = (0, w.compiled t cont) := by
  simp only [runTest, h, ha, World.compiled]

theorem runTest_noLog (h : t.gcc.stdout = some cont)
    (ha : t.gcc.aout w.aout = some a) (hl : t.exec a = none) :
    runTest t w = (-1, w.ran t cont a) := by
  simp only [runTest, h, ha, hl, World.compiled, World.ran]

theorem runTest_passed (h : t.gcc.stdout = some cont)
    (ha : t.gcc.aout w.aout = some a) (hl : t.exec a = some out)
    (hp : "test succeeded".toList <:+: out) : runTest t w = (1, w.ran t cont a) := by
  simp only [runTest, h, ha, hl, World.compiled, World.ran]
  rw [if_pos hp]

theorem runTest_failed (h : t.gcc.stdout = some cont)
    (ha : t.gcc.aout w.aout = some a) (hl : t.exec a = some out)
    (hp : ¬ "test succeeded".toList <:+: out) :
    runTest t w
      = (0, { w.ran t cont a with logs := (w.compiled t cont).logs ++ failEntry out }) := by
  simp only [runTest, h, ha, hl, World.compiled, World.ran]
  rw [if_neg hp]

end Ends

/-- The verdict, and whether an `a.out` stays behind, depend on the world only
through the `a.out` that is in the folder before the call. -/
theorem runTest_congr (t : Entry β) {w w' : World β} (h : w.aout = w'.aout) :
    (runTest t w).1 = (runTest t w').1 ∧ (runTest t w).2.aout = (runTest t w').2.aout := by
  cases hs : t.gcc.stdout with
  | none => simp only [runTest_undecodable hs, h, and_self]
  | some cont =>
    cases ha : t.gcc.aout w.aout with
    | none =>
      rw [runTest_notCompiled hs ha, runTest_notCompiled hs (h ▸ ha)]
      simp only [World.compiled, h, and_self]
    | some a =>
      cases hl : t.exec a with
      | none =>
        rw [runTest_noLog hs ha hl, runTest_noLog hs (h ▸ ha) hl]
        exact ⟨rfl, rfl⟩
      | some out =>
        by_cases hp : "test succeeded".toList <:+: out
        · rw [runTest_passed hs ha hl hp, runTest_passed hs (h ▸ ha) hl hp]
          exact ⟨rfl, rfl⟩
        · rw [runTest_failed hs ha hl hp, runTest_failed hs (h ▸ ha) hl hp]
          exact ⟨rfl, rfl⟩

/-! ## The calls made for a folder -/

/-- Successive calls of `runTest` in one folder. -/
def runTests : List (Entry β) → World β → List Int × World β
  | [], w => ([], w)
  | t :: ts, w =>
    ((runTest t w).1 :: (runTests ts (runTest t w).2).1, (runTests ts (runTest t w).2).2)

theorem runTests_length : ∀ (ts : List (Entry β)) (w : World β),
    (runTests ts w).1.length = ts.length
  | [], _ => rfl
  | _ :: ts, _ => congrArg Nat.succ (runTests_length ts _)

/-- The verdicts of a folder depend only on the `a.out` it starts with. -/
theorem runTests_congr : ∀ (ts : List (Entry β)) {w w' : World β}, w.aout = w'.aout →
    (runTests ts w).1 = (runTests ts w').1
  | [], _, _, _ => rfl
  | t :: ts, w, w', h => by
    obtain ⟨hv, ha⟩ := runTest_congr t h
    show (runTest t w).1 :: (runTests ts (runTest t w).2).1
      = (runTest t w').1 :: (runTests ts (runTest t w').2).1
    rw [hv, runTests_congr ts ha]

/-- The names with `.h` in them are passed over. -/
def isTest (e : Entry β) : Bool := !decide (".h".toList <:+: e.name)

theorem isTest_iff {e : Entry β} : isTest e = true ↔ ¬ ".h".toList <:+: e.name := by
  rw [isTest, Bool.not_eq_true', decide_eq_false_iff_not]

theorem isTest_eq_false_iff {e : Entry β} : isTest e = false ↔ ".h".toList <:+: e.name := by
  rw [isTest, Bool.not_eq_false', decide_eq_true_iff]

/-- The files of a folder for which `runTest` is called, in order. -/
def Folder.calls (folder : Folder β) : List (Entry β) :=
  if folder.unfinished then [] else folder.entries.filter isTest

/-- The world in which the first test of a folder is run. -/
def Folder.enter (folder : Folder β) (w : World β) : World β :=
  if folder.unfinished then w else { w with aout := folder.aout }

/-- The world a folder leaves. -/
def visit (w : World β) (folder : Folder β) : World β :=
  (runTests folder.calls (folder.enter w)).2

/-- The world left by a run over many folders. -/
def visitAll (folders : List (Folder β)) (w : World β) : World β :=
  folders.foldl visit w

/-! ## Counts -/

/-- What one folder adds to the three counters. -/
structure Counts where
  pass : Nat
  fail : Nat
  brok : Nat
deriving DecidableEq, Repr

namespace Counts

def total (c : Counts) : Nat := c.pass + c.fail + c.brok

/-- A verdict that is neither 0 nor 1. -/
def isBroken (r : Int) : Bool := !(r == 0) && !(r == 1)

/-- The counts of a sequence of verdicts: 1 passes, 0 fails, all others are broken. -/
def ofVerdicts (rs : List Int) : Counts :=
  ⟨rs.count 1, rs.count 0, rs.countP isBroken⟩

@[simp] theorem ofVerdicts_nil : ofVerdicts [] = ⟨0, 0, 0⟩ := rfl

@[simp] theorem ofVerdicts_zero : ofVerdicts [0] = ⟨0, 1, 0⟩ := rfl

@[simp] theorem ofVerdicts_one : ofVerdicts [1] = ⟨1, 0, 0⟩ := rfl

theorem ofVerdicts_broken {r : Int} (h0 : r ≠ 0) (h1 : r ≠ 1) : ofVerdicts [r] = ⟨0, 0, 1⟩ := by
  simp [ofVerdicts, isBroken, h0, h1]

/-- Every verdict is counted exactly once. -/
theorem total_ofVerdicts (rs : List Int) : (ofVerdicts rs).total = rs.length := by
  induction rs with
  | nil => rfl
  | cons r rs ih =>
    simp only [total, ofVerdicts, List.count_cons, List.countP_cons, List.length_cons] at ih ⊢
    by_cases h0 : r = 0
    · simp [h0, isBroken]
      omega
    · by_cases h1 : r = 1
      · simp [h1, isBroken]
        omega
      · simp [h0, h1, isBroken]
        omega

end Counts

/-- What a folder adds to the counters. -/
def folderCounts (folder : Folder β) : Counts :=
  if folder.unfinished then ⟨0, 0, folder.entries.length⟩
  else Counts.ofVerdicts (runTests folder.calls (folder.enter World.init)).1

/-- The entries of a folder that are counted. -/
def Folder.counted (folder : Folder β) : List (Entry β) :=
  if folder.unfinished then folder.entries else folder.entries.filter isTest

/-- **Every counted entry adds one to exactly one counter**, whatever gcc and the
programs do. -/
theorem total_folderCounts (folder : Folder β) :
    (folderCounts folder).total = folder.counted.length := by
  by_cases h : folder.unfinished
  · rw [folderCounts, if_pos h, Folder.counted, if_pos h]
    simp [Counts.total]
  · rw [folderCounts, if_neg h, Counts.total_ofVerdicts, runTests_length, Folder.calls,
      if_neg h, Folder.counted, if_neg h]

/-! ## The loop fills the arrays -/

namespace BrainState

/-- Add counts at index `i` and replace the world. -/
def add (st : BrainState β) (i : Nat) (c : Counts) (w : World β) : BrainState β where
  passList := st.passList.modify i (· + c.pass)
  failList := st.failList.modify i (· + c.fail)
  brokList := st.brokList.modify i (· + c.brok)
  world := w

/-- Index `i` is inside all three arrays. -/
def InRange (st : BrainState β) (i : Nat) : Prop :=
  i < st.passList.length ∧ i < st.failList.length ∧ i < st.brokList.length

theorem InRange.add {st : BrainState β} {i : Nat} (h : st.InRange i) (j : Nat) (c : Counts)
    (w : World β) : (st.add j c w).InRange i := by
  simpa [InRange, BrainState.add] using h

theorem modify_add_zero (l : List Nat) (i : Nat) : l.modify i (· + 0) = l :=
  List.modify_id i l

theorem modify_add_add (l : List Nat) (i m n : Nat) :
    (l.modify i (· + m)).modify i (· + n) = l.modify i (· + (m + n)) := by
  rw [List.modify_modify_eq]
  congr 1
  funext x
  exact Nat.add_assoc x m n

@[simp] theorem add_zero (st : BrainState β) (i : Nat) (w : World β) :
    st.add i ⟨0, 0, 0⟩ w = { st with world := w } := by
  simp only [add, modify_add_zero]

theorem add_add (st : BrainState β) (i : Nat) (c d : Counts) (w w' : World β) :
    (st.add i c w).add i d w'
      = st.add i ⟨c.pass + d.pass, c.fail + d.fail, c.brok + d.brok⟩ w' := by
  simp only [add, modify_add_add]

end BrainState

open BrainState in
/-- A test file adds the counts of its verdict. -/
theorem countFile_eq {i : Nat} {st : BrainState β} (hi : st.InRange i) {file : Entry β}
    (hf : isTest file) :
    countFile i st file
      = .ok (st.add i (Counts.ofVerdicts [(runTest file st.world).1])
          (runTest file st.world).2) := by
  obtain ⟨hp, hfa, hb⟩ := hi
  rw [countFile, if_neg (isTest_iff.mp hf)]
  by_cases h0 : (runTest file st.world).1 = 0
  · simp only [h0, if_true, incr, if_pos hfa, Except.map, Counts.ofVerdicts_zero,
      BrainState.add, modify_add_zero]
  · by_cases h1 : (runTest file st.world).1 = 1
    · simp only [h1, Int.one_ne_zero, if_false, if_true, incr, if_pos hp, Except.map,
        Counts.ofVerdicts_one, BrainState.add, modify_add_zero]
    · simp only [h0, h1, if_false, incr, if_pos hb, Except.map,
        Counts.ofVerdicts_broken h0 h1, BrainState.add, modify_add_zero]

/-- A header changes nothing. -/
theorem countFile_header {i : Nat} {st : BrainState β} {file : Entry β}
    (hf : isTest file = false) : countFile i st file = .ok st := by
  rw [countFile, if_pos (isTest_eq_false_iff.mp hf)]

/-- The inner loop adds the counts of the verdicts of the folder's tests. -/
theorem countFiles_eq (i : Nat) : ∀ (entries : List (Entry β)) (st : BrainState β),
    st.InRange i →
    entries.foldlM (countFile i) st
      = .ok (st.add i (Counts.ofVerdicts (runTests (entries.filter isTest) st.world).1)
          (runTests (entries.filter isTest) st.world).2)
  | [], st, _ => by
    rw [List.foldlM_nil, List.filter_nil]
    simp only [runTests, Counts.ofVerdicts_nil, BrainState.add_zero]
    rfl
  | e :: entries, st, hi => by
    rw [List.foldlM_cons]
    cases he : isTest e with
    | false =>
      rw [countFile_header he, List.filter_cons_of_neg (by simp [he])]
      exact countFiles_eq i entries st hi
    | true =>
      rw [countFile_eq hi he, List.filter_cons_of_pos he]
      show List.foldlM (countFile i) (st.add i _ _) entries = _
      rw [countFiles_eq i entries _ (hi.add i _ _), BrainState.add_add]
      -- the counts of one file and of the others add up
      congr 2
      simp only [BrainState.add, runTests, Counts.ofVerdicts, List.count_cons, List.countP_cons,
        List.count_nil, List.countP_nil, Nat.zero_add, Counts.mk.injEq]
      exact ⟨Nat.add_comm _ _, Nat.add_comm _ _, Nat.add_comm _ _⟩

/-- One turn of the outer loop. -/
theorem countFolder_eq {i : Nat} {st : BrainState β} (hi : st.InRange i)
    (folder : Folder β) :
    countFolder i st folder = .ok (st.add i (folderCounts folder) (visit st.world folder)) := by
  by_cases h : folder.unfinished
  · rw [countFolder, if_pos h, folderCounts, if_pos h, visit, Folder.calls, if_pos h,
      Folder.enter, if_pos h]
    simp only [incr, if_pos hi.2.2, Except.map, BrainState.add, BrainState.modify_add_zero,
      runTests]
  · have hi' : BrainState.InRange { st with world := { st.world with aout := folder.aout } } i := hi
    rw [countFolder, if_neg h, countFiles_eq i folder.entries _ hi', folderCounts, if_neg h,
      visit, Folder.calls, if_neg h, Folder.enter, Folder.enter, if_neg h, if_neg h]
    have hv : (runTests (folder.entries.filter isTest) { st.world with aout := folder.aout }).1
        = (runTests (folder.entries.filter isTest) { World.init with aout := folder.aout }).1 :=
      runTests_congr _ rfl
    rw [hv]
    rfl

/-- The arrays after the folders counted so far, with `m` cells still zero. -/
def filled (done : List Counts) (m : Nat) (w : World β) : BrainState β where
  passList := done.map Counts.pass ++ List.replicate m 0
  failList := done.map Counts.fail ++ List.replicate m 0
  brokList := done.map Counts.brok ++ List.replicate m 0
  world := w

theorem filled_inRange (done : List Counts) {m : Nat} (hm : 0 < m) (w : World β) :
    (filled done m w).InRange done.length := by
  simp only [BrainState.InRange, filled, List.length_append, List.length_map,
    List.length_replicate]
  omega

/-- Adding counts to the first zero cell extends the filled part by one folder. -/
theorem filled_add (done : List Counts) (m : Nat) (c : Counts) (w w' : World β) :
    (filled done (m + 1) w).add done.length c w' = filled (done ++ [c]) m w' := by
  have h : ∀ f : Counts → Nat,
      (done.map f ++ List.replicate (m + 1) 0).modify done.length (· + f c)
        = (done ++ [c]).map f ++ List.replicate m 0 := by
    intro f
    have hlen : done.length = (done.map f).length := (List.length_map f).symm
    rw [hlen, List.modify_eq_set_getElem?]
    simp [List.replicate_succ]
  simp only [BrainState.add, filled, h Counts.pass, h Counts.fail, h Counts.brok]

/-- **The loop fills the arrays**: cell `k` holds the counts of folder `k`. -/
theorem countLoop_eq : ∀ (folders : List (Folder β)) (done : List Counts) (m : Nat)
    (w : World β), folders.length ≤ m →
    countLoop done.length (filled done m w) folders
      = .ok (filled (done ++ folders.map folderCounts) (m - folders.length)
          (visitAll folders w))
  | [], done, m, w, _ => by
    simp [countLoop, visitAll]
  | folder :: rest, done, m + 1, w, h => by
    have ih := countLoop_eq rest (done ++ [folderCounts folder]) m (visit w folder)
      (Nat.le_of_succ_le_succ h)
    have hw : (filled done (m + 1) w).world = w := rfl
    rw [countLoop, countFolder_eq (filled_inRange done (Nat.succ_pos m) w), hw, filled_add]
    rw [List.length_append, List.length_singleton] at ih
    show countLoop (done.length + 1) (filled (done ++ [folderCounts folder]) m (visit w folder))
      rest = _
    rw [ih, List.append_assoc, List.length_cons, Nat.add_sub_add_right]
    rfl

/-- With at most 361 folders the counting loop succeeds. -/
theorem countLoop_init {folders : List (Folder β)} (h : folders.length ≤ 361) :
    countLoop 0 BrainState.init folders
      = .ok (filled (folders.map folderCounts) (361 - folders.length)
          (visitAll folders World.init)) :=
  countLoop_eq folders [] 361 World.init h

end UnikraftSuite
