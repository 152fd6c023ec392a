import UnikraftSuite.BrainTheory

/-!
# Verdict isolation between the tests of a folder

`runTest` judges a test through files that outlive the call: `comp.txt`, the
`a.out` in the folder, `/root/a.out` and `log.txt`. A verdict belongs to its own
test as long as no `a.out` is in the folder when `gcc` starts.

One path breaks this. When `gcc` writes a binary and the text it printed does not
decode, the exception is raised between compiling and moving, so `a.out` stays in
the folder (`runTest_aout`), and a later test that does not compile is judged by
it. `isolated_iff` is the exact condition for a whole run.
-/

namespace UnikraftSuite

open PyStr

variable {β : Type}

/-- The verdict of every call together with the world after it. -/
def trace : List (Entry β) → World β → List (Int × World β)
  | [], _ => []
  | t :: ts, w => runTest t w :: trace ts (runTest t w).2

/-- The verdict a test earns by its own compilation and run. -/
def ownVerdict (t : Entry β) : Int := (runTest t World.init).1

/-- Every call returns the verdict the test earns by itself, and none leaves an
`a.out` in the folder. -/
def Isolated (ts : List (Entry β)) (w : World β) : Prop :=
  List.Forall₂ (fun t r => r.1 = ownVerdict t ∧ r.2.aout = none) ts (trace ts w)

/-- `gcc` printed text that decodes, or wrote no binary. -/
def Entry.Readable (t : Entry β) : Prop :=
  t.gcc.binary.isSome → t.gcc.stdout.isSome

/-- **The `a.out` that stays behind**: from a clean folder, a call leaves an `a.out`
exactly when `gcc` wrote one and the exception on `comp.txt` skipped the move. -/
theorem runTest_aout (t : Entry β) {w : World β} (h : w.aout = none) :
    (runTest t w).2.aout = none ↔ t.Readable := by
  cases hs : t.gcc.stdout with
  | none =>
    rw [runTest_undecodable hs, Entry.Readable, hs, h, Gcc.aout_none]
    cases t.gcc.binary <;> simp
  | some cont =>
    have hr : t.Readable := fun _ => by rw [hs]; rfl
    refine iff_of_true ?_ hr
    cases ha : t.gcc.aout w.aout with
    | none =>
      rw [runTest_notCompiled hs ha]
      exact ha
    | some a =>
      cases hl : t.exec a with
      | none => rw [runTest_noLog hs ha hl]; rfl
      | some out =>
        by_cases hp : "test succeeded".toList <:+: out
        · rw [runTest_passed hs ha hl hp]; rfl
        · rw [runTest_failed hs ha hl hp]; rfl

/-- From a clean folder the verdict is the test's own. -/
theorem runTest_own (t : Entry β) {w : World β} (h : w.aout = none) :
    (runTest t w).1 = ownVerdict t := by
  have hw : w.aout = (World.init : World β).aout := h
  exact (runTest_congr t hw).1

/-- **Isolation of a run**: in a folder that starts without an `a.out`, every test is
judged by its own binary and no `a.out` survives a call, if and only if no test of
the sequence has a binary together with undecodable compiler output. -/
theorem isolated_iff (ts : List (Entry β)) (w : World β) (h : w.aout = none) :
    Isolated ts w ↔ ∀ t ∈ ts, t.Readable := by
  -- induction on the tests still to run; the clean folder is the invariant
  induction ts generalizing w with
  | nil => exact iff_of_true .nil (by simp)
  | cons t ts ih =>
    show List.Forall₂ _ (t :: ts) (runTest t w :: trace ts (runTest t w).2) ↔ _
    rw [List.forall₂_cons, List.forall_mem_cons]
    constructor
    · rintro ⟨⟨-, haout⟩, hrest⟩
      exact ⟨(runTest_aout t h).mp haout, (ih (runTest t w).2 haout).mp hrest⟩
    · rintro ⟨ht, hts⟩
      have haout := (runTest_aout t h).mpr ht
      exact ⟨⟨runTest_own t h, haout⟩, (ih (runTest t w).2 haout).mpr hts⟩

/-- A test that compiles and prints its success line. -/
def okTest : Entry Unit where
  name := "mmap01.c".toList
  isDir := false
  gcc := ⟨some [], some (), false⟩
  exec _ := some "test succeeded\n".toList

/-- A test that does not compile; the binary it is run with, if any, succeeds. -/
def uncompiledTest : Entry Unit where
  name := "mmap02.c".toList
  isDir := false
  gcc := ⟨some [], none, false⟩
  exec _ := some "test succeeded\n".toList

theorem isolated_iff_okTest : Isolated [okTest, uncompiledTest] World.init :=
  (isolated_iff [okTest, uncompiledTest] World.init rfl).mpr
    (List.forall_mem_cons.mpr ⟨fun _ => rfl, List.forall_mem_singleton.mpr fun _ => rfl⟩)

/-- `okTest`, but its compiler output does not decode. -/
def undecodableTest : Entry Unit := { okTest with gcc := ⟨none, some (), false⟩ }

/-- After a test with undecodable compiler output, a test that does not compile
passes by the binary of its predecessor. -/
theorem not_isolated_undecodable :
    (World.init : World Unit).aout = none ∧
      ¬ Isolated [undecodableTest, uncompiledTest] World.init ∧
      (trace [undecodableTest, uncompiledTest] World.init).map Prod.fst = [-1, 1] ∧
      ownVerdict uncompiledTest = 0 := by
  refine ⟨rfl, ?_, by decide, by decide⟩
  intro h
  cases h with
  | cons h _ => exact absurd h.2 (by decide)

end UnikraftSuite
