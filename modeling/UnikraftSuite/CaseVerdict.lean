import UnikraftSuite.BrainTheory
import UnikraftSuite.Programs
import Mathlib.Data.Bool.AllAny

/-!
# The verdict on a program with several cases

`runTest` looks for `test succeeded` anywhere in the output, and the three programs of
`Programs.lean` print that line for a case that passes. So a program is reported as passed
as soon as one case passes:

- `Write05.main_iff`, `Munmap03.main_iff` and `Mmap18.main_iff`: the output contains the
  success line exactly when one of the cases meets its condition. For the other direction
  no line printed for a failing case, or by a child, may contain the pattern; all of them
  are free of `t s` already, whatever numbers and pointers are filled in.
- `exists_iff_forall_iff`: "one case" and "every case" agree only when all cases pass or
  none does.
-/

namespace UnikraftSuite

open PyStr CStdio

variable {β : Type}

/-- A test with a binary of its own is reported as passed exactly when the output contains
the success line. -/
theorem runTest_eq_one_iff {t : Entry β} (w : World β) {cont out : Text} {a : β}
    (hs : t.gcc.stdout = some cont) (hb : t.gcc.binary = some a) (hl : t.exec a = some out) :
    (runTest t w).1 = 1 ↔ "test succeeded".toList <:+: out := by
  have ha := Gcc.aout_of_binary hb w.aout
  by_cases hp : "test succeeded".toList <:+: out
  · rw [runTest_passed hs ha hl hp]
    exact iff_of_true rfl hp
  · rw [runTest_failed hs ha hl hp]
    exact iff_of_false Int.zero_ne_one hp

/-- One case and every case agree exactly when all cases agree. -/
theorem exists_iff_forall_iff {n : Nat} (P : Fin (n + 1) → Prop) :
    ((∃ i, P i) ↔ ∀ i, P i) ↔ (∀ i, P i) ∨ ∀ i, ¬ P i := by
  constructor
  · intro h
    by_cases hex : ∃ i, P i
    · exact .inl (h.mp hex)
    · exact .inr (not_exists.mp hex)
  · rintro (h | h)
    · exact iff_of_true ⟨0, h 0⟩ h
    · exact iff_of_false (not_exists.mpr h) fun hall => h 0 (hall 0)

/-! ## Lines that cannot be taken for the success line -/

/-- A part of the success line that no other line of the programs contains. -/
def tell : Text := "t s".toList

/-- The text does not contain the success line, in whatever it is embedded as lines. -/
theorem not_succeeded {x : Text} (h : Quiet tell x) : Quiet "test succeeded".toList x :=
  h.of_part (by decide)

theorem tell_int {a b : Text} (k : Int) (ha : Quiet tell a) (hb : Quiet tell b) :
    Quiet tell (a ++ (str k ++ b)) :=
  ha.int (List.all_iff_forall_prop.mp (by decide)) k hb

theorem tell_ptr {a b : Text} (p : BitVec 64) (ha : Quiet tell a) (hb : Quiet tell b) :
    Quiet tell (a ++ (ptr p ++ b)) :=
  ha.ptr (List.all_iff_forall_prop.mp (by decide)) p hb

theorem tell_lines {a b : Text} (hl : Lines a) (ha : Quiet tell a) (hb : Quiet tell b) :
    Quiet tell (a ++ b) := ha.lines (by decide) (by decide) hl hb

/-- The success line is in a text of whole lines or in what follows it. -/
theorem succeeded_append_iff {x : Text} (hx : Lines x) (y : Text) :
    "test succeeded".toList <:+: x ++ y
      ↔ "test succeeded".toList <:+: x ∨ "test succeeded".toList <:+: y :=
  hx.infix_append_iff (by decide) (by decide) y

/-! ## `write05` -/

namespace Write05

/-- The condition of row `i`. -/
def Met (i : Fin 3) (w : WriteResult) : Prop :=
  w.ret = -1 ∧ w.errno = tcases i ∧ (tcases i = EPIPE → w.sigpipeCnt = 1)

theorem runCase_lines (i : Fin 3) (w : WriteResult) : Lines (runCase i w) := by
  rw [runCase]
  split
  · exact .of_last (by decide)
  · exact .of_last (by decide)

/-- A row that meets its condition prints the success line. -/
theorem runCase_met {i : Fin 3} {w : WriteResult} (h : Met i w) :
    "test succeeded".toList <:+: runCase i w := by
  have hverify : verifyWrite i w = (1, "write() failed expectedly\n".toList) := by
    rw [verifyWrite, if_neg (not_not.mpr h.1), if_neg (not_not.mpr h.2.1),
      if_neg fun hcnt => hcnt.2 (h.2.2 hcnt.1)]
  rw [runCase, hverify]
  decide

/-- A row that does not meet its condition prints nothing like it. -/
theorem runCase_not_met {i : Fin 3} {w : WriteResult} (h : ¬ Met i w) :
    Quiet tell (runCase i w) := by
  have hone : ¬ (-1 : Int) = 1 := by decide
  rw [runCase, verifyWrite]
  by_cases hret : w.ret = -1
  · rw [if_neg (not_not.mpr hret)]
    by_cases herr : w.errno = tcases i
    · rw [if_neg (not_not.mpr herr)]
      have hcnt : tcases i = EPIPE ∧ w.sigpipeCnt ≠ 1 := by
        by_contra hcnt
        exact h ⟨hret, herr, fun he => not_not.mp fun hne => hcnt ⟨he, hne⟩⟩
      rw [if_pos hcnt, if_neg hone, List.append_assoc]
      exact tell_int _ (by decide) (by decide)
    · rw [if_pos herr, if_neg hone]
      refine tell_lines (.inr ?_) (tell_int _ (by decide) (by decide)) (by decide)
      exact (List.suffix_append _ _).trans (List.suffix_append _ _)
  · rw [if_pos hret, if_neg hone]
    decide

/-- **`write05` prints the success line** exactly when one row meets its condition. -/
theorem main_iff (w : Fin 3 → WriteResult) :
    "test succeeded".toList <:+: main w ↔ ∃ i, Met i (w i) := by
  have hcase : ∀ i, "test succeeded".toList <:+: runCase i (w i) ↔ Met i (w i) := fun i =>
    ⟨fun h => not_not.mp fun hm => not_succeeded (runCase_not_met hm) h, runCase_met⟩
  rw [main, succeeded_append_iff (runCase_lines 0 _), succeeded_append_iff (runCase_lines 1 _),
    hcase, hcase, hcase]
  simp [Fin.exists_fin_succ]

end Write05

/-! ## `munmap03` -/

namespace Munmap03

/-- The condition of every case. -/
def Met (r : MunmapResult) : Prop := r.ret = -1 ∧ r.errno = EINVAL

/-- A case that passes ends the program. -/
theorem testfunc_met {r : MunmapResult} (h : Met r) :
    testfunc r = ⟨"failed as expected\ntest succeeded\n".toList, true⟩ := by
  rw [testfunc, checkAndPrint, if_pos h.1, if_pos h.2]

/-- A case that fails prints one line and goes on. -/
theorem testfunc_not_met {r : MunmapResult} (h : ¬ Met r) :
    ∃ x, testfunc r = ⟨x, false⟩ ∧ Lines x ∧ Quiet tell x := by
  rw [testfunc, checkAndPrint]
  by_cases hret : r.ret = -1
  · rw [if_pos hret, if_neg fun herr => h ⟨hret, herr⟩]
    exact ⟨_, rfl, by decide, by decide⟩
  · rw [if_neg hret]
    exact ⟨_, rfl, by decide, by decide⟩

theorem andThen_iff (r : MunmapResult) (rest : Run) :
    "test succeeded".toList <:+: ((testfunc r).andThen rest).out
      ↔ Met r ∨ "test succeeded".toList <:+: rest.out := by
  by_cases h : Met r
  · rw [testfunc_met h]
    have hout : "test succeeded".toList <:+: "failed as expected\ntest succeeded\n".toList := by
      decide
    exact iff_of_true hout (.inl h)
  · obtain ⟨x, hx, hlines, hquiet⟩ := testfunc_not_met h
    rw [hx, or_iff_right h]
    show "test succeeded".toList <:+: x ++ rest.out ↔ _
    rw [succeeded_append_iff hlines, or_iff_right (not_succeeded hquiet)]

theorem cleanup_quiet (r : MunmapResult) : Quiet tell (cleanup r).out := by
  rw [cleanup]
  split
  · have h := tell_int r.errno (a := "munmap failed, error number ".toList) (b := []) (by decide)
      (by decide)
    rwa [List.append_nil] at h
  · decide

/-- **`munmap03` prints the success line** exactly when one case passes; the cases after it
are not run. -/
theorem main_iff (r : Fin 3 → MunmapResult) (last : MunmapResult) :
    "test succeeded".toList <:+: main r last ↔ ∃ i, Met (r i) := by
  rw [main, andThen_iff, andThen_iff, andThen_iff,
    iff_false_intro (not_succeeded (cleanup_quiet last))]
  simp [Fin.exists_fin_succ]

end Munmap03

/-! ## `mmap18` -/

namespace Mmap18

/-- The stack grew and the child came to its end. -/
def Grown (wstatus : BitVec 32) : Prop := WIFEXITED wstatus ∧ WEXITSTATUS wstatus = 0

/-- The child ran into the mapped page. -/
def Stopped (wstatus : BitVec 32) : Prop := WIFSIGNALED wstatus ∧ WTERMSIG wstatus = SIGSEGV

instance (wstatus : BitVec 32) : Decidable (Grown wstatus) :=
  inferInstanceAs (Decidable (_ ∧ _))

instance (wstatus : BitVec 32) : Decidable (Stopped wstatus) :=
  inferInstanceAs (Decidable (_ ∧ _))

/-- The condition of case `i`. -/
def Met (i : Fin 4) (r : GrowResult) : Prop :=
  if i < 2 then Grown r.wstatus else Stopped r.wstatus

theorem allocateStack_quiet (z : Sizes) (stackSize mappedSize : Nat) (start : BitVec 64) :
    Lines (allocateStack z stackSize mappedSize start) ∧
      Quiet tell (allocateStack z stackSize mappedSize start) := by
  have hfirst : ['\n'] <:+ "\n".toList := by decide
  unfold allocateStack
  refine ⟨.of_last (ends_append _ (ends_append _ (ends_append _ (ends_append _ hfirst)))),
    tell_lines (.of_last ?_) ?_ ?_⟩
  · exact ends_append _ (ends_append _ (ends_append _ (ends_append _ (ends_append _ hfirst))))
  · exact tell_ptr _ (by decide) (tell_ptr _ (by decide) (tell_ptr _ (by decide) (by decide)))
  · exact tell_int _ (by decide) (tell_int _ (by decide) (by decide))

theorem growStack_quiet (z : Sizes) (stack : BitVec 64) (c : Child) :
    Lines (growStack z stack c) ∧ Quiet tell (growStack z stack c) := by
  have hattr : Lines (if c.attrInit ≠ 0 then "pthread_attr_init failed during setup\n".toList
      else []) ∧ Quiet tell (if c.attrInit ≠ 0 then
        "pthread_attr_init failed during setup\n".toList else []) := by
    split
    · exact ⟨by decide, by decide⟩
    · exact ⟨by decide, by decide⟩
  unfold growStack
  cases c.limitAddr with
  | none =>
    have hnil : Quiet tell [] := by decide
    exact ⟨hattr.1.append (.inl rfl), tell_lines hattr.1 hattr.2 hnil⟩
  | some a =>
    have hlast : ['\n'] <:+ "\n".toList := by decide
    have hquiet := tell_ptr (stack + BitVec.ofNat 64 z.pageSize) (a := ", limit = ".toList)
      (b := "\n".toList) (by decide) (by decide)
    exact ⟨.of_last (ends_append _ (ends_append _ (ends_append _ (ends_append _ hlast)))),
      tell_lines hattr.1 hattr.2 (tell_ptr _ (by decide) hquiet)⟩

theorem childOfSuccess_quiet (z : Sizes) (stackSize mappedSize : Nat) (c : Child) :
    Lines (childOfSuccess z stackSize mappedSize c) ∧
      Quiet tell (childOfSuccess z stackSize mappedSize c) := by
  obtain ⟨hl, hq⟩ := allocateStack_quiet z stackSize mappedSize c.start
  obtain ⟨hl', hq'⟩ := growStack_quiet z (stackBottom z stackSize c.start) c
  exact ⟨hl.append hl', tell_lines hl hq hq'⟩

theorem childOfFail_quiet (z : Sizes) (stackSize mappedSize : Nat) (c : Child) :
    Lines (childOfFail z stackSize mappedSize c) ∧
      Quiet tell (childOfFail z stackSize mappedSize c) := by
  obtain ⟨hl, hq⟩ := allocateStack_quiet z stackSize mappedSize c.start
  obtain ⟨hl', hq'⟩ := growStack_quiet z (stackBottom z stackSize c.start) c
  have hpage : Lines ("[I] mapped page at ".toList ++
      (ptr (stackBottom z stackSize c.start) ++ "\n".toList)) :=
    .of_last (ends_append _ (by decide))
  have hqpage := tell_ptr (stackBottom z stackSize c.start) (a := "[I] mapped page at ".toList)
    (b := "\n".toList) (by decide) (by decide)
  exact ⟨hl.append (hpage.append hl'), tell_lines hl hq (tell_lines hpage hqpage hq')⟩

theorem childLine_quiet (wstatus : BitVec 32) :
    Lines (childLine wstatus) ∧ Quiet tell (childLine wstatus) :=
  ⟨.of_last (ends_append _ (by decide)), tell_int _ (by decide) (by decide)⟩

/-- Forking a child does not touch the buffer of the parent. -/
theorem forkWait_sound {childText : Child → Text}
    (hchild : ∀ c, Lines (childText c) ∧ Quiet tell (childText c)) (r : GrowResult) {s : Stdio}
    (hs : s.Sound "test succeeded".toList) :
    (forkWait childText r s).Sound "test succeeded".toList ∧
      (forkWait childText r s).buf = s.buf := by
  rw [forkWait]
  cases r.child with
  | none => exact ⟨hs, rfl⟩
  | some c =>
    obtain ⟨hl, hq⟩ := hchild c
    exact ⟨hs.child (by decide) (by decide) hl (not_succeeded hq), rfl⟩

/-- What a case adds to the program's own output: the success line if its condition is
met. -/
structure Adds (met : Prop) (s s' : Stdio) : Prop where
  sound : s'.Sound "test succeeded".toList
  succeeded : "test succeeded".toList <:+: s'.buf ↔ "test succeeded".toList <:+: s.buf ∨ met

/-- The parent prints one text after the child is gone. -/
theorem printf_adds {met : Prop} {s s' : Stdio} {x : Text}
    (hs : s.Sound "test succeeded".toList) (hs' : s'.Sound "test succeeded".toList)
    (hbuf : s'.buf = s.buf) (hl : Lines x) (hx : "test succeeded".toList <:+: x ↔ met) :
    Adds met s (s'.printf x) := by
  refine ⟨hs'.printf hl, ?_⟩
  rw [Stdio.printf, hbuf, succeeded_append_iff hs.buf_lines, hx]

theorem growStackSuccess_adds (z : Sizes) (stackSize mappedSize : Nat) (r : GrowResult)
    {s : Stdio} (hs : s.Sound "test succeeded".toList) :
    Adds (Grown r.wstatus) s (growStackSuccess z stackSize mappedSize r s) := by
  obtain ⟨hsound, hbuf⟩ := forkWait_sound (childOfSuccess_quiet z stackSize mappedSize) r hs
  rw [growStackSuccess]
  by_cases h : WIFEXITED r.wstatus ∧ WEXITSTATUS r.wstatus = 0
  · rw [if_pos h]
    exact printf_adds hs hsound hbuf (by decide) (iff_of_true (by decide) h)
  · obtain ⟨hl, hq⟩ := childLine_quiet r.wstatus
    rw [if_neg h]
    exact printf_adds hs hsound hbuf hl (iff_of_false (not_succeeded hq) h)

theorem growStackFail_adds (z : Sizes) (stackSize mappedSize : Nat) (r : GrowResult)
    {s : Stdio} (hs : s.Sound "test succeeded".toList) :
    Adds (Stopped r.wstatus) s (growStackFail z stackSize mappedSize r s) := by
  obtain ⟨hsound, hbuf⟩ := forkWait_sound (childOfFail_quiet z stackSize mappedSize) r hs
  rw [growStackFail]
  by_cases h : WIFSIGNALED r.wstatus ∧ WTERMSIG r.wstatus = SIGSEGV
  · rw [if_pos h]
    exact printf_adds hs hsound hbuf (by decide) (iff_of_true (by decide) h)
  · obtain ⟨hl, hq⟩ := childLine_quiet r.wstatus
    rw [if_neg h]
    exact printf_adds hs hsound hbuf hl (iff_of_false (not_succeeded hq) h)

/-- **`mmap18` prints the success line** exactly when one case meets its condition and the
stack grows down. -/
theorem main_iff (growsUp : Bool) (z : Sizes) (r : Fin 4 → GrowResult) :
    "test succeeded".toList <:+: main growsUp z r
      ↔ growsUp = false ∧ ∃ i, Met i (r i) := by
  cases growsUp with
  | true =>
    have hskip : ¬ "test succeeded".toList <:+:
        "Test can't be performed with stack grows up architecture\n".toList := by decide
    exact iff_of_false hskip fun h => Bool.noConfusion h.1
  | false =>
    have hinit := Stdio.Sound.init (p := "test succeeded".toList) (by decide)
    have h₀ := growStackSuccess_adds z z.stackSize z.pthreadStack (r 0) hinit
    have h₁ := growStackSuccess_adds z z.stackSize (z.stackSize / 2) (r 1) h₀.sound
    have h₂ := growStackFail_adds z z.stackSize z.pthreadStack (r 2) h₁.sound
    have h₃ := growStackFail_adds z z.stackSize (z.stackSize / 2) (r 3) h₂.sound
    have hempty : ¬ "test succeeded".toList <:+: Stdio.init.buf := by decide
    show "test succeeded".toList <:+: (runTest z r Stdio.init).exit ↔ _
    rw [runTest, h₃.sound.exit_iff (by decide) (by decide), h₃.succeeded, h₂.succeeded,
      h₁.succeeded, h₀.succeeded, or_iff_right hempty]
    simp [Fin.exists_fin_succ, Met, or_assoc]

end Mmap18

/-! ## The verdicts -/

/-- A test that compiles and whose program prints `out`. -/
def Entry.program (name cont : Text) (a : β) (out : Text) : Entry β where
  name := name
  isDir := false
  gcc := ⟨some cont, some a, false⟩
  exec _ := some out

theorem program_iff (name cont out : Text) (a : β) (w : World β) :
    (runTest (Entry.program name cont a out) w).1 = 1 ↔ "test succeeded".toList <:+: out :=
  runTest_eq_one_iff w rfl rfl rfl

/-- **A program is reported as passed only for all of its cases** exactly when its cases
agree: all of them meet their conditions or none does. Where the stack grows up, `mmap18`
runs no case and is never reported as passed. -/
theorem allCases_iff (name cont : Text) (a : β) (w : World β) :
    (∀ r : Fin 3 → Write05.WriteResult,
      ((runTest (Entry.program name cont a (Write05.main r)) w).1 = 1
        ↔ ∀ i, Write05.Met i (r i))
      ↔ (∀ i, Write05.Met i (r i)) ∨ ∀ i, ¬ Write05.Met i (r i)) ∧
    (∀ (r : Fin 3 → Munmap03.MunmapResult) (last : Munmap03.MunmapResult),
      ((runTest (Entry.program name cont a (Munmap03.main r last)) w).1 = 1
        ↔ ∀ i, Munmap03.Met (r i))
      ↔ (∀ i, Munmap03.Met (r i)) ∨ ∀ i, ¬ Munmap03.Met (r i)) ∧
    (∀ (growsUp : Bool) (z : Mmap18.Sizes) (r : Fin 4 → Mmap18.GrowResult),
      ((runTest (Entry.program name cont a (Mmap18.main growsUp z r)) w).1 = 1
        ↔ ∀ i, Mmap18.Met i (r i))
      ↔ (growsUp = false ∧ ∀ i, Mmap18.Met i (r i)) ∨ (growsUp = false ∧ ∀ i, ¬ Mmap18.Met i (r i))
        ∨ (growsUp = true ∧ ¬ ∀ i, Mmap18.Met i (r i))) := by
  refine ⟨fun r => ?_, fun r last => ?_, fun growsUp z r => ?_⟩
  · rw [program_iff, Write05.main_iff]
    exact exists_iff_forall_iff _
  · rw [program_iff, Munmap03.main_iff]
    exact exists_iff_forall_iff _
  · rw [program_iff, Mmap18.main_iff]
    cases growsUp with
    | true => simp
    | false =>
      have h := exists_iff_forall_iff fun i => Mmap18.Met i (r i)
      simpa using h

/-- The first row of `write05` fails as expected, the other two writes succeed. -/
def firstRowOnly : Fin 3 → Write05.WriteResult
  | 0 => ⟨-1, Write05.EBADF, 0⟩
  | 1 => ⟨8, 0, 0⟩
  | 2 => ⟨8, 0, 0⟩

theorem not_allCases_firstRowOnly :
    (runTest (Entry.program "write05.c".toList [] () (Write05.main firstRowOnly))
      World.init).1 = 1 ∧ ¬ ∀ i, Write05.Met i (firstRowOnly i) := by
  refine ⟨by decide, fun h => ?_⟩
  exact absurd (h 1).1 (by decide)

end UnikraftSuite
