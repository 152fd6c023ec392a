import UnikraftSuite.Lib.Calls
import Mathlib.Data.BitVec

/-!
# `openat01`

Two rows of the table should fail, and `verify_openat` makes their calls, but compares only
`errno`, which an earlier call may have left. The other three rows should give a descriptor:
their call is missing, `ret` is not assigned, and nothing is returned.

- `Before`: what is known in front of each row, `errno` in particular.
- `rowsDecide_iff`: since three rows are never met, the verdict is right where it is not
  printed.
-/

namespace Syscalls.Openat01

open PyStr Stateful Calls

/-! ## The program -/

def ENOTDIR : Int := 20

def EBADF : Int := 9

def AT_FDCWD : Int := -100

def TEST_FILE : Text := "test_file".toList

def TEST_DIR : Text := "test_dir/".toList

inductive Call where
  | getcwd
  | mkdir
  | openDir
  | openFile
  /-- In row `n`, with `O_RDWR` and mode 0600. -/
  | openat (n : Nat) (dirFd : Int) (pathname : Text)
  /-- Of `ret`, in row `n`. -/
  | close (n : Nat) (ret : Int)
  | closeFd (fd : Int)
  | closeDir (dirFd : Int)
  deriving DecidableEq

/-- The global variables. -/
structure Globals where
  dirFd : Int
  fd : Int
  globPath : Text

def fdInvalid : Int := 100

def fdAtcwd : Int := AT_FDCWD

structure TestCase where
  dirFd : Globals → Int
  pathname : Globals → Text
  expRet : Int
  expErrno : Int

def testCases : Nat → TestCase
  | 0 => ⟨Globals.dirFd, fun _ => TEST_FILE, 0, 0⟩
  | 1 => ⟨Globals.dirFd, Globals.globPath, 0, 0⟩
  | 2 => ⟨Globals.fd, fun _ => TEST_FILE, -1, ENOTDIR⟩
  | 3 => ⟨fun _ => fdInvalid, fun _ => TEST_FILE, -1, EBADF⟩
  | _ => ⟨fun _ => fdAtcwd, fun _ => TEST_DIR ++ TEST_FILE, 0, 0⟩

/-- The results of all calls, what is in `buf` behind `getcwd`, and for each row what is found
in `ret` where it has not been assigned, and where no value is returned. -/
structure Kernel where
  answer : Call → Result
  buf : Text
  ret : Nat → Int
  missing : Nat → BitVec 32

abbrev Machine := Calls.Machine Call

abbrev Prog := Stateful.Prog Machine

def sys (k : Kernel) (c : Call) : Prog Int := syscall (fun _ c => k.answer c) c

/-- `verify_openat(n)`. -/
def verifyOpenat (k : Kernel) (g : Globals) (n : Nat) : Prog (BitVec 32) := do
  let tc := testCases n
  if tc.expRet ≠ 0 then
    if tc.expErrno = ENOTDIR then do
      printf "[I] openat with a filefd instead of dirfd\n".toList
      let _ ← sys k (.openat n (tc.dirFd g) (tc.pathname g))
      return if (← errno) = ENOTDIR then 1 else 0
    else do
      printf "[I] openat with invalid fd\n".toList
      let _ ← sys k (.openat n (tc.dirFd g) (tc.pathname g))
      return if (← errno) = EBADF then 1 else 0
  else if k.ret n > 0 then do
    let _ ← sys k (.close n (k.ret n))
    return k.missing n
  else return k.missing n

def setup (k : Kernel) : Prog Globals := do
  let _ ← sys k .getcwd
  let _ ← sys k .mkdir
  let dirFd ← sys k .openDir
  let fd ← sys k .openFile
  return ⟨dirFd, fd, (k.buf ++ "/".toList ++ TEST_DIR ++ TEST_FILE).take 255⟩

def cleanup (k : Kernel) (g : Globals) : Prog Unit := do
  callIf (fun _ c => k.answer c) g.fd (.closeFd g.fd)
  callIf (fun _ c => k.answer c) g.dirFd (.closeDir g.dirFd)

def verdict : Text := "test succeeded\n".toList

/-- A turn of the loop in `main`. -/
def mainTurn (k : Kernel) (g : Globals) (i : Nat) (ok : BitVec 32) : Prog (BitVec 32) := do
  return ok * (← verifyOpenat k g i)

def main (k : Kernel) : Prog Unit := do
  let g ← setup k
  let ok ← forLoop (mainTurn k g) 0 5 1
  (if ok ≠ 0 then printf verdict else return ())
  cleanup k g

/-! ## What it should do -/

/-- The machine behind `main`. -/
def final (k : Kernel) : Machine := (exec (main k) .start).2

/-- Row `n` has made its call, and it has succeeded or failed as it should. -/
def RowMet (m : Machine) (n : Nat) : Prop :=
  ∃ dirFd pathname r, (.openat n dirFd pathname, r) ∈ m.log ∧
    if (testCases n).expRet = 0 then 0 ≤ r.ret
    else r.ret = -1 ∧ r.errno = (testCases n).expErrno

/-- The verdict is printed if and only if each row is met. -/
def RowsDecide (m : Machine) : Prop := verdict ∈ m.out ↔ ∀ n < 5, RowMet m n

/-! ## Row after row -/

section Rows

variable (k : Kernel)

/-- The results of the calls of `setup`. -/
def setupResults : List Result :=
  [k.answer .getcwd, k.answer .mkdir, k.answer .openDir, k.answer .openFile]

/-- What `setup` leaves in the global variables. -/
def globals : Globals where
  dirFd := (k.answer .openDir).ret
  fd := (k.answer .openFile).ret
  globPath := (k.buf ++ "/".toList ++ TEST_DIR ++ TEST_FILE).take 255

/-- The result of the call of row `n`. -/
def openatResult (n : Nat) : Result :=
  k.answer (.openat n ((testCases n).dirFd (globals k)) ((testCases n).pathname (globals k)))

/-- The results of the calls of row `n`: the `openat`, or the `close` of what is in `ret`. -/
def rowResults (n : Nat) : List Result :=
  if (testCases n).expRet ≠ 0 then [openatResult k n]
  else if k.ret n > 0 then [k.answer (.close n (k.ret n))] else []

/-- The results of the calls in front of row `n`. -/
def resultsBefore : Nat → List Result
  | 0 => setupResults k
  | n + 1 => resultsBefore n ++ rowResults k n

/-- What row `n` makes of `ok`. -/
def rowValue (n : Nat) : BitVec 32 :=
  if (testCases n).expRet ≠ 0 then
    if lastErrno (resultsBefore k (n + 1)) = (testCases n).expErrno then 1 else 0
  else k.missing n

/-- `ok` in front of row `n`. -/
def okBefore : Nat → BitVec 32
  | 0 => 1
  | n + 1 => okBefore n * rowValue k n

/-- The call of row 0 is not made. -/
def Skipped (m : Machine) : Prop := ∀ e ∈ m.log, ∀ dirFd pathname, e.1 ≠ .openat 0 dirFd pathname

/-- **What is known in front of row `n`.** -/
structure Before (n : Nat) (m : Machine) : Prop where
  results : m.results = resultsBefore k n
  current : m.Current
  silent : verdict ∉ m.out
  skipped : Skipped m

variable {k}

theorem Skipped.made {m : Machine} (h : Skipped m) {c : Call} (r : Result)
    (hc : ∀ dirFd pathname, c ≠ .openat 0 dirFd pathname) : Skipped (m.made c r) :=
  List.forall_mem_append.mpr ⟨h, List.forall_mem_singleton.mpr hc⟩

/-- A row that makes one call. -/
theorem Before.call {n : Nat} {m : Machine} (h : Before k n m) {c : Call}
    (hc : ∀ dirFd pathname, c ≠ .openat 0 dirFd pathname) (hrow : rowResults k n = [k.answer c]) :
    Before k (n + 1) (m.made c (k.answer c)) := by
  refine ⟨?_, h.current.made c _, h.silent, h.skipped.made _ hc⟩
  rw [made_results, h.results, resultsBefore, hrow]

/-- A row that makes no call. -/
theorem Before.pass {n : Nat} {m : Machine} (h : Before k n m) (hrow : rowResults k n = []) :
    Before k (n + 1) m := by
  refine ⟨?_, h.current, h.silent, h.skipped⟩
  rw [h.results, resultsBefore, hrow, List.append_nil]

/-- Another line than the verdict. -/
theorem Before.print {n : Nat} {m : Machine} (h : Before k n m) {x : Text} (hx : verdict ≠ x) :
    Before k n { m with out := m.out ++ [x] } := by
  refine ⟨h.results, h.current, ?_, h.skipped⟩
  rw [List.mem_append, List.mem_singleton]
  exact not_or.mpr ⟨h.silent, hx⟩

/-- The two rows that make their call have these numbers, and this `errno`. -/
theorem expRet_ne_zero {n : Nat} (h : (testCases n).expRet ≠ 0) :
    (n = 2 ∧ (testCases n).expErrno = ENOTDIR) ∨ (n = 3 ∧ (testCases n).expErrno = EBADF) := by
  match n with
  | 0 => exact absurd rfl h
  | 1 => exact absurd rfl h
  | 2 => exact .inl ⟨rfl, rfl⟩
  | 3 => exact .inr ⟨rfl, rfl⟩
  | n + 4 => exact absurd rfl h

/-- The call of a row, and the comparison of `errno` behind it. -/
theorem compare_spec {n : Nat} (h : (testCases n).expRet ≠ 0) {x : Text} (hx : verdict ≠ x)
    {E : Machine → Prop} :
    Spec (Before k n) (do
        printf x
        let _ ← sys k (.openat n ((testCases n).dirFd (globals k))
          ((testCases n).pathname (globals k)))
        return if (← errno) = (testCases n).expErrno then (1 : BitVec 32) else 0)
      (fun v m => v = rowValue k n ∧ Before k (n + 1) m) E := by
  have hn : n ≠ 0 := by
    rcases expRet_ne_zero h with ⟨rfl, -⟩ | ⟨rfl, -⟩
    · decide
    · decide
  have hother : ∀ a x b y, Call.openat n a x ≠ .openat 0 b y := fun a x b y heq =>
    hn (Call.openat.inj heq).1
  refine .bind (printf_spec (Q := fun _ => Before k n) fun m hm => hm.print hx) fun _ =>
    .bind (syscall_spec (Q := fun _ => Before k (n + 1)) fun m hm =>
      hm.call (hother _ _) (if_pos h)) fun _ =>
        .bind (errno_spec (Q := fun e m => e = lastErrno (resultsBefore k (n + 1)) ∧
          Before k (n + 1) m) fun m hm => ⟨hm.results ▸ hm.current, hm⟩) fun e =>
            .ret fun m hm => ⟨?_, hm.2⟩
  rw [rowValue, if_pos h, hm.1]

/-- **One row.** -/
theorem verifyOpenat_spec (n : Nat) {E : Machine → Prop} :
    Spec (Before k n) (verifyOpenat k (globals k) n)
      (fun v m => v = rowValue k n ∧ Before k (n + 1) m) E := by
  refine .ite (fun h => ?_) fun h => ?_
  · rcases expRet_ne_zero h with ⟨-, herrno⟩ | ⟨-, herrno⟩
    · have hspec := compare_spec (k := k) h (E := E)
        (x := "[I] openat with a filefd instead of dirfd\n".toList) (by decide)
      rw [herrno] at hspec
      rw [if_pos herrno]
      exact hspec
    · have hspec := compare_spec (k := k) h (E := E)
        (x := "[I] openat with invalid fd\n".toList) (by decide)
      rw [herrno] at hspec
      rw [if_neg (herrno ▸ by decide)]
      exact hspec
  · have hvalue : k.missing n = rowValue k n := (if_neg h).symm
    refine .ite (fun hret => .bind (syscall_spec (Q := fun _ => Before k (n + 1)) fun m hm => ?_)
      fun _ => .ret fun m hm => ⟨hvalue, hm⟩) fun hret => .ret fun m hm => ⟨hvalue, ?_⟩
    · exact hm.call nofun (by rw [rowResults, if_neg h, if_pos hret])
    · exact hm.pass (by rw [rowResults, if_neg h, if_neg hret])

theorem setup_spec {E : Machine → Prop} :
    Spec (· = .start) (setup k) (fun g m => g = globals k ∧ Before k 0 m) E := by
  rintro _ rfl
  exact ⟨rfl, rfl, rfl, nofun, by simp [Skipped, Machine.start, Machine.made]⟩

/-- The loop of `main`. -/
theorem rows_spec {E : Machine → Prop} :
    Spec (fun m => (1 : BitVec 32) = okBefore k 0 ∧ Before k 0 m)
      (forLoop (mainTurn k (globals k)) 0 5 1)
      (fun ok m => ok = okBefore k 5 ∧ Before k 5 m) E := by
  refine Spec.forLoop (J := fun i ok m => ok = okBefore k i ∧ Before k i m) 5
    (fun i _ ok m hm => ?_) 5 0 1 rfl
  obtain ⟨rfl, hm⟩ := hm
  refine Spec.bind (verifyOpenat_spec i) (fun v => .ret fun m hm => ?_) m hm
  exact ⟨by rw [hm.1, okBefore], hm.2⟩

theorem cleanup_spec (g : Globals) {Q : List Text → Prop} {E : Machine → Prop} :
    Spec (fun m : Machine => Q m.out ∧ Skipped m) (cleanup k g)
      (fun _ m => Q m.out ∧ Skipped m) E :=
  .bind (callIf_spec g.fd fun _ r hm => ⟨hm.1, hm.2.made r nofun⟩) fun _ =>
    callIf_spec g.dirFd fun _ r hm => ⟨hm.1, hm.2.made r nofun⟩

/-- **The run of `main`**: it comes to its end, has printed the verdict if `ok` is not 0, and
has not made the call of row 0. -/
theorem main_spec :
    Spec (· = .start) (main k)
      (fun _ m => (verdict ∈ m.out ↔ okBefore k 5 ≠ 0) ∧ Skipped m) (fun _ => False) := by
  refine .bind setup_spec fun g => .of_forall (p := g = globals k) (fun hg => ?_) fun m hm => hm.1
  subst hg
  refine Spec.pre (.bind rows_spec fun ok => .bind (Q := fun _ m =>
    (verdict ∈ m.out ↔ okBefore k 5 ≠ 0) ∧ Skipped m) ?_ fun _ =>
      cleanup_spec (globals k) (Q := fun out => verdict ∈ out ↔ okBefore k 5 ≠ 0))
        fun m hm => ⟨rfl, hm.2⟩
  refine .ite (fun hok => printf_spec fun m hm => ⟨?_, hm.2.skipped⟩)
    fun hok => .ret fun m hm => ⟨?_, hm.2.skipped⟩
  · exact iff_of_true (List.mem_append_right _ (List.mem_singleton_self _)) (hm.1 ▸ hok)
  · exact iff_of_false hm.2.silent fun h => hok (hm.1 ▸ h)

end Rows

/-! ## The verdict -/

/-- The product: the two comparisons, and the three values that are missing. -/
theorem okBefore_eq_zero (k : Kernel) : okBefore k 5 = 0 ↔
    lastErrno (resultsBefore k 3) ≠ ENOTDIR ∨ lastErrno (resultsBefore k 4) ≠ EBADF ∨
      k.missing 0 * k.missing 1 * k.missing 4 = 0 := by
  have hprod : okBefore k 5 = k.missing 0 * k.missing 1 *
      (if lastErrno (resultsBefore k 3) = ENOTDIR then 1 else 0) *
      (if lastErrno (resultsBefore k 4) = EBADF then 1 else 0) * k.missing 4 := by
    rw [← one_mul (k.missing 0)]
    rfl
  rw [hprod]
  by_cases hdir : lastErrno (resultsBefore k 3) = ENOTDIR
  · by_cases hbadf : lastErrno (resultsBefore k 4) = EBADF
    · simp [hdir, hbadf]
    · simp [hbadf]
  · simp [hdir]

/-- **The verdict of `openat01`** is right exactly where it is not printed: `errno` behind the
call of row 2 or of row 3, which is that of the last call that has failed, is not the one
expected, or the values found for the other three rows make 0. -/
theorem rowsDecide_iff (k : Kernel) : RowsDecide (final k) ↔
    lastErrno (resultsBefore k 3) ≠ ENOTDIR ∨ lastErrno (resultsBefore k 4) ≠ EBADF ∨
      k.missing 0 * k.missing 1 * k.missing 4 = 0 := by
  have hspec := main_spec (k := k) .start rfl
  rw [← okBefore_eq_zero, RowsDecide]
  rcases he : exec (main k) .start with ⟨_ | u, m⟩
  · rw [he] at hspec
    exact hspec.elim
  · rw [he] at hspec
    have hnone : ¬ ∀ n < 5, RowMet m n := fun h => by
      obtain ⟨dirFd, pathname, r, hlog, -⟩ := h 0 (by decide)
      exact hspec.2 _ hlog dirFd pathname rfl
    rw [final, he, iff_false_right hnone, hspec.1, not_not]

/-- Everything succeeds that should, the calls of rows 2 and 3 fail as they should, and 1 is
found where no value is returned. -/
def Kernel.faultless : Kernel where
  answer
    | .openDir => ⟨3, 0⟩
    | .openFile => ⟨4, 0⟩
    | .openat 2 _ _ => ⟨-1, ENOTDIR⟩
    | .openat 3 _ _ => ⟨-1, EBADF⟩
    | .openat _ _ _ => ⟨5, 0⟩
    | _ => ⟨0, 0⟩
  buf := "/root".toList
  ret _ := 0
  missing _ := 1

/-- The verdict is printed though three rows have made no call. -/
theorem not_rowsDecide_faultless : ¬ RowsDecide (final .faultless) := by
  intro h
  have hprints : verdict ∈ (final .faultless).out := by decide +kernel
  obtain ⟨dirFd, pathname, r, hlog, -⟩ := h.mp hprints 0 (by decide)
  have hcalls : ((final .faultless).log.map Prod.fst).all fun
      | .openat 0 _ _ => false
      | _ => true := by decide +kernel
  exact Bool.false_ne_true (List.all_eq_true.mp hcalls _ (List.mem_map_of_mem hlog))

end Syscalls.Openat01
