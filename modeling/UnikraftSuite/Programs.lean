import UnikraftSuite.Lib.CStdio

/-!
# Three test programs with several cases

What `write05`, `munmap03` and `mmap18` print, as a function of what the kernel lets
them observe. The kernel is a parameter: a structure for each system call collects
what the program reads after it, and every combination of values is possible.

- `write05` runs the three rows of a table and prints a verdict after each.
- `munmap03` runs three functions that share a checker, which ends the program at the
  first case that passes.
- `mmap18` forks a child for each of four cases and judges it by its wait status.

Arguments that are only handed to the kernel are not modelled.
-/

namespace UnikraftSuite

open PyStr CStdio

/-! ## `write05` -/

namespace Write05

def EBADF : Int := 9

def EFAULT : Int := 14

def EPIPE : Int := 32

/-- What a row sees of its call of `write`. -/
structure WriteResult where
  ret : Int
  errno : Int
  /-- How often the handler counted `SIGPIPE`. -/
  sigpipeCnt : Int

/-- The `exp_errno` of the three rows. -/
def tcases : Fin 3 → Int
  | 0 => EBADF
  | 1 => EFAULT
  | 2 => EPIPE

/-- `verify_write(i)`: the returned value and the text printed. -/
def verifyWrite (i : Fin 3) (w : WriteResult) : Int × Text :=
  if w.ret ≠ -1 then (-1, "write() succeeded unexpectedly\n".toList)
  else if w.errno ≠ tcases i then
    (-1, "write() failed unexpectedly, expected ".toList ++ (str (tcases i) ++ "\n".toList))
  else if tcases i = EPIPE ∧ w.sigpipeCnt ≠ 1 then
    (-1, "sigpipe_cnt = ".toList ++ str w.sigpipeCnt)
  else (1, "write() failed expectedly\n".toList)

/-- One turn of the loop in `main`. -/
def runCase (i : Fin 3) (w : WriteResult) : Text :=
  (verifyWrite i w).2 ++
    if (verifyWrite i w).1 = 1 then "test succeeded\n".toList else "test failed\n".toList

/-- The output of `write05`. -/
def main (w : Fin 3 → WriteResult) : Text :=
  runCase 0 (w 0) ++ (runCase 1 (w 1) ++ runCase 2 (w 2))

end Write05

/-! ## `munmap03` -/

namespace Munmap03

def EINVAL : Int := 22

/-- What the program sees of a call of `munmap`. -/
structure MunmapResult where
  ret : Int
  errno : Int

/-- The text printed by a part of the program, and whether it called `exit`. -/
structure Run where
  out : Text
  exited : Bool

/-- One part of the program after another, up to the first `exit`. -/
def Run.andThen (r : Run) (rest : Run) : Run :=
  if r.exited then r else ⟨r.out ++ rest.out, rest.exited⟩

/-- `check_and_print(expected_errno)`. -/
def checkAndPrint (r : MunmapResult) (expectedErrno : Int) : Run :=
  if r.ret = -1 then
    if r.errno = expectedErrno then ⟨"failed as expected\ntest succeeded\n".toList, true⟩
    else
      ⟨"failed unexpectedly; expected - ".toList ++ (str expectedErrno ++ "\n".toList), false⟩
  else ⟨"munmap succeeded unexpectedly\n".toList, false⟩

/-- `test_einval1`, `test_einval2` and `test_einval3` differ in the arguments of `munmap`. -/
def testfunc (r : MunmapResult) : Run := checkAndPrint r EINVAL

/-- `cleanup()`. -/
def cleanup (r : MunmapResult) : Run :=
  if r.ret = -1 then ⟨"munmap failed, error number ".toList ++ str r.errno, false⟩
  else ⟨[], false⟩

/-- The output of `munmap03`: three test functions and the cleanup. -/
def main (r : Fin 3 → MunmapResult) (last : MunmapResult) : Text :=
  ((testfunc (r 0)).andThen
    ((testfunc (r 1)).andThen ((testfunc (r 2)).andThen (cleanup last)))).out

end Munmap03

/-! ## `mmap18` -/

namespace Mmap18

def SIGSEGV : BitVec 32 := 11

/-- There are four cases. -/
instance neZeroFour : @NeZero Nat Zero.ofOfNat0 4 := ⟨by decide⟩

/-- The sizes the program works with. -/
structure Sizes where
  /-- `getpagesize()`. -/
  pageSize : Nat
  /-- `PTHREAD_STACK_MIN`. -/
  pthreadStackMin : Nat

/-- `(page_size/PTHREAD_STACK_MIN) + 1`. -/
def Sizes.pthreadStack (z : Sizes) : Nat := z.pageSize / z.pthreadStackMin + 1

/-- `8 * pthread_stack`. -/
def Sizes.stackSize (z : Sizes) : Nat := 8 * z.pthreadStack

/-- What a child sees on its way to `exit(0)`. -/
structure Child where
  /-- The first result of `mmap`. -/
  start : BitVec 64
  /-- The result of `pthread_attr_init`. -/
  attrInit : Int
  /-- The address at which the recursion stops, if the thread was created. -/
  limitAddr : Option (BitVec 64)

/-- What the program sees of one case. -/
structure GrowResult where
  /-- `none` when there is no child, or it is killed and its buffer is lost. -/
  child : Option Child
  wstatus : BitVec 32

/-- `reserved_size`. -/
def Sizes.reserved (z : Sizes) (stackSize : Nat) : Nat := 256 * z.pageSize + stackSize

/-- The pointer that `allocate_stack` returns. -/
def stackBottom (z : Sizes) (stackSize : Nat) (start : BitVec 64) : BitVec 64 :=
  start + BitVec.ofNat 64 (z.reserved stackSize) - BitVec.ofNat 64 stackSize

/-- What `allocate_stack` prints. -/
def allocateStack (z : Sizes) (stackSize mappedSize : Nat) (start : BitVec 64) : Text :=
  "[I] start = ".toList ++ (ptr start ++ (", stack_top = ".toList ++
    (ptr (start + BitVec.ofNat 64 (z.reserved stackSize)) ++ (", stack bottom = ".toList ++
    (ptr (stackBottom z stackSize start) ++ "\n".toList))))) ++
  ("[I] mapped pages ".toList ++ (str (mappedSize / z.pageSize : Nat) ++
    (", stack pages ".toList ++ (str (stackSize / z.pageSize : Nat) ++ "\n".toList))))

/-- What `grow_stack` and its thread print. -/
def growStack (z : Sizes) (stack : BitVec 64) (c : Child) : Text :=
  (if c.attrInit ≠ 0 then "pthread_attr_init failed during setup\n".toList else []) ++
    match c.limitAddr with
    | some a => "[I] &limit = ".toList ++ (ptr a ++ (", limit = ".toList ++
        (ptr (stack + BitVec.ofNat 64 z.pageSize) ++ "\n".toList)))
    | none => []

/-- What the child of `grow_stack_success` prints. -/
def childOfSuccess (z : Sizes) (stackSize mappedSize : Nat) (c : Child) : Text :=
  allocateStack z stackSize mappedSize c.start ++
    growStack z (stackBottom z stackSize c.start) c

/-- What the child of `grow_stack_fail` prints. -/
def childOfFail (z : Sizes) (stackSize mappedSize : Nat) (c : Child) : Text :=
  allocateStack z stackSize mappedSize c.start ++
    ("[I] mapped page at ".toList ++ (ptr (stackBottom z stackSize c.start) ++ "\n".toList) ++
      growStack z (stackBottom z stackSize c.start) c)

/-- `fork` and `wait`: a child that reaches `exit(0)` writes its text out. -/
def forkWait (childText : Child → Text) (r : GrowResult) (s : Stdio) : Stdio :=
  match r.child with
  | some c => s.child (childText c)
  | none => s

/-- `printf("Child: %d\n", wstatus)`. -/
def childLine (wstatus : BitVec 32) : Text :=
  "Child: ".toList ++ (str wstatus.toInt ++ "\n".toList)

/-- `grow_stack_success(stack_size, mapped_size)`. -/
def growStackSuccess (z : Sizes) (stackSize mappedSize : Nat) (r : GrowResult) (s : Stdio) :
    Stdio :=
  let s := forkWait (childOfSuccess z stackSize mappedSize) r s
  if WIFEXITED r.wstatus ∧ WEXITSTATUS r.wstatus = 0 then
    s.printf "Stack grows in unmapped region\ntest succeeded\n".toList
  else s.printf (childLine r.wstatus)

/-- `grow_stack_fail(stack_size, mapped_size)`. -/
def growStackFail (z : Sizes) (stackSize mappedSize : Nat) (r : GrowResult) (s : Stdio) :
    Stdio :=
  let s := forkWait (childOfFail z stackSize mappedSize) r s
  if WIFSIGNALED r.wstatus ∧ WTERMSIG r.wstatus = SIGSEGV then
    s.printf ("Child killed by ".toList ++ (str SIGSEGV.toInt ++
      " as expected\ntest succeeded\n".toList))
  else s.printf (childLine r.wstatus)

/-- `run_test()`. -/
def runTest (z : Sizes) (r : Fin 4 → GrowResult) (s : Stdio) : Stdio :=
  let s := growStackSuccess z z.stackSize z.pthreadStack (r 0) s
  let s := growStackSuccess z z.stackSize (z.stackSize / 2) (r 1) s
  let s := growStackFail z z.stackSize z.pthreadStack (r 2) s
  growStackFail z z.stackSize (z.stackSize / 2) (r 3) s

/-- The output of `mmap18`; `growsUp` is the result of `check_stackgrow_up()`. -/
def main (growsUp : Bool) (z : Sizes) (r : Fin 4 → GrowResult) : Text :=
  if growsUp then
    (Stdio.init.printf
      "Test can't be performed with stack grows up architecture\n".toList).exit
  else (runTest z r Stdio.init).exit

end Mmap18

end UnikraftSuite
