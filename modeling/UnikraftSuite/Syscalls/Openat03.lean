import UnikraftSuite.Lib.Process

/-!
# `openat03`

Three tests of unnamed files. Where the original searched a directory for the file, `test01`
looks twice at the `st_mode` it already has; the result of `read_file` is used by `test02`
only, nobody looks at the results of `read` and `lstat`, and `openat_tmp` goes on if it fails.
-/

namespace Syscalls.Openat03

open PyStr CStdio Process

/-! ## The program -/

/-- The content of `buf`, or of `tmp`. -/
structure Block where
  bytes : List (BitVec 8)
  length_eq : bytes.length = 1024
  deriving DecidableEq

/-- What one `read` brings. -/
structure Part where
  bytes : List (BitVec 8)
  length_le : bytes.length ≤ 1024

/-- `tmp` after a `read`, which leaves it alone if it fails. -/
def Block.overlay (tmp : Block) : Option Part → Block
  | none => tmp
  | some r => ⟨r.bytes ++ tmp.bytes.drop r.bytes.length, by
      have := r.length_le
      have := tmp.length_eq
      rw [List.length_append, List.length_drop]
      omega⟩

def size : Int := 1024

def blocksNum : Int := 4

/-- `buf`, as `setup` leaves it. -/
def buf : Block := ⟨List.replicate 1024 1, List.length_replicate⟩

/-- The part of `st` that is looked at. -/
structure Stat where
  size : Int
  mode : BitVec 32

/-- A return value, and the `errno` that is set. -/
structure Result where
  ret : Int
  errno : Int

/-- The temporary files, by the test that opens them. -/
inductive File where
  | one
  | two (i : Nat)
  | three (i : Nat)
  deriving DecidableEq

inductive Call where
  | setup
  | openat (f : File) (mode : BitVec 32)
  /-- Not a call: what a caller finds where `openat_tmp` returns no value. -/
  | missing (f : File)
  | write (f : File) (fd : Int) (i : Nat)
  /-- Not a call: what is in `tmp` before it is read into. -/
  | garbage (f : File)
  | lseek (fd : Int)
  | read (f : File) (fd : Int) (i : Nat)
  | fstat (fd : Int)
  | readlink (path : Text)
  | linkat (path newpath : Text)
  | unlink (path : Text)
  | close (fd : Int)
  | mkdir (path : Text)
  | chdir (path : Text)
  | rmdir (path : Text)
  | umask (mask : BitVec 32)
  /-- Not a call: the `st_mode` in `test03` before its first `lstat`. -/
  | garbageMode
  | lstat (i : Nat) (path : Text)
  deriving DecidableEq

/-- What a call returns, as far as the program looks at it; `none` where it fails. -/
abbrev Reply : Call → Type
  | .setup => Result
  | .openat _ _ => Result
  | .missing _ => Int
  | .garbage _ => Block
  | .read _ _ _ => Option Part
  | .fstat _ => Option Stat
  | .readlink _ => Text
  | .umask _ => BitVec 32
  | .garbageMode => BitVec 32
  | .lstat _ _ => Option (BitVec 32)
  | _ => Unit

def EISDIR : Int := 21

def ENOTSUP : Int := 95

def S_IFDIR : BitVec 32 := 0o040000

def S_IFMT : BitVec 32 := 0o170000

/-- `%o`. -/
def oct (v : BitVec 32) : Text := Nat.toDigits 8 v.toNat

def cleanup : Proc Call Reply Unit := return ()

def openFailed (errno : Int) : Proc Call Reply Unit := do
  printf ("openat() failed, error number ".toList ++ (str errno ++ "\n".toList))
  cleanup

def setup : Proc Call Reply Unit := do
  let r ← call Call.setup
  if r.ret = -1 then do
    if r.errno = EISDIR ∨ r.errno = ENOTSUP then do
      printf "O_TMPFILE not supported\n".toList
      openFailed r.errno
    else openFailed r.errno
    call (Call.close r.ret)
  else call (Call.close r.ret)

/-- `openat_tmp(mode)`, which returns no value if it fails. -/
def openatTmp (f : File) (mode : BitVec 32) : Proc Call Reply Int := do
  let r ← call (Call.openat f mode)
  if r.ret ≥ 0 then return r.ret
  else do
    openFailed r.errno
    call (Call.missing f)

def writeFile (f : File) (fd : Int) : Proc Call Reply Unit :=
  loop (fun i _ => call (Call.write f fd i)) 0 4 ()

def procSelfFd (fd : Int) : Text := "/proc/self/fd/".toList ++ str fd

def test01 : Proc Call Reply Int := do
  printf "[I] creating a file with O_TMPFILE flag\n".toList
  let fd ← openatTmp .one 0o600
  printf "[I] writing data to the file\n".toList
  writeFile .one fd
  let st := (← call (Call.fstat fd)).getD ⟨0, 0⟩
  printf ("file size is '".toList ++ (str st.size ++ "'\n".toList))
  if st.size ≠ blocksNum * size then do
    printf ("not expected size: '".toList ++ (str st.size ++ "' != '".toList
      ++ str (blocksNum * size) ++ "'\n".toList))
    call (Call.close fd)
    return 0
  else do
    printf "[I] looking for the file in '.'\n".toList
    if st.mode &&& S_IFDIR ≠ 0 then do
      printf "found a file, this is not expected\n".toList
      cleanup
      return 0
    else do
      printf "[I] file not found, OK\n".toList
      let path := procSelfFd fd
      let tmp ← call (Call.readlink path)
      printf ("renaming '".toList ++ (tmp ++ "' -> 'tmpfile'\n".toList))
      call (Call.linkat path "tmpfile".toList)
      if st.mode &&& S_IFDIR ≠ 0 then do
        printf "file not found\n".toList
        cleanup
        return 0
      else do
        call (Call.unlink "tmpfile".toList)
        call (Call.close fd)
        printf "single file tests passed\n".toList
        return 1

/-- A turn of the loop in `read_file`. -/
def readTurn (f : File) (fd : Int) (i : Nat) (tmp : Block) : Proc Call Reply (Option Block) := do
  let tmp := tmp.overlay (← call (Call.read f fd i))
  if buf ≠ tmp then do
    printf "got unexepected data\n".toList
    cleanup
    return none
  else return some tmp

def readFile (f : File) (fd : Int) : Proc Call Reply Int := do
  let tmp ← call (Call.garbage f)
  call (Call.lseek fd)
  match ← loopUntil (readTurn f fd) 0 4 tmp with
  | none => return 0
  | some _ => return 1

/-- The array `fd`, where the file of turn `i` is opened. -/
def setFd (fd : Nat → Int) (i : Nat) (v : Int) : Nat → Int := fun j => if j = i then v else fd j

def tst02 (i : Nat) : Text := "tst02_".toList ++ str i

def test02Create (i : Nat) (fd : Nat → Int) : Proc Call Reply (Nat → Int) := do
  call (Call.mkdir (tst02 i))
  call (Call.chdir (tst02 i))
  return setFd fd i (← openatTmp (.two i) 0o600)

/-- A turn of the loop that goes down from 99. -/
def test02Remove (t : Nat) (_ : Unit) : Proc Call Reply Unit := do
  call (Call.chdir "..".toList)
  call (Call.rmdir (tst02 (99 - t)))

def test02Turn (fd : Nat → Int) (i : Nat) (_ : Unit) : Proc Call Reply (Option Unit) := do
  writeFile (.two i) (fd i)
  if (← readFile (.two i) (fd i)) = 0 then return none else return some ()

def test02 : Proc Call Reply Int := do
  printf "[I] create files in multiple directories\n".toList
  let fd ← loop test02Create 0 100 fun _ => 0
  printf "[I] removing test directories\n".toList
  loop test02Remove 0 100 ()
  printf "[I] writing/reading temporary files\n".toList
  match ← loopUntil (test02Turn fd) 0 100 () with
  | none => return 0
  | some _ => do
    printf "[I] closing temporary files\n".toList
    loop (fun i _ => call (Call.close (fd i))) 0 100 ()
    printf "multiple files tests passed\n".toList
    return 1

def tmpfile (fd : Int) : Text := "tmpfile_".toList ++ str fd

def linkTmpFile (fd : Int) : Proc Call Reply Unit :=
  call (Call.linkat (procSelfFd fd) (tmpfile fd))

/-- `test_perms[i % 6]`. -/
def testPerms (i : Nat) : BitVec 32 :=
  match i % 6 with
  | 0 => 0
  | 1 => 0o7777
  | 2 => 0o001
  | 3 => 0o755
  | 4 => 0o644
  | _ => 0o440

def tst03 (i : Nat) : Text := "tst03_".toList ++ str i

/-- A turn of the first loop of `test03`, with the array `fd` and the `st_mode` of the turn
before. -/
def test03Turn (mask : BitVec 32) (i : Nat) (s : (Nat → Int) × BitVec 32) :
    Proc Call Reply (Option ((Nat → Int) × BitVec 32)) := do
  call (Call.mkdir (tst03 i))
  call (Call.chdir (tst03 i))
  let perm := testPerms i
  let fd ← openatTmp (.three i) perm
  writeFile (.three i) fd
  let _ ← readFile (.three i) fd
  linkTmpFile fd
  let mode := (← call (Call.lstat i (tmpfile fd))).getD s.2
  let expMode := perm &&& ~~~mask
  if mode &&& ~~~S_IFMT ≠ expMode then do
    printf ("file mode read ".toList ++ (oct (mode &&& ~~~S_IFMT) ++ ", but expected ".toList
      ++ oct expMode ++ "\n".toList))
    return none
  else return some (setFd s.1 i fd, mode)

/-- A turn of the loop that goes down from 99. -/
def test03Remove (fd : Nat → Int) (t : Nat) (_ : Unit) : Proc Call Reply Unit := do
  call (Call.unlink (tmpfile (fd (99 - t))))
  call (Call.close (fd (99 - t)))
  call (Call.chdir "..".toList)
  call (Call.rmdir (tst03 (99 - t)))

def test03 : Proc Call Reply Int := do
  let mode ← call Call.garbageMode
  let mask ← call (Call.umask 0)
  let _ ← call (Call.umask mask)
  printf "[I] create multiple directories, link files into them\n".toList
  printf "[I] and check file permissions\n".toList
  match ← loopUntil (test03Turn mask) 0 100 (fun _ => 0, mode) with
  | none => return 0
  | some (fd, _) => do
    printf "[I] remove files, directories\n".toList
    loop (test03Remove fd) 0 100 ()
    printf "file permission tests passed\n".toList
    return 1

/-- `test01() && test02() && test03()`. -/
def tests : Proc Call Reply Int := do
  if (← test01) = 0 then return 0
  else if (← test02) = 0 then return 0
  else test03

def verdict : Text := "test succeeded\n".toList

def main : Proc Call Reply Unit := do
  setup
  if (← tests) ≠ 0 then do
    printf verdict
    cleanup
  else cleanup

/-! ## Runs -/

/-- The behaviour of the file system calls, the memory that is not initialized, and the
directory of `test01` (names and inodes) before and after `linkat`. -/
structure Kernel where
  setup : Result
  openat : File → Result
  missing : File → Int
  garbage : File → Block
  read : File → Nat → Option Part
  fstat : Option Stat
  readlink : Text
  umask : BitVec 32
  garbageMode : BitVec 32
  lstat : Nat → Option (BitVec 32)
  inode : Nat
  before : List (Text × Nat)
  after : List (Text × Nat)

def Kernel.answer (k : Kernel) : (c : Call) → Reply c
  | .setup => k.setup
  | .openat f _ => k.openat f
  | .missing f => k.missing f
  | .garbage f => k.garbage f
  | .read f _ i => k.read f i
  | .fstat _ => k.fstat
  | .readlink _ => k.readlink
  | .umask _ => k.umask
  | .garbageMode => k.garbageMode
  | .lstat i _ => k.lstat i
  | .write _ _ _ => ()
  | .lseek _ => ()
  | .linkat _ _ => ()
  | .unlink _ => ()
  | .close _ => ()
  | .mkdir _ => ()
  | .chdir _ => ()
  | .rmdir _ => ()

def Kernel.world (k : Kernel) : World Call Reply :=
  ⟨fun _ c => .val (k.answer c), fun _ _ => none, fun _ _ => .ends (.exited 0)⟩

def Kernel.life (k : Kernel) : Life Call := run k.world main [] []

/-- The block `i` of a file reads back equal to `buf`. -/
def ReadsBack (k : Kernel) (f : File) (i : Nat) : Prop :=
  ∃ r, k.read f i = some r ∧ r.bytes = buf.bytes

/-- The file that `test03` links in turn `i` has the mode `perm & ~umask`. -/
def ModeRight (k : Kernel) (i : Nat) : Prop :=
  ∃ mode, k.lstat i = some mode ∧ mode &&& ~~~S_IFMT = testPerms i &&& ~~~k.umask

/-- The files that are opened after `setup`. -/
def File.Used : File → Prop
  | .one => True
  | .two i => i < 100
  | .three i => i < 100

/-- What the verdict stands for. -/
structure Verified (k : Kernel) : Prop where
  opened : ∀ f : File, f.Used → 0 ≤ (k.openat f).ret
  size : ∃ st, k.fstat = some st ∧ st.size = 4 * 1024
  hidden : ∀ e ∈ k.before, e.2 ≠ k.inode
  linked : ("tmpfile".toList, k.inode) ∈ k.after
  test02 : ∀ i < 100, ∀ j < 4, ReadsBack k (.two i) j
  test03 : ∀ i < 100, ∀ j < 4, ReadsBack k (.three i) j
  modes : ∀ i < 100, ModeRight k i

/-- The verdict is printed only if all is verified. -/
def VerdictVerified (k : Kernel) : Prop := k.life.Prints verdict → Verified k

/-! ## What the functions return -/

section Outcome

variable (k : Kernel) {α : Type}

@[simp] theorem outcome_call_bind (c : Call) (f : Reply c → Proc Call Reply α) :
    outcome k.world [] (call c >>= f) = outcome k.world [] (f (k.answer c)) := rfl

@[simp] theorem outcome_print_bind (x : Text) (f : Unit → Proc Call Reply α) :
    outcome k.world [] (printf x >>= f) = outcome k.world [] (f ()) := rfl

@[simp] theorem outcome_pure (a : α) :
    outcome k.world [] (pure a : Proc Call Reply α) = .back a := rfl

end Outcome

variable (k : Kernel)

/-- The value that `openat_tmp` is taken to return. -/
def opened (f : File) : Int := if (k.openat f).ret ≥ 0 then (k.openat f).ret else k.missing f

theorem outcome_openatTmp (f : File) (mode : BitVec 32) :
    outcome k.world [] (openatTmp f mode) = .back (opened k f) := by
  rw [openatTmp, opened, outcome_call_bind]
  show outcome k.world [] (if (k.openat f).ret ≥ 0 then _ else _) = _
  by_cases h : (k.openat f).ret ≥ 0
  · rw [if_pos h, if_pos h]
    rfl
  · rw [if_neg h, if_neg h]
    rfl

theorem outcome_writeFile (f : File) (fd : Int) :
    outcome k.world [] (writeFile f fd) = .back () := rfl

theorem outcome_setup : outcome k.world [] setup = .back () := by
  rw [setup, outcome_call_bind]
  show outcome k.world [] (if k.setup.ret = -1 then _ else _) = _
  split
  · split <;> rfl
  · rfl

/-- `tmp` in front of the read `i`. -/
def tmpAt (f : File) : Nat → Block
  | 0 => k.garbage f
  | i + 1 => (tmpAt f i).overlay (k.read f i)

/-- All blocks of the file pass the `memcmp`. -/
def Passes (f : File) : Prop := ∀ i < 4, buf = tmpAt k f (i + 1)

instance (f : File) : Decidable (Passes k f) := Nat.decidableBallLT 4 _

theorem outcome_readFile (f : File) (fd : Int) : outcome k.world [] (readFile f fd) =
    .back (if Passes k f then 1 else 0) := by
  have hturn : ∀ i tmp, outcome k.world [] (readTurn f fd i tmp) =
      .back (if buf = tmp.overlay (k.read f i) then some (tmp.overlay (k.read f i)) else none) := by
    intro i tmp
    rw [readTurn, outcome_call_bind]
    show outcome k.world [] (if buf ≠ tmp.overlay (k.read f i) then _ else _) = _
    by_cases h : buf = tmp.overlay (k.read f i)
    · rw [if_neg (not_not.mpr h), if_pos h]
      rfl
    · rw [if_pos h, if_neg h]
      rfl
  have hloop := outcome_loopUntil k.world [] hturn 4 0 (tmpAt k f 0)
  rw [turnsUntil_eq (s := tmpAt k f) (T := fun i => buf = tmpAt k f (i + 1))
    fun i => rfl] at hloop
  rw [readFile, outcome_call_bind, outcome_call_bind]
  show outcome k.world [] (loopUntil (readTurn f fd) 0 4 (tmpAt k f 0) >>= _) = _
  rw [outcome_bind _ _ hloop]
  simp only [Nat.zero_add]
  by_cases h : ∀ j < 4, buf = tmpAt k f (j + 1)
  · rw [if_pos h, if_pos (show Passes k f from h)]
    rfl
  · rw [if_neg h, if_neg (show ¬ Passes k f from h)]
    rfl

theorem outcome_test02Create (i : Nat) (fd : Nat → Int) :
    outcome k.world [] (test02Create i fd) = .back (setFd fd i (opened k (.two i))) := by
  rw [test02Create, outcome_call_bind, outcome_call_bind,
    outcome_bind _ _ (outcome_openatTmp k _ _)]
  rfl

theorem outcome_test02Turn (fd : Nat → Int) (i : Nat) (a : Unit) :
    outcome k.world [] (test02Turn fd i a) =
      .back (if Passes k (.two i) then some () else none) := by
  rw [test02Turn, outcome_bind _ _ (outcome_writeFile k _ _),
    outcome_bind _ _ (outcome_readFile k _ _)]
  by_cases h : Passes k (.two i)
  · rw [if_pos h, if_pos h, if_neg (by decide)]
    rfl
  · rw [if_neg h, if_neg h, if_pos rfl]
    rfl

/-- All files of `test02` pass. -/
def FilesPass : Prop := ∀ i < 100, Passes k (.two i)

instance : Decidable (FilesPass k) := Nat.decidableBallLT 100 _

theorem outcome_test02 : outcome k.world [] test02 = .back (if FilesPass k then 1 else 0) := by
  have hloop := outcome_loopUntil k.world [] (outcome_test02Turn k
    (turns (fun i fd => setFd fd i (opened k (.two i))) 0 100 fun _ => 0)) 100 0 ()
  rw [turnsUntil_eq (s := fun _ => ()) (T := fun i => Passes k (.two i)) (fun i => rfl)] at hloop
  rw [test02, outcome_print_bind,
    outcome_bind _ _ (outcome_loop k.world [] 100 0 _ fun i _ fd => outcome_test02Create k i fd),
    outcome_print_bind,
    outcome_bind _ _ (outcome_loop k.world [] 100 0 () fun i _ a => rfl), outcome_print_bind,
    outcome_bind _ _ hloop]
  simp only [Nat.zero_add]
  by_cases h : ∀ i < 100, Passes k (.two i)
  · rw [if_pos h, if_pos (show FilesPass k from h), outcome_print_bind,
      outcome_bind _ _ (outcome_loop k.world [] 100 0 () fun i _ a => rfl)]
    rfl
  · rw [if_neg h, if_neg (show ¬ FilesPass k from h)]
    rfl

/-- `st` after the `fstat` in `test01`. -/
def stat : Stat := k.fstat.getD ⟨0, 0⟩

/-- The checks of `test01`. -/
def FirstPasses : Prop := (stat k).size = blocksNum * size ∧ (stat k).mode &&& S_IFDIR = 0

instance : Decidable (FirstPasses k) := inferInstanceAs (Decidable (_ ∧ _))

theorem outcome_test01 : outcome k.world [] test01 = .back (if FirstPasses k then 1 else 0) := by
  rw [test01, outcome_print_bind, outcome_bind _ _ (outcome_openatTmp k _ _), outcome_print_bind,
    outcome_bind _ _ (outcome_writeFile k _ _), outcome_call_bind]
  show outcome k.world [] (printf _ >>= fun _ => if (stat k).size ≠ blocksNum * size then _
    else printf _ >>= fun _ => if (stat k).mode &&& S_IFDIR ≠ 0 then _
      else printf _ >>= fun _ => _) = _
  rw [outcome_print_bind]
  by_cases hsize : (stat k).size = blocksNum * size
  · rw [if_neg (not_not.mpr hsize), outcome_print_bind]
    by_cases hdir : (stat k).mode &&& S_IFDIR = 0
    · rw [if_neg (not_not.mpr hdir), if_pos (show FirstPasses k from ⟨hsize, hdir⟩),
        outcome_print_bind, outcome_call_bind, outcome_print_bind, outcome_call_bind]
      show outcome k.world [] (if (stat k).mode &&& S_IFDIR ≠ 0 then _ else _) = _
      rw [if_neg (not_not.mpr hdir)]
      rfl
    · rw [if_pos hdir, if_neg (show ¬ FirstPasses k from fun h => hdir h.2)]
      rfl
  · rw [if_pos hsize, if_neg (show ¬ FirstPasses k from fun h => hsize h.1)]
    rfl

/-- `st_mode` in front of the turn `i` of `test03`. -/
def modeAt : Nat → BitVec 32
  | 0 => k.garbageMode
  | i + 1 => (k.lstat i).getD (modeAt i)

/-- The array `fd` of `test03` in front of the turn `i`. -/
def fdAt : Nat → Nat → Int
  | 0 => fun _ => 0
  | i + 1 => setFd (fdAt i) i (opened k (.three i))

/-- The mode of turn `i` passes. -/
def ModePasses (i : Nat) : Prop := modeAt k (i + 1) &&& ~~~S_IFMT = testPerms i &&& ~~~k.umask

instance (i : Nat) : Decidable (ModePasses k i) := inferInstanceAs (Decidable (_ = _))

def ModesPass : Prop := ∀ i < 100, ModePasses k i

instance : Decidable (ModesPass k) := Nat.decidableBallLT 100 _

theorem outcome_test03Turn (i : Nat) (s : (Nat → Int) × BitVec 32) :
    outcome k.world [] (test03Turn k.umask i s) = .back
      (if (k.lstat i).getD s.2 &&& ~~~S_IFMT = testPerms i &&& ~~~k.umask then
        some (setFd s.1 i (opened k (.three i)), (k.lstat i).getD s.2) else none) := by
  rw [test03Turn, outcome_call_bind, outcome_call_bind, outcome_bind _ _ (outcome_openatTmp k _ _),
    outcome_bind _ _ (outcome_writeFile k _ _), outcome_bind _ _ (outcome_readFile k _ _),
    linkTmpFile, outcome_call_bind, outcome_call_bind]
  show outcome k.world [] (if (k.lstat i).getD s.2 &&& ~~~S_IFMT ≠ testPerms i &&& ~~~k.umask then _
    else _) = _
  by_cases h : (k.lstat i).getD s.2 &&& ~~~S_IFMT = testPerms i &&& ~~~k.umask
  · rw [if_neg (not_not.mpr h), if_pos h]
    rfl
  · rw [if_pos h, if_neg h]
    rfl

theorem outcome_test03 : outcome k.world [] test03 = .back (if ModesPass k then 1 else 0) := by
  have hloop := outcome_loopUntil k.world [] (outcome_test03Turn k) 100 0 (fdAt k 0, modeAt k 0)
  rw [turnsUntil_eq (s := fun i => (fdAt k i, modeAt k i)) (T := ModePasses k)
    (fun i => rfl)] at hloop
  rw [test03, outcome_call_bind, outcome_call_bind, outcome_call_bind, outcome_print_bind,
    outcome_print_bind]
  show outcome k.world [] (loopUntil (test03Turn k.umask) 0 100 (fdAt k 0, modeAt k 0) >>= _) = _
  rw [outcome_bind _ _ hloop]
  simp only [Nat.zero_add]
  by_cases h : ∀ i < 100, ModePasses k i
  · rw [if_pos h, if_pos (show ModesPass k from h)]
    show outcome k.world [] (printf _ >>= fun _ => loop (test03Remove (fdAt k 100)) 0 100 () >>=
      fun _ => printf _ >>= fun _ => return 1) = _
    rw [outcome_print_bind, outcome_bind _ _ (outcome_loop k.world [] 100 0 () fun i _ a => rfl)]
    rfl
  · rw [if_neg h, if_neg (show ¬ ModesPass k from h)]
    rfl

theorem outcome_tests : outcome k.world [] tests =
    .back (if FirstPasses k ∧ FilesPass k ∧ ModesPass k then 1 else 0) := by
  rw [tests, outcome_bind _ _ (outcome_test01 k)]
  by_cases h1 : FirstPasses k
  · rw [if_pos h1, if_neg (by decide), outcome_bind _ _ (outcome_test02 k)]
    by_cases h2 : FilesPass k
    · rw [if_pos h2, if_neg (by decide), outcome_test03 k]
      simp only [h1, h2, true_and]
    · rw [if_neg h2, if_pos rfl, if_neg fun h => h2 h.2.1]
      rfl
  · rw [if_neg h1, if_pos rfl, if_neg fun h => h1 h.1]
    rfl

/-! ## Lines -/

/-- The event is not the verdict. -/
def Other (e : Event Call) : Prop := e ≠ .printed verdict

theorem call_plain (c : Call) : (call c : Proc Call Reply (Reply c)).Plain Other :=
  ⟨nofun, fun _ => trivial⟩

theorem printf_plain {x : Text} (h : apart verdict x) :
    (printf x : Proc Call Reply Unit).Plain Other := ⟨(Event.Aside.line h).1, trivial⟩

theorem turn_other (i : Option Nat) : Other (.turn i) := nofun

theorem openFailed_plain (errno : Int) : (openFailed errno).Plain Other :=
  (printf_plain (apart_append (by decide) _)).bind fun _ => trivial

theorem setup_plain : setup.Plain Other := by
  refine (call_plain _).bind fun r => ?_
  split
  · split
    · exact (printf_plain (by decide)).bind fun _ =>
        (openFailed_plain _).bind fun _ => call_plain _
    · exact (openFailed_plain _).bind fun _ => call_plain _
  · exact call_plain _

theorem openatTmp_plain (f : File) (mode : BitVec 32) : (openatTmp f mode).Plain Other := by
  refine (call_plain _).bind fun r => ?_
  split
  · trivial
  · exact (openFailed_plain _).bind fun _ => call_plain _

theorem writeFile_plain (f : File) (fd : Int) : (writeFile f fd).Plain Other :=
  loop_plain turn_other 4 0 () fun _ _ _ => call_plain _

theorem readFile_plain (f : File) (fd : Int) : (readFile f fd).Plain Other := by
  have hturn : ∀ i tmp, (readTurn f fd i tmp).Plain Other := by
    intro i tmp
    refine (call_plain _).bind fun r => ?_
    dsimp only
    split
    · exact (printf_plain (by decide)).bind fun _ => trivial
    · trivial
  refine (call_plain _).bind fun tmp => (call_plain _).bind fun _ => ?_
  refine (loopUntil_plain turn_other hturn 4 0 tmp).bind fun r => ?_
  cases r with
  | none => trivial
  | some tmp => trivial

theorem test01_plain : test01.Plain Other := by
  refine (printf_plain (by decide)).bind fun _ =>
    (openatTmp_plain _ _).bind fun fd => (printf_plain (by decide)).bind
      fun _ => (writeFile_plain _ _).bind fun _ => (call_plain _).bind fun st =>
        (printf_plain (apart_append (by decide) _)).bind fun _ => ?_
  split
  · exact (printf_plain (apart_append (by decide) _)).bind fun _ =>
      (call_plain _).bind fun _ => trivial
  · refine (printf_plain (by decide)).bind fun _ => ?_
    split
    · exact (printf_plain (by decide)).bind fun _ => trivial
    · exact (printf_plain (by decide)).bind fun _ =>
        (call_plain _).bind fun tmp =>
          (printf_plain (apart_append (by decide) _)).bind fun _ =>
            (call_plain _).bind fun _ => (call_plain _).bind fun _ => (call_plain _).bind fun _ =>
              (printf_plain (by decide)).bind fun _ => trivial

theorem test02_plain : test02.Plain Other := by
  have hturn : ∀ fd i a, (test02Turn fd i a).Plain Other := by
    intro fd i a
    refine (writeFile_plain _ _).bind fun _ => (readFile_plain _ _).bind fun r => ?_
    split
    · trivial
    · trivial
  have hcreate : ∀ i fd, (test02Create i fd).Plain Other := fun i fd =>
    (call_plain _).bind fun _ => (call_plain _).bind fun _ => (openatTmp_plain _ _).bind
      fun _ => trivial
  refine (printf_plain (by decide)).bind fun _ =>
    (loop_plain turn_other 100 0 _ fun i _ fd => hcreate i fd).bind fun fd => ?_
  refine (printf_plain (by decide)).bind fun _ =>
    (loop_plain turn_other 100 0 () fun i _ a => (call_plain _).bind fun _ =>
      call_plain _).bind fun _ => ?_
  refine (printf_plain (by decide)).bind fun _ =>
    (loopUntil_plain turn_other (hturn fd) 100 0 ()).bind fun r => ?_
  cases r with
  | none => trivial
  | some a =>
    exact (printf_plain (by decide)).bind fun _ =>
      (loop_plain turn_other 100 0 () fun _ _ _ => call_plain _).bind fun _ =>
        (printf_plain (by decide)).bind fun _ => trivial

theorem test03Turn_plain (mask : BitVec 32) (i : Nat) (s : (Nat → Int) × BitVec 32) :
    (test03Turn mask i s).Plain Other := by
  refine (call_plain _).bind fun _ => (call_plain _).bind fun _ =>
    (openatTmp_plain _ _).bind fun fd => (writeFile_plain _ _).bind fun _ =>
      (readFile_plain _ _).bind fun _ => (call_plain _).bind fun _ =>
        (call_plain _).bind fun r => ?_
  dsimp only
  split
  · exact (printf_plain (apart_append (by decide) _)).bind
      fun _ => trivial
  · trivial

theorem test03_plain : test03.Plain Other := by
  refine (call_plain _).bind fun mode => (call_plain _).bind fun mask => (call_plain _).bind
    fun _ => (printf_plain (by decide)).bind fun _ =>
      (printf_plain (by decide)).bind fun _ =>
        (loopUntil_plain turn_other (test03Turn_plain mask) 100 0 _).bind fun r => ?_
  cases r with
  | none => trivial
  | some s =>
    exact (printf_plain (by decide)).bind fun _ =>
      (loop_plain turn_other 100 0 () fun _ _ _ => (call_plain _).bind fun _ =>
        (call_plain _).bind fun _ => (call_plain _).bind fun _ => call_plain _).bind fun _ =>
          (printf_plain (by decide)).bind fun _ => trivial

theorem tests_plain : tests.Plain Other := by
  refine test01_plain.bind fun r => ?_
  split
  · trivial
  · refine test02_plain.bind fun r => ?_
    split
    · trivial
    · exact test03_plain

/-- **The verdict** is printed when the checks that are made pass. -/
theorem prints_iff : k.life.Prints verdict ↔ FirstPasses k ∧ FilesPass k ∧ ModesPass k := by
  rw [Kernel.life, main, setup_plain.prints_bind (outcome_setup k),
    tests_plain.prints_bind (outcome_tests k)]
  by_cases h : FirstPasses k ∧ FilesPass k ∧ ModesPass k
  · rw [if_pos h, if_pos (by decide)]
    exact iff_of_true List.mem_cons_self h
  · rw [if_neg h, if_neg (by decide)]
    exact iff_of_false (fun hp => by cases hp) h

/-! ## What no check looks at -/

/-- The part of what the verdict stands for that does not follow from the checks. -/
structure Unlooked : Prop where
  opened : ∀ f : File, f.Used → 0 ≤ (k.openat f).ret
  hidden : ∀ e ∈ k.before, e.2 ≠ k.inode
  linked : ("tmpfile".toList, k.inode) ∈ k.after
  complete : ∀ i < 100, ∀ j < 4, ∃ r, k.read (.two i) j = some r ∧ r.bytes.length = 1024
  test03 : ∀ i < 100, ∀ j < 4, ReadsBack k (.three i) j
  lstat : ∀ i < 100, ∃ mode, k.lstat i = some mode

theorem Block.overlay_bytes (tmp : Block) {r : Part} (h : r.bytes.length = 1024) :
    (tmp.overlay (some r)).bytes = r.bytes := by
  show r.bytes ++ tmp.bytes.drop r.bytes.length = r.bytes
  rw [h, List.drop_eq_nil_of_le (le_of_eq tmp.length_eq), List.append_nil]

/-- A block that has been read completely and passes the `memcmp`. -/
theorem readsBack_of_passes {k : Kernel} {f : File} {j : Nat} {r : Part}
    (hr : k.read f j = some r) (hlen : r.bytes.length = 1024) (h : buf = tmpAt k f (j + 1)) :
    ReadsBack k f j := by
  refine ⟨r, hr, ?_⟩
  rw [h, tmpAt, hr, Block.overlay_bytes _ hlen]

theorem size_of_passes {k : Kernel} (h : FirstPasses k) :
    ∃ st, k.fstat = some st ∧ st.size = 4 * 1024 := by
  have hsize := h.1
  rw [stat] at hsize
  cases hst : k.fstat with
  | none =>
    rw [hst] at hsize
    exact absurd hsize (by decide)
  | some st =>
    rw [hst] at hsize
    exact ⟨st, rfl, hsize⟩

theorem modeRight_of_passes {k : Kernel} {i : Nat} (hlstat : ∃ mode, k.lstat i = some mode)
    (h : ModePasses k i) : ModeRight k i := by
  obtain ⟨mode, hmode⟩ := hlstat
  rw [ModePasses, modeAt, hmode] at h
  exact ⟨mode, hmode, h⟩

theorem Unlooked.verified {k : Kernel} (h : Unlooked k) (h1 : FirstPasses k) (h2 : FilesPass k)
    (h3 : ModesPass k) : Verified k where
  opened := h.opened
  size := size_of_passes h1
  hidden := h.hidden
  linked := h.linked
  test02 i hi j hj := by
    obtain ⟨r, hr, hlen⟩ := h.complete i hi j hj
    exact readsBack_of_passes hr hlen (h2 i hi j hj)
  test03 := h.test03
  modes i hi := modeRight_of_passes (h.lstat i hi) (h3 i hi)

theorem Verified.unlooked {k : Kernel} (h : Verified k) : Unlooked k where
  opened := h.opened
  hidden := h.hidden
  linked := h.linked
  complete i hi j hj := by
    obtain ⟨r, hr, hbytes⟩ := h.test02 i hi j hj
    exact ⟨r, hr, hbytes ▸ buf.length_eq⟩
  test03 := h.test03
  lstat i hi := by
    obtain ⟨mode, hmode, -⟩ := h.modes i hi
    exact ⟨mode, hmode⟩

/-- **The verdict of `openat03` stands for what it says** exactly when a check fails, or else
all that no check looks at is right. -/
theorem verdictVerified_iff : VerdictVerified k ↔
    (¬ FirstPasses k ∨ ¬ FilesPass k ∨ ¬ ModesPass k) ∨ Unlooked k := by
  rw [VerdictVerified, prints_iff]
  constructor
  · intro h
    by_cases hpass : FirstPasses k ∧ FilesPass k ∧ ModesPass k
    · exact .inr (h hpass).unlooked
    · refine .inl ?_
      rwa [not_and_or, not_and_or] at hpass
  · rintro (hfail | hunlooked) ⟨h1, h2, h3⟩
    · rcases hfail with h | h | h
      · exact absurd h1 h
      · exact absurd h2 h
      · exact absurd h3 h
    · exact hunlooked.verified h1 h2 h3

/-- All is right, except that `linkat` makes no link. -/
def Kernel.unlinked : Kernel where
  setup := ⟨3, 0⟩
  openat _ := ⟨3, 0⟩
  missing _ := 0
  garbage _ := buf
  read _ _ := some ⟨buf.bytes, le_of_eq buf.length_eq⟩
  fstat := some ⟨4096, 0o100600⟩
  readlink := "/tmp/#1 (deleted)".toList
  umask := 0o022
  garbageMode := 0
  lstat i := some (0o100000 ||| (testPerms i &&& ~~~0o022))
  inode := 1
  before := []
  after := []

theorem prints_unlinked : Kernel.unlinked.life.Prints verdict := by
  refine (prints_iff _).mpr ⟨by decide, fun i _ j _ => ?_, fun i _ => ?_⟩
  · have hbytes : buf.bytes = (tmpAt Kernel.unlinked (.two i) (j + 1)).bytes :=
      (Block.overlay_bytes (r := ⟨buf.bytes, le_of_eq buf.length_eq⟩) _ buf.length_eq).symm
    cases hbuf : tmpAt Kernel.unlinked (.two i) (j + 1) with
    | mk bytes hlen =>
      rw [hbuf] at hbytes
      cases hbytes
      rfl
  · show (0o100000 ||| (testPerms i &&& ~~~0o022)) &&& ~~~S_IFMT = testPerms i &&& ~~~0o022
    rw [testPerms]
    split <;> decide

theorem not_verdictVerified_unlinked : ¬ VerdictVerified Kernel.unlinked := fun h =>
  absurd (h prints_unlinked).linked (by decide)

end Syscalls.Openat03
