import UnikraftSuite.CaseVerdict
import UnikraftSuite.Lib.Calls

/-!
# `read02`

`main` calls `verify_read` once to see whether it returns 0 and once more to see whether it
returns -1, and it leaves out the last row of the table. Nothing opens `fd4`, whose value is
that of `badfd`, and the line for a row that has passed is not the one `runTest` looks for.

- `main_spec`: the lines written, and how often the read of each row is performed.
- `runTest_ne_one`: the test is never reported as passed.
- `verifyRead_badfd`: where a read on the invalid descriptor is taken for a pass.
- `not_judged`: the rows are not judged once each, whatever the calls return.
-/

namespace Syscalls.Read02

open PyStr CStdio Stateful Calls UnikraftSuite

/-! ## The program -/

def EBADF : Int := 9

def EFAULT : Int := 14

def EISDIR : Int := 21

def EINVAL : Int := 22

inductive Call where
  | openDir
  | openFile
  | mmap
  | memalign (alignment size : Int)
  /-- In row `n`. -/
  | read (n : Nat) (fd buf : Int) (count : Nat)
  | close (fd : Int)
  deriving DecidableEq

abbrev Kernel := Calls.Kernel Call

abbrev Machine := Calls.Machine Call

abbrev Prog := Stateful.Prog Machine

/-- The variables that hold a descriptor. -/
inductive FdVar where
  | badfd
  | fd2
  | fd3
  | fd4
  deriving DecidableEq

/-- The variables that hold an address. -/
inductive BufVar where
  | bufaddr
  | outsideBuf
  | addr4
  | addr5

structure Globals where
  fd : FdVar → Int
  buf : BufVar → Int

structure Tcase where
  fd : FdVar
  buf : BufVar
  count : Nat
  expError : Int

def tcases : Nat → Tcase
  | 0 => ⟨.badfd, .bufaddr, 1, EBADF⟩
  | 1 => ⟨.fd2, .bufaddr, 1, EISDIR⟩
  | 2 => ⟨.fd3, .outsideBuf, 1, EFAULT⟩
  | 3 => ⟨.fd4, .addr4, 1, EINVAL⟩
  | _ => ⟨.fd4, .addr5, 4096, EINVAL⟩

/-- The page size, the address of `buf`, and whether the process survives two calls: `fprintf`
is given a file name for a stream, and `free` what the undeclared `memalign` returned. -/
structure Env where
  pageSize : Int
  bufaddr : Int
  fprintfReturns : Bool
  freeReturns : Bool

/-- `verify_read(n)`. -/
def verifyRead (k : Kernel) (g : Globals) (n : Nat) : Prog Int := do
  let tc := tcases n
  if tc.fd = .fd4 ∧ g.fd tc.fd = -1 then do
    printf "O_DIRECT not supported on this filesystem\n".toList
    return 0
  else do
    let ret ← syscall k (.read n (g.fd tc.fd) (g.buf tc.buf) tc.count)
    if g.fd tc.fd = g.fd .fd4 ∧ ret ≥ 0 then do
      printf "O_DIRECT unaligned reads fallbacks to buffered I/O\n".toList
      return 1
    else if ret ≠ -1 then do
      printf "read() succeeded unexpectedly\n".toList
      return -1
    else if (← errno) = tc.expError then do
      printf "read() failed as expected\n".toList
      return 1
    else do
      printf ("read() failed unexpectedly, expected ".toList ++ (str tc.expError ++ "\n".toList))
      return -1

/-- The variables behind `setup`; `fd4` is still as it was initialised. -/
def globals (bufaddr fd2 fd3 outsideBuf addr4 : Int) : Globals where
  fd
    | .badfd => -1
    | .fd2 => fd2
    | .fd3 => fd3
    | .fd4 => -1
  buf
    | .bufaddr => bufaddr
    | .outsideBuf => outsideBuf
    | .addr4 => addr4
    | .addr5 => addr4 + 1

def setup (k : Kernel) (env : Env) : Prog Globals := do
  let fd2 ← syscall k .openDir
  if env.fprintfReturns then do
    let fd3 ← syscall k .openFile
    let outsideBuf ← syscall k .mmap
    let addr4 ← syscall k (.memalign env.pageSize (4096 * 10))
    return globals env.bufaddr fd2 fd3 outsideBuf addr4
  else cutOff

def cleanup (k : Kernel) (env : Env) (g : Globals) : Prog Unit := do
  if env.freeReturns then do
    callIf k (g.fd .fd4) (.close (g.fd .fd4))
    callIf k (g.fd .fd3) (.close (g.fd .fd3))
    callIf k (g.fd .fd2) (.close (g.fd .fd2))
  else cutOff

def broken : Text := "Invalid or broken test\n".toList

def failed : Text := "Test failed\n".toList

def succeeded : Text := "Test succeeded\n".toList

/-- A turn of the loop in `main`. -/
def mainTurn (k : Kernel) (g : Globals) (i : Nat) (_ : Unit) : Prog Unit := do
  if (← verifyRead k g i) = 0 then printf broken
  else if (← verifyRead k g i) = -1 then printf failed
  else printf succeeded

def main (k : Kernel) (env : Env) : Prog Unit := do
  let g ← setup k env
  forLoop (mainTurn k g) 0 4 ()
  cleanup k env g

/-! ## What it should do -/

/-- The machine behind `main`. -/
def final (k : Kernel) (env : Env) : Machine := (exec (main k env) .start).2

/-- What is left in the file the output goes to: nothing, if the process has been killed. -/
def output (k : Kernel) (env : Env) : Text :=
  match exec (main k env) .start with
  | (some _, m) => m.out.flatten
  | (none, _) => []

/-- The machine in front of turn `i`. -/
def rowState (k : Kernel) (env : Env) (i : Nat) : Machine :=
  (exec (do forLoop (mainTurn k (← setup k env)) 0 i ()) .start).2

/-- The lines written in turn `i`. -/
def rowLines (k : Kernel) (env : Env) (i : Nat) : List Text :=
  (rowState k env (i + 1)).out.drop (rowState k env i).out.length

/-- The read of row `n`. -/
def ofRow (n : Nat) : Call × Result → Bool
  | (.read i _ _ _, _) => i = n
  | _ => false

/-- How often the read of row `n` has been performed. -/
def reads (m : Machine) (n : Nat) : Nat := m.log.countP (ofRow n)

/-- Row `n` has failed with its `errno`, or has fallen back to a buffered read. -/
def RowMet (m : Machine) (n : Nat) : Prop :=
  ∃ fd buf count r, (.read n fd buf count, r) ∈ m.log ∧
    ((r.ret = -1 ∧ r.errno = (tcases n).expError) ∨
      ((tcases n).fd = .fd4 ∧ fd ≠ -1 ∧ 0 ≤ r.ret))

/-- A read on the invalid descriptor has succeeded, in turn `i`. -/
def BadRead (m : Machine) (i : Nat) : Prop :=
  (tcases i).fd = .badfd ∧ ∃ fd buf count r, (.read i fd buf count, r) ∈ m.log ∧ 0 ≤ r.ret

/-- The test is reported as passed if and only if every row is met, a successful read on the
invalid descriptor is no pass, and each row's read is performed once. -/
structure Judged (k : Kernel) (env : Env) : Prop where
  verdict : ∀ (t : Entry Unit) (w : World Unit) (cont : Text), t.gcc.stdout = some cont →
    t.gcc.binary = some () → t.exec () = some (output k env) →
      ((runTest t w).1 = 1 ↔ ∀ n < 5, RowMet (final k env) n)
  invalid : ∀ i < 4, BadRead (final k env) i → succeeded ∉ rowLines k env i
  once : ∀ n < 5, reads (final k env) n = 1

/-! ## Lines and reads -/

/-- A part of the success line that no line of the program contains. -/
def tell : Text := "test s".toList

/-- Only such lines have been written, and this is how often each read has been performed. -/
structure Known (f : Nat → Nat) (m : Machine) : Prop where
  lines : ∀ x ∈ m.out, Lines x ∧ Quiet tell x
  reads : ∀ n, reads m n = f n

/-- The read of row `n` once more. -/
def more (f : Nat → Nat) (n : Nat) : Nat → Nat := fun i => f i + if n = i then 1 else 0

/-- How often the reads have been performed behind turn `i`. -/
def readsAfter (f : Nat → Nat) (i : Nat) : Nat → Nat :=
  if (tcases i).fd = .fd4 then f else more (more f i) i

/-- How often the reads have been performed in front of turn `i`. -/
def readsBefore : Nat → Nat → Nat
  | 0 => fun _ => 0
  | i + 1 => readsAfter (readsBefore i) i

/-- How often the reads are performed in a run: not at all if it ends in `setup`. -/
def readsDone (env : Env) : Nat → Nat := if env.fprintfReturns then readsBefore 4 else fun _ => 0

/-- The reads of the first three rows are performed twice, the others never. -/
theorem readsDone_eq (env : Env) (n : Nat) :
    readsDone env n = if env.fprintfReturns ∧ n < 3 then 2 else 0 := by
  have hfour : readsBefore 4 n = 0 + (if 0 = n then 1 else 0) + (if 0 = n then 1 else 0)
      + (if 1 = n then 1 else 0) + (if 1 = n then 1 else 0) + (if 2 = n then 1 else 0)
      + (if 2 = n then 1 else 0) := rfl
  rw [readsDone]
  by_cases h : env.fprintfReturns
  · rw [if_pos h, hfour]
    simp only [h, true_and]
    split_ifs <;> omega
  · rw [if_neg h, if_neg fun hn => h hn.1]

section Run

variable {k : Kernel} {g : Globals} {f : Nat → Nat} {E : Machine → Prop}

theorem Known.print {m : Machine} (h : Known f m) {x : Text} (hx : Lines x ∧ Quiet tell x) :
    Known f { m with out := m.out ++ [x] } :=
  ⟨List.forall_mem_append.mpr ⟨h.lines, List.forall_mem_singleton.mpr hx⟩, h.reads⟩

theorem Known.made {m : Machine} (h : Known f m) (c : Call) (r : Result) :
    Known (fun n => f n + if ofRow n (c, r) then 1 else 0) (m.made c r) := by
  refine ⟨h.lines, fun n => ?_⟩
  rw [Read02.reads, show (m.made c r).log = m.log ++ [(c, r)] from rfl, List.countP_append,
    List.countP_singleton]
  exact congrArg (· + _) (h.reads n)

/-- A call that is no read. -/
theorem Known.other {m : Machine} (h : Known f m) {c : Call} (r : Result)
    (hc : ∀ n, ofRow n (c, r) = false) : Known f (m.made c r) := by
  have hmade := h.made c r
  simpa only [hc, Bool.false_eq_true, if_false, Nat.add_zero] using hmade

/-- The read of row `n`. -/
theorem Known.read {m : Machine} (h : Known f m) (n : Nat) (fd buf : Int) (count : Nat)
    (r : Result) : Known (more f n) (m.made (.read n fd buf count) r) := by
  have hmade := h.made (.read n fd buf count) r
  simp only [ofRow, decide_eq_true_eq] at hmade
  exact hmade

theorem print_spec {x : Text} (hx : Lines x ∧ Quiet tell x) :
    Spec (Known f) (printf x) (fun _ => Known f) E := printf_spec fun _ hm => hm.print hx

/-- A row whose read is performed. -/
theorem verifyRead_spec {n : Nat} (hn : (tcases n).fd ≠ .fd4) :
    Spec (Known f) (verifyRead k g n) (fun v m => v ≠ 0 ∧ Known (more f n) m) E := by
  have hline : ∀ {x : Text} {v : Int}, v ≠ 0 → Lines x ∧ Quiet tell x →
      Spec (Known (more f n)) (do printf x; return v) (fun v m => v ≠ 0 ∧ Known (more f n) m) E :=
    fun hv hx => .bind (print_spec hx) fun _ => .ret fun m hm => ⟨hv, hm⟩
  have hint : Lines ("read() failed unexpectedly, expected ".toList ++
      (str (tcases n).expError ++ "\n".toList)) ∧
      Quiet tell ("read() failed unexpectedly, expected ".toList ++
        (str (tcases n).expError ++ "\n".toList)) :=
    ⟨.of_last (ends_append _ (by decide)),
      Quiet.int (List.all_iff_forall_prop.mp (by decide)) _ (by decide) (by decide)⟩
  refine .ite (fun h => absurd h.1 hn) fun _ => .bind (syscall_spec fun m hm => hm.read n _ _ _ _)
    fun ret => .ite (fun _ => hline (by decide) (by decide)) fun _ =>
      .ite (fun _ => hline (by decide) (by decide)) fun _ =>
        .bind (errno_spec fun m hm => hm) fun e => .ite (fun _ => hline (by decide) (by decide))
          fun _ => hline (by decide) hint

/-- A row for `O_DIRECT`: `fd4` has not been opened. -/
theorem verifyRead_skip {n : Nat} (hn : (tcases n).fd = .fd4) (hg : g.fd .fd4 = -1) :
    Spec (Known f) (verifyRead k g n) (fun v m => v = 0 ∧ Known f m) E := by
  refine .ite (fun _ => .bind (print_spec (by decide)) fun _ => .ret fun m hm => ⟨rfl, hm⟩)
    fun h => absurd ⟨hn, ?_⟩ h
  rw [hn, hg]

/-- **One turn** of the loop in `main`. -/
theorem mainTurn_spec (hg : g.fd .fd4 = -1) (i : Nat) (u : Unit) :
    Spec (Known f) (mainTurn k g i u) (fun _ => Known (readsAfter f i)) E := by
  by_cases hfd : (tcases i).fd = .fd4
  · rw [readsAfter, if_pos hfd]
    refine .bind (verifyRead_skip hfd hg) fun v => .of_forall (fun hv : v = 0 => ?_)
      fun m hm => hm.1
    rw [if_pos hv]
    exact (print_spec (by decide)).pre fun m hm => hm.2
  · rw [readsAfter, if_neg hfd]
    refine .bind (verifyRead_spec hfd) fun v => .of_forall (fun hv : v ≠ 0 => ?_) fun m hm => hm.1
    rw [if_neg hv]
    refine Spec.pre (.bind (verifyRead_spec hfd) fun v => Spec.pre (.ite
      (fun _ => print_spec (by decide)) fun _ => print_spec (by decide)) fun m hm => hm.2)
        fun m hm => hm.2

/-- `setup`, and what it leaves in `fd4`. -/
theorem setup_spec (env : Env) : Spec (Known fun _ => 0) (setup k env)
    (fun g m => (g.fd .fd4 = -1 ∧ env.fprintfReturns) ∧ Known (fun _ => 0) m)
    (Known (readsDone env)) := by
  have hcall : ∀ {c : Call}, (∀ n r, ofRow n (c, r) = false) → ∀ {E : Machine → Prop},
      Spec (Known fun _ => 0) (syscall k c) (fun _ => Known fun _ => 0) E := fun hc _ =>
    syscall_spec fun m hm => hm.other _ fun n => hc n _
  refine .bind (hcall fun _ _ => rfl) fun fd2 => .ite (fun h => ?_) fun h => .cutOff fun m hm => ?_
  · exact .bind (hcall fun _ _ => rfl) fun fd3 => .bind (hcall fun _ _ => rfl) fun outsideBuf =>
      .bind (hcall fun _ _ => rfl) fun addr4 => .ret fun m hm => ⟨⟨rfl, h⟩, hm⟩
  · rw [readsDone, if_neg h]
    exact hm

theorem cleanup_spec (env : Env) :
    Spec (Known f) (cleanup k env g) (fun _ => Known f) (Known f) := by
  have hclose : ∀ fd, Spec (Known f) (callIf k fd (.close fd)) (fun _ => Known f) (Known f) :=
    fun fd => callIf_spec fd fun m r hm => hm.other r fun _ => rfl
  exact .ite (fun _ => .bind (hclose _) fun _ => .bind (hclose _) fun _ => hclose _)
    fun _ => .cutOff fun _ hm => hm

/-- **The run of `main`**: the lines written, and how often each row's read is performed. -/
theorem main_spec (env : Env) : Spec (Known fun _ => 0) (main k env)
    (fun _ => Known (readsDone env)) (Known (readsDone env)) := by
  refine .bind (setup_spec env) fun g =>
    .of_forall (fun hg : g.fd .fd4 = -1 ∧ env.fprintfReturns => ?_) fun m hm => hm.1
  have hloop : Spec (Known (readsBefore 0)) (forLoop (mainTurn k g) 0 4 ())
      (fun _ => Known (readsBefore 4)) (Known (readsDone env)) :=
    Spec.forLoop (J := fun i _ => Known (readsBefore i)) 4
      (fun i _ u => mainTurn_spec hg.1 i u) 4 0 () rfl
  have hdone : readsBefore 4 = readsDone env := (if_pos hg.2).symm
  rw [hdone] at hloop
  exact Spec.pre (.bind hloop fun _ => cleanup_spec env) fun m hm => hm.2

end Run

/-! ## The verdict -/

theorem known_start : Known (fun _ => 0) .start := ⟨nofun, fun _ => rfl⟩

/-- Lines of that kind do not make the success line. -/
theorem quiet_flatten {xs : List Text} (h : ∀ x ∈ xs, Lines x ∧ Quiet tell x) :
    Quiet tell xs.flatten := by
  induction xs with
  | nil => decide
  | cons x xs ih =>
    obtain ⟨hx, hxs⟩ := List.forall_mem_cons.mp h
    exact hx.2.lines (by decide) (by decide) hx.1 (ih hxs)

theorem output_quiet (k : Kernel) (env : Env) : Quiet "test succeeded".toList (output k env) := by
  have hspec := main_spec (k := k) env .start known_start
  rw [output]
  rcases he : exec (main k env) .start with ⟨_ | u, m⟩
  · show Quiet "test succeeded".toList []
    decide
  · rw [he] at hspec
    exact (quiet_flatten hspec.lines).of_part (by decide)

/-- **`read02` is never reported as passed.** -/
theorem runTest_ne_one (k : Kernel) (env : Env) {t : Entry Unit} (w : World Unit) {cont : Text}
    (hs : t.gcc.stdout = some cont) (hb : t.gcc.binary = some ())
    (hout : t.exec () = some (output k env)) : (runTest t w).1 ≠ 1 := fun h =>
  output_quiet k env ((runTest_eq_one_iff w hs hb hout).mp h)

/-- **The invalid descriptor**: a read of row 0 is taken for a pass if it fails with `EBADF`,
and also if it succeeds, for `fd4` has the same value. -/
theorem verifyRead_badfd (k : Kernel) {g : Globals} (hbad : g.fd .badfd = -1)
    (h4 : g.fd .fd4 = -1) (m : Machine) : (exec (verifyRead k g 0) m).1 = some 1 ↔
      0 ≤ (k m (.read 0 (-1) (g.buf .bufaddr) 1)).ret ∨
        ((k m (.read 0 (-1) (g.buf .bufaddr) 1)).ret = -1 ∧
          (k m (.read 0 (-1) (g.buf .bufaddr) 1)).errno = EBADF) := by
  have hskip : ¬ ((tcases 0).fd = .fd4 ∧ g.fd (tcases 0).fd = -1) := fun h => by cases h.1
  have hsame : g.fd (tcases 0).fd = g.fd .fd4 := hbad.trans h4.symm
  have hread : ∀ m, k m (.read 0 (g.fd (tcases 0).fd) (g.buf (tcases 0).buf) (tcases 0).count) =
      k m (.read 0 (-1) (g.buf .bufaddr) 1) := fun m => by rw [← hbad]; rfl
  simp only [verifyRead, if_neg hskip, syscall, exec_bind, exec_act, hread]
  generalize k m (.read 0 (-1) (g.buf .bufaddr) 1) = r
  by_cases hret : 0 ≤ r.ret
  · rw [if_pos ⟨hsame, hret⟩]
    exact iff_of_true rfl (.inl hret)
  rw [if_neg fun h => hret h.2, or_iff_right hret]
  by_cases hone : r.ret = -1
  · have herrno : (m.made (.read 0 (g.fd (tcases 0).fd) (g.buf (tcases 0).buf) (tcases 0).count)
        r).errno = r.errno := if_pos hone
    rw [if_neg (not_not.mpr hone), and_iff_right hone, exec_bind, errno, exec_act]
    simp only [herrno]
    by_cases he : r.errno = (tcases 0).expError
    · rw [if_pos he]
      exact iff_of_true rfl he
    · rw [if_neg he]
      exact iff_of_false (fun h => by cases h) he
  · rw [if_pos hone]
    exact iff_of_false (fun h => by cases h) fun h => hone h.1

/-- How often the reads are performed in a run. -/
theorem reads_final (k : Kernel) (env : Env) (n : Nat) :
    reads (final k env) n = if env.fprintfReturns ∧ n < 3 then 2 else 0 := by
  have hspec := main_spec (k := k) env .start known_start
  rw [← readsDone_eq, final]
  rcases he : exec (main k env) .start with ⟨_ | u, m⟩
  · rw [he] at hspec
    exact hspec.reads n
  · rw [he] at hspec
    exact hspec.reads n

/-- **`read02` does not judge its rows** as it should, whatever the calls return: no row's read
is performed once. -/
theorem not_judged (k : Kernel) (env : Env) : ¬ Judged k env := by
  intro h
  have honce := h.once 0 (by decide)
  rw [reads_final] at honce
  split at honce
  · cases honce
  · cases honce

/-- Everything succeeds that should, and each row fails with its `errno`. -/
def Kernel.faultless : Kernel := fun _ c =>
  match c with
  | .openDir => ⟨3, 0⟩
  | .openFile => ⟨4, 0⟩
  | .mmap => ⟨4096, 0⟩
  | .memalign _ _ => ⟨8192, 0⟩
  | .read n _ _ _ => ⟨-1, (tcases n).expError⟩
  | .close _ => ⟨0, 0⟩

/-- The process survives both calls. -/
def Env.lucky : Env := ⟨4096, 1024, true, true⟩

/-- The first row is read twice, and the last one never. -/
theorem not_judged_faultless : ¬ Judged .faultless .lucky := by
  intro h
  have hfirst : reads (final .faultless .lucky) 0 = 2 := by decide +kernel
  have honce := h.once 0 (by decide)
  rw [hfirst] at honce
  cases honce

end Syscalls.Read02
