import Mathlib.Data.Nat.Find
import UnikraftSuite.Lib.Process

/-!
# `mprotect02`

A file is filled with one page, in a loop that subtracts the result of each `write` from an
unsigned counter. A child then stores into a mapping that cannot be written, and a second one
after `mprotect`. The parent compares the raw status of the first child with exit codes.
-/

namespace Syscalls.Mprotect02

open PyStr CStdio Process

/-! ## The program -/

/-- The calls; `write i n` is the write number `i`, of `n` bytes. `memcpy` and `exit` are made
by the first and by the second child. -/
inductive Call where
  | open
  | getpagesize
  | write (i n : Nat)
  | mmap
  | fork (i : Nat)
  | memcpy (i : Nat)
  | exit (i : Nat)
  | mprotect
  | munmap
  | close
  | unlink
  deriving DecidableEq

abbrev Reply : Call → Type
  | .open => Int
  | .getpagesize => Int
  | .write _ _ => Int
  | .mmap => BitVec 64
  | .fork _ => Bool
  | .memcpy _ => Unit
  | .exit _ => Unit
  | .mprotect => Int
  | .munmap => Int
  | .close => Int
  | .unlink => Int

def MAP_FAILED : BitVec 64 := -1

def SIGSEGV : Nat := 11

def buf : Text := "abcdefghijklmnopqrstuvwxyz".toList

/-- `strlen(buf) < num_bytes ? strlen(buf) : num_bytes`. -/
def bytesToWrite (numBytes : BitVec 64) : Nat :=
  if buf.length < numBytes.toNat then buf.length else numBytes.toNat

/-- `num_bytes -= r`. -/
def subtract (numBytes : BitVec 64) (r : Int) : BitVec 64 := numBytes - BitVec.ofInt 64 r

/-- The `do … while` from the write `i` on, for at most `fuel` turns. It returns the number of
writes made, or `none` if more turns are needed. -/
def fill : Nat → Nat → BitVec 64 → Proc Call Reply (Option Nat)
  | 0, _, _ => return none
  | fuel + 1, i, numBytes => do
    let r ← call (Call.write i (bytesToWrite numBytes))
    let numBytes := subtract numBytes r
    if 0 < numBytes then fill fuel (i + 1) numBytes else return some (i + 1)

def verdict : Text := "test succeeded\n".toList

def cleanup (addr : BitVec 64) : Proc Call Reply Unit :=
  if addr ≠ MAP_FAILED then do
    let _ ← call Call.munmap
    let _ ← call Call.close
    return ()
  else return ()

/-- A child: `memcpy(addr, buf, strlen(buf))` and then `exit(code)`, at the latest where a
signal can end it. -/
def child {α : Type} (i : Nat) (code : Int) : Proc Call Reply α := do
  let _ ← call (Call.memcpy i)
  let _ ← call (Call.exit i)
  exit code

/-- `switch (status)`: what becomes of `ok`. -/
def switchStatus (addr : BitVec 64) (status : BitVec 32) (ok : Int) : Proc Call Reply Int :=
  if status = 255 then do
    printf "memcpy did not generate SIGSEGV\n".toList
    cleanup addr
    -- `case 255` has no `break`
    printf "got SIGSEGV as expected\n".toList
    return 0
  else if status = 0 then do
    printf "got SIGSEGV as expected\n".toList
    return ok
  else do
    printf ("got unexpected signal: ".toList ++ (str status.toInt ++ "\n".toList))
    cleanup addr
    return 0

/-- The check of the second status. -/
def checkSecond (status : BitVec 32) (ok : Int) : Proc Call Reply Int :=
  if WIFEXITED status ∧ WEXITSTATUS status = 0 then do
    printf "didn't get SIGSEGV\n".toList
    return ok
  else do
    printf "child exited abnormally\n".toList
    return 0

variable (errno : Call → Int)

/-- `mprotect` and the second child. -/
def second (addr : BitVec 64) (status : BitVec 32) (ok : Int) : Proc Call Reply Int := do
  if (← call Call.mprotect) ≠ -1 then do
    match ← forkIf (← call (Call.fork 2)) with
    | .failed => do
      printf "fork #2 failed\n".toList
      cleanup addr
      -- no child is left for `waitpid(-1, …)`, and `status` is still that of the first one
      checkSecond status 0
    | .child => child 2 0
    | .parent pid => do
      let status ← waitpid pid
      checkSecond status ok
  else do
    printf ("mprotect failed, error number ".toList
      ++ (str (errno .mprotect) ++ "\n".toList))
    return 0

/-- The end of `main`. The last `cleanup` finds `MAP_FAILED`. -/
def finish (ok : Int) : Proc Call Reply Unit := do
  let _ ← call Call.munmap
  let _ ← call Call.close
  let _ ← call Call.unlink
  cleanup MAP_FAILED
  if ok ≠ 0 then printf verdict else return ()

/-- `main` behind the first `waitpid`. -/
def afterFirst (addr : BitVec 64) (status : BitVec 32) : Proc Call Reply Unit :=
  if ¬ WIFEXITED status then do
    printf ("child exited abnormally with status: ".toList ++ (str status.toInt ++ "\n".toList))
    cleanup addr
    exit 0
  else do
    let ok ← switchStatus addr status 1
    let ok ← second errno addr status ok
    finish ok

/-- `main` behind the fill loop. -/
def afterFill : Proc Call Reply Unit := do
  let addr ← call Call.mmap
  match ← forkIf (← call (Call.fork 1)) with
  | .failed => do
    printf ("fork #1 failed, error number ".toList
      ++ (str (errno (.fork 1)) ++ "\n".toList))
    cleanup addr
    exit 0
  | .child => child 1 255
  | .parent pid => do
    let status ← waitpid pid
    afterFirst errno addr status

/-- `main`, as far as `fuel` turns of the fill loop lead. -/
def main (fuel : Nat) : Proc Call Reply Unit := do
  let _ ← call Call.open
  let numBytes ← call Call.getpagesize
  match ← fill fuel 0 (BitVec.ofInt 64 numBytes) with
  | none => return ()
  | some _ => afterFill errno

/-! ## Runs -/

/-- The results of all calls. In a child a signal can end the store, or come before `exit`. -/
structure Kernel where
  fd : Int
  getpagesize : Int
  write : Nat → Nat → Int
  mmap : BitVec 64
  fork : Nat → Bool
  memcpy : Nat → Option Death
  exit : Nat → Option Death
  mprotect : Int
  munmap : Int
  close : Int
  unlink : Int
  errno : Call → Int
  page_pos : 0 < getpagesize
  page_lt : getpagesize < 2 ^ 31
  write_range : ∀ i n, write i n = -1 ∨ 0 ≤ write i n ∧ write i n ≤ n

/-- The call returns, or the signal ends the process. -/
def answerOf : Option Death → Answer Unit
  | none => .val ()
  | some d => .kill d

def Kernel.world (k : Kernel) : World Call Reply where
  answer
    | _, .open => .val k.fd
    | _, .getpagesize => .val k.getpagesize
    | _, .write i n => .val (k.write i n)
    | _, .mmap => .val k.mmap
    | _, .fork i => .val (k.fork i)
    | _, .memcpy i => answerOf (k.memcpy i)
    | _, .exit i => answerOf (k.exit i)
    | _, .mprotect => .val k.mprotect
    | _, .munmap => .val k.munmap
    | _, .close => .val k.close
    | _, .unlink => .val k.unlink
  signal _ _ := none
  image _ _ := .ends (.exited 0)

/-- The initial process and what it forks, as far as `fuel` turns of the fill loop lead. -/
def Kernel.life (k : Kernel) (fuel : Nat) : Life Call := run k.world (main k.errno fuel) [] []

/-- `num_bytes` in front of the write `i`. -/
def remaining (k : Kernel) : Nat → BitVec 64
  | 0 => BitVec.ofInt 64 k.getpagesize
  | i + 1 => subtract (remaining k i) (k.write i (bytesToWrite (remaining k i)))

/-- The result of the write `i`. -/
def result (k : Kernel) (i : Nat) : Int := k.write i (bytesToWrite (remaining k i))

/-- The bytes written by the first `n` writes. -/
def written (k : Kernel) : Nat → Nat
  | 0 => 0
  | n + 1 => written k n + (result k n).toNat

/-- The fill loop ends, on a failed write or with one page written, and never writes more than
a page nor wraps its counter. -/
def FillRight (k : Kernel) : Prop :=
  ∃ fuel n, outcome k.world [] (fill fuel 0 (BitVec.ofInt 64 k.getpagesize)) =
      .back (some (n + 1)) ∧
    (result k n = -1 ∨ (written k (n + 1) : Int) = k.getpagesize) ∧
    (∀ i ≤ n + 1, (written k i : Int) ≤ k.getpagesize) ∧
    ∀ i ≤ n, 0 ≤ (remaining k i).toNat - result k i ∧ (remaining k i).toNat - result k i < 2 ^ 64

/-- `SIGSEGV` stops the store of the first child, `mprotect` returns 0, and the second child
exits with status 0. -/
def Expected (k : Kernel) : Prop :=
  (k.fork 1 = true ∧ ∃ d, k.memcpy 1 = some d ∧ d.sig = SIGSEGV) ∧ k.mprotect = 0 ∧
    k.fork 2 = true ∧ k.memcpy 2 = none ∧ k.exit 2 = none

/-- The fill loop is right, and the verdict is printed exactly if all is as expected. -/
def FillAndVerdict (k : Kernel) : Prop :=
  FillRight k ∧ ((∃ fuel, (k.life fuel).Prints verdict) ↔ Expected k)

/-! ## The fill loop -/

theorem bytesToWrite_le (numBytes : BitVec 64) : bytesToWrite numBytes ≤ numBytes.toNat := by
  rw [bytesToWrite]
  split
  · omega
  · exact le_refl _

theorem result_range (k : Kernel) (i : Nat) :
    result k i = -1 ∨ (0 ≤ result k i ∧ result k i ≤ (remaining k i).toNat) := by
  have hle := bytesToWrite_le (remaining k i)
  rcases k.write_range i (bytesToWrite (remaining k i)) with h | ⟨h0, hn⟩
  · exact .inl h
  · exact .inr ⟨h0, by rw [result]; omega⟩

theorem outcome_write (k : Kernel) (i n : Nat) {α : Type} (f : Int → Proc Call Reply α) :
    outcome k.world [] (call (Call.write i n) >>= f) = outcome k.world [] (f (k.write i n)) := rfl

/-- The loop ends behind the first write that leaves 0. -/
theorem outcome_fill (k : Kernel) (n : Nat) : ∀ fuel i, outcome k.world [] (fill fuel i
    (remaining k i)) = .back (some (n + 1)) ↔ (i ≤ n ∧ n < i + fuel) ∧
      remaining k (n + 1) = 0 ∧ ∀ j, i < j → j ≤ n → remaining k j ≠ 0 := by
  intro fuel
  induction fuel with
  | zero => exact fun i => iff_of_false nofun fun h => by omega
  | succ fuel ih =>
    intro i
    rw [fill, outcome_write]
    show outcome k.world [] (if 0 < remaining k (i + 1) then fill fuel (i + 1) (remaining k (i + 1))
      else return some (i + 1)) = _ ↔ _
    by_cases hpos : 0 < remaining k (i + 1)
    · have hne : remaining k (i + 1) ≠ 0 := fun h => by simp [h] at hpos
      rw [if_pos hpos, ih]
      constructor
      · rintro ⟨⟨hi, hn⟩, hzero, hrest⟩
        refine ⟨⟨by omega, by omega⟩, hzero, fun j hij hjn => ?_⟩
        rcases Nat.eq_or_lt_of_le hij with rfl | hlt
        · exact hne
        · exact hrest j hlt hjn
      · rintro ⟨⟨hi, hn⟩, hzero, hrest⟩
        have hin : i ≠ n := fun h => hne (h ▸ hzero)
        exact ⟨⟨by omega, by omega⟩, hzero, fun j hij hjn => hrest j (by omega) hjn⟩
    · have hzero : remaining k (i + 1) = 0 := by
        refine BitVec.eq_of_toNat_eq ?_
        rw [BitVec.lt_def] at hpos
        simpa using hpos
      rw [if_neg hpos]
      constructor
      · intro h
        obtain rfl : i = n := by cases h; rfl
        exact ⟨⟨le_refl _, by omega⟩, hzero, fun j hij hjn => by omega⟩
      · rintro ⟨⟨hi, hn⟩, -, hrest⟩
        have hin : i = n := by
          by_contra hin
          exact hrest (i + 1) (by omega) (by omega) hzero
        rw [hin]
        rfl

/-- The failed writes among the first `n`. -/
def failures (k : Kernel) : Nat → Nat
  | 0 => 0
  | n + 1 => failures k n + if result k n = -1 then 1 else 0

/-- Each failed write adds one to the counter. -/
theorem remaining_add_written (k : Kernel) (n : Nat)
    (hwrap : ∀ i < n, (remaining k i).toNat - result k i < 2 ^ 64) :
    ((remaining k n).toNat : Int) + written k n = k.getpagesize + failures k n := by
  induction n with
  | zero =>
    have hpos := k.page_pos
    have hlt := k.page_lt
    simp only [remaining, written, failures, BitVec.toNat_ofInt]
    omega
  | succ n ih =>
    have hn := ih fun i hi => hwrap i (by omega)
    have hlt := hwrap n (by omega)
    have hnext : remaining k (n + 1) = subtract (remaining k n) (result k n) := rfl
    rw [written, failures, hnext, subtract, BitVec.toNat_sub, BitVec.toNat_ofInt]
    have := (remaining k n).isLt
    rcases result_range k n with h | ⟨h0, hle⟩
    · rw [if_pos h]
      rw [h] at hlt ⊢
      omega
    · rw [if_neg (by omega)]
      omega

/-- What `n` writes bring into the file, each asked for no more than is missing. -/
def filled (k : Kernel) : Nat → Nat
  | 0 => 0
  | n + 1 => filled k n + (k.write n (min buf.length (k.getpagesize.toNat - filled k n))).toNat

/-- The writes fill the page, and none of them fails. -/
def Fills (k : Kernel) : Prop :=
  ∃ n, (∀ i < n, k.write i (min buf.length (k.getpagesize.toNat - filled k i)) ≠ -1) ∧
    (filled k n : Int) = k.getpagesize

theorem bytesToWrite_eq (numBytes : BitVec 64) :
    bytesToWrite numBytes = min buf.length numBytes.toNat := by
  rw [bytesToWrite]
  split
  · omega
  · omega

/-- As long as no write fails, the counter is what is missing. -/
theorem remaining_eq (k : Kernel) (n : Nat)
    (hok : ∀ i < n, k.write i (min buf.length (k.getpagesize.toNat - filled k i)) ≠ -1) :
    filled k n ≤ k.getpagesize.toNat ∧
      (remaining k n).toNat = k.getpagesize.toNat - filled k n ∧ written k n = filled k n := by
  induction n with
  | zero =>
    have hlt := k.page_lt
    have hpos := k.page_pos
    refine ⟨Nat.zero_le _, ?_, rfl⟩
    simp only [remaining, filled, BitVec.toNat_ofInt]
    omega
  | succ n ih =>
    obtain ⟨hle, hrem, hwritten⟩ := ih fun i hi => hok i (by omega)
    have hresult : result k n =
        k.write n (min buf.length (k.getpagesize.toNat - filled k n)) := by
      rw [result, bytesToWrite_eq, hrem]
    have hn := hok n (by omega)
    have hnext : remaining k (n + 1) = subtract (remaining k n) (result k n) := rfl
    rw [filled, written, hnext, subtract, BitVec.toNat_sub, BitVec.toNat_ofInt, hwritten]
    rw [← hresult] at hn ⊢
    have hlt := (remaining k n).isLt
    rcases result_range k n with h | ⟨h0, hle'⟩
    · exact absurd h hn
    · omega

theorem result_eq {k : Kernel} {n i : Nat} (hi : i < n)
    (hok : ∀ i < n, k.write i (min buf.length (k.getpagesize.toNat - filled k i)) ≠ -1) :
    result k i ≠ -1 := by
  rw [result, bytesToWrite_eq, (remaining_eq k i fun j hj => hok j (by omega)).2.1]
  exact hok i hi

theorem failures_pos {k : Kernel} {n i : Nat} (hi : i < n) (h : result k i = -1) :
    0 < failures k n := by
  induction n with
  | zero => omega
  | succ n ih =>
    rw [failures]
    rcases Nat.eq_or_lt_of_le (Nat.le_of_lt_succ hi) with rfl | hlt
    · rw [if_pos h]
      omega
    · have := ih hlt
      omega

theorem fills_of_right {k : Kernel} (h : FillRight k) : Fills k := by
  obtain ⟨fuel, n, hout, hend, hle, hwrap⟩ := h
  obtain ⟨-, hzero, -⟩ := (outcome_fill k n fuel 0).mp hout
  have hsum := remaining_add_written k (n + 1) fun i hi => (hwrap i (by omega)).2
  have hlast := hle (n + 1) (le_refl _)
  have hempty : (remaining k (n + 1)).toNat = 0 := by
    rw [hzero]
    rfl
  -- a failed write would have to be made up for by a byte too many
  have hnone : failures k (n + 1) = 0 := by omega
  have hok : ∀ m ≤ n + 1, ∀ i < m,
      k.write i (min buf.length (k.getpagesize.toNat - filled k i)) ≠ -1 := by
    intro m
    induction m with
    | zero => exact fun _ i hi => by omega
    | succ m ih =>
      intro hm i hi
      have hprev := ih (by omega)
      rcases Nat.eq_or_lt_of_le (Nat.le_of_lt_succ hi) with rfl | hlt
      · intro hfail
        rw [← (remaining_eq k i hprev).2.1, ← bytesToWrite_eq] at hfail
        have := failures_pos (n := n + 1) (by omega) hfail
        omega
      · exact hprev i hlt
  refine ⟨n + 1, hok _ (le_refl _), ?_⟩
  rw [← (remaining_eq k (n + 1) (hok _ (le_refl _))).2.2]
  omega

theorem right_of_fills {k : Kernel} (h : Fills k) : FillRight k := by
  classical
  have hpos := k.page_pos
  -- the first time that the page is full
  obtain ⟨hok, hfull⟩ := Nat.find_spec h
  have hmin := fun m (hm : m < Nat.find h) => Nat.find_min h hm
  cases hn : Nat.find h with
  | zero =>
    rw [hn, filled] at hfull
    omega
  | succ n =>
    rw [hn] at hok hfull hmin
    have hinv := fun m (hm : m ≤ n + 1) => remaining_eq k m fun i hi => hok i (by omega)
    have hrem := hinv (n + 1) (le_refl _)
    refine ⟨n + 1, n, (outcome_fill k n (n + 1) 0).mpr ⟨by omega, ?_, ?_⟩, .inr ?_, ?_, ?_⟩
    · refine BitVec.eq_of_toNat_eq ?_
      rw [hrem.2.1]
      show k.getpagesize.toNat - filled k (n + 1) = 0
      omega
    · intro j hj hjn hzero
      have hj' := hinv j (by omega)
      have hempty : (remaining k j).toNat = 0 := by
        rw [hzero]
        rfl
      refine hmin j (by omega) ⟨fun i hi => hok i (by omega), ?_⟩
      omega
    · rw [hrem.2.2]
      exact hfull
    · intro i hi
      have := hinv i hi
      omega
    · intro i hi
      have hlt := (remaining k i).isLt
      have hfail := result_eq (i := i) (by omega) hok
      rcases result_range k i with h | ⟨h0, hle⟩
      · exact absurd h hfail
      · omega

/-! ## The verdict -/

def Other (e : Event Call) : Prop := e ≠ .printed verdict

theorem Other.line {x : Text} (h : apart verdict x) : Other (.printed x) :=
  (Event.Aside.line h).1

theorem cleanup_always (addr : BitVec 64) : (cleanup addr).Always Other fun _ => True := by
  rw [cleanup]
  split
  · exact ⟨nofun, fun _ => ⟨nofun, fun _ => trivial⟩⟩
  · trivial

theorem child_always {α : Type} {Q : α → Prop} (i : Nat) (code : Int) :
    (child i code).Always Other Q := ⟨nofun, fun _ => ⟨nofun, fun _ => trivial⟩⟩

theorem checkSecond_always (status : BitVec 32) :
    (checkSecond status 0).Always Other fun ok => ok = 0 := by
  rw [checkSecond]
  split
  · exact ⟨.line (by decide), rfl⟩
  · exact ⟨.line (by decide), rfl⟩

/-- `ok` stays 0. -/
theorem second_always (errno : Call → Int) (addr : BitVec 64) (status : BitVec 32) :
    (second errno addr status 0).Always Other fun ok => ok = 0 := by
  refine ⟨nofun, fun ret => ?_⟩
  refine Proc.Always.ite ?_ ?_
  · refine ⟨nofun, fun succeeds => ?_⟩
    cases succeeds with
    | false =>
      exact ⟨.line (by decide),
        (cleanup_always addr).bind fun _ _ => checkSecond_always status⟩
    | true =>
      refine ⟨nofun, fun r => ?_⟩
      cases r with
      | none => exact child_always 2 0
      | some pid => exact fun status' => checkSecond_always status'
  · exact ⟨.line (apart_append (by decide) _), rfl⟩

theorem finish_always : (finish 0).Always Other fun _ => True :=
  ⟨nofun, fun _ => ⟨nofun, fun _ => ⟨nofun, fun _ => trivial⟩⟩⟩

/-- The status of the first child is neither 0 nor what is left of an `exit`. -/
theorem afterFirst_always (errno : Call → Int) (addr : BitVec 64) {status : BitVec 32}
    (h : status = exitStatus 255 ∨ ¬ WIFEXITED status) :
    (afterFirst errno addr status).Always Other fun _ => True := by
  rw [afterFirst]
  split
  · exact ⟨.line (apart_append (by decide) _),
      (cleanup_always addr).bind fun _ _ => trivial⟩
  · next hexited =>
    have hstatus : status = exitStatus 255 := h.resolve_right fun hn => hexited hn
    have hswitch : (switchStatus addr status 1).Always Other fun ok => ok = 0 := by
      rw [switchStatus, hstatus, if_neg (by decide), if_neg (by decide)]
      exact ⟨.line (apart_append (by decide) _),
        (cleanup_always addr).bind fun _ _ => rfl⟩
    refine hswitch.bind fun ok hok => ?_
    rw [hok]
    exact (second_always errno addr status).bind fun ok hok => hok ▸ finish_always

/-- How the first child ends. -/
theorem child_ended (k : Kernel) (p : Path) : ∃ e : Ended,
    (run k.world (child 1 255 : Proc Call Reply Unit) p []).ended = e ∧
      ∃ status, e.status = some status ∧ (status = exitStatus 255 ∨ ¬ WIFEXITED status) := by
  have hkill : ∀ d : Death, ∃ status, (Ended.killed d).status = some status ∧
      (status = exitStatus 255 ∨ ¬ WIFEXITED status) :=
    fun d => ⟨_, rfl, .inr d.status_macros.2.2.1⟩
  rw [child, call_bind]
  cases hstore : k.memcpy 1 with
  | some d =>
    rw [run_call_kill (d := d) (by simp [Kernel.world, hstore, answerOf])]
    exact ⟨_, rfl, hkill d⟩
  | none =>
    rw [run_call (r := ()) (by simp [Kernel.world, hstore, answerOf]), call_bind]
    cases hexit : k.exit 1 with
    | some d =>
      rw [run_call_kill (d := d) (by simp [Kernel.world, hexit, answerOf])]
      exact ⟨_, rfl, hkill d⟩
    | none =>
      rw [run_call (r := ()) (by simp [Kernel.world, hexit, answerOf])]
      exact ⟨_, rfl, _, rfl, .inl rfl⟩

theorem afterFill_other (k : Kernel) (p : Path) (kids : List Ended) :
    (run k.world (afterFill k.errno) p kids).All Other := by
  rw [afterFill, call_bind, run_call (show k.world.answer p .mmap = .val k.mmap from rfl)]
  refine Life.All.after ?_ nofun
  rw [call_bind, run_call (show k.world.answer p (.fork 1) = .val (k.fork 1) from rfl)]
  refine Life.All.after ?_ nofun
  cases k.fork 1 with
  | false =>
    refine Proc.Always.run (Q := fun _ => True) ?_ k.world p kids
    exact ⟨.line (apart_append (by decide) _),
      (cleanup_always k.mmap).bind fun _ _ => trivial⟩
  | true =>
    rw [forkIf_true_bind, run_fork]
    obtain ⟨e, hended, status, hwait, hstatus⟩ := child_ended k (p ++ [kids.length])
    refine Life.All.withChild ?_ ?_ nofun _
    · show (run k.world (waitpid kids.length >>= fun status => afterFirst k.errno k.mmap status) p
        (kids ++ [(run k.world (child 1 255 : Proc Call Reply Unit) _ []).ended])).All Other
      rw [hended, waitpid_bind, run_wait hwait]
      exact (afterFirst_always k.errno k.mmap hstatus).run k.world p _
    · exact (child_always (Q := fun _ => True) 1 255).run k.world _ []

theorem fill_always : ∀ fuel i numBytes,
    (fill fuel i numBytes).Always Other fun _ => True := by
  intro fuel
  induction fuel with
  | zero => exact fun i numBytes => trivial
  | succ fuel ih =>
    intro i numBytes
    refine ⟨nofun, fun r => ?_⟩
    refine Proc.Always.ite ?_ ?_
    · exact ih (i + 1) _
    · trivial

/-- **The verdict is never printed**, whatever the calls return. -/
theorem not_prints (k : Kernel) (fuel : Nat) : ¬ (k.life fuel).Prints verdict := by
  have hall : (k.life fuel).All Other := by
    rw [Kernel.life, main, call_bind, run_call (show k.world.answer [] .open = .val k.fd from rfl)]
    refine Life.All.after ?_ nofun
    rw [call_bind, run_call (show k.world.answer [] .getpagesize = .val k.getpagesize from rfl)]
    refine Life.All.after ?_ nofun
    refine (fill_always fuel 0 _).run_bind k.world (fun filled _ p kids => ?_) [] []
    cases filled with
    | none => exact Life.All.ends _
    | some n => exact afterFill_other k p kids
  exact fun h => hall.1 _ h rfl

/-- **`mprotect02` does what it should** exactly when the page is filled without a failed write
and something else is wrong: the verdict is never printed. -/
theorem fillAndVerdict_iff (k : Kernel) : FillAndVerdict k ↔ Fills k ∧ ¬ Expected k := by
  rw [FillAndVerdict]
  have hfill : FillRight k ↔ Fills k := ⟨fills_of_right, right_of_fills⟩
  have hnever : ¬ ∃ fuel, (k.life fuel).Prints verdict := fun ⟨fuel, h⟩ => not_prints k fuel h
  rw [hfill, iff_false_left hnever]

/-- Nothing goes wrong: every write is complete, and the first child alone is stopped. -/
def Kernel.faultless : Kernel where
  fd := 3
  getpagesize := 4096
  write _ n := n
  mmap := 0x7f0000000000
  fork _ := true
  memcpy i := if i = 1 then some ⟨SIGSEGV, true, by decide⟩ else none
  exit _ := none
  mprotect := 0
  munmap := 0
  close := 0
  unlink := 0
  errno _ := 0
  page_pos := by decide
  page_lt := by decide
  write_range _ n := .inr ⟨Int.natCast_nonneg n, Int.le_refl _⟩

theorem not_fillAndVerdict_faultless : ¬ FillAndVerdict Kernel.faultless := by
  intro h
  have hexpected : Expected Kernel.faultless := ⟨⟨rfl, _, rfl, rfl⟩, rfl, rfl, rfl, rfl⟩
  obtain ⟨fuel, hprints⟩ := h.2.mpr hexpected
  exact not_prints _ fuel hprints

end Syscalls.Mprotect02
