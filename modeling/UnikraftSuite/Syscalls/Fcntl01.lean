import UnikraftSuite.Lib.CStdio
import UnikraftSuite.Lib.Calls
import Mathlib.Order.Bounds.Basic

/-!
# `fcntl01`

`main` opens eight files, closes four of them, duplicates a descriptor three times, and sets and
reads flags. Each result is compared with what is expected, but two of the three descriptors
only by an inequality with one bound, and the flags only by whether one of the bits is there.

- `checks_straight`: which results pass all comparisons, and the calls made then.
- `callsRight_iff`: when these calls are as `CallsRight` asks.
- `verdictEarned_iff`: what the comparisons leave open.
-/

namespace Syscalls.Fcntl01

open PyStr CStdio Stateful Calls

/-! ## The program -/

def O_WRONLY : BitVec 32 := 0x1

def O_APPEND : BitVec 32 := 0x400

def O_NDELAY : BitVec 32 := 0x800

def O_SYNC : BitVec 32 := 0x101000

/-- The calls; where there are several with one command, `n` counts them. -/
inductive Call where
  | openFile (fname : Text)
  | close (fd : Int)
  | dupfd (n : Nat) (fd arg : Int)
  | getfl (n : Nat) (fd : Int)
  | setfl (n : Nat) (fd : Int) (flags : BitVec 32)
  | getfd (n : Nat) (fd : Int)
  | setfd (fd flags : Int)
  | unlink (fname : Text)
  deriving DecidableEq

/-- The results of all calls, the number of the process, and what is in `fd` at first. -/
structure Kernel where
  answer : Call → Result
  mypid : Int
  garbage : Nat → Int

abbrev Machine := Calls.Machine Call

abbrev Prog := Stateful.Prog Machine

abbrev Event := Call × Result

def sys (k : Kernel) (c : Call) : Prog Int := syscall (fun _ c => k.answer c) c

/-- `%x`. -/
def hex (v : BitVec 32) : Text := Nat.toDigits 16 v.toNat

/-- An `int` as a word of flags. -/
def word (flags : Int) : BitVec 32 := BitVec.ofInt 32 flags

/-- A line that ends with a number. -/
def told (x : Text) (n : Int) : Text := x ++ (str n ++ "\n".toList)

def fname (k : Kernel) (i : Nat) : Text :=
  "./fcntl".toList ++ (str i ++ (".".toList ++ str k.mypid))

/-- A turn of the loop that opens the files. -/
def openTurn (k : Kernel) (i : Nat) (fd : Nat → Int) : Prog (Nat → Int) := do
  let r ← sys k (.openFile (fname k i))
  exitIf (r = -1) fun _ => "open failed\n".toList
  return Function.update fd i r

def closeFour (k : Kernel) (fd : Nat → Int) : Prog Unit := do
  let _ ← sys k (.close (fd 2))
  let _ ← sys k (.close (fd 3))
  let _ ← sys k (.close (fd 4))
  let _ ← sys k (.close (fd 5))
  return ()

/-- The three `F_DUPFD`, with `fd2`; they leave `fd`. -/
def dupChecks (k : Kernel) (fd2 : Nat → Int) : Prog (Nat → Int) := do
  let fd := fd2
  let r ← sys k (.dupfd 0 (fd 1) 1)
  let fd := Function.update fd 2 r
  exitIf (fd 2 = -1) (told "fcntl(.., 1) failed, error number ".toList)
  exitIf (fd 2 < fd2 2) fun _ => "new fd has unexpected value: got ".toList ++
    (str (fd 2) ++ told ", expected greater than ".toList 5)
  let r ← sys k (.dupfd 1 (fd 1) (fd2 3))
  let fd := Function.update fd 4 r
  exitIf (fd 4 < 0) (told "fcntl(.., fd2[3]) failed, error number ".toList)
  exitIf (fd 4 < fd2 3) fun _ => "new fd has unexpected value, got ".toList ++
    (str (fd 4) ++ told ", expect greater than ".toList (fd2 3))
  let r ← sys k (.dupfd 2 (fd 1) (fd2 5))
  let fd := Function.update fd 8 r
  exitIf (fd 8 < 0) (told "fcntl(.., fd2[5]) failed, error number ".toList)
  exitIf (fd 8 ≠ fd2 5) fun _ => "new fd has unexpected value: got ".toList ++
    (str (fd 8) ++ told ", expected ".toList (fd2 5))
  return fd

/-- `F_GETFL`, and the line for flags that have no bit of `mask`. -/
def getFlags (k : Kernel) (n : Nat) (fd : Int) (mask : BitVec 32) (said : Text)
    (expected : BitVec 32) : Prog Unit := do
  let flags ← sys k (.getfl n fd)
  exitIf (word flags &&& mask = 0) fun _ =>
    said ++ (hex (word flags) ++ (", expected 0x".toList ++ (hex expected ++ "\n".toList)))

/-- The five `F_GETFL` and the four `F_SETFL` between them. -/
def flagChecks (k : Kernel) (fd : Int) : Prog Unit := do
  getFlags k 0 fd O_WRONLY "unexpected flag 0x".toList O_WRONLY
  let r ← sys k (.setfl 1 fd O_NDELAY)
  exitIf (r = -1) fun _ => "fcntl(.., O_NDELAY) failed\n".toList
  getFlags k 1 fd (O_NDELAY ||| O_WRONLY) "unexpected flag 0x".toList (O_NDELAY ||| O_WRONLY)
  let r ← sys k (.setfl 2 fd O_APPEND)
  exitIf (r = -1) (told "fcntl(.., O_APPEND) failed, error number ".toList)
  getFlags k 2 fd (O_APPEND ||| O_WRONLY) "unexpected flag ox".toList (O_APPEND ||| O_WRONLY)
  let r ← sys k (.setfl 3 fd (O_NDELAY ||| O_APPEND))
  exitIf (r < 0) fun _ => "fcntl(.., O_NDELAY|O_APPEND) failed\n".toList
  getFlags k 3 fd (O_NDELAY ||| O_APPEND ||| O_WRONLY) "unexpected flag 0x".toList
    (O_NDELAY ||| O_APPEND ||| O_SYNC ||| O_WRONLY)
  let r ← sys k (.setfl 4 fd 0)
  exitIf (r = -1) fun _ => "fcntl(.., 0) failed\n".toList
  getFlags k 4 fd O_WRONLY "unexpected flag 0x".toList O_WRONLY

/-- The two `F_GETFD`, and the `F_SETFD` between them. -/
def cloexecChecks (k : Kernel) (fd : Int) : Prog Unit := do
  let flags ← sys k (.getfd 0 fd)
  exitIf (flags < 0) fun e => "fcntl(.., F_GETFD, ..) #1 failed, error number ".toList ++ str e
  exitIf (flags ≠ 0) fun _ => "unexpected flags got 0x".toList ++
    (hex (word flags) ++ (" expected 0x".toList ++ (hex 0 ++ "\n".toList)))
  let flags ← sys k (.setfd fd 1)
  exitIf (flags = -1) fun _ => "fcntl(.., F_SETFD, ..) failed\n".toList
  let flags ← sys k (.getfd 1 fd)
  exitIf (flags = -1) (told "fcntl(.., F_GETFD, ..) #2 failed, error number ".toList)
  exitIf (flags ≠ 1) fun _ => "unexpected flags, got 0x".toList ++
    (hex (word flags) ++ (", expected 0x".toList ++ (hex 1 ++ "\n".toList)))

/-- A turn of the loop that closes all of `fd`, the last element of which is not assigned. -/
def closeTurn (k : Kernel) (fd : Nat → Int) (i : Nat) (_ : Unit) : Prog Unit := do
  let _ ← sys k (.close (fd i))
  return ()

/-- A turn of the loop that removes the files. -/
def unlinkTurn (k : Kernel) (i : Nat) (_ : Unit) : Prog Unit := do
  let r ← sys k (.unlink (fname k i))
  exitIf (r = -1) fun e => "unlinking ".toList ++
    (fname k i ++ told " failed, error number ".toList e)

/-- All of `main` in front of the verdict. -/
def checks (k : Kernel) : Prog Unit := do
  let fd2 ← forLoop (openTurn k) 0 8 k.garbage
  closeFour k fd2
  let fd ← dupChecks k fd2
  flagChecks k (fd 2)
  cloexecChecks k (fd 2)
  forLoop (closeTurn k fd) 0 10 ()
  forLoop (unlinkTurn k) 0 8 ()

def verdict : Text := "test succeeded\n".toList

def main (k : Kernel) : Prog Unit := do
  checks k
  printf verdict

/-! ## What it should do -/

/-- The machine behind `main`. -/
def final (k : Kernel) : Machine := (exec (main k) .start).2

/-- The descriptors in use behind a call. -/
def tableStep (T : Set Int) : Event → Set Int
  | (.openFile _, r) => if r.ret = -1 then T else insert r.ret T
  | (.close fd, _) => T \ {fd}
  | (.dupfd _ _ _, r) => if r.ret = -1 then T else insert r.ret T
  | _ => T

/-- Where an `F_DUPFD` is called with these descriptors in use, it returns the lowest free one
that is large enough. -/
def DupRight (T : Set Int) : Event → Prop
  | (.dupfd _ _ arg, r) => IsLeast {d | arg ≤ d ∧ d ∉ T} r.ret
  | _ => True

/-- Each `F_DUPFD` does. -/
def DupsRight (T : Set Int) (log : List Event) : Prop := Along tableStep DupRight T log

/-- The flags reported have `O_WRONLY` and every bit of `x`; a call that fails reports none. -/
def Reports (x : BitVec 32) (r : Result) : Prop :=
  r.ret ≠ -1 ∧ word r.ret &&& (x ||| O_WRONLY) = x ||| O_WRONLY

/-- The flags last set with success, behind a call. -/
def flagsStep (last : Option (BitVec 32)) : Event → Option (BitVec 32)
  | (.setfl _ _ x, r) => if r.ret = -1 then last else some x
  | _ => last

/-- Where an `F_GETFL` is called behind such flags, it reports them. -/
def FlagRight (last : Option (BitVec 32)) : Event → Prop
  | (.getfl _ _, r) => ∀ x ∈ last, Reports x r
  | _ => True

/-- Each `F_GETFL` does. -/
def FlagsRight (last : Option (BitVec 32)) (log : List Event) : Prop :=
  Along flagsStep FlagRight last log

/-- What an `F_GETFD` reads back. -/
def readBack : Event → Option Int
  | (.getfd _ _, r) => some r.ret
  | _ => none

/-- The calls are right, where the descriptors in `T` are in use at first: each `F_DUPFD` and each
`F_GETFL`, and `FD_CLOEXEC` is read back as it was set. -/
structure CallsRight (T : Set Int) (log : List Event) : Prop where
  dups : DupsRight T log
  flags : FlagsRight none log
  cloexec : log.filterMap readBack = [0, 1]

/-- The verdict is printed only if that holds. -/
def VerdictEarned (T : Set Int) (m : Machine) : Prop := verdict ∈ m.out → CallsRight T m.log

/-! ## The results that pass -/

section Results

variable (k : Kernel)

/-- `fd` in front of turn `i` of the loop that opens the files. -/
def opened : Nat → Nat → Int
  | 0 => k.garbage
  | i + 1 => Function.update (opened i) i (k.answer (.openFile (fname k i))).ret

def fd2 (i : Nat) : Int := opened k 8 i

/-- The results of the three `F_DUPFD`. -/
def dup : Nat → Result
  | 0 => k.answer (.dupfd 0 (fd2 k 1) 1)
  | 1 => k.answer (.dupfd 1 (fd2 k 1) (fd2 k 3))
  | _ => k.answer (.dupfd 2 (fd2 k 1) (fd2 k 5))

/-- The flags set in front of the `F_GETFL` number `n`. -/
def newFlags : Nat → BitVec 32
  | 1 => O_NDELAY
  | 2 => O_APPEND
  | 3 => O_NDELAY ||| O_APPEND
  | _ => 0

def getfl (n : Nat) : Result := k.answer (.getfl n (dup k 0).ret)

def setfl (n : Nat) : Result := k.answer (.setfl n (dup k 0).ret (newFlags n))

def getfd (n : Nat) : Result := k.answer (.getfd n (dup k 0).ret)

/-- All comparisons of `main` turn out well. -/
structure Passes : Prop where
  opens : ∀ i < 8, (k.answer (.openFile (fname k i))).ret ≠ -1
  dups : ((dup k 0).ret ≠ -1 ∧ fd2 k 2 ≤ (dup k 0).ret) ∧
    (0 ≤ (dup k 1).ret ∧ fd2 k 3 ≤ (dup k 1).ret) ∧
      0 ≤ (dup k 2).ret ∧ (dup k 2).ret = fd2 k 5
  flags : ∀ n < 5, word (getfl k n).ret &&& (newFlags n ||| O_WRONLY) ≠ 0
  sets : (setfl k 1).ret ≠ -1 ∧ (setfl k 2).ret ≠ -1 ∧ 0 ≤ (setfl k 3).ret ∧ (setfl k 4).ret ≠ -1
  cloexec : (getfd k 0).ret = 0 ∧ (k.answer (.setfd (dup k 0).ret 1)).ret ≠ -1 ∧
    (getfd k 1).ret = 1
  unlinks : ∀ i < 8, (k.answer (.unlink (fname k i))).ret ≠ -1

/-- A call with its result. -/
def made (c : Call) : Event := (c, k.answer c)

def openCalls : List Event := (List.range' 0 8).flatMap fun i => [made k (.openFile (fname k i))]

def closeCalls : List Event :=
  [made k (.close (fd2 k 2)), made k (.close (fd2 k 3)), made k (.close (fd2 k 4)),
    made k (.close (fd2 k 5))]

def dupCalls : List Event :=
  [made k (.dupfd 0 (fd2 k 1) 1), made k (.dupfd 1 (fd2 k 1) (fd2 k 3)),
    made k (.dupfd 2 (fd2 k 1) (fd2 k 5))]

def flagCalls (fd : Int) : List Event :=
  [made k (.getfl 0 fd), made k (.setfl 1 fd (newFlags 1)), made k (.getfl 1 fd),
    made k (.setfl 2 fd (newFlags 2)), made k (.getfl 2 fd), made k (.setfl 3 fd (newFlags 3)),
    made k (.getfl 3 fd), made k (.setfl 4 fd (newFlags 4)), made k (.getfl 4 fd)]

def cloexecCalls (fd : Int) : List Event :=
  [made k (.getfd 0 fd), made k (.setfd fd 1), made k (.getfd 1 fd)]

/-- `fd` behind the three `F_DUPFD`. -/
def dupped : Nat → Int :=
  Function.update (Function.update (Function.update (fd2 k) 2 (dup k 0).ret) 4 (dup k 1).ret) 8
    (dup k 2).ret

def lastCalls : List Event :=
  ((List.range' 0 10).flatMap fun i => [made k (.close (dupped k i))]) ++
    (List.range' 0 8).flatMap fun i => [made k (.unlink (fname k i))]

/-! ## The run -/

variable {k}

/-- A line that begins with another letter than the verdict. -/
theorem line {x : Text} (h : apart verdict x) (y : Text) : verdict ≠ x ++ y :=
  (ne_of_apart (apart_append h y)).symm

theorem sys_straight (c : Call) : Straight verdict (sys k c) True (k.answer c).ret [made k c] :=
  .syscall c

/-- A call and the comparison behind it. -/
theorem sys_exitIf_straight (c : Call) (C : Int → Prop) [∀ r, Decidable (C r)]
    {msg : Int → Int → Text} (h : ∀ r e, verdict ≠ msg r e) :
    Straight verdict (do let r ← sys k c; exitIf (C r) (msg r)) (¬ C (k.answer c).ret) ()
      [made k c] :=
  ((sys_straight c).bind (.exitIf _ (h _))).congr (iff_of_eq (true_and _)) rfl

theorem opens_straight : Straight verdict (forLoop (openTurn k) 0 8 k.garbage)
    (∀ i < 8, (k.answer (.openFile (fname k i))).ret ≠ -1) (fd2 k) (openCalls k) := by
  have hturn : ∀ i, Straight verdict (openTurn k i (opened k i))
      ((k.answer (.openFile (fname k i))).ret ≠ -1) (opened k (i + 1))
        [made k (.openFile (fname k i))] := by
    intro i
    apply Straight.congr
    · exact .bind (sys_straight _) (.bind (.exitIf _ fun _ => by decide) (.ret _))
    · simp
    · rfl
  have hloop := Straight.forLoop hturn 8 0
  simp only [Nat.zero_add] at hloop
  exact hloop

theorem closeFour_straight : Straight verdict (closeFour k (fd2 k)) True () (closeCalls k) := by
  apply Straight.congr
  · exact .bind (sys_straight _) (.bind (sys_straight _) (.bind (sys_straight _)
      (.bind (sys_straight _) (.ret _))))
  · simp
  · rfl

theorem dupChecks_straight : Straight verdict (dupChecks k (fd2 k))
    (((dup k 0).ret ≠ -1 ∧ fd2 k 2 ≤ (dup k 0).ret) ∧
      (0 ≤ (dup k 1).ret ∧ fd2 k 3 ≤ (dup k 1).ret) ∧
        0 ≤ (dup k 2).ret ∧ (dup k 2).ret = fd2 k 5)
    (dupped k) (dupCalls k) := by
  apply Straight.congr
  · exact .bind (sys_straight _) (.bind (.exitIf _ fun _ => line (by decide) _)
      (.bind (.exitIf _ fun _ => line (by decide) _) (.bind (sys_straight _)
        (.bind (.exitIf _ fun _ => line (by decide) _)
          (.bind (.exitIf _ fun _ => line (by decide) _) (.bind (sys_straight _)
            (.bind (.exitIf _ fun _ => line (by decide) _)
              (.bind (.exitIf _ fun _ => line (by decide) _) (.ret _)))))))))
  · show (True ∧ ¬ (dup k 0).ret = -1 ∧ ¬ (dup k 0).ret < fd2 k 2 ∧ True ∧ ¬ (dup k 1).ret < 0 ∧
      ¬ (dup k 1).ret < fd2 k 3 ∧ True ∧ ¬ (dup k 2).ret < 0 ∧ ¬ (dup k 2).ret ≠ fd2 k 5 ∧ True) ↔ _
    simp only [true_and, and_true, not_lt, not_not, and_assoc, ne_eq]
  · rfl

theorem getFlags_straight (n : Nat) (fd : Int) (mask expected : BitVec 32) {said : Text}
    (h : apart verdict said) : Straight verdict (getFlags k n fd mask said expected)
      (word (k.answer (.getfl n fd)).ret &&& mask ≠ 0) () [made k (.getfl n fd)] :=
  sys_exitIf_straight _ (fun r => word r &&& mask = 0) fun _ _ => line h _

theorem flagChecks_straight : Straight verdict (flagChecks k (dup k 0).ret)
    ((∀ n < 5, word (getfl k n).ret &&& (newFlags n ||| O_WRONLY) ≠ 0) ∧
      (setfl k 1).ret ≠ -1 ∧ (setfl k 2).ret ≠ -1 ∧ 0 ≤ (setfl k 3).ret ∧ (setfl k 4).ret ≠ -1)
    () (flagCalls k (dup k 0).ret) := by
  have hget : ∀ n {said : Text} (expected : BitVec 32), apart verdict said →
      Straight verdict (getFlags k n (dup k 0).ret (newFlags n ||| O_WRONLY) said expected)
        (word (getfl k n).ret &&& (newFlags n ||| O_WRONLY) ≠ 0) ()
          [made k (.getfl n (dup k 0).ret)] := fun n _ expected h =>
    getFlags_straight n _ _ expected h
  apply Straight.congr
  · exact .bind (hget 0 _ (by decide)) (.bind (sys_straight _)
      (.bind (.exitIf _ fun _ => by decide) (.bind (hget 1 _ (by decide)) (.bind (sys_straight _)
        (.bind (.exitIf _ fun _ => line (by decide) _) (.bind (hget 2 _ (by decide))
          (.bind (sys_straight _) (.bind (.exitIf _ fun _ => by decide)
            (.bind (hget 3 _ (by decide)) (.bind (sys_straight _)
              (.bind (.exitIf _ fun _ => by decide) (hget 4 _ (by decide)))))))))))))
  · constructor
    · rintro ⟨h0, -, hs1, h1, -, hs2, h2, -, hs3, h3, -, hs4, h4⟩
      refine ⟨fun n hn => ?_, hs1, hs2, Int.not_lt.mp hs3, hs4⟩
      obtain rfl | rfl | rfl | rfl | rfl : n = 0 ∨ n = 1 ∨ n = 2 ∨ n = 3 ∨ n = 4 := by omega
      · exact h0
      · exact h1
      · exact h2
      · exact h3
      · exact h4
    · rintro ⟨h, hs1, hs2, hs3, hs4⟩
      exact ⟨h 0 (by decide), trivial, hs1, h 1 (by decide), trivial, hs2, h 2 (by decide), trivial,
        Int.not_lt.mpr hs3, h 3 (by decide), trivial, hs4, h 4 (by decide)⟩
  · rfl

theorem cloexecChecks_straight : Straight verdict (cloexecChecks k (dup k 0).ret)
    ((getfd k 0).ret = 0 ∧ (k.answer (.setfd (dup k 0).ret 1)).ret ≠ -1 ∧ (getfd k 1).ret = 1)
    () (cloexecCalls k (dup k 0).ret) := by
  apply Straight.congr
  · exact .bind (sys_straight _) (.bind (.exitIf _ fun _ => line (by decide) _)
      (.bind (.exitIf _ fun _ => line (by decide) _) (.bind (sys_straight _)
        (.bind (.exitIf _ fun _ => by decide) (.bind (sys_straight _)
          (.bind (.exitIf _ fun _ => line (by decide) _)
            (.exitIf _ fun _ => line (by decide) _)))))))
  · show (True ∧ ¬ (getfd k 0).ret < 0 ∧ ¬ (getfd k 0).ret ≠ 0 ∧ True ∧
      ¬ (k.answer (.setfd (dup k 0).ret 1)).ret = -1 ∧ True ∧ ¬ (getfd k 1).ret = -1 ∧
        ¬ (getfd k 1).ret ≠ 1) ↔ _
    simp only [true_and, ne_eq, not_not]
    omega
  · rfl

theorem last_straight :
    Straight verdict (do forLoop (closeTurn k (dupped k)) 0 10 (); forLoop (unlinkTurn k) 0 8 ())
      (∀ i < 8, (k.answer (.unlink (fname k i))).ret ≠ -1) () (lastCalls k) := by
  have hclose : ∀ i, Straight verdict (closeTurn k (dupped k) i ()) True ()
      [made k (.close (dupped k i))] := by
    intro i
    apply Straight.congr
    · exact .bind (sys_straight _) (.ret _)
    · simp
    · rfl
  have hunlink : ∀ i, Straight verdict (unlinkTurn k i ())
      ((k.answer (.unlink (fname k i))).ret ≠ -1) () [made k (.unlink (fname k i))] := fun i =>
    sys_exitIf_straight _ (fun r => r = -1) fun _ _ => line (by decide) _
  have hloops := (Straight.forLoop hclose 10 0).bind (Straight.forLoop hunlink 8 0)
  simp only [Nat.zero_add, implies_true, true_and] at hloops
  exact hloops

/-- **All comparisons**: which results pass, and the calls made then. -/
theorem checks_straight : Straight verdict (checks k) (Passes k) ()
    (openCalls k ++ (closeCalls k ++ (dupCalls k ++ (flagCalls k (dup k 0).ret ++
      (cloexecCalls k (dup k 0).ret ++ lastCalls k))))) := by
  apply Straight.congr
  · exact .bind opens_straight (.bind closeFour_straight (.bind dupChecks_straight
      (.bind flagChecks_straight (.bind cloexecChecks_straight last_straight))))
  · constructor
    · rintro ⟨hopens, -, hdups, ⟨hflags, hsets⟩, hcloexec, hunlinks⟩
      exact ⟨hopens, hdups, hflags, hsets, hcloexec, hunlinks⟩
    · intro h
      exact ⟨h.opens, trivial, h.dups, ⟨h.flags, h.sets⟩, h.cloexec, h.unlinks⟩
  · rfl

end Results

/-! ## The calls -/

/-- A call that no part of `CallsRight` is about. -/
structure Aside (e : Event) : Prop where
  dup : ∀ T, DupRight T e
  flag : ∀ last, FlagRight last e
  step : ∀ last, flagsStep last e = last
  readBack : readBack e = none

section Calls

variable (T : Set Int) (k : Kernel)

theorem opens_aside : ∀ e ∈ openCalls k, Aside e := by
  intro e he
  obtain ⟨i, -, he⟩ := List.mem_flatMap.mp he
  rw [List.mem_singleton.mp he]
  exact ⟨fun _ => trivial, fun _ => trivial, fun _ => rfl, rfl⟩

theorem closes_aside : ∀ e ∈ closeCalls k, Aside e := by
  have hclose : ∀ fd, Aside (made k (.close fd)) := fun fd =>
    ⟨fun _ => trivial, fun _ => trivial, fun _ => rfl, rfl⟩
  simp only [closeCalls, List.forall_mem_cons]
  exact ⟨hclose _, hclose _, hclose _, hclose _, nofun⟩

theorem lasts_aside : ∀ e ∈ lastCalls k, Aside e := by
  intro e he
  rcases List.mem_append.mp he with he | he
  · obtain ⟨i, -, he⟩ := List.mem_flatMap.mp he
    rw [List.mem_singleton.mp he]
    exact ⟨fun _ => trivial, fun _ => trivial, fun _ => rfl, rfl⟩
  · obtain ⟨i, -, he⟩ := List.mem_flatMap.mp he
    rw [List.mem_singleton.mp he]
    exact ⟨fun _ => trivial, fun _ => trivial, fun _ => rfl, rfl⟩

/-- What is in `fd` behind the loop that opens the files. -/
theorem opened_eq {i : Nat} : ∀ {n : Nat}, i < n →
    opened k n i = (k.answer (.openFile (fname k i))).ret := by
  intro n
  induction n with
  | zero => exact nofun
  | succ n ih =>
    intro hi
    rw [opened]
    rcases Nat.eq_or_lt_of_le (Nat.le_of_lt_succ hi) with rfl | hlt
    · rw [Function.update_self]
    · rw [Function.update_of_ne hlt.ne, ih hlt]

/-- The descriptors in use behind the four `close`. -/
def inUse : Set Int :=
  {d | (d ∈ T ∨ ∃ i < 8, d = fd2 k i) ∧ d ≠ fd2 k 2 ∧ d ≠ fd2 k 3 ∧ d ≠ fd2 k 4 ∧ d ≠ fd2 k 5}

variable {k}

theorem opens_table (h : ∀ i < 8, (k.answer (.openFile (fname k i))).ret ≠ -1) :
    (openCalls k).foldl tableStep T = {d | d ∈ T ∨ ∃ i < 8, d = fd2 k i} := by
  have hturn : ∀ n ≤ 8, ((List.range' 0 n).flatMap fun i =>
      [made k (.openFile (fname k i))]).foldl tableStep T = {d | d ∈ T ∨ ∃ i < n, d = fd2 k i} := by
    intro n
    induction n with
    | zero =>
      intro _
      ext d
      simp
    | succ n ih =>
      intro hn
      rw [List.range'_1_concat, List.flatMap_append, List.foldl_append, ih (by omega), Nat.zero_add]
      show (if (k.answer (.openFile (fname k n))).ret = -1 then _ else _) = _
      rw [if_neg (h n hn), ← opened_eq k hn]
      ext d
      rw [Set.mem_insert_iff, Set.mem_ofPred_eq, Set.mem_ofPred_eq, Nat.exists_lt_succ_right,
        or_comm, or_assoc]
      rfl
  exact hturn 8 le_rfl

/-- **The descriptor table** in front of the first `F_DUPFD`. -/
theorem closes_table (h : ∀ i < 8, (k.answer (.openFile (fname k i))).ret ≠ -1) :
    (openCalls k ++ closeCalls k).foldl tableStep T = inUse T k := by
  rw [List.foldl_append, opens_table T h]
  ext d
  show ((((_ ∧ d ≠ fd2 k 2) ∧ d ≠ fd2 k 3) ∧ d ≠ fd2 k 4) ∧ d ≠ fd2 k 5) ↔ _
  rw [and_assoc, and_assoc, and_assoc]
  rfl

variable (k)

/-- What the comparisons leave open: the descriptors returned first and second are the lowest
ones, and not the one that comes third, and all bits of the flags are there. -/
structure Honest : Prop where
  first : IsLeast {d | 1 ≤ d ∧ d ∉ inUse T k} (dup k 0).ret
  second : IsLeast {d | fd2 k 3 ≤ d ∧ d ∉ insert (dup k 0).ret (inUse T k)} (dup k 1).ret
  third : (dup k 0).ret ≠ fd2 k 5 ∧ (dup k 1).ret ≠ fd2 k 5
  flags : ∀ n, 1 ≤ n → n < 5 → Reports (newFlags n) (getfl k n)

/-- All calls that are made if the comparisons turn out well. -/
def calls : List Event :=
  openCalls k ++ (closeCalls k ++ (dupCalls k ++ (flagCalls k (dup k 0).ret ++
    (cloexecCalls k (dup k 0).ret ++ lastCalls k))))

variable {k}

/-- The third `F_DUPFD` returns its argument, which has been closed: it is right if neither of
the others has returned that. -/
theorem third_iff (h : Passes k) :
    IsLeast {d | fd2 k 5 ≤ d ∧ d ∉ insert (dup k 1).ret (insert (dup k 0).ret (inUse T k))}
      (dup k 2).ret ↔ (dup k 0).ret ≠ fd2 k 5 ∧ (dup k 1).ret ≠ fd2 k 5 := by
  rw [h.dups.2.2.2]
  constructor
  · rintro ⟨⟨-, hfree⟩, -⟩
    refine ⟨fun h0 => hfree ?_, fun h1 => hfree ?_⟩
    · exact Set.mem_insert_of_mem _ (h0 ▸ Set.mem_insert _ _)
    · exact h1 ▸ Set.mem_insert _ _
  · rintro ⟨h0, h1⟩
    refine ⟨⟨le_rfl, ?_⟩, fun d hd => hd.1⟩
    rw [Set.mem_insert_iff, Set.mem_insert_iff, not_or, not_or]
    exact ⟨h1.symm, h0.symm, fun hin => hin.2.2.2.2 rfl⟩

theorem dupsRight_calls (h : Passes k) : DupsRight T (calls k) ↔
    IsLeast {d | 1 ≤ d ∧ d ∉ inUse T k} (dup k 0).ret ∧
      IsLeast {d | fd2 k 3 ≤ d ∧ d ∉ insert (dup k 0).ret (inUse T k)} (dup k 1).ret ∧
        (dup k 0).ret ≠ fd2 k 5 ∧ (dup k 1).ret ≠ fd2 k 5 := by
  have hfront : ∀ e ∈ openCalls k ++ closeCalls k, ∀ T, DupRight T e :=
    List.forall_mem_append.mpr ⟨fun e he => (opens_aside k e he).dup,
      fun e he => (closes_aside k e he).dup⟩
  have hback : ∀ e ∈ flagCalls k (dup k 0).ret ++ (cloexecCalls k (dup k 0).ret ++ lastCalls k),
      ∀ T, DupRight T e := by
    refine List.forall_mem_append.mpr ⟨?_, List.forall_mem_append.mpr ⟨?_,
      fun e he => (lasts_aside k e he).dup⟩⟩
    · simp [flagCalls, made, DupRight]
    · simp [cloexecCalls, made, DupRight]
  obtain ⟨⟨h0, -⟩, ⟨h1, -⟩, -⟩ := h.dups
  have h1' : (dup k 1).ret ≠ -1 := by omega
  rw [DupsRight, calls, ← List.append_assoc, along_append (openCalls k ++ closeCalls k),
    along_append (dupCalls k), closes_table T h.opens,
    and_iff_right (along_of_forall hfront T), and_iff_left (along_of_forall hback _),
    ← third_iff T h]
  have hstep0 : tableStep (inUse T k) (made k (.dupfd 0 (fd2 k 1) 1)) =
      insert (dup k 0).ret (inUse T k) := if_neg h0
  have hstep1 : ∀ T, tableStep T (made k (.dupfd 1 (fd2 k 1) (fd2 k 3))) =
      insert (dup k 1).ret T := fun T => if_neg h1'
  simp only [dupCalls, Along, hstep0, hstep1, and_true]
  rfl

theorem flagsRight_calls (h : Passes k) : FlagsRight none (calls k) ↔
    ∀ n, 1 ≤ n → n < 5 → Reports (newFlags n) (getfl k n) := by
  have hfront : ∀ e ∈ openCalls k ++ (closeCalls k ++ dupCalls k), ∀ last,
      FlagRight last e ∧ flagsStep last e = last := by
    refine List.forall_mem_append.mpr ⟨fun e he last => ?_, List.forall_mem_append.mpr
      ⟨fun e he last => ?_, ?_⟩⟩
    · exact ⟨(opens_aside k e he).flag last, (opens_aside k e he).step last⟩
    · exact ⟨(closes_aside k e he).flag last, (closes_aside k e he).step last⟩
    · simp [dupCalls, made, FlagRight, flagsStep]
  have hback : ∀ e ∈ cloexecCalls k (dup k 0).ret ++ lastCalls k, ∀ last, FlagRight last e := by
    refine List.forall_mem_append.mpr ⟨?_, fun e he => (lasts_aside k e he).flag⟩
    simp [cloexecCalls, made, FlagRight]
  rw [FlagsRight, calls, ← List.append_assoc (closeCalls k), ← List.append_assoc,
    along_append (openCalls k ++ (closeCalls k ++ dupCalls k)), along_append (flagCalls k _),
    and_iff_right (along_of_forall (fun e he last => (hfront e he last).1) _),
    foldl_of_forall fun e he last => (hfront e he last).2,
    and_iff_left (along_of_forall hback _)]
  -- each `F_GETFL` but the first stands behind an `F_SETFL` that has succeeded
  obtain ⟨hs1, hs2, hs3, hs4⟩ := h.sets
  have hs3' : (setfl k 3).ret ≠ -1 := by omega
  have hset : ∀ n, (setfl k n).ret ≠ -1 → ∀ last,
      flagsStep last (made k (.setfl n (dup k 0).ret (newFlags n))) = some (newFlags n) :=
    fun n hn last => if_neg hn
  have hstep : ∀ n last, flagsStep last (made k (.getfl n (dup k 0).ret)) = last := fun _ _ => rfl
  have hget : ∀ n last, FlagRight last (made k (.getfl n (dup k 0).ret)) ↔
      ∀ x ∈ last, Reports x (getfl k n) := fun _ _ => .rfl
  have hother : ∀ n last x, FlagRight last (made k (.setfl n (dup k 0).ret x)) ↔ True :=
    fun _ _ _ => .rfl
  simp only [flagCalls, Along, hset 1 hs1, hset 2 hs2, hset 3 hs3', hset 4 hs4, hstep, hget,
    hother, true_and, and_true, Option.mem_some_iff, forall_eq']
  constructor
  · rintro ⟨-, h1, h2, h3, h4⟩ n hpos hn
    obtain rfl | rfl | rfl | rfl : n = 1 ∨ n = 2 ∨ n = 3 ∨ n = 4 := by omega
    · exact h1
    · exact h2
    · exact h3
    · exact h4
  · intro hall
    exact ⟨nofun, hall 1 (by decide) (by decide), hall 2 (by decide) (by decide),
      hall 3 (by decide) (by decide), hall 4 (by decide) (by decide)⟩

theorem cloexec_calls (h : Passes k) : (calls k).filterMap readBack = [0, 1] := by
  have hnone : ∀ {es : List Event}, (∀ e ∈ es, readBack e = none) → es.filterMap readBack = [] :=
    fun h => List.filterMap_eq_nil_iff.mpr h
  have hcloexec : (cloexecCalls k (dup k 0).ret).filterMap readBack =
      [(getfd k 0).ret, (getfd k 1).ret] := rfl
  have hdup : (dupCalls k).filterMap readBack = [] := rfl
  have hflag : (flagCalls k (dup k 0).ret).filterMap readBack = [] := rfl
  simp only [calls, List.filterMap_append, hcloexec, hdup, hflag,
    hnone fun e he => (opens_aside k e he).readBack,
    hnone fun e he => (closes_aside k e he).readBack,
    hnone fun e he => (lasts_aside k e he).readBack, h.cloexec.1, h.cloexec.2.2]
  rfl

theorem callsRight_iff (h : Passes k) : CallsRight T (calls k) ↔ Honest T k := by
  constructor
  · intro hright
    obtain ⟨hfirst, hsecond, hthird⟩ := (dupsRight_calls T h).mp hright.dups
    exact ⟨hfirst, hsecond, hthird, (flagsRight_calls h).mp hright.flags⟩
  · intro hhonest
    refine ⟨?_, (flagsRight_calls h).mpr hhonest.flags, cloexec_calls h⟩
    exact (dupsRight_calls T h).mpr ⟨hhonest.first, hhonest.second, hhonest.third⟩

/-- **The run of `main`**: the verdict, and the calls made if it is printed. -/
theorem final_spec (k : Kernel) :
    (verdict ∈ (final k).out ↔ Passes k) ∧ (Passes k → (final k).log = calls k) :=
  checks_straight.prints

end Calls

/-- **The verdict of `fcntl01`** is printed only where the calls are right, exactly if those that
pass all comparisons are also right in what these leave open. -/
theorem verdictEarned_iff (T : Set Int) (k : Kernel) :
    VerdictEarned T (final k) ↔ (Passes k → Honest T k) := by
  obtain ⟨hprints, hlog⟩ := final_spec k
  refine (imp_congr_left hprints).trans (forall_congr' fun h => ?_)
  rw [hlog h, callsRight_iff T h]

/-- Every call succeeds, with the lowest descriptors from 3 on, but `F_SETFL` does nothing. -/
def Kernel.deaf : Kernel where
  answer
    | .openFile fname => ⟨3 + ((fname.getD 7 '0').toNat - '0'.toNat : Nat), 0⟩
    | .dupfd 0 _ _ => ⟨5, 0⟩
    | .dupfd 1 _ _ => ⟨6, 0⟩
    | .dupfd _ _ _ => ⟨8, 0⟩
    | .getfl _ _ => ⟨O_WRONLY.toNat, 0⟩
    | .getfd n _ => ⟨n, 0⟩
    | _ => ⟨0, 0⟩
  mypid := 1
  garbage _ := 0

/-- The verdict is printed though no flag that has been set is reported. -/
theorem not_verdictEarned_deaf : ¬ VerdictEarned {0, 1, 2} (final .deaf) := by
  intro hsound
  have h : Passes .deaf := by
    refine ⟨?_, ?_, ?_, ?_, ?_, ?_⟩ <;> decide +kernel
  obtain ⟨hprints, hlog⟩ := final_spec .deaf
  have hright := hsound (hprints.mpr h)
  rw [hlog h, callsRight_iff _ h] at hright
  have hreports := hright.flags 1 (by decide) (by decide)
  exact absurd hreports.2 (by decide +kernel)

end Syscalls.Fcntl01
