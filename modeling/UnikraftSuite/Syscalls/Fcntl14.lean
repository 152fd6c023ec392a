import UnikraftSuite.Lib.RangeLocks
import UnikraftSuite.Lib.Runs
import Mathlib.Data.List.Basic

/-!
# `fcntl14`

For each test case the parent locks a range of a file, and a child asks for another one: first
with `F_GETLK`, then with `F_SETLK`, and if that has to fail, also with `F_SETLKW`, while a process
of its own tells the parent by `SIGUSR1` to unlock. The test case says whether it has to fail.

- `Testcase.right`: what it says is what the ranges and the types of the locks make it.
- `verdict`: the child finds out just that, whatever order the steps come in, as long as no alarm
  goes off.
- `run_test`: for a table of test cases, one that is not right makes all behind it fail as well.
- `main_passes`: those that `main` uses are right; of the others, five are not.
-/

namespace Syscalls.Fcntl14

open RangeLocks Runs Relation

/-! ## Test cases -/

/-- The largest offset in a file. -/
def OFFSET_MAX : Int := 0x7fffffffffffffff

/-- A `struct flock`, but for the type. -/
structure Flock where
  whence : Int
  start : Int
  len : Int

/-- What `l_start` is relative to, with the offset `pos` in a file of `size` bytes. -/
def Flock.base (pos size : Nat) (whence : Int) : Option Int :=
  if whence = 0 then some 0
  else if whence = 1 then some pos
  else if whence = 2 then some size
  else none

/-- The bytes that it is about, or `none` where `fcntl` fails. A length below 0 is for those in
front of the start. -/
def Flock.range (pos size : Nat) (l : Flock) : Option Range :=
  (base pos size l.whence).bind fun base =>
    let start := base + l.start
    if start < 0 ∨ OFFSET_MAX < start then none
    else if l.len < 0 then
      if start + l.len < 0 then none else some ⟨(start + l.len).toNat, (-l.len).toNat⟩
    else if l.len = 0 then some ⟨start.toNat, (OFFSET_MAX - start + 1).toNat⟩
    else if OFFSET_MAX < start + l.len - 1 then none
    else some ⟨start.toNat, l.len.toNat⟩

/-- `NOBLOCK` and `WILLBLOCK`. -/
inductive Flag where
  | noblock
  | willblock
  deriving DecidableEq

/-- A row of the table whose `c_type` is not `SKIP`. -/
structure Testcase where
  aType : LType
  a : Flock
  /-- `none` is `SKIP`. -/
  b : Option (LType × Flock)
  cType : LType
  c : Flock
  cFlag : Flag

/-- A row of the table. -/
inductive Row where
  | full (t : Testcase)
  /-- `c_type` is `SKIP`: there are the locks of the parent, and no child. -/
  | skip (aType : LType) (a : Flock) (b : Option (LType × Flock))

def Row.b : Row → Option (LType × Flock)
  | .full t => t.b
  | .skip _ _ b => b

/-- The first lock of the parent is in the way of the child. -/
def Testcase.blocks (pos size : Nat) (t : Testcase) : Bool :=
  match t.a.range pos size, t.c.range pos size with
  | some ra, some rc => decide (t.cType = .wrlck ∨ t.aType = .wrlck) && decide (rc.Meets ra)
  | _, _ => false

/-- There are such locks, and the flag says whether the one is in the way of the other. -/
def Testcase.right (pos size : Nat) (t : Testcase) : Bool :=
  (t.a.range pos size).isSome && (t.c.range pos size).isSome &&
    (decide (t.cFlag = .willblock) == t.blocks pos size)

/-- Without a child, there is nothing but the lock of the parent. -/
def Row.right (pos size : Nat) : Row → Bool
  | .full t => t.right pos size
  | .skip _ a _ => (a.range pos size).isSome

/-! ## The processes -/

inductive Proc where
  | parent
  | child
  deriving DecidableEq

/-- Where the parent is. -/
inductive Main where
  /-- In front of `F_SETLK` for `parent_a`. -/
  | locking
  /-- In front of the one for `parent_b`. -/
  | lockingB
  | forking
  /-- In `sigpause`. -/
  | pausing
  /-- In front of `F_SETLK` with `F_UNLCK`. -/
  | unlocking
  /-- In `waitpid`. -/
  | waiting
  | done
  deriving DecidableEq

/-- Where the child is. -/
inductive Child where
  | unborn
  /-- In front of `F_GETLK`. -/
  | asking
  /-- In front of `F_SETLK`. -/
  | trying
  | forking
  /-- In front of `F_SETLKW`. -/
  | requesting
  /-- In it. -/
  | blocked
  /-- In `waitpid`. -/
  | joining
  /-- In front of `exit`. -/
  | leaving
  | exited
  deriving DecidableEq

/-- Where `do_usleep_child` is. -/
inductive Sleeper where
  | unborn
  | sleeping
  | exited
  deriving DecidableEq

structure State where
  main : Main
  child : Child
  sleeper : Sleeper
  /-- `SIGUSR1` is there for the parent, which holds it back but for in `sigpause`. -/
  usr1 : Bool
  fail : Bool
  /-- The `fail` of the child. -/
  childFail : Bool
  locks : Table Proc

/-- The state in front of a test case, where `fail` is what is left of those before. -/
def State.start (fail : Bool) : State where
  main := .locking
  child := .unborn
  sleeper := .unborn
  usr1 := false
  fail := fail
  childFail := false
  locks := .empty

/-- What `F_GETLK` tells the child, where `none` is `F_UNLCK` and no change of anything else. -/
inductive Getlk (T : Table Proc) (r : Range) (type : LType) : Option (Lock Proc) → Prop
  | unlocked (hnone : ∀ x, ¬ T.Reports .child r type x) : Getlk T r type none
  | found {x : Lock Proc} (hx : T.Reports .child r type x) : Getlk T r type (some x)

/-- Whether this is what the child expects. -/
def Testcase.expects (t : Testcase) : Option (Lock Proc) → Bool
  | none => decide (t.cFlag = .noblock)
  | some x => decide (t.cFlag = .willblock ∧ x.owner = .parent ∧ x.type = t.aType)

/-- Where the child goes behind `F_SETLK`. -/
def Flag.next : Flag → Child
  | .noblock => .leaving
  | .willblock => .forking

/-- A step of a process in a test case. -/
inductive Step (t : Testcase) (pos size : Nat) : State → State → Prop
  | lock {s : State} {r : Range} (hmain : s.main = .locking) (hr : t.a.range pos size = some r)
    (hfree : ¬ s.locks.Blocked .parent r t.aType) :
    Step t pos size s
      { s with main := .lockingB, locks := s.locks.set .parent r (some t.aType) }
  | lockFails {s : State} (hmain : s.main = .locking)
    (hfails : ∀ r, t.a.range pos size = some r → s.locks.Blocked .parent r t.aType) :
    Step t pos size s { s with main := .lockingB, fail := true }
  | skipB {s : State} (hmain : s.main = .lockingB) (hb : t.b = none) :
    Step t pos size s { s with main := .forking }
  | lockB {s : State} {type : LType} {l : Flock} {r : Range} (hmain : s.main = .lockingB)
    (hb : t.b = some (type, l)) (hr : l.range pos size = some r)
    (hfree : ¬ s.locks.Blocked .parent r type) :
    Step t pos size s { s with main := .forking, locks := s.locks.set .parent r (some type) }
  | lockBFails {s : State} {type : LType} {l : Flock} (hmain : s.main = .lockingB)
    (hb : t.b = some (type, l))
    (hfails : ∀ r, l.range pos size = some r → s.locks.Blocked .parent r type) :
    Step t pos size s { s with main := .forking, fail := true }
  | fork {s : State} (hmain : s.main = .forking) :
    Step t pos size s { s with
      main := if t.cFlag = .willblock then .pausing else .waiting
      child := .asking }
  | pause {s : State} (hmain : s.main = .pausing) (husr1 : s.usr1 = true) :
    Step t pos size s { s with main := .unlocking, usr1 := false }
  | unlock {s : State} (hmain : s.main = .unlocking) :
    Step t pos size s { s with main := .waiting, locks := s.locks.drop .parent }
  | wait {s : State} (hmain : s.main = .waiting) (hexited : s.child = .exited) :
    Step t pos size s
      { s with main := .done, fail := s.fail || s.childFail, locks := s.locks.drop .parent }
  | ask {s : State} {r : Range} {x : Option (Lock Proc)} (hchild : s.child = .asking)
    (hr : t.c.range pos size = some r) (hx : Getlk s.locks r t.cType x) :
    Step t pos size s { s with child := .trying, childFail := !t.expects x }
  | askFails {s : State} (hchild : s.child = .asking) (hr : t.c.range pos size = none) :
    Step t pos size s { s with child := .trying, childFail := true }
  | tryLock {s : State} {r : Range} (hchild : s.child = .trying) (hr : t.c.range pos size = some r)
    (hfree : ¬ s.locks.Blocked .child r t.cType) :
    Step t pos size s { s with
      child := t.cFlag.next
      childFail := s.childFail || decide (t.cFlag = .willblock)
      locks := s.locks.set .child r (some t.cType) }
  /-- With `EAGAIN`. -/
  | tryFails {s : State} {r : Range} (hchild : s.child = .trying)
    (hr : t.c.range pos size = some r) (hblocked : s.locks.Blocked .child r t.cType) :
    Step t pos size s { s with
      child := t.cFlag.next
      childFail := s.childFail || decide (t.cFlag = .noblock) }
  /-- With another error. -/
  | tryInvalid {s : State} (hchild : s.child = .trying) (hr : t.c.range pos size = none) :
    Step t pos size s { s with child := t.cFlag.next, childFail := true }
  | forkSleeper {s : State} (hchild : s.child = .forking) :
    Step t pos size s { s with child := .requesting, sleeper := .sleeping }
  | wake {s : State} (hsleeper : s.sleeper = .sleeping) :
    Step t pos size s { s with sleeper := .exited, usr1 := true }
  | request {s : State} {r : Range} (hchild : s.child = .requesting ∨ s.child = .blocked)
    (hr : t.c.range pos size = some r) (hfree : ¬ s.locks.Blocked .child r t.cType) :
    Step t pos size s
      { s with child := .joining, locks := s.locks.set .child r (some t.cType) }
  | block {s : State} {r : Range} (hchild : s.child = .requesting)
    (hr : t.c.range pos size = some r) (hblocked : s.locks.Blocked .child r t.cType) :
    Step t pos size s { s with child := .blocked }
  | requestFails {s : State} (hchild : s.child = .requesting) (hr : t.c.range pos size = none) :
    Step t pos size s { s with child := .joining, childFail := true }
  | join {s : State} (hchild : s.child = .joining) (hsleeper : s.sleeper = .exited) :
    Step t pos size s { s with child := .leaving }
  | exit {s : State} (hchild : s.child = .leaving) :
    Step t pos size s { s with child := .exited, locks := s.locks.drop .child }

/-- The alarm is set while the parent waits for the signal, or for the child to exit. -/
def State.Armed (s : State) : Prop := s.main = .pausing ∨ s.main = .waiting

/-- A step in a test case, or the alarm, which kills the child. What the parent does then is left
out. -/
def TimedStep (t : Testcase) (pos size : Nat) : Timed State → Timed State → Prop :=
  Timed.Step (Step t pos size) State.Armed

/-! ## `run_test` -/

/-- `testcase:%d PASSED` and `testcase:%d FAILED`. -/
inductive Line where
  | passed (test : Nat)
  | failed (test : Nat)
  deriving DecidableEq

/-- `run_test` from test case `i` on, where `fail` is not reset in between, and no alarm goes
off. -/
inductive RunTest (pos size : Nat) :
    (i : Nat) → List Row → (fail : Bool) → List Line → (fail' : Bool) → Prop
  | nil {i : Nat} {fail : Bool} : RunTest pos size i [] fail [] fail
  | full {i : Nat} {t : Testcase} {rows : List Row} {fail fail' : Bool} {s : State}
    {lines : List Line}
    (hrun : ReflTransGen (TimedStep t pos size) (.running (.start fail)) (.running s))
    (hdone : s.main = .done) (hrest : RunTest pos size (i + 1) rows s.fail lines fail') :
    RunTest pos size i (.full t :: rows) fail
      ((if s.fail then .failed (i + 1) else .passed (i + 1)) :: lines) fail'
  /-- `F_SETLK` fails only where there is no such range: nobody else has a lock. -/
  | skip {i : Nat} {aType : LType} {a : Flock} {b : Option (LType × Flock)} {rows : List Row}
    {fail fail' : Bool} {lines : List Line}
    (hrest : RunTest pos size (i + 1) rows (fail || (a.range pos size).isNone ||
      b.any fun l => (l.2.range pos size).isNone) lines fail') :
    RunTest pos size i (.skip aType a b :: rows) fail lines fail'

def testcases : List Row := ([
  -- entire boundary
  ⟨.wrlck, ⟨0, 0, 0⟩, none, .rdlck, ⟨0, 0, 0⟩, .willblock⟩,
  ⟨.wrlck, ⟨0, 0, 0⟩, none, .wrlck, ⟨0, 0, 0⟩, .willblock⟩,
  ⟨.rdlck, ⟨0, 0, 0⟩, none, .rdlck, ⟨0, 0, 0⟩, .noblock⟩,
  ⟨.rdlck, ⟨0, 0, 0⟩, none, .wrlck, ⟨0, 0, 0⟩, .willblock⟩,
  -- start boundary
  ⟨.wrlck, ⟨0, 0, 0⟩, none, .rdlck, ⟨0, 0, 5⟩, .willblock⟩,
  ⟨.wrlck, ⟨0, 0, 0⟩, none, .wrlck, ⟨0, 0, 5⟩, .willblock⟩,
  ⟨.rdlck, ⟨0, 0, 0⟩, none, .rdlck, ⟨0, 0, 5⟩, .noblock⟩,
  ⟨.rdlck, ⟨0, 0, 0⟩, none, .wrlck, ⟨0, 0, 5⟩, .willblock⟩,
  -- end boundary
  ⟨.wrlck, ⟨0, 0, 0⟩, none, .rdlck, ⟨0, 7, 0⟩, .willblock⟩,
  ⟨.wrlck, ⟨0, 0, 0⟩, none, .wrlck, ⟨0, 7, 0⟩, .willblock⟩,
  ⟨.rdlck, ⟨0, 0, 0⟩, none, .rdlck, ⟨0, 7, 0⟩, .noblock⟩,
  ⟨.rdlck, ⟨0, 0, 0⟩, none, .wrlck, ⟨0, 7, 0⟩, .willblock⟩,
  -- entire boundary (less than entire file)
  ⟨.wrlck, ⟨0, 0, 5⟩, none, .rdlck, ⟨0, 0, 5⟩, .willblock⟩,
  ⟨.wrlck, ⟨0, 0, 5⟩, none, .wrlck, ⟨0, 0, 5⟩, .willblock⟩,
  ⟨.rdlck, ⟨0, 0, 5⟩, none, .rdlck, ⟨0, 0, 5⟩, .noblock⟩,
  ⟨.rdlck, ⟨0, 0, 5⟩, none, .wrlck, ⟨0, 0, 5⟩, .willblock⟩,
  -- inside boundary
  ⟨.wrlck, ⟨0, 0, 5⟩, none, .rdlck, ⟨0, 1, 3⟩, .willblock⟩,
  ⟨.wrlck, ⟨0, 0, 5⟩, none, .wrlck, ⟨0, 1, 3⟩, .willblock⟩,
  ⟨.rdlck, ⟨0, 0, 5⟩, none, .rdlck, ⟨0, 1, 3⟩, .noblock⟩,
  ⟨.rdlck, ⟨0, 0, 5⟩, none, .wrlck, ⟨0, 1, 3⟩, .willblock⟩,
  -- cross boundary (inside to after)
  ⟨.wrlck, ⟨0, 0, 5⟩, none, .rdlck, ⟨0, 2, 5⟩, .willblock⟩,
  ⟨.wrlck, ⟨0, 0, 5⟩, none, .wrlck, ⟨0, 2, 5⟩, .willblock⟩,
  ⟨.rdlck, ⟨0, 0, 5⟩, none, .rdlck, ⟨0, 2, 5⟩, .noblock⟩,
  ⟨.rdlck, ⟨0, 0, 5⟩, none, .wrlck, ⟨0, 2, 5⟩, .willblock⟩,
  -- outside boundary (after)
  ⟨.wrlck, ⟨0, 0, 5⟩, none, .rdlck, ⟨0, 6, 0⟩, .noblock⟩,
  ⟨.wrlck, ⟨0, 0, 5⟩, none, .wrlck, ⟨0, 6, 0⟩, .noblock⟩,
  ⟨.rdlck, ⟨0, 0, 5⟩, none, .rdlck, ⟨0, 6, 0⟩, .noblock⟩,
  ⟨.rdlck, ⟨0, 0, 5⟩, none, .wrlck, ⟨0, 6, 0⟩, .noblock⟩,
  -- outside boundary (before)
  ⟨.wrlck, ⟨0, 2, 5⟩, none, .rdlck, ⟨0, 0, 2⟩, .noblock⟩,
  ⟨.wrlck, ⟨0, 2, 5⟩, none, .wrlck, ⟨0, 0, 2⟩, .noblock⟩,
  ⟨.rdlck, ⟨0, 2, 5⟩, none, .rdlck, ⟨0, 0, 2⟩, .noblock⟩,
  ⟨.rdlck, ⟨0, 2, 5⟩, none, .wrlck, ⟨0, 0, 2⟩, .noblock⟩,
  -- cross boundary (before to inside)
  ⟨.wrlck, ⟨0, 4, 0⟩, none, .rdlck, ⟨0, 2, 5⟩, .willblock⟩,
  ⟨.wrlck, ⟨0, 4, 0⟩, none, .wrlck, ⟨0, 2, 5⟩, .willblock⟩,
  ⟨.rdlck, ⟨0, 4, 0⟩, none, .rdlck, ⟨0, 2, 5⟩, .noblock⟩,
  ⟨.rdlck, ⟨0, 4, 0⟩, none, .wrlck, ⟨0, 2, 5⟩, .willblock⟩,
  -- negative values of `l_start`
  ⟨.wrlck, ⟨1, -3, 2⟩, none, .wrlck, ⟨0, 1, 1⟩, .noblock⟩,
  ⟨.wrlck, ⟨1, -3, 2⟩, none, .wrlck, ⟨0, 4, 1⟩, .noblock⟩,
  ⟨.wrlck, ⟨1, -3, 2⟩, none, .wrlck, ⟨0, 2, 1⟩, .willblock⟩,
  ⟨.wrlck, ⟨1, -3, 2⟩, none, .wrlck, ⟨0, 3, 1⟩, .willblock⟩,
  ⟨.wrlck, ⟨1, -3, 5⟩, none, .wrlck, ⟨0, 1, 1⟩, .noblock⟩,
  ⟨.wrlck, ⟨1, -3, 5⟩, none, .wrlck, ⟨0, 1, 1⟩, .noblock⟩,
  ⟨.wrlck, ⟨1, -3, 5⟩, none, .wrlck, ⟨0, 2, 1⟩, .willblock⟩,
  ⟨.wrlck, ⟨1, -3, 5⟩, none, .wrlck, ⟨0, 5, 1⟩, .willblock⟩,
  ⟨.wrlck, ⟨1, -3, 5⟩, none, .wrlck, ⟨0, 6, 1⟩, .willblock⟩,
  -- negative values of `l_len`
  ⟨.wrlck, ⟨1, 2, -2⟩, none, .wrlck, ⟨0, 1, 1⟩, .noblock⟩,
  ⟨.wrlck, ⟨1, -2, -2⟩, none, .wrlck, ⟨0, 4, 1⟩, .noblock⟩,
  ⟨.wrlck, ⟨1, -2, -2⟩, none, .wrlck, ⟨0, 2, 1⟩, .willblock⟩,
  ⟨.wrlck, ⟨1, -2, -2⟩, none, .wrlck, ⟨0, 3, 1⟩, .willblock⟩,
  ⟨.wrlck, ⟨1, 2, -2⟩, none, .wrlck, ⟨0, 5, 1⟩, .noblock⟩,
  ⟨.wrlck, ⟨1, 2, -2⟩, none, .wrlck, ⟨0, 8, 1⟩, .noblock⟩,
  ⟨.wrlck, ⟨1, 2, -2⟩, none, .wrlck, ⟨0, 6, 1⟩, .willblock⟩,
  ⟨.wrlck, ⟨1, 2, -2⟩, none, .wrlck, ⟨0, 7, 1⟩, .willblock⟩,
  ⟨.wrlck, ⟨1, 2, -5⟩, none, .wrlck, ⟨0, 2, 1⟩, .noblock⟩,
  ⟨.wrlck, ⟨1, 2, -5⟩, none, .wrlck, ⟨0, 8, 1⟩, .noblock⟩,
  ⟨.wrlck, ⟨1, 2, -5⟩, none, .wrlck, ⟨0, 3, 1⟩, .willblock⟩,
  ⟨.wrlck, ⟨1, 2, -5⟩, none, .wrlck, ⟨0, 5, 1⟩, .willblock⟩,
  ⟨.wrlck, ⟨1, 2, -5⟩, none, .wrlck, ⟨0, 7, 1⟩, .willblock⟩,
  -- for block 4
  ⟨.wrlck, ⟨0, 0, 0⟩, none, .wrlck, ⟨0, 15, 0⟩, .willblock⟩] : List Testcase).map .full

/-! ## What holds in every state -/

/-- The parent has its lock. -/
def Main.Holds (flag : Flag) : Main → Prop
  | .lockingB | .forking | .pausing | .unlocking => True
  | .waiting => flag = .noblock
  | .locking | .done => False

/-- The child has not tried to lock its range yet. -/
def Child.Early (c : Child) : Prop := c = .unborn ∨ c = .asking ∨ c = .trying

/-- The process that sleeps is there. -/
def Child.Late (c : Child) : Prop :=
  c = .requesting ∨ c = .blocked ∨ c = .joining

/-- Where everyone is, and whether there is a signal. -/
inductive Placed (flag : Flag) : Main → Child → Sleeper → (usr1 : Bool) → Prop
  | before {m : Main} (hm : m = .locking ∨ m = .lockingB ∨ m = .forking) :
    Placed flag m .unborn .unborn false
  | plain {c : Child} (hflag : flag = .noblock)
    (hc : c = .asking ∨ c = .trying ∨ c = .leaving ∨ c = .exited) :
    Placed flag .waiting c .unborn false
  | checking {c : Child} (hflag : flag = .willblock)
    (hc : c = .asking ∨ c = .trying ∨ c = .forking) : Placed flag .pausing c .unborn false
  | sleeping {c : Child} (hflag : flag = .willblock) (hc : c.Late) :
    Placed flag .pausing c .sleeping false
  | woken {c : Child} (hflag : flag = .willblock) (hc : c.Late ∨ c = .leaving ∨ c = .exited) :
    Placed flag .pausing c .exited true
  | freed {m : Main} {c : Child} (hflag : flag = .willblock) (hm : m = .unlocking ∨ m = .waiting)
    (hc : c.Late ∨ c = .leaving ∨ c = .exited) : Placed flag m c .exited false
  | done {sl : Sleeper} (hsl : sl ≠ .sleeping) : Placed flag .done .exited sl false

/-- What the child has to find out: it could lock its range at all, and the flag is right. -/
def Testcase.childOk (pos size : Nat) (t : Testcase) : Bool :=
  (t.c.range pos size).isSome && (decide (t.cFlag = .willblock) == t.blocks pos size)

theorem Testcase.right_eq (pos size : Nat) (t : Testcase) :
    t.right pos size = ((t.a.range pos size).isSome && t.childOk pos size) :=
  Bool.and_assoc _ _ _

/-- From `F_SETLKW` to `waitpid`, the child goes on by itself. -/
theorem Placed.late {flag : Flag} {m : Main} {c c' : Child} {sl : Sleeper} {usr1 : Bool}
    (h : Placed flag m c sl usr1) (hc : c.Late) (hc' : c'.Late) : Placed flag m c' sl usr1 := by
  cases h with
  | before hm => simp [Child.Late] at hc
  | plain hflag hplain => rcases hplain with rfl | rfl | rfl | rfl <;> simp [Child.Late] at hc
  | checking hflag hearly => rcases hearly with rfl | rfl | rfl <;> simp [Child.Late] at hc
  | sleeping hflag _ => exact .sleeping hflag hc'
  | woken hflag _ => exact .woken hflag (.inl hc')
  | freed hflag hm _ => exact .freed hflag hm (.inl hc')
  | done hsl => simp [Child.Late] at hc

structure Inv (t : Testcase) (pos size : Nat) (fail₀ : Bool) (s : State) : Prop where
  placed : Placed t.cFlag s.main s.child s.sleeper s.usr1
  held : ∀ r, t.a.range pos size = some r → s.main.Holds t.cFlag →
    ∀ b, s.locks .parent b = if b ∈ r then some t.aType else none
  free : (t.a.range pos size = none ∨ ¬ s.main.Holds t.cFlag) → ∀ b, s.locks .parent b = none
  child : s.child.Early → ∀ b, s.locks .child b = none
  blocked : s.child = .blocked → t.c.range pos size ≠ none
  asked : s.child ≠ .unborn → s.child ≠ .asking → s.childFail = !t.childOk pos size
  fail : s.fail = (fail₀ || (decide (s.main ≠ .locking) && (t.a.range pos size).isNone) ||
    (decide (s.main = .done) && !t.childOk pos size))

variable {t : Testcase} {pos size : Nat} {fail₀ : Bool} {s s' : State}

theorem Inv.start : Inv t pos size fail₀ (.start fail₀) where
  placed := .before (.inl rfl)
  held _ _ h := h.elim
  free _ _ := rfl
  child _ _ := rfl
  blocked h := by cases h
  asked h := absurd rfl h
  fail := by simp [State.start]

/-- While the child asks and tries, the parent has its lock. -/
theorem Inv.holds (h : Inv t pos size fail₀ s) (hchild : s.child = .asking ∨ s.child = .trying) :
    s.main.Holds t.cFlag := by
  have hplaced := h.placed
  generalize s.main = m, s.child = c, s.sleeper = sl, s.usr1 = u at hplaced hchild
  cases hplaced with
  | plain hflag hc => exact hflag
  | checking hflag hc => trivial
  | before hm => simp at hchild
  | sleeping hflag hc => trivial
  | woken hflag hc => trivial
  | freed hflag hm hc =>
    rcases hchild with rfl | rfl <;> simp [Child.Late] at hc
  | done hsl => simp at hchild

/-- What is in the way of the child. -/
theorem blocked_iff {T : Table Proc} {r ra : Range} {type aType : LType}
    (hone : ∀ b, T .parent b = if b ∈ ra then some aType else none) :
    T.Blocked .child r type ↔ (type = .wrlck ∨ aType = .wrlck) ∧ r.Meets ra := by
  constructor
  · rintro ⟨o, ho, b, hb, hconflict⟩
    cases o with
    | child => exact absurd rfl ho
    | parent =>
      rw [hone] at hconflict
      split at hconflict
      · next hba => exact ⟨conflict_some.mp hconflict, b, hb, hba⟩
      · exact absurd rfl hconflict.2.1
  · rintro ⟨hconflict, b, hb, hba⟩
    refine ⟨.parent, by simp, b, hb, ?_⟩
    rw [hone, if_pos hba]
    exact conflict_some.mpr hconflict

theorem not_blocked {T : Table Proc} {r : Range} {type : LType} (hfree : ∀ b, T .parent b = none) :
    ¬ T.Blocked .child r type := by
  rintro ⟨o, ho, b, -, hconflict⟩
  cases o with
  | child => exact ho rfl
  | parent => exact hconflict.2.1 (hfree b)

theorem Inv.blocked_iff (h : Inv t pos size fail₀ s)
    (hchild : s.child = .asking ∨ s.child = .trying) {r : Range}
    (hr : t.c.range pos size = some r) :
    s.locks.Blocked .child r t.cType ↔ t.blocks pos size = true := by
  cases ha : t.a.range pos size with
  | none =>
    refine iff_of_false (not_blocked (h.free (.inl ha))) ?_
    simp [Testcase.blocks, ha]
  | some ra =>
    rw [Fcntl14.blocked_iff (h.held ra ha (h.holds hchild))]
    simp [Testcase.blocks, ha, hr]

/-- What `F_GETLK` tells is what the child expects if the flag is right. -/
theorem Inv.expects (h : Inv t pos size fail₀ s) (hchild : s.child = .asking) {r : Range}
    (hr : t.c.range pos size = some r) {x : Option (Lock Proc)}
    (hx : Getlk s.locks r t.cType x) : t.expects x = t.childOk pos size := by
  have hchild := Or.inl (b := s.child = .trying) hchild
  have hblocked := h.blocked_iff hchild hr
  cases hx with
  | unlocked hnone =>
    have hblocks : t.blocks pos size = false := by
      refine Bool.eq_false_iff.mpr fun hblocks => ?_
      cases ha : t.a.range pos size with
      | none => simp [Testcase.blocks, ha] at hblocks
      | some ra =>
        have hone := h.held ra ha (h.holds hchild)
        obtain ⟨hconflict, hmeets⟩ := (Fcntl14.blocked_iff hone).mp (hblocked.mpr hblocks)
        exact hnone _ (Table.reports_of_one hone (by simp) hmeets (conflict_some.mpr hconflict))
    cases hflag : t.cFlag <;> simp [Testcase.expects, Testcase.childOk, hr, hblocks, hflag]
  | @found x hx =>
    have hblocks := hblocked.mp hx.blocked
    have howner : x.owner = .parent := by
      cases ho : x.owner with
      | parent => rfl
      | child => exact absurd ho hx.other
    have htype : x.type = t.aType := by
      obtain ⟨b, -, hb⟩ := hx.meets
      cases ha : t.a.range pos size with
      | none => simp [Testcase.blocks, ha] at hblocks
      | some ra => exact (hx.has.eq_of_one hb (howner ▸ h.held ra ha (h.holds hchild))).1
    cases hflag : t.cFlag <;>
      simp [Testcase.expects, Testcase.childOk, hr, hblocks, hflag, howner, htype]

theorem Inv.placed_step (h : Inv t pos size fail₀ s) (hstep : Step t pos size s s') :
    Placed t.cFlag s'.main s'.child s'.sleeper s'.usr1 := by
  have hplaced := h.placed
  rcases s with ⟨m, c, sl, usr1, fail, childFail, T⟩
  cases hstep with
  | lock hmain hr hfree | lockFails hmain hfails =>
    cases hmain
    cases hplaced with
    | before hm => exact .before (by simp)
    | freed hflag hm hc => simp at hm
  | skipB hmain hb | lockB hmain hb hr hfree | lockBFails hmain hb hfails =>
    cases hmain
    cases hplaced with
    | before hm => exact .before (by simp)
    | freed hflag hm hc => simp at hm
  | fork hmain =>
    cases hmain
    cases hplaced with
    | before hm =>
      show Placed t.cFlag (if t.cFlag = .willblock then .pausing else .waiting) _ _ _
      split
      · next hflag => exact .checking hflag (by simp)
      · next hflag =>
        refine .plain ?_ (by simp)
        cases hf : t.cFlag with
        | noblock => rfl
        | willblock => exact absurd hf hflag
    | freed hflag hm hc => simp at hm
  | pause hmain husr1 =>
    cases hmain
    cases husr1
    cases hplaced with
    | woken hflag hc => exact .freed hflag (by simp) hc
  | unlock hmain =>
    cases hmain
    cases hplaced with
    | before hm => simp at hm
    | freed hflag hm hc => exact .freed hflag (by simp) hc
  | wait hmain hexited =>
    cases hmain
    cases hexited
    cases hplaced with
    | plain hflag hc => exact .done (by simp)
    | freed hflag hm hc => exact .done (by simp)
  | ask hchild hr hx | askFails hchild hr =>
    cases hchild
    cases hplaced with
    | plain hflag hc => exact .plain hflag (by simp)
    | checking hflag hc => exact .checking hflag (by simp)
    | sleeping hflag hc | woken hflag hc | freed hflag hm hc => simp [Child.Late] at hc
  | tryLock hchild hr hfree | tryFails hchild hr hblocked | tryInvalid hchild hr =>
    cases hchild
    cases hplaced with
    | plain hflag hc => exact .plain hflag (by simp [hflag, Flag.next])
    | checking hflag hc => exact .checking hflag (by simp [hflag, Flag.next])
    | sleeping hflag hc | woken hflag hc | freed hflag hm hc => simp [Child.Late] at hc
  | forkSleeper hchild =>
    cases hchild
    cases hplaced with
    | plain hflag hc => simp at hc
    | checking hflag hc => exact .sleeping hflag (by simp [Child.Late])
    | sleeping hflag hc | woken hflag hc | freed hflag hm hc => simp [Child.Late] at hc
  | wake hsleeper =>
    cases hsleeper
    cases hplaced with
    | sleeping hflag hc => exact .woken hflag (.inl hc)
    | done hsl => exact absurd rfl hsl
  | request hchild hr hfree =>
    have hlate : Child.Late c := by rcases hchild with rfl | rfl <;> simp [Child.Late]
    exact hplaced.late hlate (by simp [Child.Late])
  | block hchild hr hblocked | requestFails hchild hr =>
    cases hchild
    exact hplaced.late (by simp [Child.Late]) (by simp [Child.Late])
  | join hchild hsleeper =>
    cases hchild
    cases hsleeper
    cases hplaced with
    | woken hflag hc => exact .woken hflag (by simp)
    | freed hflag hm hc => exact .freed hflag hm (by simp)
  | exit hchild =>
    cases hchild
    cases hplaced with
    | plain hflag hc => exact .plain hflag (by simp)
    | checking hflag hc => simp at hc
    | sleeping hflag hc => simp [Child.Late] at hc
    | woken hflag hc => exact .woken hflag (by simp)
    | freed hflag hm hc => exact .freed hflag hm (by simp)

theorem parent_ne_child : Proc.parent ≠ .child := by decide

/-- Until the parent forks, there is no child. -/
theorem Inv.unborn (h : Inv t pos size fail₀ s)
    (hmain : s.main = .locking ∨ s.main = .lockingB ∨ s.main = .forking) : s.child = .unborn := by
  have hplaced := h.placed
  generalize s.main = m, s.child = c, s.sleeper = sl, s.usr1 = u at hplaced hmain
  cases hplaced with
  | before hm => rfl
  | freed hflag hm hc => rcases hm with rfl | rfl <;> simp at hmain
  | _ => simp at hmain

theorem Inv.sleeper_unborn (h : Inv t pos size fail₀ s) (hchild : s.child = .forking) :
    s.sleeper = .unborn := by
  have hplaced := h.placed
  rw [hchild] at hplaced
  generalize s.main = m, s.sleeper = sl, s.usr1 = u at hplaced
  cases hplaced with
  | plain hflag hc => rfl
  | checking hflag hc => rfl
  | sleeping hflag hc | woken hflag hc | freed hflag hm hc => simp [Child.Late] at hc

/-- `F_SETLK` of the parent fails only where there is no such range. -/
theorem Inv.range_eq_none (h : Inv t pos size fail₀ s) (hmain : s.main = .locking)
    (hfails : ∀ r, t.a.range pos size = some r → s.locks.Blocked .parent r t.aType) :
    t.a.range pos size = none := by
  have hchild : s.child.Early := .inl (h.unborn (.inl hmain))
  cases hr : t.a.range pos size with
  | none => rfl
  | some r =>
    obtain ⟨o, ho, b, -, hconflict⟩ := hfails r hr
    cases o with
    | parent => exact absurd rfl ho
    | child => exact absurd (h.child hchild b) hconflict.2.1

theorem Inv.held_step (hb : t.b = none) (h : Inv t pos size fail₀ s)
    (hstep : Step t pos size s s') (r : Range) (hr : t.a.range pos size = some r)
    (hholds : s'.main.Holds t.cFlag) (b : Nat) :
    s'.locks .parent b = if b ∈ r then some t.aType else none := by
  cases hstep with
  | @lock r' hmain hr' hfree =>
    cases hr.symm.trans hr'
    show s.locks.set .parent r (some t.aType) .parent b = _
    split
    · next hbr => exact Table.set_self hbr
    · next hbr =>
      rw [Table.set_outside hbr]
      exact h.free (.inr (by rw [hmain]; exact id)) b
  | lockFails hmain hfails => cases hr.symm.trans (h.range_eq_none hmain hfails)
  | skipB hmain hb' | fork hmain | pause hmain husr1 =>
    exact h.held r hr (by rw [hmain]; trivial) b
  | lockB hmain hb' hr' hfree | lockBFails hmain hb' hfails => cases hb.symm.trans hb'
  | unlock hmain =>
    have hplaced := h.placed
    rw [hmain] at hplaced
    generalize s.child = c, s.sleeper = sl, s.usr1 = u at hplaced
    cases hplaced with
    | before hm => simp at hm
    | freed hflag hm hc => cases hflag.symm.trans hholds
  | wait hmain hexited => exact hholds.elim
  | @tryLock r' hchild hr' hfree | @request r' hchild hr' hfree =>
    show s.locks.set .child r' (some t.cType) .parent b = _
    rw [Table.set_other parent_ne_child]
    exact h.held r hr hholds b
  | exit hchild =>
    show s.locks.drop .child .parent b = _
    rw [Table.drop_other parent_ne_child]
    exact h.held r hr hholds b
  | _ => exact h.held r hr hholds b

theorem Inv.free_step (hb : t.b = none) (h : Inv t pos size fail₀ s)
    (hstep : Step t pos size s s')
    (hfree : t.a.range pos size = none ∨ ¬ s'.main.Holds t.cFlag) (b : Nat) :
    s'.locks .parent b = none := by
  cases hstep with
  | lock hmain hr _ =>
    rcases hfree with hnone | hfree
    · cases hr.symm.trans hnone
    · exact absurd trivial hfree
  | lockFails hmain hfails => exact h.free (.inr (by rw [hmain]; exact id)) b
  | skipB hmain hb' | pause hmain husr1 => exact h.free (hfree.imp_right (absurd trivial)) b
  | lockB hmain hb' hr hfree | lockBFails hmain hb' hfails => cases hb.symm.trans hb'
  | fork hmain =>
    refine h.free (hfree.imp_right fun hfree => absurd ?_ hfree) b
    show Main.Holds t.cFlag (if t.cFlag = .willblock then .pausing else .waiting)
    cases hflag : t.cFlag with
    | noblock => rfl
    | willblock => trivial
  | unlock hmain | wait hmain hexited =>
    show s.locks.drop .parent .parent b = none
    exact Table.drop_self
  | @tryLock r hchild hr _ | @request r hchild hr _ =>
    show s.locks.set .child r (some t.cType) .parent b = _
    rw [Table.set_other parent_ne_child]
    exact h.free hfree b
  | exit hchild =>
    show s.locks.drop .child .parent b = _
    rw [Table.drop_other parent_ne_child]
    exact h.free hfree b
  | _ => exact h.free hfree b

theorem Inv.child_step (h : Inv t pos size fail₀ s) (hstep : Step t pos size s s')
    (hearly : s'.child.Early) (b : Nat) : s'.locks .child b = none := by
  have hnext : ¬ t.cFlag.next.Early := by cases t.cFlag <;> simp [Flag.next, Child.Early]
  cases hstep with
  | @lock r hmain hr hfree =>
    show s.locks.set .parent r (some t.aType) .child b = _
    rw [Table.set_other parent_ne_child.symm]
    exact h.child hearly b
  | @lockB type l r hmain hb hr hfree =>
    show s.locks.set .parent r (some type) .child b = _
    rw [Table.set_other parent_ne_child.symm]
    exact h.child hearly b
  | unlock hmain | wait hmain hexited =>
    show s.locks.drop .parent .child b = _
    rw [Table.drop_other parent_ne_child.symm]
    exact h.child hearly b
  | fork hmain => exact h.child (.inl (h.unborn (.inr (.inr hmain)))) b
  | ask hchild hr hx | askFails hchild hr => exact h.child (by simp [hchild, Child.Early]) b
  | tryLock hchild hr hfree | tryFails hchild hr hblocked | tryInvalid hchild hr =>
    exact absurd hearly hnext
  | forkSleeper hchild | request hchild hr hfree | block hchild hr hblocked
  | requestFails hchild hr | join hchild hsleeper | exit hchild => simp [Child.Early] at hearly
  | _ => exact h.child hearly b

theorem Inv.blocked_step (h : Inv t pos size fail₀ s) (hstep : Step t pos size s s')
    (hblocked : s'.child = .blocked) : t.c.range pos size ≠ none := by
  have hnext : t.cFlag.next ≠ .blocked := by cases t.cFlag <;> simp [Flag.next]
  cases hstep with
  | block hchild hr _ => exact hr ▸ Option.some_ne_none _
  | tryLock hchild hr hfree | tryFails hchild hr _ | tryInvalid hchild hr =>
    exact absurd hblocked hnext
  | fork hmain | ask hchild hr hx | askFails hchild hr | forkSleeper hchild
  | request hchild hr hfree | requestFails hchild hr | join hchild hsleeper | exit hchild =>
    cases hblocked
  | _ => exact h.blocked hblocked

theorem Inv.asked_step (h : Inv t pos size fail₀ s) (hstep : Step t pos size s s')
    (h1 : s'.child ≠ .unborn) (h2 : s'.child ≠ .asking) : s'.childFail = !t.childOk pos size := by
  cases hstep with
  | fork hmain => exact absurd rfl h2
  | ask hchild hr hx =>
    show (!t.expects _) = _
    rw [h.expects hchild hr hx]
  | askFails hchild hr => simp [Testcase.childOk, hr]
  | tryLock hchild hr hfree =>
    have hblocks := mt (h.blocked_iff (.inr hchild) hr).mpr hfree
    have hasked := h.asked (by simp [hchild]) (by simp [hchild])
    show (s.childFail || _) = _
    cases hflag : t.cFlag <;> simp_all [Testcase.childOk]
  | tryFails hchild hr hblocked =>
    have hblocks := (h.blocked_iff (.inr hchild) hr).mp hblocked
    have hasked := h.asked (by simp [hchild]) (by simp [hchild])
    show (s.childFail || _) = _
    cases hflag : t.cFlag <;> simp_all [Testcase.childOk]
  | tryInvalid hchild hr | requestFails hchild hr => simp [Testcase.childOk, hr]
  | forkSleeper hchild | block hchild hr hblocked | join hchild hsleeper | exit hchild =>
    exact h.asked (by simp [hchild]) (by simp [hchild])
  | request hchild hr hfree =>
    exact h.asked (by rcases hchild with hchild | hchild <;> simp [hchild])
      (by rcases hchild with hchild | hchild <;> simp [hchild])
  | _ => exact h.asked h1 h2

theorem Inv.fail_step (hb : t.b = none) (h : Inv t pos size fail₀ s)
    (hstep : Step t pos size s s') :
    s'.fail = (fail₀ || (decide (s'.main ≠ .locking) && (t.a.range pos size).isNone) ||
      (decide (s'.main = .done) && !t.childOk pos size)) := by
  have hfail := h.fail
  cases hstep with
  | lock hmain hr hfree => simpa [hmain, hr] using hfail
  | lockFails hmain hfails => simp [h.range_eq_none hmain hfails]
  | lockB hmain hb' hr' hfree | lockBFails hmain hb' hfails => cases hb.symm.trans hb'
  | skipB hmain hb' | pause hmain husr1 | unlock hmain => simpa [hmain] using hfail
  | fork hmain =>
    rw [hmain] at hfail
    cases hflag : t.cFlag with
    | noblock | willblock => simpa [hflag] using hfail
  | wait hmain hexited =>
    have hasked := h.asked (by simp [hexited]) (by simp [hexited])
    rw [hmain] at hfail
    show (s.fail || s.childFail) = _
    rw [hfail, hasked]
    simp
  | _ => exact hfail

theorem Inv.step (hb : t.b = none) (h : Inv t pos size fail₀ s) (hstep : Step t pos size s s') :
    Inv t pos size fail₀ s' where
  placed := h.placed_step hstep
  held := h.held_step hb hstep
  free := h.free_step hb hstep
  child := h.child_step hstep
  blocked := h.blocked_step hstep
  asked := h.asked_step hstep
  fail := h.fail_step hb hstep

/-! ## The end of a test case -/

def Main.left : Main → Nat
  | .locking => 6
  | .lockingB => 5
  | .forking => 4
  | .pausing => 3
  | .unlocking => 2
  | .waiting => 1
  | .done => 0

def Child.left : Child → Nat
  | .unborn => 8
  | .asking => 7
  | .trying => 6
  | .forking => 5
  | .requesting => 4
  | .blocked => 3
  | .joining => 2
  | .leaving => 1
  | .exited => 0

def Sleeper.left : Sleeper → Nat
  | .unborn => 2
  | .sleeping => 1
  | .exited => 0

/-- The number of steps that are left at most. -/
def State.left (s : State) : Nat := s.main.left + s.child.left + s.sleeper.left

theorem decreases : Decreases (Step t pos size) (Inv t pos size fail₀) State.left := by
  intro s s' h hstep
  have hnext : t.cFlag.next.left ≤ 5 := by cases t.cFlag <;> decide
  cases hstep with
  | fork hmain =>
    have hle : (if t.cFlag = .willblock then Main.pausing else .waiting).left ≤ 3 := by
      split <;> decide
    have hchild : s.child.left = 8 := by
      rw [h.unborn (.inr (.inr hmain))]
      rfl
    have hmain : s.main.left = 4 := by
      rw [hmain]
      rfl
    show (if t.cFlag = .willblock then Main.pausing else .waiting).left + 7 + s.sleeper.left <
      s.main.left + s.child.left + s.sleeper.left
    omega
  | tryLock hchild hr hfree | tryFails hchild hr hblocked | tryInvalid hchild hr =>
    have hchild : s.child.left = 6 := by
      rw [hchild]
      rfl
    show s.main.left + t.cFlag.next.left + s.sleeper.left <
      s.main.left + s.child.left + s.sleeper.left
    omega
  | request hchild hr hfree =>
    rcases hchild with hchild | hchild
    · simp [State.left, hchild, Child.left]
    · simp [State.left, hchild, Child.left]
  | forkSleeper hchild =>
    simp [State.left, hchild, h.sleeper_unborn hchild, Child.left, Sleeper.left]
  | lock hmain hr hfree | lockFails hmain hfails | skipB hmain hb | lockB hmain hb hr hfree
  | lockBFails hmain hb hfails | pause hmain husr1 | unlock hmain | wait hmain hexited =>
    simp [State.left, hmain, Main.left]
  | ask hchild hr hx | askFails hchild hr | block hchild hr hblocked | requestFails hchild hr
  | join hchild hsleeper | exit hchild => simp [State.left, hchild, Child.left]
  | wake hsleeper => simp [State.left, hsleeper, Sleeper.left]

/-- The parent is at the end, and has counted what the child has found out. -/
def State.Done (t : Testcase) (pos size : Nat) (fail₀ : Bool) (s : State) : Prop :=
  s.main = .done ∧ s.fail = (fail₀ || !t.right pos size)

theorem Inv.done (h : Inv t pos size fail₀ s) (hmain : s.main = .done) :
    s.Done t pos size fail₀ := by
  refine ⟨hmain, ?_⟩
  rw [h.fail, hmain, t.right_eq]
  cases t.a.range pos size <;> simp

/-- A child that is neither blocked nor in `waitpid` goes on. -/
theorem Inv.moves (h : Inv t pos size fail₀ s) (hunborn : s.child ≠ .unborn)
    (hexited : s.child ≠ .exited) (hsleeper : s.sleeper = .exited ∨ s.child ≠ .joining)
    (hfree : s.child = .blocked → ∀ b, s.locks .parent b = none) : ∃ s', Step t pos size s s' := by
  cases hchild : s.child with
  | unborn => exact absurd hchild hunborn
  | asking =>
    cases hr : t.c.range pos size with
    | none => exact ⟨_, .askFails hchild hr⟩
    | some r =>
      by_cases hx : ∃ x, s.locks.Reports .child r t.cType x
      · obtain ⟨x, hx⟩ := hx
        exact ⟨_, .ask hchild hr (.found hx)⟩
      · exact ⟨_, .ask hchild hr (.unlocked fun x hx' => hx ⟨x, hx'⟩)⟩
  | trying =>
    cases hr : t.c.range pos size with
    | none => exact ⟨_, .tryInvalid hchild hr⟩
    | some r =>
      by_cases hblocked : s.locks.Blocked .child r t.cType
      · exact ⟨_, .tryFails hchild hr hblocked⟩
      · exact ⟨_, .tryLock hchild hr hblocked⟩
  | forking => exact ⟨_, .forkSleeper hchild⟩
  | requesting =>
    cases hr : t.c.range pos size with
    | none => exact ⟨_, .requestFails hchild hr⟩
    | some r =>
      by_cases hblocked : s.locks.Blocked .child r t.cType
      · exact ⟨_, .block hchild hr hblocked⟩
      · exact ⟨_, .request (.inl hchild) hr hblocked⟩
  | blocked =>
    cases hr : t.c.range pos size with
    | none => exact absurd hr (h.blocked hchild)
    | some r => exact ⟨_, .request (.inr hchild) hr (not_blocked (hfree hchild))⟩
  | joining => exact ⟨_, .join hchild (hsleeper.resolve_right (absurd hchild))⟩
  | leaving => exact ⟨_, .exit hchild⟩
  | exited => exact absurd hchild hexited

theorem progress (hb : t.b = none) :
    Progress (Step t pos size) (Inv t pos size fail₀) (State.Done t pos size fail₀) := by
  intro s h
  cases hmain : s.main with
  | locking =>
    by_cases hfails : ∀ r, t.a.range pos size = some r → s.locks.Blocked .parent r t.aType
    · exact .inr ⟨_, .lockFails hmain hfails⟩
    · simp only [not_forall] at hfails
      obtain ⟨r, hr, hfree⟩ := hfails
      exact .inr ⟨_, .lock hmain hr hfree⟩
  | lockingB => exact .inr ⟨_, .skipB hmain hb⟩
  | forking => exact .inr ⟨_, .fork hmain⟩
  | pausing =>
    have hplaced := h.placed
    rw [hmain] at hplaced
    generalize hc : s.child = c, hsl : s.sleeper = sl, hu : s.usr1 = u at hplaced
    cases hplaced with
    | before hm => simp at hm
    | checking hflag hearly =>
      rw [← hc] at hearly
      refine .inr (h.moves ?_ ?_ ?_ ?_) <;> rcases hearly with hc | hc | hc <;> simp [hc]
    | sleeping hflag _ => exact .inr ⟨_, .wake hsl⟩
    | woken hflag _ => exact .inr ⟨_, .pause hmain hu⟩
    | freed hflag hm _ => simp at hm
  | unlocking => exact .inr ⟨_, .unlock hmain⟩
  | waiting =>
    by_cases hexited : s.child = .exited
    · exact .inr ⟨_, .wait hmain hexited⟩
    have hplaced := h.placed
    rw [hmain] at hplaced
    generalize hc : s.child = c, hsl : s.sleeper = sl, hu : s.usr1 = u at hplaced
    cases hplaced with
    | before hm => simp at hm
    | plain hflag hplain =>
      rw [← hc] at hplain
      refine .inr (h.moves ?_ hexited ?_ ?_) <;> rcases hplain with hc | hc | hc | hc <;> simp [hc]
    | freed hflag hm hlate =>
      have hfree : ∀ b, s.locks .parent b = none := by
        refine h.free (.inr ?_)
        rw [hmain, hflag]
        exact Flag.noConfusion
      refine .inr (h.moves ?_ hexited (.inl hsl) fun _ => hfree)
      rintro heq
      rw [← hc, heq] at hlate
      simp [Child.Late] at hlate
  | done => exact .inl (h.done hmain)

/-- **The parent finds out whether the test case is right**, whatever order the steps come in, as
long as the alarm does not go off: no order gets stuck or has more than 16 steps, and the alarm;
and at the end `fail` is set if it was set before, or if the test case is not right. -/
theorem verdict (hb : t.b = none) {n : Nat} {x : Timed State}
    (h : Run (TimedStep t pos size) n (.running (.start fail₀)) x) :
    n ≤ 17 ∧ ((∃ s, x = .alarmed s ∧ s.Armed) ∨ ∃ s, x = .running s ∧
      (∃ s', ReflTransGen (TimedStep t pos size) x (.running s') ∧ s'.Done t pos size fail₀) ∧
      ((s.main = .done ∨ ∀ x', ¬ TimedStep t pos size x x') → s.Done t pos size fail₀)) := by
  have hkeep : Invariant (Step t pos size) (Inv t pos size fail₀) := fun _ _ h => h.step hb
  have hle : ∀ {m : Nat} {s : State}, Run (Step t pos size) m (.start fail₀) s → m ≤ 16 := by
    intro m s hrun
    have hlen := decreases.length_le hkeep .start hrun
    have hleft : (State.start fail₀).left = 16 := rfl
    omega
  obtain ⟨s, rfl, hrun⟩ | ⟨m, s, rfl, rfl, hrun, harmed⟩ := h.timed
  · have hinv := hkeep.run .start hrun.reflTransGen
    refine ⟨Nat.le_succ_of_le (hle hrun), .inr ⟨s, rfl, ?_, fun hend => ?_⟩⟩
    · obtain ⟨s', hrun', hdone⟩ := exists_end (progress hb) decreases hkeep hinv
      exact ⟨s', timed_running.mpr hrun', hdone⟩
    · rcases hend with hmain | hstuck
      · exact hinv.done hmain
      · exact ends (progress hb) hkeep .start hrun.reflTransGen fun s' hstep =>
          hstuck _ (.step hstep)
  · exact ⟨Nat.succ_le_succ (hle hrun), .inl ⟨s, rfl, harmed⟩⟩

/-- A test case that says that its locks are in each other's way, and they are not. -/
theorem verdict_wrong : ∃ s : State, s.main = .done ∧ s.fail = true := by
  have hrun : Run (TimedStep ⟨.wrlck, ⟨0, 0, 5⟩, none, .wrlck, ⟨0, 5, 5⟩, .willblock⟩ 0 10) 0
    (.running (.start false)) (.running (.start false)) := .refl _
  obtain ⟨_, h, -⟩ | ⟨_, -, ⟨s, -, hmain, hfail⟩, -⟩ := (verdict rfl hrun).2
  · cases h
  · exact ⟨s, hmain, hfail⟩

/-! ## Tables of test cases -/

variable {i : Nat} {row : Row} {rows : List Row} {lines : List Line} {fail fail' : Bool}

/-- The lines and the `fail` that there have to be. -/
def report (pos size : Nat) : (i : Nat) → List Row → (fail : Bool) → List Line × Bool
  | _, [], fail => ([], fail)
  | i, row :: rows, fail =>
    let fail := fail || !row.right pos size
    let rest := report pos size (i + 1) rows fail
    match row with
    | .full _ => ((if fail then .failed (i + 1) else .passed (i + 1)) :: rest.1, rest.2)
    | .skip _ _ _ => rest

/-- At the end of a test case. -/
theorem fail_of_done (hb : t.b = none)
    (hrun : ReflTransGen (TimedStep t pos size) (.running (.start fail)) (.running s))
    (hdone : s.main = .done) : s.fail = (fail || !t.right pos size) := by
  have hkeep : Invariant (Step t pos size) (Inv t pos size fail) := fun _ _ h => h.step hb
  exact ((hkeep.run .start (timed_running.mp hrun)).done hdone).2

/-- A row without a child sets `fail` as it should. -/
theorem skip_fail {a : Flock} {b : Option (LType × Flock)} (hb : b = none) :
    (fail || (a.range pos size).isNone || b.any fun l => (l.2.range pos size).isNone)
      = (fail || !(a.range pos size).isSome) := by
  rw [hb, Option.any_none, Bool.or_false, Option.not_isSome]

theorem runTest_iff (hb : ∀ row ∈ rows, row.b = none) :
    RunTest pos size i rows fail lines fail' ↔ (lines, fail') = report pos size i rows fail := by
  induction rows generalizing i fail fail' lines with
  | nil =>
    constructor
    · intro h
      cases h
      rfl
    · intro h
      cases h
      exact .nil
  | cons row rows ih =>
    obtain ⟨hrow, hrows⟩ := List.forall_mem_cons.mp hb
    cases row with
    | full t =>
      constructor
      · intro h
        cases h with
        | @full _ _ _ _ _ s lines hrun hdone hrest =>
          have hfail := fail_of_done hrow hrun hdone
          rw [hfail] at hrest ⊢
          have hlines := (ih hrows).mp hrest
          rw [report, Row.right, ← hlines]
      · intro h
        have hkeep : Invariant (Step t pos size) (Inv t pos size fail) := fun _ _ h => h.step hrow
        have hstart : Inv t pos size fail (.start fail) := .start
        obtain ⟨s, hrun, hdone, hfail⟩ := exists_end (progress hrow) decreases hkeep hstart
        have hrest := (ih hrows).mpr (Prod.eta (report pos size (i + 1) rows s.fail))
        cases h
        rw [Row.right, ← hfail]
        exact .full (timed_running.mpr hrun) hdone hrest
    | skip aType a b =>
      constructor
      · intro h
        cases h with
        | skip hrest =>
          rw [skip_fail (b := b) hrow] at hrest
          exact (ih hrows).mp hrest
      · intro h
        refine .skip ?_
        rw [skip_fail (b := b) hrow]
        exact (ih hrows).mpr h

/-- The line of row `k`, if it has one, where `fail` is set or not in front of the table. -/
def lineOf (pos size i : Nat) (fail : Bool) (rows : List Row) (k : Nat) : Option Line :=
  match rows[k]? with
  | some (.full _) => some <|
    if !fail && (rows.take (k + 1)).all fun row => row.right pos size then .passed (i + k + 1)
    else .failed (i + k + 1)
  | _ => none

theorem lineOf_succ (k : Nat) : lineOf pos size i fail (row :: rows) (k + 1)
    = lineOf pos size (i + 1) (fail || !row.right pos size) rows k := by
  have hi : i + (k + 1) + 1 = i + 1 + k + 1 := by omega
  simp only [lineOf, List.getElem?_cons_succ, List.take_succ_cons, List.all_cons, hi, Bool.not_or,
    Bool.not_not, Bool.and_assoc]

theorem report_lines : (report pos size i rows fail).1
    = (List.range rows.length).filterMap (lineOf pos size i fail rows) := by
  induction rows generalizing i fail with
  | nil => rfl
  | cons row rows ih =>
    have hrest : (List.range rows.length).filterMap
        (lineOf pos size i fail (row :: rows) ∘ Nat.succ)
        = (report pos size (i + 1) rows (fail || !row.right pos size)).1 := by
      rw [ih]
      exact List.filterMap_congr fun k _ => lineOf_succ k
    rw [List.length_cons, List.range_succ_eq_map, List.filterMap_cons, List.filterMap_map, hrest]
    cases row with
    | full t => cases fail <;> cases h : t.right pos size <;> simp [report, lineOf, Row.right, h]
    | skip aType a b => rfl

theorem report_fail :
    (report pos size i rows fail).2 = (fail || rows.any fun row => !row.right pos size) := by
  induction rows generalizing i fail with
  | nil => simp [report]
  | cons row rows ih =>
    rw [List.any_cons, ← Bool.or_assoc, ← ih (i := i + 1)]
    cases row with
    | full t | skip aType a b => rfl

/-- **`run_test` reports a test case as passed** if and only if it and all in front of it are right:
`fail` is set for good by the first one that is not. It comes to its end for every table; as long
as no alarm goes off, in no other way. -/
theorem run_test (hb : ∀ row ∈ rows, row.b = none) :
    (∃ lines fail, RunTest pos size i rows false lines fail) ∧
      ∀ lines fail, RunTest pos size i rows false lines fail →
        lines = (List.range rows.length).filterMap (lineOf pos size i false rows) ∧
        (fail = false ↔ ∀ row ∈ rows, row.right pos size = true) := by
  refine ⟨⟨_, _, (runTest_iff hb).mpr rfl⟩, fun lines fail h => ?_⟩
  have heq := (runTest_iff hb).mp h
  obtain ⟨hlines, hfail⟩ := Prod.mk.inj heq
  refine ⟨hlines.trans report_lines, ?_⟩
  rw [hfail, report_fail]
  simp

/-- A run over the test cases #46 to #50, which passes the first three. -/
theorem run_test_negative : ∃ fail, RunTest 5 10 45 ((testcases.take 50).drop 45) false
    [.passed 46, .passed 47, .passed 48, .failed 49, .failed 50] fail := by
  have hb : ∀ row ∈ (testcases.take 50).drop 45, row.b = none := by decide
  obtain ⟨lines, fail, h⟩ :
    ∃ lines fail, RunTest 5 10 45 ((testcases.take 50).drop 45) false lines fail := (run_test hb).1
  have hlines : lines = [.passed 46, .passed 47, .passed 48, .failed 49, .failed 50] :=
    ((run_test hb).2 lines fail h).1.trans (by decide)
  exact ⟨fail, hlines ▸ h⟩

theorem runTest_testcases {start stop : Nat} :
    RunTest pos size start ((testcases.take stop).drop start) false lines fail ↔
      (lines, fail) = report pos size start ((testcases.take stop).drop start) false := by
  have hall : ∀ row ∈ testcases, row.b = none := by decide
  exact runTest_iff fun row hrow => hall row (List.mem_of_mem_take (List.mem_of_mem_drop hrow))

/-- **All that `main` runs passes**, as long as no alarm goes off: the test cases up to #36, and
with the offset 5 those up to #45, which have a start below 0. It leaves out the ones with a length
below 0. With these, all from #49 on would be reported as failed, five of them because they are
not right. -/
theorem main_passes (lines : List Line) (fail : Bool) :
    (RunTest 10 10 0 ((testcases.take 36).drop 0) false lines fail ↔
        lines = (List.range' 1 36).map .passed ∧ fail = false) ∧
      (RunTest 5 10 36 ((testcases.take 45).drop 36) false lines fail ↔
        lines = (List.range' 37 9).map .passed ∧ fail = false) ∧
      (RunTest 5 10 36 ((testcases.take 58).drop 36) false lines fail ↔
        lines = (List.range' 37 12).map .passed ++ (List.range' 49 10).map .failed ∧
          fail = true) ∧
      ∀ k row, 45 ≤ k → k < 58 → testcases[k]? = some row →
        (row.right 5 10 = false ↔ k + 1 ∈ [49, 50, 53, 54, 58]) := by
  refine ⟨?_, ?_, ?_, fun k row hk hk' hrow => ?_⟩
  · have hreport : report 10 10 0 ((testcases.take 36).drop 0) false =
      ((List.range' 1 36).map .passed, false) := by decide
    rw [runTest_testcases, hreport, Prod.mk.injEq]
  · have hreport : report 5 10 36 ((testcases.take 45).drop 36) false =
      ((List.range' 37 9).map .passed, false) := by decide
    rw [runTest_testcases, hreport, Prod.mk.injEq]
  · have hreport : report 5 10 36 ((testcases.take 58).drop 36) false =
      ((List.range' 37 12).map .passed ++ (List.range' 49 10).map .failed, true) := by decide
    rw [runTest_testcases, hreport, Prod.mk.injEq]
  · have hall : ∀ k < 58, 45 ≤ k → testcases[k]?.map (fun row => row.right 5 10) =
      some (!decide (k + 1 ∈ [49, 50, 53, 54, 58])) := by decide
    have hright := hall k hk' hk
    rw [hrow, Option.map_some, Option.some.injEq] at hright
    rw [hright, Bool.not_eq_false', decide_eq_true_iff]

end Syscalls.Fcntl14
