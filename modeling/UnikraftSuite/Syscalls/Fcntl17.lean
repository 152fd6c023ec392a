import UnikraftSuite.Lib.RangeLocks
import UnikraftSuite.Lib.Runs
import Mathlib.Logic.Function.Basic

/-!
# `fcntl17`

Three children lock a range of a file each, one after the other, as the parent tells them over
pipes. Then it lets the first one unlock, and the other two ask for the range of each other with
`F_SETLKW`, all at the same time; one of them has to be told `EDEADLK`. In the end the parent
tells the children to stop, and waits for them.

This is the program of `original tests`; what `convert.py` makes of it does not compile. Which of
the two is refused depends on the order of the steps: `Step` is what the parent or a child can do
next. The kernel refuses a call that would close a circle of children that sleep on each other's
locks, when the call is made or the child looks again; a child that sleeps is not refused. An
alarm may cut the run off at its end (`TimedStep`).
-/

namespace Syscalls.Fcntl17

open RangeLocks Runs Relation

/-! ## The children -/

inductive Child where
  | one
  | two
  | three
  deriving DecidableEq

/-- Who may have a lock; `none` is the parent. -/
abbrev Proc : Type := Option Child

def lock1 : Range := ⟨2, 5⟩

def lock2 : Range := ⟨9, 5⟩

def lock3 : Range := ⟨17, 5⟩

def lock4 : Range := ⟨17, 5⟩

def lock5 : Range := ⟨2, 14⟩

/-- What a child locks with `F_SETLK`. All locks are write locks. -/
def Child.first : Child → Range
  | .one => lock1
  | .two => lock2
  | .three => lock3

/-- What it asks for with `F_SETLKW`; the first child unlocks everything instead. -/
def Child.second : Child → Option Range
  | .one => none
  | .two => some lock4
  | .three => some lock5

def EAGAIN : Int := 11

def EDEADLK : Int := 35

def STOP : Int := 0xFFF0

/-- `(short)STOP`, which `child_wait` compares with. -/
def shortStop : Int := (BitVec.ofInt 16 STOP).toInt

/-- Where a child is. -/
inductive Pc where
  | unborn
  /-- In the first `child_wait`. -/
  | starting
  /-- In front of `F_SETLK`. -/
  | locking
  /-- In front of `parent_free`, with the result of that. -/
  | locked (arg : Int)
  /-- In the second `child_wait`. -/
  | holding
  /-- In front of `F_SETLKW`, or of the call that unlocks. -/
  | resuming
  /-- In `F_SETLKW`, asleep on a lock of that child. -/
  | blocked (on : Child)
  /-- In front of `parent_free`, with the result of that. -/
  | answered (arg : Int)
  /-- In the third `child_wait`. -/
  | stopping
  /-- In front of `exit`. -/
  | leaving (status : Nat)
  | exited (status : Nat)
  deriving DecidableEq

/-- What a message lets a child do that waits for one. -/
def Pc.freed : Pc → Option Pc
  | .starting => some .locking
  | .holding => some .resuming
  | .stopping => some (.leaving 1)
  | _ => none

/-- What a child tells the parent, and where it is then. -/
def Pc.tells : Pc → Option (Int × Pc)
  | .locked arg => some (arg, .holding)
  | .answered arg => some (arg, .stopping)
  | _ => none

/-! ## The parent -/

/-- Where the parent is, with the child it is about. -/
inductive Main where
  | forking (c : Child)
  /-- In front of the first `child_free`. -/
  | freeing (c : Child)
  /-- In `parent_wait`. -/
  | waiting (c : Child)
  /-- In front of `do_test`. -/
  | testing (c : Child)
  /-- In front of the second `child_free`. -/
  | resuming (c : Child)
  /-- In `parent_wait`, for the message about the deadlock. -/
  | answer
  /-- In front of the second `do_test`, whose result is not used. -/
  | checking (c : Child)
  /-- In front of `signal(SIGCHLD, SIG_DFL)`. -/
  | ignoring
  /-- In front of the `child_free` with `STOP`. -/
  | stopping (c : Child)
  /-- In `waitpid`. -/
  | joining (c : Child)
  | judging
  /-- Behind the block, with whether it has printed `TPASS`. -/
  | finished (pass : Bool)
  deriving DecidableEq

/-- The child that comes next, or else what comes behind the three. -/
def Child.next (c : Child) (go : Child → Main) (behind : Main) : Main :=
  match c with
  | .one => go .two
  | .two => go .three
  | .three => behind

/-- What the parent sends, and where it is then. -/
def Main.sends : Main → Option (Child × Int × Main)
  | .freeing c => some (c, 0, .waiting c)
  | .resuming .two => some (.two, 0, .resuming .three)
  | .resuming .three => some (.three, 0, .resuming .one)
  | .resuming .one => some (.one, 0, .answer)
  | .stopping c => some (c, STOP, c.next .stopping (.joining .one))
  | _ => none

/-- For what `parent_wait` returns: whether `fail` is set, and where the parent is then. -/
def Main.hears : Main → Option ((Int → Bool) × Main)
  -- there is no `fail = 1` for the first child
  | .waiting .one => some (fun _ => false, .testing .one)
  | .waiting c => some (fun arg => decide (arg ≠ 0), .testing c)
  | .answer => some (fun arg => decide (arg ≠ EDEADLK), .checking .two)
  | _ => none

/-! ## The program -/

structure State where
  main : Main
  fail : Bool
  /-- Whether `SIGCHLD` is handled by `catch_child`, and whether it has been. -/
  handler : Bool
  caught : Bool
  pc : Child → Pc
  toChild : Child → List Int
  toParent : List Int
  locks : Table Proc
  /-- What `F_SETLKW` has returned so far, in this order; nothing reads it. -/
  answers : List (Child × Int)

/-- The state in front of the first `fork`. -/
def State.start : State where
  main := .forking .one
  fail := false
  handler := true
  caught := false
  pc _ := .unborn
  toChild _ := []
  toParent := []
  locks := .empty
  answers := []

def State.goto (s : State) (c : Child) (pc : Pc) : State :=
  { s with pc := Function.update s.pc c pc }

/-- On whose lock a child sleeps that is there. -/
def Pc.asleep : Pc → Option Child
  | .blocked d => some d
  | _ => none

/-- Who sleeps on whose lock. -/
def State.sleeps (s : State) : Sleeps Child := fun c => (s.pc c).asleep

/-- The child asks for the range: it calls `F_SETLKW`, or it has been woken, since the lock that it
slept on is gone, and looks again. -/
def State.Asks (s : State) (c : Child) (r : Range) : Prop :=
  c.second = some r ∧ (s.pc c = .resuming ∨
    ∃ d, s.pc c = .blocked d ∧ ¬ s.locks.Stops (some c) r .wrlck (some d))

/-- Whether `do_test` finds the lock of a child, for which it asks with `F_RDLCK`. -/
inductive DoTest (T : Table Proc) (c : Child) : (ok : Bool) → Prop
  /-- `F_UNLCK` is reported. -/
  | unlocked (hnone : ∀ x, ¬ T.Reports none c.first .rdlck x) : DoTest T c false
  | found {x : Lock Proc} (hx : T.Reports none c.first .rdlck x) :
    DoTest T c (decide (x.type = .wrlck ∧ x.range = c.first ∧ x.owner = some c))

/-- A step of `main` or of one of the children. -/
inductive Step : State → State → Prop
  | fork {s : State} {c : Child} (hmain : s.main = .forking c) :
    Step s { s.goto c .starting with main := c.next .forking (.freeing .one) }
  | send {s : State} {c : Child} {arg : Int} {m : Main} (hmain : s.main.sends = some (c, arg, m)) :
    Step s
      { s with main := m, toChild := Function.update s.toChild c (s.toChild c ++ [arg]) }
  | hear {s : State} {f : Int → Bool} {m : Main} {arg : Int} {rest : List Int}
    (hmain : s.main.hears = some (f, m)) (harg : s.toParent = arg :: rest) :
    Step s { s with main := m, fail := s.fail || f arg, toParent := rest }
  /-- `parent_wait` returns `errno` when there is nobody left to write. -/
  | hearNobody {s : State} {f : Int → Bool} {m : Main} (errno : Int)
    (hmain : s.main.hears = some (f, m)) (hnone : s.toParent = [])
    (hexited : ∀ c, ∃ status, s.pc c = .exited status) :
    Step s { s with main := m, fail := s.fail || f errno }
  | test {s : State} {c : Child} {ok : Bool} (hmain : s.main = .testing c)
    (hok : DoTest s.locks c ok) :
    Step s { s with main := c.next .freeing (.resuming .two), fail := s.fail || !ok }
  | check {s : State} {c : Child} (hmain : s.main = .checking c) :
    Step s { s with main := c.next .checking .ignoring }
  | ignore {s : State} (hmain : s.main = .ignoring) :
    Step s { s with main := .stopping .one, handler := false }
  | join {s : State} {c : Child} {status : Nat} (hmain : s.main = .joining c)
    (hexited : s.pc c = .exited status) :
    Step s { s with main := c.next .joining .judging }
  | judge {s : State} (hmain : s.main = .judging) :
    Step s { s with main := .finished !s.fail }
  | receive {s : State} {c : Child} {pc : Pc} {arg : Int} {rest : List Int}
    (hpc : (s.pc c).freed = some pc) (harg : s.toChild c = arg :: rest) :
    Step s { s.goto c (if arg = shortStop then .leaving 0 else pc) with
      toChild := Function.update s.toChild c rest }
  | lock {s : State} {c : Child} (hpc : s.pc c = .locking)
    (hfree : ¬ s.locks.Blocked (some c) c.first .wrlck) :
    Step s { s.goto c (.locked 0) with
      locks := s.locks.set (some c) c.first (some .wrlck) }
  | refuse {s : State} {c : Child} (hpc : s.pc c = .locking)
    (hblocked : s.locks.Blocked (some c) c.first .wrlck) :
    Step s (s.goto c (.locked EAGAIN))
  | tell {s : State} {c : Child} {arg : Int} {pc : Pc} (hpc : (s.pc c).tells = some (arg, pc)) :
    Step s { s.goto c pc with toParent := s.toParent ++ [arg] }
  | unlock {s : State} {c : Child} (hpc : s.pc c = .resuming) (hsecond : c.second = none) :
    Step s { s.goto c .stopping with locks := s.locks.drop (some c) }
  | grant {s : State} {c : Child} {r : Range} (hasks : s.Asks c r)
    (hfree : ¬ s.locks.Blocked (some c) r .wrlck) :
    Step s { s.goto c (.answered 0) with
      locks := s.locks.set (some c) r (some .wrlck)
      answers := s.answers ++ [(c, 0)] }
  /-- Which of several locks in its way the child finds first is left open. -/
  | sleep {s : State} {c d : Child} {r : Range} (hasks : s.Asks c r)
    (hstops : s.locks.Stops (some c) r .wrlck (some d)) (hopen : ¬ s.sleeps.Leads d c) :
    Step s (s.goto c (.blocked d))
  /-- To sleep would close a circle. -/
  | deadlock {s : State} {c d : Child} {r : Range} (hasks : s.Asks c r)
    (hstops : s.locks.Stops (some c) r .wrlck (some d)) (hcircle : s.sleeps.Leads d c) :
    Step s { s.goto c (.answered EDEADLK) with answers := s.answers ++ [(c, EDEADLK)] }
  | exit {s : State} {c : Child} {status : Nat} (hpc : s.pc c = .leaving status) :
    Step s { s.goto c (.exited status) with
      locks := s.locks.drop (some c)
      caught := s.caught || s.handler }

/-- The alarm is set when the parent begins to wait for the message about the deadlock. -/
def State.Armed (s : State) : Prop :=
  match s.main with
  | .answer | .checking _ | .ignoring | .stopping _ | .joining _ | .judging => True
  | _ => False

/-- A step, or the alarm, for which the children are killed and `TFAIL` is reported. What the
parent does then is left out. -/
def TimedStep : Timed State → Timed State → Prop := Timed.Step Step State.Armed

/-- The run up to this state of the program, in which the alarm may just have gone off. -/
def Reaches : Timed State → Prop := ReflTransGen TimedStep (.running .start)

end Syscalls.Fcntl17
