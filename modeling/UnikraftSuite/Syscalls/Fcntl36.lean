import UnikraftSuite.Lib.RangeLocks
import UnikraftSuite.Lib.Runs
import Mathlib.Algebra.Order.BigOperators.Group.Finset
import Mathlib.Logic.Function.Basic

/-!
# `fcntl36`

Threads lock a range of one file each, write or read it, and unlock it again, until the initial
thread tells them to stop. A reader checks that what it has read is of one piece in each quarter,
and the initial thread checks the file at the end. Some threads lock for their open file
description and others for the process, whose threads all share one owner.

This is the program of `original tests`; what `convert.py` makes of it does not compile. Reading
and writing are not atomic: the bytes go one by one, in any order with what other threads do.

- `Step`: what one thread can do next. `Control`, `Locks` and `Data` are invariants of it.
- `Locks.apart`: no two threads are inside overlapping ranges if one of them writes.
- `synchronized`: no check ever fails, in any order of the steps.
- `finishes`: there is no deadlock, and the threads come to their end once they are told to.
-/

namespace Syscalls.Fcntl36

open RangeLocks Runs Relation

/-! ## The threads -/

def writeSize : Nat := 4096

def maxThreadCnt : Nat := 32

/-- `setup`, for what `tst_ncpus_conf()` returns. -/
def threadCnt (ncpus : Nat) : Nat :=
  if ncpus * 3 > maxThreadCnt then maxThreadCnt else ncpus * 3

/-- The command: `F_OFD_SETLKW` or `F_SETLKW`. -/
inductive Kind where
  | ofd
  | posix
  deriving DecidableEq

/-- What a thread locks with; it writes under a write lock, and reads under a read lock. -/
structure Worker where
  kind : Kind
  access : LType
  deriving DecidableEq

/-- A thread function; `fn_dummy` does nothing. -/
abbrev Fn : Type := Option Worker

def fnOfdW : Fn := some ⟨.ofd, .wrlck⟩

def fnPosixW : Fn := some ⟨.posix, .wrlck⟩

def fnOfdR : Fn := some ⟨.ofd, .rdlck⟩

def fnPosixR : Fn := some ⟨.posix, .rdlck⟩

def fnDummy : Fn := none

structure Tcase where
  fn0 : Fn
  fn1 : Fn
  fn2 : Fn
  deriving DecidableEq

def tcases : List Tcase :=
  [⟨fnOfdR, fnOfdW, fnDummy⟩,
   ⟨fnOfdW, fnPosixW, fnDummy⟩,
   ⟨fnOfdR, fnPosixW, fnDummy⟩,
   ⟨fnOfdW, fnPosixR, fnDummy⟩,
   ⟨fnOfdW, fnOfdW, fnDummy⟩,
   ⟨fnOfdR, fnOfdW, fnPosixW⟩,
   ⟨fnOfdR, fnOfdW, fnPosixR⟩]

/-- The function of thread `j`, in the order in which they are created. -/
def Tcase.fn (c : Tcase) (j : Nat) : Fn :=
  match j % 3 with
  | 0 => c.fn0
  | 1 => c.fn1
  | _ => c.fn2

/-- The `offset` of thread `j`: that of `p0`, `p1` or `p2` at `i = j / 3`. -/
def offset (j : Nat) : Nat :=
  match j % 3 with
  | 0 => j / 3 * writeSize
  | 1 => j / 3 * writeSize + writeSize / 4
  | _ => j / 3 * writeSize + writeSize / 2

/-- The `cnt` of thread `j`. -/
def cnt (j : Nat) : Nat := j / 3 + 2

def range (j : Nat) : Range := ⟨offset j, writeSize⟩

/-- Who owns a lock: the open file description of a thread, or the process. -/
inductive Owner where
  | ofd (j : Nat)
  | posix
  deriving DecidableEq

def Worker.owner (w : Worker) (j : Nat) : Owner :=
  match w.kind with
  | .ofd => .ofd j
  | .posix => .posix

/-- Where a thread is. -/
inductive Pc where
  | unborn
  /-- In front of `open`. -/
  | opening
  /-- In front of `while (loop_flag)`. -/
  | loop
  /-- In front of the call that locks. -/
  | lock
  /-- With the lock, and with `k` bytes written or read. -/
  | body (k : Nat)
  | unlock
  /-- In `pthread_barrier_wait`. -/
  | waiting
  /-- In front of `close`. -/
  | leaving
  | done
  deriving DecidableEq

/-- A thread with its variables. `turns` counts the turns of its loop, and nothing reads it. -/
structure Thread where
  pc : Pc
  wt : Nat
  buf : Nat → Nat
  turns : Nat

/-- `memset(buf, ...)`, in front of the lock. -/
def Thread.top (t : Thread) (w : Worker) : Thread :=
  match w.access with
  | .wrlck => { t with pc := .lock, buf := fun _ => t.wt % 256 }
  | .rdlck => { t with pc := .lock, buf := fun _ => 0 }

/-- What is behind the lock: a writer goes on to the next value. -/
def Thread.again (t : Thread) (w : Worker) (j : Nat) : Thread :=
  match w.access with
  | .wrlck =>
    { t with
      pc := .loop
      wt := if t.wt + 1 ≥ 255 then cnt j else t.wt + 1
      turns := t.turns + 1 }
  | .rdlck => { t with pc := .loop, turns := t.turns + 1 }

/-- The steps that neither look at the file nor at a lock. -/
def Thread.next (t : Thread) (f : Fn) (loopFlag : Bool) : Option Thread :=
  match t.pc, f with
  | .opening, none => some { t with pc := .waiting }
  -- `do` for a writer, `while` for a reader
  | .opening, some w => some (if w.access = .wrlck then t.top w else { t with pc := .loop })
  | .loop, some w => some (if loopFlag then t.top w else { t with pc := .waiting })
  | _, _ => none

/-- The loop over the bytes read: none of them makes it print `TFAIL`. -/
def Verified (buf : Nat → Nat) : Prop :=
  ∀ i < writeSize, (1 ≤ buf i ∧ buf i ≤ 254) ∧
    buf i = buf (i / (writeSize / 4) * writeSize / 4)

instance (buf : Nat → Nat) : Decidable (Verified buf) :=
  inferInstanceAs (Decidable (∀ i < writeSize, _))

/-- Whether `fail_flag` is set for the bytes read. -/
def Worker.fails (w : Worker) (buf : Nat → Nat) : Bool :=
  match w.access with
  | .wrlck => false
  | .rdlck => !decide (Verified buf)

/-! ## The program -/

/-- Where the initial thread is: the loop that creates the others, the one that joins them, or
the end, with whether it has printed `TPASS`. -/
inductive Main where
  | creating (j : Nat)
  | joining (j : Nat)
  | finished (pass : Bool)
  deriving DecidableEq

structure State where
  file : Nat → Nat
  locks : Table Owner
  loopFlag : Bool
  failFlag : Bool
  thread : Nat → Thread
  main : Main

/-- The state in front of the loop that creates the threads: `tst_fill_file` has written ones. -/
def State.start : State where
  file _ := 1
  locks := .empty
  loopFlag := true
  failFlag := false
  thread j := ⟨.unborn, cnt j, fun _ => 0, 0⟩
  main := .creating 0

def State.setThread (s : State) (j : Nat) (t : Thread) : State :=
  { s with thread := Function.update s.thread j t }

/-- The thread goes on to `pc`. -/
def Thread.at (t : Thread) (pc : Pc) : Thread := { t with pc := pc }

/-- The thread has come to the barrier. -/
def Pc.Arrived : Pc → Prop
  | .waiting => True
  | .leaving => True
  | .done => True
  | _ => False

/-- The bytes of block `i`, a quarter of a range, as the loop at the end finds them. -/
def BlockRight (file : Nat → Nat) (i : Nat) : Prop :=
  (∀ k < writeSize / 4,
    (2 ≤ file (i * (writeSize / 4) + k) ∧ file (i * (writeSize / 4) + k) ≤ 254) ∨
    (i < 3 ∧ file (i * (writeSize / 4) + k) = 1)) ∧
  ∀ k < writeSize / 4, 1 ≤ k → file (i * (writeSize / 4) + k) = file (i * (writeSize / 4))

instance (file : Nat → Nat) (i : Nat) : Decidable (BlockRight file i) :=
  inferInstanceAs (Decidable (_ ∧ _))

/-- The loop over the blocks, with `n` for `thread_cnt`. -/
def FileRight (file : Nat → Nat) (n : Nat) : Prop := ∀ i < n * 4, BlockRight file i

instance (file : Nat → Nat) (n : Nat) : Decidable (FileRight file n) :=
  inferInstanceAs (Decidable (∀ i < n * 4, _))

/-- A step of `test_fn` or of one of the threads, with `n` for `thread_cnt`. -/
inductive Step (c : Tcase) (n : Nat) : State → State → Prop
  | create {s : State} {j : Nat} (hmain : s.main = .creating j) (hj : j < 3 * n) :
      Step c n s { s.setThread j ((s.thread j).at .opening) with main := .creating (j + 1) }
  /-- `sleep(1)` is over. -/
  | stop {s : State} (hmain : s.main = .creating (3 * n)) :
      Step c n s { s with loopFlag := false, main := .joining 0 }
  | join {s : State} {j : Nat} (hmain : s.main = .joining j) (hj : j < 3 * n)
      (hdone : (s.thread j).pc = .done) : Step c n s { s with main := .joining (j + 1) }
  | check {s : State} (hmain : s.main = .joining (3 * n)) :
      Step c n s { s with main := .finished (decide (FileRight s.file n) && !s.failFlag) }
  | next {s : State} {j : Nat} {t : Thread} (hj : j < 3 * n)
      (ht : (s.thread j).next (c.fn j) s.loopFlag = some t) : Step c n s (s.setThread j t)
  | lock {s : State} {j : Nat} {w : Worker} (hj : j < 3 * n) (hw : c.fn j = some w)
      (hpc : (s.thread j).pc = .lock)
      (hfree : ¬ s.locks.Blocked (w.owner j) (range j) w.access) :
      Step c n s { s.setThread j ((s.thread j).at (.body 0)) with
        locks := s.locks.set (w.owner j) (range j) (some w.access) }
  | write {s : State} {j k : Nat} {w : Worker} (hj : j < 3 * n) (hw : c.fn j = some w)
      (ha : w.access = .wrlck) (hpc : (s.thread j).pc = .body k) (hk : k < writeSize) :
      Step c n s { s.setThread j ((s.thread j).at (.body (k + 1))) with
        file := Function.update s.file (offset j + k) ((s.thread j).buf k) }
  | read {s : State} {j k : Nat} {w : Worker} (hj : j < 3 * n) (hw : c.fn j = some w)
      (ha : w.access = .rdlck) (hpc : (s.thread j).pc = .body k) (hk : k < writeSize) :
      Step c n s (s.setThread j { s.thread j with
        pc := .body (k + 1)
        buf := Function.update (s.thread j).buf k (s.file (offset j + k)) })
  | full {s : State} {j : Nat} {w : Worker} (hj : j < 3 * n) (hw : c.fn j = some w)
      (hpc : (s.thread j).pc = .body writeSize) :
      Step c n s { s.setThread j ((s.thread j).at .unlock) with
        failFlag := s.failFlag || w.fails (s.thread j).buf }
  | unlock {s : State} {j : Nat} {w : Worker} (hj : j < 3 * n) (hw : c.fn j = some w)
      (hpc : (s.thread j).pc = .unlock) :
      Step c n s { s.setThread j ((s.thread j).again w j) with
        locks := s.locks.set (w.owner j) (range j) none }
  /-- The barrier lets a thread go when all have come to it. -/
  | wake {s : State} {j : Nat} (hj : j < 3 * n) (hpc : (s.thread j).pc = .waiting)
      (hall : ∀ i < 3 * n, (s.thread i).pc.Arrived) :
      Step c n s (s.setThread j ((s.thread j).at (if c.fn j = none then .done else .leaving)))
  /-- `close` also removes the locks of the process. -/
  | close {s : State} {j : Nat} (hj : j < 3 * n) (hpc : (s.thread j).pc = .leaving) :
      Step c n s { s.setThread j ((s.thread j).at .done) with
        locks := (s.locks.drop (.ofd j)).drop .posix }

/-- A state that some order of the steps leads to. -/
def Reachable (c : Tcase) (n : Nat) (s : State) : Prop := ReflTransGen (Step c n) .start s

/-! ## The ranges of the threads -/

/-- At most one of the three functions locks for the process. -/
def Tcase.OnePosix (c : Tcase) : Prop :=
  ∀ a < 3, ∀ b < 3, (c.fn a).any (·.kind = .posix) → (c.fn b).any (·.kind = .posix) → a = b

instance (c : Tcase) : Decidable c.OnePosix :=
  inferInstanceAs (Decidable (∀ a < 3, ∀ b < 3, _))

theorem onePosix_tcases : ∀ c ∈ tcases, c.OnePosix := by decide

theorem Tcase.fn_mod (c : Tcase) (j : Nat) : c.fn (j % 3) = c.fn j := by
  unfold Tcase.fn
  rw [Nat.mod_mod]

theorem offset_eq (j : Nat) : offset j = (4 * (j / 3) + j % 3) * 1024 := by
  unfold offset writeSize
  split
  · omega
  · omega
  · rename_i h0 h1
    have h0 : j % 3 ≠ 0 := h0
    have h1 : j % 3 ≠ 1 := h1
    omega

theorem mem_range {j b : Nat} : b ∈ range j ↔ offset j ≤ b ∧ b < offset j + 4096 := Iff.rfl

/-- Threads of the same function have ranges of their own. -/
theorem disjoint_of_mod_eq {i j b : Nat} (hne : i ≠ j) (hmod : i % 3 = j % 3) (hi : b ∈ range i) :
    b ∉ range j := by
  intro hj
  rw [mem_range, offset_eq] at hi hj
  omega

/-- Threads that share an owner have ranges of their own. -/
theorem disjoint_of_owner_eq {c : Tcase} (hc : c.OnePosix) {i j b : Nat} {v w : Worker}
    (hv : c.fn i = some v) (hw : c.fn j = some w) (hne : i ≠ j) (ho : v.owner i = w.owner j)
    (hi : b ∈ range i) : b ∉ range j := by
  unfold Worker.owner at ho
  split at ho
  · split at ho
    · exact absurd (Owner.ofd.inj ho) hne
    · cases ho
  · rename_i hkv
    split at ho
    · cases ho
    · rename_i hkw
      refine disjoint_of_mod_eq hne ?_ hi
      refine hc _ (Nat.mod_lt i (by decide)) _ (Nat.mod_lt j (by decide)) ?_ ?_
      · rw [c.fn_mod, hv]
        simp [hkv]
      · rw [c.fn_mod, hw]
        simp [hkw]

/-! ## Where the threads are -/

/-- How many threads have been created. -/
def Main.created (n : Nat) : Main → Nat
  | .creating j => j
  | _ => 3 * n

/-- How many threads have been joined. -/
def Main.joined (n : Nat) : Main → Nat
  | .creating _ => 0
  | .joining j => j
  | .finished _ => 3 * n

/-- `loop_flag`, for where the initial thread is. -/
def Main.flag : Main → Bool
  | .creating _ => true
  | _ => false

/-- Where only threads get to that lock something. -/
def Pc.Working : Pc → Prop
  | .loop => True
  | .lock => True
  | .body _ => True
  | .unlock => True
  | .leaving => True
  | _ => False

/-- With the lock. -/
def Pc.Inside : Pc → Prop
  | .body _ => True
  | .unlock => True
  | _ => False

theorem Pc.Arrived.not_inside {pc : Pc} (h : pc.Arrived) : ¬ pc.Inside := by
  cases pc with
  | body => exact h.elim
  | unlock => exact h.elim
  | _ => exact not_false

/-- How the threads keep to the initial thread and to the barrier. -/
structure Control (c : Tcase) (n : Nat) (th : Nat → Thread) (m : Main) (flag : Bool) : Prop where
  created_le : m.created n ≤ 3 * n
  joined_le : m.joined n ≤ 3 * n
  born : ∀ j, (th j).pc = .unborn ↔ m.created n ≤ j
  joined : ∀ j < m.joined n, (th j).pc = .done
  flag_eq : flag = m.flag
  worker : ∀ j, (th j).pc.Working → c.fn j ≠ none
  body_le : ∀ j k, (th j).pc = .body k → k ≤ writeSize
  /-- No thread is behind the barrier before all have come to it. -/
  gate : ∀ j, (th j).pc = .leaving ∨ (th j).pc = .done → ∀ i < 3 * n, (th i).pc.Arrived

variable {c : Tcase} {n : Nat} {s s' : State}

theorem Control.start : Control c n State.start.thread State.start.main State.start.loopFlag where
  created_le := Nat.zero_le _
  joined_le := Nat.zero_le _
  born _ := ⟨fun _ => Nat.zero_le _, fun _ => rfl⟩
  joined _ h := absurd h (Nat.not_lt_zero _)
  flag_eq := rfl
  worker _ h := absurd h not_false
  body_le _ _ h := nomatch h
  gate _ h := h.elim nofun nofun

/-- A thread goes on that is created and not done. -/
theorem Control.update {th : Nat → Thread} {m : Main} {flag : Bool} (h : Control c n th m flag)
    {j : Nat} {t : Thread} (hborn : (th j).pc ≠ .unborn) (hdone : (th j).pc ≠ .done)
    (ht : t.pc ≠ .unborn) (hworker : t.pc.Working → c.fn j ≠ none)
    (hbody : ∀ k, t.pc = .body k → k ≤ writeSize)
    (hgate : (th j).pc.Arrived → t.pc.Arrived)
    (hlast : t.pc = .leaving ∨ t.pc = .done → ∀ i < 3 * n, (th i).pc.Arrived) :
    Control c n (Function.update th j t) m flag where
  created_le := h.created_le
  joined_le := h.joined_le
  born i := by
    rcases eq_or_ne i j with rfl | hne
    · rw [Function.update_self]
      exact iff_of_false ht fun hle => hborn ((h.born i).mpr hle)
    · rw [Function.update_of_ne hne]
      exact h.born i
  joined i hi := by
    rcases eq_or_ne i j with rfl | hne
    · exact absurd (h.joined i hi) hdone
    · rw [Function.update_of_ne hne]
      exact h.joined i hi
  flag_eq := h.flag_eq
  worker i := by
    rcases eq_or_ne i j with rfl | hne
    · rw [Function.update_self]
      exact hworker
    · rw [Function.update_of_ne hne]
      exact h.worker i
  body_le i := by
    rcases eq_or_ne i j with rfl | hne
    · rw [Function.update_self]
      exact hbody
    · rw [Function.update_of_ne hne]
      exact h.body_le i
  gate i hi := by
    have hall : ∀ i < 3 * n, (th i).pc.Arrived := by
      rcases eq_or_ne i j with rfl | hne
      · rw [Function.update_self] at hi
        exact hlast hi
      · rw [Function.update_of_ne hne] at hi
        exact h.gate i hi
    intro i' hi'
    rcases eq_or_ne i' j with rfl | hne
    · rw [Function.update_self]
      exact hgate (hall i' hi')
    · rw [Function.update_of_ne hne]
      exact hall i' hi'

/-- What the steps do that neither look at the file nor at a lock. -/
theorem next_cases {t t' : Thread} {f : Fn} {flag : Bool} (h : t.next f flag = some t') :
    (t.pc = .opening ∨ t.pc = .loop) ∧
      ((t' = t.at .waiting ∧ (f = none ∨ t.pc = .loop ∧ flag = false)) ∨
      ∃ w, f = some w ∧ (t' = t.top w ∧ (t.pc = .loop → flag = true) ∨
        t' = t.at .loop ∧ w.access = .rdlck ∧ t.pc = .opening)) := by
  unfold Thread.next at h
  split at h
  · rename_i hpc
    cases h
    exact ⟨.inl hpc, .inl ⟨rfl, .inl rfl⟩⟩
  · rename_i w hpc
    cases h
    refine ⟨.inl hpc, .inr ⟨w, rfl, ?_⟩⟩
    split
    · exact .inl ⟨rfl, fun h => absurd (hpc.symm.trans h) nofun⟩
    · rename_i ha
      refine .inr ⟨rfl, ?_, hpc⟩
      cases hw : w.access with
      | rdlck => rfl
      | wrlck => exact absurd hw ha
  · rename_i w hpc
    cases h
    refine ⟨.inr hpc, ?_⟩
    cases flag with
    | true => exact .inr ⟨w, rfl, .inl ⟨rfl, fun _ => rfl⟩⟩
    | false => exact .inl ⟨rfl, .inr ⟨hpc, rfl⟩⟩
  · cases h

@[simp] theorem at_pc (t : Thread) (pc : Pc) : (t.at pc).pc = pc := rfl

@[simp] theorem top_pc (t : Thread) (w : Worker) : (t.top w).pc = .lock := by
  unfold Thread.top
  split <;> rfl

@[simp] theorem again_pc (t : Thread) (w : Worker) (j : Nat) : (t.again w j).pc = .loop := by
  unfold Thread.again
  split <;> rfl

/-- **What is said of the threads' places holds after each step.** -/
theorem Control.step (h : Control c n s.thread s.main s.loopFlag) (hstep : Step c n s s') :
    Control c n s'.thread s'.main s'.loopFlag := by
  cases hstep with
  | @create j hmain hj =>
    rw [hmain] at h
    have hborn : ∀ i, (s.thread i).pc = .unborn ↔ j ≤ i := h.born
    exact {
      created_le := hj
      joined_le := Nat.zero_le _
      born := fun i => by
        show (Function.update s.thread j _ i).pc = .unborn ↔ j + 1 ≤ i
        rcases eq_or_ne i j with rfl | hne
        · rw [Function.update_self]
          exact iff_of_false nofun (by omega)
        · rw [Function.update_of_ne hne, hborn]
          omega
      joined := fun i hi => absurd hi (Nat.not_lt_zero i)
      flag_eq := h.flag_eq
      worker := fun i => by
        show (Function.update s.thread j _ i).pc.Working → _
        rcases eq_or_ne i j with rfl | hne
        · rw [Function.update_self]
          exact fun hw => absurd hw not_false
        · rw [Function.update_of_ne hne]
          exact h.worker i
      body_le := fun i k => by
        show (Function.update s.thread j _ i).pc = .body k → _
        rcases eq_or_ne i j with rfl | hne
        · rw [Function.update_self]
          exact nofun
        · rw [Function.update_of_ne hne]
          exact h.body_le i k
      gate := fun i hi => by
        -- thread `j` has not come to the barrier, so no thread is behind it
        refine absurd (h.gate i ?_ j hj) ?_
        · change (Function.update s.thread j _ i).pc = _ ∨
            (Function.update s.thread j _ i).pc = _ at hi
          rcases eq_or_ne i j with rfl | hne
          · rw [Function.update_self] at hi
            exact hi.elim nofun nofun
          · rwa [Function.update_of_ne hne] at hi
        · rw [(hborn j).mpr (Nat.le_refl j)]
          exact not_false }
  | stop hmain =>
    rw [hmain] at h
    exact ⟨Nat.le_refl _, Nat.zero_le _, h.born, fun _ hi => absurd hi (Nat.not_lt_zero _), rfl,
      h.worker, h.body_le, h.gate⟩
  | @join j hmain hj hdone =>
    rw [hmain] at h
    refine ⟨Nat.le_refl _, hj, h.born, fun i hi => ?_, h.flag_eq, h.worker, h.body_le, h.gate⟩
    rcases Nat.lt_succ_iff_lt_or_eq.mp hi with hi | rfl
    · exact h.joined i hi
    · exact hdone
  | check hmain =>
    rw [hmain] at h
    exact ⟨Nat.le_refl _, Nat.le_refl _, h.born, h.joined, h.flag_eq, h.worker, h.body_le, h.gate⟩
  | @next j t hj ht =>
    obtain ⟨hpc, hcases⟩ := next_cases ht
    have hborn : (s.thread j).pc ≠ .unborn := by rcases hpc with hpc | hpc <;> rw [hpc] <;> nofun
    have hdone : (s.thread j).pc ≠ .done := by rcases hpc with hpc | hpc <;> rw [hpc] <;> nofun
    have harrived : ¬ (s.thread j).pc.Arrived := by
      rcases hpc with hpc | hpc <;> rw [hpc] <;> exact not_false
    have hupdate := fun hun hw hb hlast =>
      h.update (t := t) hborn hdone hun hw hb (fun ha => absurd ha harrived) hlast
    rcases hcases with ⟨rfl, -⟩ | ⟨w, hw, ⟨rfl, -⟩ | ⟨rfl, -⟩⟩
    · exact hupdate nofun (fun hw => absurd hw not_false) nofun fun hl => hl.elim nofun nofun
    · refine hupdate ?_ (fun _ => hw ▸ nofun) ?_ ?_ <;> rw [top_pc]
      · nofun
      · nofun
      · exact fun hl => hl.elim nofun nofun
    · exact hupdate nofun (fun _ => hw ▸ nofun) nofun fun hl => hl.elim nofun nofun
  | lock hj hw hpc hfree =>
    exact h.update (hpc ▸ nofun) (hpc ▸ nofun) nofun (fun _ => hw ▸ nofun)
      (fun k hk => by cases hk; exact Nat.zero_le _) (hpc ▸ fun ha => ha.elim)
      fun hl => hl.elim nofun nofun
  | write hj hw ha hpc hk =>
    exact h.update (hpc ▸ nofun) (hpc ▸ nofun) nofun (fun _ => hw ▸ nofun)
      (fun k hk' => by cases hk'; exact hk) (hpc ▸ fun ha => ha.elim)
      fun hl => hl.elim nofun nofun
  | read hj hw ha hpc hk =>
    exact h.update (hpc ▸ nofun) (hpc ▸ nofun) nofun (fun _ => hw ▸ nofun)
      (fun k hk' => by cases hk'; exact hk) (hpc ▸ fun ha => ha.elim)
      fun hl => hl.elim nofun nofun
  | full hj hw hpc =>
    exact h.update (hpc ▸ nofun) (hpc ▸ nofun) nofun (fun _ => hw ▸ nofun) nofun
      (hpc ▸ fun ha => ha.elim) fun hl => hl.elim nofun nofun
  | unlock hj hw hpc =>
    refine h.update (hpc ▸ nofun) (hpc ▸ nofun) ?_ (fun _ => hw ▸ nofun) ?_
      (hpc ▸ fun ha => ha.elim) ?_ <;> rw [again_pc]
    · nofun
    · nofun
    · exact fun hl => hl.elim nofun nofun
  | @wake j hj hpc hall =>
    split
    · exact h.update (hpc ▸ nofun) (hpc ▸ nofun) nofun (fun hw => absurd hw not_false) nofun
        (fun _ => trivial) fun _ => hall
    · rename_i hf
      exact h.update (hpc ▸ nofun) (hpc ▸ nofun) nofun (fun _ => hf) nofun (fun _ => trivial)
        fun _ => hall
  | close hj hpc =>
    exact h.update (hpc ▸ nofun) (hpc ▸ nofun) nofun (fun hw => absurd hw not_false) nofun
      (fun _ => trivial) fun _ => h.gate _ (.inl hpc)

/-! ## What is locked -/

/-- Exactly the threads inside have locks, each on its range. -/
structure Locks (c : Tcase) (th : Nat → Thread) (T : Table Owner) : Prop where
  compatible : T.Compatible
  held : ∀ j w, c.fn j = some w → (th j).pc.Inside → ∀ b ∈ range j,
    T (w.owner j) b = some w.access
  owned : ∀ o b, T o b ≠ none → ∃ j w, c.fn j = some w ∧ w.owner j = o ∧ (th j).pc.Inside ∧
    b ∈ range j

theorem Locks.start : Locks c State.start.thread State.start.locks where
  compatible := Table.compatible_empty
  held _ _ _ h := absurd h not_false
  owned _ _ h := absurd rfl h

namespace Locks

variable {th th' : Nat → Thread} {T : Table Owner}

/-- **Mutual exclusion**: where a thread is inside that writes, no other one is. -/
theorem apart (h : Locks c th T) (hc : c.OnePosix) {i j b : Nat} {v w : Worker} (hne : i ≠ j)
    (hv : c.fn i = some v) (hw : c.fn j = some w) (ha : v.access = .wrlck)
    (hi : (th i).pc.Inside) (hj : (th j).pc.Inside) (hb : b ∈ range i) : b ∉ range j := by
  intro hb'
  by_cases ho : v.owner i = w.owner j
  · exact disjoint_of_owner_eq hc hv hw hne ho hb hb'
  · have hlock := h.held i v hv hi b hb
    have hnone := h.compatible.alone (ha ▸ hlock) (Ne.symm ho)
    rw [h.held j w hw hj b hb'] at hnone
    cases hnone

/-- No thread goes in or comes out. -/
theorem congr (h : Locks c th T) (hin : ∀ j, (th' j).pc.Inside ↔ (th j).pc.Inside) :
    Locks c th' T where
  compatible := h.compatible
  held j w hw hj := h.held j w hw ((hin j).mp hj)
  owned o b hb := by
    obtain ⟨j, w, hw, ho, hj, hb⟩ := h.owned o b hb
    exact ⟨j, w, hw, ho, (hin j).mpr hj, hb⟩

theorem update (h : Locks c th T) {j : Nat} {t : Thread}
    (hin : t.pc.Inside ↔ (th j).pc.Inside) : Locks c (Function.update th j t) T := by
  refine h.congr fun i => ?_
  rcases eq_or_ne i j with rfl | hne
  · rw [Function.update_self]
    exact hin
  · rw [Function.update_of_ne hne]

variable {j : Nat} {w : Worker} {t : Thread}

/-- A thread goes in. -/
theorem enter (h : Locks c th T) (hc : c.OnePosix) (hw : c.fn j = some w)
    (hin : t.pc.Inside) (hout : ¬ (th j).pc.Inside)
    (hfree : ¬ T.Blocked (w.owner j) (range j) w.access) :
    Locks c (Function.update th j t) (T.set (w.owner j) (range j) (some w.access)) where
  compatible := h.compatible.set hfree
  held i v hv hi b hb := by
    rcases eq_or_ne i j with rfl | hne
    · cases hw.symm.trans hv
      exact Table.set_self hb
    · rw [Function.update_of_ne hne] at hi
      by_cases ho : v.owner i = w.owner j
      · rw [Table.set_outside (disjoint_of_owner_eq hc hv hw hne ho hb)]
        exact h.held i v hv hi b hb
      · rw [Table.set_other ho]
        exact h.held i v hv hi b hb
  owned o b hb := by
    by_cases hnew : o = w.owner j ∧ b ∈ range j
    · refine ⟨j, w, hw, hnew.1.symm, ?_, hnew.2⟩
      rwa [Function.update_self]
    · have hold : T o b ≠ none := (if_neg hnew : T.set _ _ (some w.access) o b = _) ▸ hb
      obtain ⟨i, v, hv, ho, hi, hb⟩ := h.owned o b hold
      have hne : i ≠ j := fun hij => hout (hij ▸ hi)
      refine ⟨i, v, hv, ho, ?_, hb⟩
      rwa [Function.update_of_ne hne]

/-- A thread comes out. -/
theorem leave (h : Locks c th T) (hc : c.OnePosix) (hw : c.fn j = some w)
    (hout : ¬ t.pc.Inside) :
    Locks c (Function.update th j t) (T.set (w.owner j) (range j) none) where
  compatible := h.compatible.unset
  held i v hv hi b hb := by
    rcases eq_or_ne i j with rfl | hne
    · rw [Function.update_self] at hi
      exact absurd hi hout
    · rw [Function.update_of_ne hne] at hi
      by_cases ho : v.owner i = w.owner j
      · rw [Table.set_outside (disjoint_of_owner_eq hc hv hw hne ho hb)]
        exact h.held i v hv hi b hb
      · rw [Table.set_other ho]
        exact h.held i v hv hi b hb
  owned o b hb := by
    have hold : ¬ (o = w.owner j ∧ b ∈ range j) := fun hnew => hb (if_pos hnew)
    have hset : T.set (w.owner j) (range j) none o b = T o b := if_neg hold
    obtain ⟨i, v, hv, ho, hi, hbi⟩ := h.owned o b (hset ▸ hb)
    have hne : i ≠ j := by
      rintro rfl
      cases hw.symm.trans hv
      exact hold ⟨ho.symm, hbi⟩
    refine ⟨i, v, hv, ho, ?_, hbi⟩
    rwa [Function.update_of_ne hne]

/-- **What is said of the locks holds after each step.** That `close` removes the locks of the
process does no harm: behind the barrier there are none. -/
theorem step (h : Locks c s.thread s.locks) (hc : c.OnePosix)
    (hctl : Control c n s.thread s.main s.loopFlag) (hstep : Step c n s s') :
    Locks c s'.thread s'.locks := by
  cases hstep with
  | @create j hmain hj =>
    rw [hmain] at hctl
    have hpc : (s.thread j).pc = .unborn := (hctl.born j).mpr (Nat.le_refl j)
    exact h.update (hpc ▸ Iff.rfl)
  | stop hmain => exact h
  | join hmain hj hdone => exact h
  | check hmain => exact h
  | @next j t hj ht =>
    obtain ⟨hpc, hcases⟩ := next_cases ht
    have hout : ¬ (s.thread j).pc.Inside := by
      rcases hpc with hpc | hpc <;> rw [hpc] <;> exact not_false
    refine h.update (iff_of_false ?_ hout)
    rcases hcases with ⟨rfl, -⟩ | ⟨w, -, ⟨rfl, -⟩ | ⟨rfl, -⟩⟩
    · exact not_false
    · rw [top_pc]
      exact not_false
    · exact not_false
  | lock hj hw hpc hfree => exact h.enter hc hw trivial (hpc ▸ not_false) hfree
  | write hj hw ha hpc hk => exact h.update (hpc ▸ Iff.rfl)
  | read hj hw ha hpc hk => exact h.update (hpc ▸ Iff.rfl)
  | full hj hw hpc => exact h.update (hpc ▸ Iff.rfl)
  | unlock hj hw hpc => exact h.leave hc hw (again_pc _ _ _ ▸ not_false)
  | wake hj hpc hall =>
    refine h.update (iff_of_false ?_ (hpc ▸ not_false))
    split
    · exact not_false
    · exact not_false
  | @close j hj hpc =>
    have hnone : ∀ o b, s.locks o b = none := by
      by_contra hsome
      push Not at hsome
      obtain ⟨o, b, hb⟩ := hsome
      obtain ⟨i, w, hw, -, hin, -⟩ := h.owned o b hb
      have hi : i < 3 * n := by
        by_contra hi
        have hle := hctl.created_le
        rw [(hctl.born i).mpr (by omega)] at hin
        exact hin
      exact (hctl.gate j (.inl hpc) i hi).not_inside hin
    have hdrop : (s.locks.drop (.ofd j)).drop .posix = s.locks := by
      funext o b
      unfold Table.drop
      rw [hnone o b, ite_self, ite_self]
    show Locks c (Function.update s.thread j _) ((s.locks.drop (.ofd j)).drop .posix)
    rw [hdrop]
    exact h.update (hpc ▸ Iff.rfl)

end Locks

/-! ## What is in the file -/

/-- Block `i` is of one piece. -/
def Uniform (file : Nat → Nat) (i : Nat) : Prop :=
  ∀ b, i * 1024 ≤ b → b < (i + 1) * 1024 → file b = file (i * 1024)

/-- A thread has written a part of block `i`. -/
def Begun (c : Tcase) (th : Nat → Thread) (i : Nat) : Prop :=
  ∃ j w k, c.fn j = some w ∧ w.access = .wrlck ∧ (th j).pc = .body k ∧
    i * 1024 < offset j + k ∧ offset j + k < (i + 1) * 1024

/-- What is said of a thread that is no `fn_dummy`. -/
structure Honest (file : Nat → Nat) (w : Worker) (j : Nat) (t : Thread) : Prop where
  wt : 2 ≤ t.wt ∧ t.wt ≤ 254
  filled : w.access = .wrlck → (t.pc = .lock ∨ ∃ k, t.pc = .body k) → ∀ i, t.buf i = t.wt
  copied : w.access = .wrlck → ∀ k, t.pc = .body k → ∀ i < k, file (offset j + i) = t.wt
  readBack : w.access = .rdlck → ∀ k, t.pc = .body k → ∀ i < k, t.buf i = file (offset j + i)
  written : w.access = .wrlck → (t.pc = .unlock ∨ 0 < t.turns) → ∀ b ∈ range j, 2 ≤ file b
  turned : w.access = .wrlck → (t.pc = .loop ∨ t.pc.Arrived) → 0 < t.turns

/-- What is said of the file: the values that are in it, and which blocks are of one piece. -/
structure Data (c : Tcase) (n : Nat) (th : Nat → Thread) (file : Nat → Nat) : Prop where
  honest : ∀ j < 3 * n, ∀ w, c.fn j = some w → Honest file w j (th j)
  values : ∀ b, 1 ≤ file b ∧ file b ≤ 254
  blocks : ∀ i, Uniform file i ∨ Begun c th i

theorem cnt_bounds {j : Nat} (hn : n ≤ maxThreadCnt) (hj : j < 3 * n) :
    2 ≤ cnt j ∧ cnt j ≤ 254 := by
  unfold cnt
  have h : n ≤ 32 := hn
  omega

theorem Data.start (hn : n ≤ maxThreadCnt) : Data c n State.start.thread State.start.file where
  honest j hj w _ :=
    { wt := cnt_bounds hn hj
      filled := fun _ h => h.elim nofun nofun
      copied := fun _ _ h => nomatch h
      readBack := fun _ _ h => nomatch h
      written := fun _ h => h.elim nofun (fun h => absurd h (Nat.lt_irrefl 0))
      turned := fun _ h => h.elim nofun fun h => h.elim }
  values _ := ⟨Nat.le_refl 1, show 1 ≤ 254 by decide⟩
  blocks _ := .inl fun _ _ _ => rfl

/-- A change of the file that another thread makes. -/
theorem Honest.frame {file file' : Nat → Nat} {w : Worker} {j : Nat} {t : Thread}
    (h : Honest file w j t) (hk : ∀ k, t.pc = .body k → k ≤ writeSize)
    (hfile : ∀ b, file' b = file b ∨ (2 ≤ file' b ∧ (t.pc.Inside → b ∉ range j))) :
    Honest file' w j t := by
  have hsame : ∀ k, t.pc = .body k → ∀ i < k, file' (offset j + i) = file (offset j + i) := by
    intro k hpc i hi
    refine (hfile _).resolve_right fun hb => hb.2 (hpc ▸ trivial) ?_
    have hle : k ≤ 4096 := hk k hpc
    rw [mem_range]
    omega
  refine ⟨h.wt, h.filled, fun ha k hpc i hi => ?_, fun ha k hpc i hi => ?_, fun ha ht b hb => ?_,
    h.turned⟩
  · rw [hsame k hpc i hi]
    exact h.copied ha k hpc i hi
  · rw [hsame k hpc i hi]
    exact h.readBack ha k hpc i hi
  · rcases hfile b with heq | hge
    · exact heq ▸ h.written ha ht b hb
    · exact hge.1

/-- A reader. -/
theorem Honest.of_reader {file : Nat → Nat} {w : Worker} {j : Nat} {t : Thread}
    (hrd : w.access = .rdlck) (hwt : 2 ≤ t.wt ∧ t.wt ≤ 254)
    (hread : ∀ k, t.pc = .body k → ∀ i < k, t.buf i = file (offset j + i)) :
    Honest file w j t where
  wt := hwt
  filled ha := absurd (hrd.symm.trans ha) nofun
  copied ha := absurd (hrd.symm.trans ha) nofun
  readBack _ := hread
  written ha := absurd (hrd.symm.trans ha) nofun
  turned ha := absurd (hrd.symm.trans ha) nofun

/-- A thread goes on to where it has no lock and needs none. -/
theorem Honest.aside {file : Nat → Nat} {w : Worker} {j : Nat} {t : Thread}
    (h : Honest file w j t) {pc : Pc} (hlock : pc ≠ .lock) (hout : ¬ pc.Inside)
    (hturned : w.access = .wrlck → (pc = .loop ∨ pc.Arrived) → 0 < t.turns) :
    Honest file w j (t.at pc) where
  wt := h.wt
  filled _ ht := by
    rcases ht with ht | ⟨k, rfl⟩
    · exact absurd ht hlock
    · exact absurd trivial hout
  copied _ k hk := by
    cases hk
    exact absurd trivial hout
  readBack _ k hk := by
    cases hk
    exact absurd trivial hout
  written ha ht := by
    rcases ht with rfl | ht
    · exact absurd trivial hout
    · exact h.written ha (.inr ht)
  turned := hturned

/-- A thread fills its buffer. -/
theorem Honest.top {file : Nat → Nat} {w : Worker} {j : Nat} {t : Thread} (h : Honest file w j t) :
    Honest file w j (t.top w) := by
  cases ha : w.access with
  | rdlck =>
    have htop : t.top w = { t with pc := .lock, buf := fun _ => 0 } := by rw [Thread.top, ha]
    rw [htop]
    exact .of_reader ha h.wt nofun
  | wrlck =>
    have htop : t.top w = { t with pc := .lock, buf := fun _ => t.wt % 256 } := by
      rw [Thread.top, ha]
    have hwt := h.wt
    rw [htop]
    exact {
      wt := h.wt
      filled := fun _ _ _ => Nat.mod_eq_of_lt (by omega)
      copied := fun _ => nofun
      readBack := fun _ => nofun
      written := fun ha ht => h.written ha (.inr (ht.resolve_left nofun))
      turned := fun _ ht => ht.elim nofun fun ht => ht.elim }

/-- A thread takes the next value. -/
theorem Honest.again {file : Nat → Nat} {w : Worker} {j : Nat} {t : Thread}
    (h : Honest file w j t) (hn : n ≤ maxThreadCnt) (hj : j < 3 * n) (hpc : t.pc = .unlock) :
    Honest file w j (t.again w j) := by
  cases ha : w.access with
  | rdlck =>
    have hagain : t.again w j = { t with pc := .loop, turns := t.turns + 1 } := by
      rw [Thread.again, ha]
    rw [hagain]
    exact .of_reader ha h.wt nofun
  | wrlck =>
    have hagain : t.again w j = { t with
        pc := .loop
        wt := if t.wt + 1 ≥ 255 then cnt j else t.wt + 1
        turns := t.turns + 1 } := by rw [Thread.again, ha]
    rw [hagain]
    have hnext : 2 ≤ (if t.wt + 1 ≥ 255 then cnt j else t.wt + 1) ∧
        (if t.wt + 1 ≥ 255 then cnt j else t.wt + 1) ≤ 254 := by
      have hwt := h.wt
      split
      · exact cnt_bounds hn hj
      · omega
    exact {
      wt := hnext
      filled := fun _ ht => ht.elim nofun nofun
      copied := fun _ => nofun
      readBack := fun _ => nofun
      written := fun ha _ => h.written ha (.inl hpc)
      turned := fun _ _ => Nat.succ_pos _ }

namespace Data

variable {th : Nat → Thread} {file : Nat → Nat}

/-- A thread goes on that does not write. -/
theorem update (h : Data c n th file) {j : Nat} {t : Thread}
    (hhonest : j < 3 * n → ∀ w, c.fn j = some w → Honest file w j t)
    (hbody : ∀ w k, c.fn j = some w → w.access = .wrlck → (th j).pc = .body k → k = writeSize) :
    Data c n (Function.update th j t) file where
  honest i hi w hw := by
    rcases eq_or_ne i j with rfl | hne
    · rw [Function.update_self]
      exact hhonest hi w hw
    · rw [Function.update_of_ne hne]
      exact h.honest i hi w hw
  values := h.values
  blocks i := by
    refine (h.blocks i).imp_right ?_
    rintro ⟨j', w, k, hw, ha, hpc, hlt, hgt⟩
    have hne : j' ≠ j := by
      rintro rfl
      rw [hbody w k hw ha hpc, offset_eq, writeSize] at hlt hgt
      omega
    refine ⟨j', w, k, hw, ha, ?_, hlt, hgt⟩
    rwa [Function.update_of_ne hne]

/-- A thread that is inside finds blocks of one piece, other than the one it writes. -/
theorem uniform (h : Data c n th file) {T : Table Owner} (hl : Locks c th T) (hc : c.OnePosix)
    (hk : ∀ j k, (th j).pc = .body k → k ≤ writeSize) {j : Nat} {w : Worker}
    (hw : c.fn j = some w) (ha : w.access = .rdlck) (hin : (th j).pc.Inside) {q : Nat}
    (hq : q < 4) : Uniform file (4 * (j / 3) + j % 3 + q) := by
  refine (h.blocks _).resolve_right ?_
  rintro ⟨i, v, k, hv, ha', hpc, hlt, hgt⟩
  have hne : i ≠ j := by
    rintro rfl
    cases hv.symm.trans hw
    rw [ha] at ha'
    cases ha'
  have hle : k ≤ 4096 := hk i k hpc
  have hoi := offset_eq i
  have hoj := offset_eq j
  -- the byte written last is in the ranges of both
  have hbi : offset i + k - 1 ∈ range i := by
    rw [mem_range]
    omega
  refine hl.apart hc hne hv hw ha' (hpc ▸ trivial) hin hbi ?_
  rw [mem_range]
  omega

/-- A thread writes the next byte of its buffer. -/
theorem write (h : Data c n th file) {T : Table Owner} (hl : Locks c th T) (hc : c.OnePosix)
    (hbody : ∀ j k, (th j).pc = .body k → k ≤ writeSize) {j k : Nat} (hj : j < 3 * n) {w : Worker}
    (hw : c.fn j = some w) (ha : w.access = .wrlck) (hpc : (th j).pc = .body k)
    (hk : k < writeSize) :
    Data c n (Function.update th j ((th j).at (.body (k + 1))))
      (Function.update file (offset j + k) ((th j).buf k)) := by
  have hme := h.honest j hj w hw
  have hbyte : (th j).buf k = (th j).wt := hme.filled ha (.inr ⟨k, hpc⟩) k
  have hk' : k < 4096 := hk
  have hmem : offset j + k ∈ range j := by
    rw [mem_range]
    omega
  rw [hbyte]
  have hother : ∀ b, Function.update file (offset j + k) (th j).wt b = file b ∨
      (2 ≤ Function.update file (offset j + k) (th j).wt b ∧ b = offset j + k) := by
    intro b
    rcases eq_or_ne b (offset j + k) with rfl | hne
    · rw [Function.update_self]
      exact .inr ⟨hme.wt.1, rfl⟩
    · exact .inl (Function.update_of_ne hne _ _)
  have hcopied : ∀ i < k + 1,
      Function.update file (offset j + k) (th j).wt (offset j + i) = (th j).wt := by
    intro i hi
    rcases eq_or_ne i k with rfl | hne
    · exact Function.update_self _ _ _
    · rw [Function.update_of_ne (by omega)]
      exact hme.copied ha k hpc i (by omega)
  refine ⟨fun i hi v hv => ?_, fun b => ?_, fun i => ?_⟩
  · rcases eq_or_ne i j with rfl | hne
    · cases hw.symm.trans hv
      rw [Function.update_self]
      refine ⟨hme.wt, fun _ _ => hme.filled ha (.inr ⟨k, hpc⟩), fun _ k' hk i hi => ?_,
        fun hr => absurd (ha.symm.trans hr) nofun, fun _ ht b hb => ?_, fun _ ht => ?_⟩
      · cases hk
        exact hcopied i hi
      · rcases hother b with heq | hge
        · exact heq ▸ hme.written ha (.inr (ht.resolve_left nofun)) b hb
        · exact hge.1
      · exact ht.elim nofun fun ht => ht.elim
    · rw [Function.update_of_ne hne]
      refine (h.honest i hi v hv).frame (hbody i) fun b => ?_
      rcases hother b with heq | ⟨hge, rfl⟩
      · exact .inl heq
      · exact .inr ⟨hge, fun hin => hl.apart hc hne.symm hw hv ha (hpc ▸ trivial) hin hmem⟩
  · rcases eq_or_ne b (offset j + k) with rfl | hne
    · rw [Function.update_self]
      have hwt := hme.wt
      omega
    · rw [Function.update_of_ne hne]
      exact h.values b
  · have hoj := offset_eq j
    by_cases hin : i * 1024 ≤ offset j + k ∧ offset j + k < (i + 1) * 1024
    · by_cases hlast : offset j + k + 1 = (i + 1) * 1024
      · -- the block is full: all of it is from this thread
        left
        have hall : ∀ b, i * 1024 ≤ b → b < (i + 1) * 1024 →
            Function.update file (offset j + k) (th j).wt b = (th j).wt := by
          intro b hlo hhi
          have hb := hcopied (b - offset j) (by omega)
          rwa [show offset j + (b - offset j) = b by omega] at hb
        intro b hlo hhi
        rw [hall b hlo hhi, hall (i * 1024) (Nat.le_refl _) (by omega)]
      · right
        refine ⟨j, w, k + 1, hw, ha, ?_, by omega, by omega⟩
        rw [Function.update_self]
        rfl
    · have hsame : ∀ b, i * 1024 ≤ b → b < (i + 1) * 1024 →
          Function.update file (offset j + k) (th j).wt b = file b := fun b hlo hhi =>
        Function.update_of_ne (by omega) _ _
      refine (h.blocks i).imp (fun hu b hlo hhi => ?_) ?_
      · rw [hsame b hlo hhi, hsame (i * 1024) (Nat.le_refl _) (by omega)]
        exact hu b hlo hhi
      · rintro ⟨i', v, k', hv, ha', hpc', hlt, hgt⟩
        have hne : i' ≠ j := by
          rintro rfl
          cases hpc.symm.trans hpc'
          exact hin ⟨by omega, hgt⟩
        refine ⟨i', v, k', hv, ha', ?_, hlt, hgt⟩
        rwa [Function.update_of_ne hne]

/-- **What is said of the file holds after each step.** -/
theorem step (h : Data c n s.thread s.file) (hn : n ≤ maxThreadCnt) (hc : c.OnePosix)
    (hctl : Control c n s.thread s.main s.loopFlag) (hl : Locks c s.thread s.locks)
    (hstep : Step c n s s') : Data c n s'.thread s'.file := by
  cases hstep with
  | @create j hmain hj =>
    rw [hmain] at hctl
    have hpc : (s.thread j).pc = .unborn := (hctl.born j).mpr (Nat.le_refl j)
    refine h.update (fun hj w hw => ?_) fun _ _ _ _ hb => nomatch hpc.symm.trans hb
    exact (h.honest j hj w hw).aside nofun not_false fun _ ht => ht.elim nofun fun ht => ht.elim
  | stop hmain => exact h
  | join hmain hj hdone => exact h
  | check hmain => exact h
  | @next j t hj ht =>
    obtain ⟨hpc, hcases⟩ := next_cases ht
    have hnot : ∀ k, (s.thread j).pc ≠ .body k := by
      intro k
      rcases hpc with hpc | hpc <;> rw [hpc] <;> nofun
    refine h.update (fun hj w hw => ?_) fun _ k _ _ hb => absurd hb (hnot k)
    have hme := h.honest j hj w hw
    rcases hcases with ⟨rfl, hidle⟩ | ⟨v, hv, ⟨rfl, -⟩ | ⟨rfl, hrd, -⟩⟩
    · refine hme.aside nofun not_false fun ha _ => hme.turned ha (.inl ?_)
      rcases hidle with hnone | hloop
      · rw [hw] at hnone
        cases hnone
      · exact hloop.1
    · cases hw.symm.trans hv
      exact hme.top
    · cases hw.symm.trans hv
      exact .of_reader hrd hme.wt nofun
  | @lock j w hj hw hpc hfree =>
    refine h.update (fun hj v hv => ?_) fun _ _ _ _ hb => nomatch hpc.symm.trans hb
    have hme := h.honest j hj v hv
    exact {
      wt := hme.wt
      filled := fun ha _ => hme.filled ha (.inl hpc)
      copied := fun _ k hk i hi => by cases hk; exact absurd hi (Nat.not_lt_zero i)
      readBack := fun _ k hk i hi => by cases hk; exact absurd hi (Nat.not_lt_zero i)
      written := fun ha ht => hme.written ha (.inr (ht.resolve_left nofun))
      turned := fun _ ht => ht.elim nofun fun ht => ht.elim }
  | write hj hw ha hpc hk => exact h.write hl hc hctl.body_le hj hw ha hpc hk
  | @read j k w hj hw hrd hpc hk =>
    refine h.update (fun hj v hv => ?_) fun v k' hv ha _ => ?_
    · cases hw.symm.trans hv
      have hme := h.honest j hj w hw
      refine .of_reader hrd hme.wt fun k' hk' i hi => ?_
      cases hk'
      show Function.update (s.thread j).buf k (s.file (offset j + k)) i = s.file (offset j + i)
      rcases eq_or_ne i k with rfl | hne
      · exact Function.update_self _ _ _
      · rw [Function.update_of_ne hne]
        exact hme.readBack hrd k hpc i (by omega)
    · cases hw.symm.trans hv
      exact absurd (hrd.symm.trans ha) nofun
  | @full j w hj hw hpc =>
    refine h.update (fun hj v hv => ?_) fun _ k _ _ hb => Pc.body.inj (hb.symm.trans hpc)
    have hme := h.honest j hj v hv
    refine ⟨hme.wt, fun _ ht => ht.elim nofun nofun, fun _ => nofun, fun _ => nofun,
      fun ha _ b hb => ?_, fun _ ht => ht.elim nofun fun ht => ht.elim⟩
    -- all bytes of the range have been written
    rw [mem_range] at hb
    have hcopied := hme.copied ha writeSize hpc (b - offset j) (show _ < 4096 by omega)
    rw [show offset j + (b - offset j) = b by omega] at hcopied
    exact hcopied ▸ hme.wt.1
  | @unlock j w hj hw hpc =>
    refine h.update (fun hj v hv => ?_) fun _ _ _ _ hb => nomatch hpc.symm.trans hb
    cases hw.symm.trans hv
    exact (h.honest j hj w hw).again hn hj hpc
  | @wake j hj hpc hall =>
    refine h.update (fun hj w hw => ?_) fun _ _ _ _ hb => nomatch hpc.symm.trans hb
    have hme := h.honest j hj w hw
    rw [hw, if_neg nofun]
    exact hme.aside nofun not_false fun ha _ => hme.turned ha (.inr (hpc ▸ trivial))
  | @close j hj hpc =>
    refine h.update (fun hj w hw => ?_) fun _ _ _ _ hb => nomatch hpc.symm.trans hb
    have hme := h.honest j hj w hw
    exact hme.aside nofun not_false fun ha _ => hme.turned ha (.inr (hpc ▸ trivial))

/-- What a reader has read passes its check. -/
theorem verified (h : Data c n th file) {T : Table Owner} (hl : Locks c th T) (hc : c.OnePosix)
    (hk : ∀ j k, (th j).pc = .body k → k ≤ writeSize) {j : Nat} (hj : j < 3 * n) {w : Worker}
    (hw : c.fn j = some w) (hrd : w.access = .rdlck) (hpc : (th j).pc = .body writeSize) :
    Verified (th j).buf := by
  intro i hi
  have hread := (h.honest j hj w hw).readBack hrd writeSize hpc
  have hi' : i < 4096 := hi
  have hstart : i / (writeSize / 4) * writeSize / 4 = i / 1024 * 1024 := by
    show i / 1024 * 4096 / 4 = _
    omega
  have hoj := offset_eq j
  rw [hstart, hread i hi, hread _ (show _ < 4096 by omega)]
  refine ⟨h.values _, ?_⟩
  -- both bytes are in one block
  have huniform := h.uniform hl hc hk hw hrd (hpc ▸ trivial) (q := i / 1024) (by omega)
  rw [huniform (offset j + i) (by omega) (by omega),
    huniform (offset j + i / 1024 * 1024) (by omega) (by omega)]

end Data

/-! ## The verdict -/

/-- One of the first two functions writes: each block is written, but for the first three. -/
def Tcase.Writes (c : Tcase) : Prop :=
  (c.fn 0).any (·.access = .wrlck) ∨ (c.fn 1).any (·.access = .wrlck)

instance (c : Tcase) : Decidable c.Writes := inferInstanceAs (Decidable (_ ∨ _))

theorem writes_tcases : ∀ c ∈ tcases, c.Writes := by decide

/-- A thread that writes block `i`. -/
theorem Tcase.Writes.exists_writer (hc : c.Writes) {i : Nat} (hi : 1 ≤ i) (hn : i < n * 4) :
    ∃ j < 3 * n, ∃ w, c.fn j = some w ∧ w.access = .wrlck ∧
      offset j ≤ i * 1024 ∧ (i + 1) * 1024 ≤ offset j + 4096 := by
  have hwriter : ∀ r j, j % 3 = r → (c.fn r).any (·.access = .wrlck) →
      ∃ w, c.fn j = some w ∧ w.access = .wrlck := by
    intro r j hr hany
    rw [← hr, c.fn_mod, Option.any_eq_true] at hany
    obtain ⟨w, hw, ha⟩ := hany
    exact ⟨w, hw, of_decide_eq_true ha⟩
  rcases hc with h0 | h1
  · obtain ⟨w, hw, ha⟩ := hwriter 0 (3 * (i / 4)) (by omega) h0
    refine ⟨_, by omega, w, hw, ha, ?_⟩
    rw [offset_eq]
    omega
  · obtain ⟨w, hw, ha⟩ := hwriter 1 (3 * ((i - 1) / 4) + 1) (by omega) h1
    refine ⟨_, by omega, w, hw, ha, ?_⟩
    rw [offset_eq]
    omega

/-- What is said of a state that some order of the steps leads to. -/
structure Inv (c : Tcase) (n : Nat) (s : State) : Prop where
  control : Control c n s.thread s.main s.loopFlag
  locks : Locks c s.thread s.locks
  data : Data c n s.thread s.file
  calm : s.failFlag = false
  passed : s.main ≠ .finished false

theorem Inv.start (hn : n ≤ maxThreadCnt) : Inv c n .start :=
  ⟨.start, .start, .start hn, rfl, nofun⟩

/-- The check at the end. -/
theorem Inv.fileRight (h : Inv c n s) (hc : c.Writes) (hmain : s.main = .joining (3 * n)) :
    FileRight s.file n := by
  have hdone : ∀ j < 3 * n, (s.thread j).pc = .done := by
    have hjoined := h.control.joined
    rw [hmain] at hjoined
    exact hjoined
  intro i hi
  have huniform : Uniform s.file i := by
    refine (h.data.blocks i).resolve_right ?_
    rintro ⟨j, w, k, -, -, hpc, -⟩
    have hj : j < 3 * n := by
      by_contra hj
      have hle := h.control.created_le
      rw [(h.control.born j).mpr (by omega)] at hpc
      cases hpc
    rw [hdone j hj] at hpc
    cases hpc
  constructor
  · intro k hk
    have hk' : k < 1024 := hk
    show (2 ≤ s.file (i * 1024 + k) ∧ s.file (i * 1024 + k) ≤ 254) ∨ _
    have hvalue := h.data.values (i * 1024 + k)
    by_cases hlow : i < 1
    · rcases Nat.eq_or_lt_of_le hvalue.1 with hone | htwo
      · exact .inr ⟨by omega, hone.symm⟩
      · exact .inl ⟨htwo, hvalue.2⟩
    · left
      obtain ⟨j, hj, w, hw, ha, hlo, hhi⟩ := hc.exists_writer (Nat.le_of_not_lt hlow) hi
      have hme := h.data.honest j hj w hw
      have hturns := hme.turned ha (.inr (hdone j hj ▸ trivial))
      exact ⟨hme.written ha (.inr hturns) _ (mem_range.mpr (by omega)), hvalue.2⟩
  · intro k hk _
    have hk' : k < 1024 := hk
    exact huniform (i * 1024 + k) (by omega) (by omega)

/-- **All that is said of a state holds after each step.** -/
theorem Inv.step (hn : n ≤ maxThreadCnt) (hc : c ∈ tcases) : Invariant (Step c n) (Inv c n) := by
  intro s s' h hstep
  have hone := onePosix_tcases c hc
  refine ⟨h.control.step hstep, h.locks.step hone h.control hstep,
    h.data.step hn hone h.control h.locks hstep, ?_, ?_⟩
  · cases hstep with
    | @full j w hj hw hpc =>
      show (s.failFlag || w.fails (s.thread j).buf) = false
      rw [h.calm, Bool.false_or, Worker.fails]
      split
      · rfl
      · rename_i hrd
        rw [decide_eq_true (h.data.verified h.locks hone h.control.body_le hj hw hrd hpc)]
        rfl
    | _ => exact h.calm
  · cases hstep with
    | create hmain hj => exact nofun
    | stop hmain => exact nofun
    | join hmain hj hdone => exact nofun
    | check hmain =>
      show Main.finished _ ≠ _
      rw [decide_eq_true (h.fileRight (writes_tcases c hc) hmain), h.calm]
      nofun
    | _ => exact h.passed

theorem threadCnt_le (ncpus : Nat) : threadCnt ncpus ≤ maxThreadCnt := by
  unfold threadCnt
  split
  · exact Nat.le_refl _
  · omega

theorem Inv.of_reachable {ncpus : Nat} (hc : c ∈ tcases) (h : Reachable c (threadCnt ncpus) s) :
    Inv c (threadCnt ncpus) s :=
  (Inv.step (threadCnt_le ncpus) hc).run (Inv.start (threadCnt_le ncpus)) h

/-! ## The end -/

/-- How many steps a thread still makes, at most, when the loops are not to go on. -/
def Pc.rank : Pc → Nat
  | .unborn => 0
  | .opening => writeSize + 8
  | .lock => writeSize + 7
  | .body k => writeSize - k + 6
  | .unlock => 5
  | .loop => 4
  | .waiting => 3
  | .leaving => 2
  | .done => 1

/-- How many steps the initial thread still makes. -/
def Main.rank (n : Nat) : Main → Nat
  | .creating _ => 0
  | .joining j => 3 * n - j + 1
  | .finished _ => 0

def State.size (n : Nat) (s : State) : Nat :=
  ∑ j ∈ Finset.range (3 * n), (s.thread j).pc.rank + s.main.rank n

theorem sum_rank_lt {th : Nat → Thread} {j m : Nat} {t : Thread} (hj : j < m)
    (hlt : t.pc.rank < (th j).pc.rank) :
    ∑ i ∈ Finset.range m, (Function.update th j t i).pc.rank
      < ∑ i ∈ Finset.range m, (th i).pc.rank := by
  refine Finset.sum_lt_sum (fun i _ => ?_) ⟨j, Finset.mem_range.mpr hj, ?_⟩
  · rcases eq_or_ne i j with rfl | hne
    · rw [Function.update_self]
      exact Nat.le_of_lt hlt
    · rw [Function.update_of_ne hne]
  · rw [Function.update_self]
    exact hlt

/-- The state that the loops are not to go on in. -/
structure Stopping (c : Tcase) (n : Nat) (s : State) : Prop where
  inv : Inv c n s
  stopped : s.loopFlag = false

theorem Stopping.step (hn : n ≤ maxThreadCnt) (hc : c ∈ tcases) :
    Invariant (Step c n) (Stopping c n) := by
  intro s s' h hstep
  refine ⟨Inv.step hn hc h.inv hstep, ?_⟩
  cases hstep with
  | stop hmain => rfl
  | _ => exact h.stopped

theorem Stopping.decreases : Decreases (Step c n) (Stopping c n) (State.size n) := by
  intro s s' h hstep
  have hflag := h.inv.control.flag_eq
  rw [h.stopped] at hflag
  have hthread : ∀ {j : Nat} {t : Thread}, j < 3 * n → t.pc.rank < (s.thread j).pc.rank →
      ∑ i ∈ Finset.range (3 * n), (Function.update s.thread j t i).pc.rank + s.main.rank n
        < s.size n := fun hj hlt => Nat.add_lt_add_right (sum_rank_lt hj hlt) _
  cases hstep with
  | create hmain hj =>
    rw [hmain] at hflag
    cases hflag
  | stop hmain =>
    rw [hmain] at hflag
    cases hflag
  | join hmain hj hdone =>
    refine Nat.add_lt_add_left ?_ _
    rw [hmain]
    simp only [Main.rank]
    omega
  | check hmain =>
    refine Nat.add_lt_add_left ?_ _
    rw [hmain]
    simp only [Main.rank]
    omega
  | next hj ht =>
    refine hthread hj ?_
    obtain ⟨hpc, hcases⟩ := next_cases ht
    rcases hcases with ⟨rfl, -⟩ | ⟨w, -, ⟨rfl, hon⟩ | ⟨rfl, -, hopen⟩⟩
    · rcases hpc with hpc | hpc <;> rw [hpc] <;> simp only [Pc.rank, at_pc, writeSize] <;> omega
    · rcases hpc with hpc | hpc
      · rw [hpc, top_pc]
        exact Nat.lt_succ_self _
      · rw [h.stopped] at hon
        exact nomatch hon hpc
    · rw [hopen]
      simp only [Pc.rank, at_pc, writeSize]
      omega
  | lock hj hw hpc hfree =>
    refine hthread hj ?_
    rw [hpc]
    exact Nat.lt_succ_self _
  | write hj hw ha hpc hk =>
    refine hthread hj ?_
    rw [hpc]
    simp only [Pc.rank, at_pc]
    omega
  | read hj hw ha hpc hk =>
    refine hthread hj ?_
    rw [hpc]
    simp only [Pc.rank]
    omega
  | full hj hw hpc =>
    refine hthread hj ?_
    rw [hpc]
    simp only [Pc.rank, at_pc]
    omega
  | unlock hj hw hpc =>
    refine hthread hj ?_
    rw [hpc, again_pc]
    exact Nat.lt_succ_self _
  | wake hj hpc hall =>
    refine hthread hj ?_
    rw [hpc]
    split
    · exact show 1 < 3 by decide
    · exact show 2 < 3 by decide
  | close hj hpc =>
    refine hthread hj ?_
    rw [hpc]
    exact Nat.lt_succ_self _

/-- A thread that has the lock can go on. -/
theorem exists_step_inside (h : Inv c n s) {j : Nat} {w : Worker} (hj : j < 3 * n)
    (hw : c.fn j = some w) (hin : (s.thread j).pc.Inside) : ∃ s', Step c n s s' := by
  cases hpc : (s.thread j).pc with
  | unlock => exact ⟨_, .unlock hj hw hpc⟩
  | body k =>
    rcases Nat.lt_or_eq_of_le (h.control.body_le j k hpc) with hk | rfl
    · cases ha : w.access with
      | wrlck => exact ⟨_, .write hj hw ha hpc hk⟩
      | rdlck => exact ⟨_, .read hj hw ha hpc hk⟩
    · exact ⟨_, .full hj hw hpc⟩
  | _ =>
    rw [hpc] at hin
    exact hin.elim

theorem lt_of_inside (h : Inv c n s) {j : Nat} (hin : (s.thread j).pc.Inside) : j < 3 * n := by
  by_contra hj
  have hle := h.control.created_le
  rw [(h.control.born j).mpr (by omega)] at hin
  exact hin

/-- Where a thread is that has not come to the barrier, some thread can go on: what blocks a lock
is the lock of a thread that waits for nothing. -/
theorem exists_step_of_not_arrived (h : Inv c n s) {j : Nat} (hj : j < 3 * n)
    (hborn : (s.thread j).pc ≠ .unborn) (hnot : ¬ (s.thread j).pc.Arrived) :
    ∃ s', Step c n s s' := by
  have hworker : (s.thread j).pc.Working → ∃ w, c.fn j = some w := fun hwork =>
    Option.ne_none_iff_exists'.mp (h.control.worker j hwork)
  cases hpc : (s.thread j).pc with
  | unborn => exact absurd hpc hborn
  | opening =>
    have hnext : ∃ t, (s.thread j).next (c.fn j) s.loopFlag = some t := by
      unfold Thread.next
      rw [hpc]
      cases c.fn j with
      | none => exact ⟨_, rfl⟩
      | some w => exact ⟨_, rfl⟩
    obtain ⟨t, ht⟩ := hnext
    exact ⟨_, .next hj ht⟩
  | loop =>
    obtain ⟨w, hw⟩ := hworker (hpc ▸ trivial)
    have hnext : ∃ t, (s.thread j).next (c.fn j) s.loopFlag = some t := by
      unfold Thread.next
      rw [hpc, hw]
      exact ⟨_, rfl⟩
    obtain ⟨t, ht⟩ := hnext
    exact ⟨_, .next hj ht⟩
  | lock =>
    obtain ⟨w, hw⟩ := hworker (hpc ▸ trivial)
    by_cases hblocked : s.locks.Blocked (w.owner j) (range j) w.access
    · obtain ⟨o, -, b, -, hconflict⟩ := hblocked
      obtain ⟨i, v, hv, -, hin, -⟩ := h.locks.owned o b hconflict.2.1
      exact exists_step_inside h (lt_of_inside h hin) hv hin
    · exact ⟨_, .lock hj hw hpc hblocked⟩
  | body k =>
    obtain ⟨w, hw⟩ := hworker (hpc ▸ trivial)
    exact exists_step_inside h hj hw (hpc ▸ trivial)
  | unlock =>
    obtain ⟨w, hw⟩ := hworker (hpc ▸ trivial)
    exact exists_step_inside h hj hw (hpc ▸ trivial)
  | _ =>
    rw [hpc] at hnot
    exact absurd trivial hnot

/-- The initial thread has come to its end, with `TPASS`. -/
def State.Passed (s : State) : Prop := s.main = .finished true

/-- **No deadlock**: before the end some step is possible. -/
theorem progress : Progress (Step c n) (Inv c n) State.Passed := by
  intro s h
  cases hmain : s.main with
  | creating j =>
    have hle := h.control.created_le
    rw [hmain] at hle
    rcases Nat.lt_or_eq_of_le hle with hj | rfl
    · exact .inr ⟨_, .create hmain hj⟩
    · exact .inr ⟨_, .stop hmain⟩
  | finished pass =>
    cases pass with
    | true => exact .inl hmain
    | false => exact absurd hmain h.passed
  | joining j =>
    right
    have hle := h.control.joined_le
    have hborn : ∀ i < 3 * n, (s.thread i).pc ≠ .unborn := fun i hi hpc => by
      have hcreated := (h.control.born i).mp hpc
      rw [hmain] at hcreated
      exact absurd hi (Nat.not_lt_of_le hcreated)
    rw [hmain] at hle
    rcases Nat.lt_or_eq_of_le hle with hj | rfl
    · by_cases hall : ∀ i < 3 * n, (s.thread i).pc.Arrived
      · have harrived := hall j hj
        cases hpc : (s.thread j).pc with
        | waiting => exact ⟨_, .wake hj hpc hall⟩
        | leaving => exact ⟨_, .close hj hpc⟩
        | done => exact ⟨_, .join hmain hj hpc⟩
        | _ =>
          rw [hpc] at harrived
          exact harrived.elim
      · push Not at hall
        obtain ⟨i, hi, hnot⟩ := hall
        exact exists_step_of_not_arrived h hi (hborn i hi) hnot
    · exact ⟨_, .check hmain⟩

/-- The initial thread can create all threads and tell them to stop. -/
theorem exists_stopping (hn : n ≤ maxThreadCnt) (hc : c ∈ tcases) (h : Inv c n s) :
    ∃ s', ReflTransGen (Step c n) s s' ∧ Stopping c n s' := by
  cases hflag : s.loopFlag with
  | false => exact ⟨s, .refl, h, hflag⟩
  | true =>
    obtain ⟨j, hmain⟩ : ∃ j, s.main = .creating j := by
      have heq := h.control.flag_eq
      cases hmain : s.main with
      | creating j => exact ⟨j, rfl⟩
      | _ =>
        rw [hflag, hmain] at heq
        cases heq
    have hle := h.control.created_le
    rw [hmain] at hle
    -- induction on the threads still to be created
    induction hk : 3 * n - j generalizing s j with
    | zero =>
      obtain rfl : j = 3 * n := Nat.le_antisymm hle (Nat.le_of_sub_eq_zero hk)
      have hstep := Step.stop (c := c) hmain
      exact ⟨_, .single hstep, Inv.step hn hc h hstep, rfl⟩
    | succ k ih =>
      have hstep := Step.create (c := c) hmain (show j < 3 * n by omega)
      obtain ⟨s', hrun, hstopping⟩ := ih (Inv.step hn hc h hstep) hflag (j + 1) rfl
        (show j + 1 ≤ 3 * n by omega) (by omega)
      exact ⟨s', .head hstep hrun, hstopping⟩

/-- From each state the program can come to its end. -/
theorem exists_finished (hn : n ≤ maxThreadCnt) (hc : c ∈ tcases) (h : Inv c n s) :
    ∃ s', ReflTransGen (Step c n) s s' ∧ s'.Passed := by
  obtain ⟨s₁, hrun₁, hstopping⟩ := exists_stopping hn hc h
  obtain ⟨s₂, hrun₂, hend⟩ : ∃ s', ReflTransGen (Step c n) s₁ s' ∧ s'.Passed :=
    exists_end (fun _ hs => progress hs.inv) Stopping.decreases (Stopping.step hn hc) hstopping
  exact ⟨s₂, hrun₁.trans hrun₂, hend⟩

/-- **The accesses are synchronized**: whatever order the steps come in, no reader sets
`fail_flag`, and the initial thread does not come to its end without `TPASS`. -/
theorem synchronized (ncpus : Nat) (hc : c ∈ tcases) (h : Reachable c (threadCnt ncpus) s) :
    s.failFlag = false ∧ s.main ≠ .finished false :=
  have hinv := Inv.of_reachable hc h
  ⟨hinv.calm, hinv.passed⟩

/-- A run that comes to its end, with an OFD reader, an OFD writer and a POSIX writer. -/
theorem synchronized_finished :
    ∃ s : State, s.Passed ∧ s.failFlag = false ∧ s.main ≠ .finished false := by
  have hc : (⟨fnOfdR, fnOfdW, fnPosixW⟩ : Tcase) ∈ tcases := by decide
  obtain ⟨s, hrun, hend⟩ := exists_finished (threadCnt_le 1) hc (Inv.start (threadCnt_le 1))
  exact ⟨s, hend, synchronized 1 hc hrun⟩

/-- **The program comes to its end**, from each state: it can always do so, and once it has told
the threads to stop, it makes at most `State.size` steps and does not get stuck on its way. -/
theorem finishes (ncpus : Nat) (hc : c ∈ tcases) (h : Reachable c (threadCnt ncpus) s) :
    (∃ s', ReflTransGen (Step c (threadCnt ncpus)) s s' ∧ s'.Passed) ∧
      (s.loopFlag = false → ∀ m s', Run (Step c (threadCnt ncpus)) m s s' →
        m ≤ s.size (threadCnt ncpus) ∧
        ((∀ s'', ¬ Step c (threadCnt ncpus) s' s'') → s'.Passed)) := by
  have hn := threadCnt_le ncpus
  have hinv := Inv.of_reachable hc h
  refine ⟨exists_finished hn hc hinv, fun hflag m s' hrun => ⟨?_, fun hstuck => ?_⟩⟩
  · have hle := Stopping.decreases.length_le (Stopping.step hn hc) ⟨hinv, hflag⟩ hrun
    omega
  · exact ends progress (Inv.step hn hc) hinv hrun.reflTransGen hstuck

/-- A state that the loops are not to go on in. -/
theorem finishes_stopping : ∃ s, s.loopFlag = false ∧
    ∀ m s', Run (Step ⟨fnOfdR, fnOfdW, fnDummy⟩ (threadCnt 2)) m s s' →
      m ≤ s.size (threadCnt 2) := by
  have hc : (⟨fnOfdR, fnOfdW, fnDummy⟩ : Tcase) ∈ tcases := by decide
  obtain ⟨s, hrun, hstopping⟩ := exists_stopping (threadCnt_le 2) hc (Inv.start (threadCnt_le 2))
  exact ⟨s, hstopping.stopped, fun m s' h =>
    ((finishes 2 hc hrun).2 hstopping.stopped m s' h).1⟩

end Syscalls.Fcntl36
