import UnikraftSuite.Lib.Process
import Mathlib.Data.Nat.Find

/-!
# `access01`

Each row of a table names an `errno` and the users for whom `access` should fail with it. The
check of `root` asks for a call that returns 0 and leaves that `errno` behind. A row for
`nobody` alone forks a child that becomes `nobody`, but checks nothing: it returns a pointer
as an `int` into the loop of `main`, where it goes on with the next rows.
-/

namespace Syscalls.Access01

open PyStr CStdio Process

/-! ## The program -/

/-- The calls made for row `i`. -/
inductive Call where
  | access (i : Nat)
  | setuid (i : Nat)
  /-- Not a call: what a caller finds where `verify_access(i)` returns no value. -/
  | missing (i : Nat)
  deriving DecidableEq

/-- The return value of `access`, and `errno` behind it. -/
structure Result where
  ret : Int
  errno : Int

abbrev Reply : Call → Type
  | .access _ => Result
  | .setuid _ => Unit
  | .missing _ => BitVec 32

structure Tcase where
  fname : Text
  name : Text
  expErrno : Int
  expUser : BitVec 32

/-- The table, the low half of the address of `"nobody"`, and the number of rows. -/
structure Program where
  tcases : Nat → Tcase
  nobody : BitVec 32
  n : Nat

def accessTest (tc : Tcase) (i : Nat) (user : Text) : Proc Call Reply (BitVec 32) := do
  printf ("access(".toList ++ (tc.fname ++ ", ".toList ++ tc.name ++ ") as ".toList ++ user))
  let r : Result ← call (Call.access i)
  if tc.expErrno ≠ 0 then
    if r.ret ≠ 0 ∨ r.errno ≠ tc.expErrno then return 0 else return 1
  else if r.ret = -1 then return 0 else return 1

/-- A row for `nobody` alone. The value of `(tc, "nobody")` is the pointer. -/
def forkNobody (prog : Program) (i : Nat) : Proc Call Reply (BitVec 32) := do
  match ← fork with
  | some pid => do
    let _ ← waitpid pid
    call (Call.missing i)
  | none => do
    let _ ← call (Call.setuid i)
    return prog.nobody

/-- `verify_access(i)`. -/
def verifyAccess (prog : Program) (i : Nat) : Proc Call Reply (BitVec 32) :=
  let tc := prog.tcases i
  if tc.expUser &&& 2 ≠ 0 then accessTest tc i "root".toList
  else if tc.expUser &&& 1 ≠ 0 then forkNobody prog i
  else call (Call.missing i)

def verdict : Text := "test succeeded".toList

/-- A turn of the loop in `main`. -/
def mainTurn (prog : Program) (i : Nat) (ok : BitVec 32) : Proc Call Reply (BitVec 32) := do
  let v ← verifyAccess prog i
  return ok * v

/-- What is left of `main` behind the loop. -/
def finish (ok : BitVec 32) : Proc Call Reply Unit :=
  if ok ≠ 0 then printf verdict else return ()

/-- `main`, without the files made by `setup`. -/
def main (prog : Program) : Proc Call Reply Unit := do
  let ok ← loop (mainTurn prog) 0 prog.n 1
  finish ok

/-! ## Runs -/

/-- The results of the calls for each row, and the values that are missing. -/
structure Kernel where
  prog : Program
  asRoot : Nat → Result
  asNobody : Nat → Result
  missing : Nat → BitVec 32

/-- Every forked process has become `nobody`. -/
def Kernel.world (k : Kernel) : World Call Reply where
  answer
    | p, .access i => .val (if p = [] then k.asRoot i else k.asNobody i)
    | _, .setuid _ => .val ()
    | _, .missing i => .val (k.missing i)
  signal _ _ := none
  image _ _ := .ends (.exited 0)

/-- The initial process and all that it forks. -/
def Kernel.life (k : Kernel) : Life Call := run k.world (main k.prog) [] []

/-- Row `i` is for `root`. -/
def ForRoot (k : Kernel) (i : Nat) : Prop := (k.prog.tcases i).expUser &&& 2 ≠ 0

/-- Row `i` is for `nobody`. -/
def ForNobody (k : Kernel) (i : Nat) : Prop := (k.prog.tcases i).expUser &&& 1 ≠ 0

/-- What row `i` expects of a result. -/
def Expected (k : Kernel) (i : Nat) (r : Result) : Prop :=
  if (k.prog.tcases i).expErrno = 0 then r.ret = 0
  else r.ret = -1 ∧ r.errno = (k.prog.tcases i).expErrno

/-- Every row is met for every user it is for. -/
def AllMet (k : Kernel) : Prop :=
  ∀ i < k.prog.n, (ForRoot k i → Expected k i (k.asRoot i)) ∧
    (ForNobody k i → Expected k i (k.asNobody i))

/-- The process makes the check of one row for `nobody` alone and ends by `exit`. -/
def SingleCheck (k : Kernel) (q : Descendant Call) : Prop :=
  (∃ i < k.prog.n, ¬ ForRoot k i ∧ ForNobody k i ∧
    ∀ j, .called (.access j) ∈ q.events ↔ j = i) ∧
      (∀ j, .turn j ∉ q.events) ∧ ∃ code, q.ended = .exited code

/-- The verdict is printed if and only if every row is met, and each forked process makes its
single check only. -/
def VerdictRight (k : Kernel) : Prop :=
  (k.life.Prints verdict ↔ AllMet k) ∧ ∀ q ∈ k.life.others, SingleCheck k q

/-! ## Rows that do not fork -/

/-- The check made as `root` fails. -/
def RootFails (k : Kernel) (i : Nat) : Prop :=
  ForRoot k i ∧ if (k.prog.tcases i).expErrno = 0 then (k.asRoot i).ret = -1
    else (k.asRoot i).ret ≠ 0 ∨ (k.asRoot i).errno ≠ (k.prog.tcases i).expErrno

instance (k : Kernel) (i : Nat) : Decidable (ForRoot k i) := inferInstanceAs (Decidable (_ ≠ _))

instance (k : Kernel) (i : Nat) : Decidable (ForNobody k i) :=
  inferInstanceAs (Decidable (_ ≠ _))

instance (k : Kernel) (i : Nat) : Decidable (RootFails k i) := inferInstanceAs (Decidable (_ ∧ _))

/-- What a row that does not fork returns. -/
def rowValue (k : Kernel) (i : Nat) : BitVec 32 :=
  if ForRoot k i then if RootFails k i then 0 else 1 else k.missing i

theorem accessTest_plain (tc : Tcase) (i : Nat) (user : Text) :
    (accessTest tc i user).Plain (Event.Aside verdict) := by
  refine ⟨.line (apart_append (by decide) _), .called _, fun r => ?_⟩
  refine Proc.Plain.ite ?_ ?_
  · refine Proc.Plain.ite ?_ ?_
    · trivial
    · trivial
  · refine Proc.Plain.ite ?_ ?_
    · trivial
    · trivial

theorem outcome_accessTest (k : Kernel) (i : Nat) (user : Text) (h : ForRoot k i) :
    outcome k.world [] (accessTest (k.prog.tcases i) i user) = .back (rowValue k i) := by
  have hcheck : outcome k.world [] (accessTest (k.prog.tcases i) i user) =
      outcome k.world [] (if (k.prog.tcases i).expErrno ≠ 0 then
        if (k.asRoot i).ret ≠ 0 ∨ (k.asRoot i).errno ≠ (k.prog.tcases i).expErrno then return 0
        else return 1 else if (k.asRoot i).ret = -1 then return 0 else return 1) := rfl
  rw [hcheck, rowValue, if_pos h]
  by_cases hexp : (k.prog.tcases i).expErrno = 0
  · have hfails : RootFails k i ↔ (k.asRoot i).ret = -1 := by
      rw [RootFails, if_pos hexp, and_iff_right h]
    rw [if_neg (not_not.mpr hexp)]
    by_cases hret : (k.asRoot i).ret = -1
    · rw [if_pos hret, if_pos (hfails.mpr hret)]
      rfl
    · rw [if_neg hret, if_neg (mt hfails.mp hret)]
      rfl
  · have hfails : RootFails k i ↔
        (k.asRoot i).ret ≠ 0 ∨ (k.asRoot i).errno ≠ (k.prog.tcases i).expErrno := by
      rw [RootFails, if_neg hexp, and_iff_right h]
    rw [if_pos hexp]
    by_cases hret : (k.asRoot i).ret ≠ 0 ∨ (k.asRoot i).errno ≠ (k.prog.tcases i).expErrno
    · rw [if_pos hret, if_pos (hfails.mpr hret)]
      rfl
    · rw [if_neg hret, if_neg (mt hfails.mp hret)]
      rfl

theorem verifyAccess_eq (k : Kernel) (i : Nat) : verifyAccess k.prog i =
    if ForRoot k i then accessTest (k.prog.tcases i) i "root".toList
    else if ForNobody k i then forkNobody k.prog i
    else call (Call.missing i) := rfl

/-- **A row that is not for `nobody` alone** forks nothing. -/
theorem verifyAccess_plain {k : Kernel} {i : Nat} (h : ForNobody k i → ForRoot k i) :
    (verifyAccess k.prog i).Plain (Event.Aside verdict) ∧
      outcome k.world [] (verifyAccess k.prog i) = .back (rowValue k i) := by
  rw [verifyAccess_eq]
  by_cases hroot : ForRoot k i
  · rw [if_pos hroot]
    exact ⟨accessTest_plain _ i _, outcome_accessTest k i _ hroot⟩
  · rw [if_neg hroot, if_neg (mt h hroot), rowValue, if_neg hroot]
    exact ⟨⟨.called _, fun _ => trivial⟩, rfl⟩

theorem mainTurn_plain {k : Kernel} {i : Nat} (h : ForNobody k i → ForRoot k i) (ok : BitVec 32) :
    (mainTurn k.prog i ok).Plain (· ≠ .printed verdict) ∧
      outcome k.world [] (mainTurn k.prog i ok) = .back (ok * rowValue k i) := by
  obtain ⟨hplain, hout⟩ := verifyAccess_plain h
  refine ⟨(hplain.mono fun e he => he.1).bind fun v => trivial, ?_⟩
  rw [mainTurn, outcome_bind _ _ hout]
  rfl

/-! ## The product -/

theorem turns_zero (f : Nat → BitVec 32) (n : Nat) :
    ∀ i, turns (fun j ok => ok * f j) i n 0 = 0 := by
  induction n with
  | zero => exact fun i => rfl
  | succ n ih =>
    intro i
    have hzero : 0 * f i = 0 := BitVec.zero_mul
    rw [turns, hzero]
    exact ih (i + 1)

/-- One factor 0 clears `ok` for good. -/
theorem turns_eq_zero (f : Nat → BitVec 32) (n : Nat) : ∀ (i : Nat) (ok : BitVec 32),
    (∃ j, i ≤ j ∧ j < i + n ∧ f j = 0) → turns (fun j ok => ok * f j) i n ok = 0 := by
  induction n with
  | zero => rintro i ok ⟨j, hij, hj, -⟩; omega
  | succ n ih =>
    rintro i ok ⟨j, hij, hj, h0⟩
    rw [turns]
    rcases Nat.eq_or_lt_of_le hij with rfl | hlt
    · have hzero : ok * f i = 0 := by
        rw [h0]
        exact BitVec.mul_zero
      rw [hzero]
      exact turns_zero f n (i + 1)
    · exact ih (i + 1) _ ⟨j, hlt, by omega, h0⟩

theorem turns_congr {f g : Nat → BitVec 32} (n : Nat) : ∀ (i : Nat) (ok : BitVec 32),
    (∀ j, i ≤ j → j < i + n → f j = g j) →
      turns (fun j ok => ok * f j) i n ok = turns (fun j ok => ok * g j) i n ok := by
  induction n with
  | zero => exact fun i ok _ => rfl
  | succ n ih =>
    intro i ok h
    rw [turns, turns, h i (by omega) (by omega)]
    exact ih (i + 1) _ fun j hij hj => h j (by omega) (by omega)

/-- The product of the values that are missing. -/
def missingProduct (k : Kernel) : BitVec 32 :=
  turns (fun i ok => ok * if ForRoot k i then 1 else k.missing i) 0 k.prog.n 1

/-- A check made as `root` fails, or the missing values multiply to 0. -/
def Clears (k : Kernel) : Prop := (∃ i < k.prog.n, RootFails k i) ∨ missingProduct k = 0

theorem turns_rowValue (k : Kernel) :
    turns (fun i ok => ok * rowValue k i) 0 k.prog.n 1 = 0 ↔ Clears k := by
  by_cases hfail : ∃ i < k.prog.n, RootFails k i
  · refine iff_of_true ?_ (.inl hfail)
    obtain ⟨i, hi, hf⟩ := hfail
    refine turns_eq_zero _ _ 0 1 ⟨i, by omega, by omega, ?_⟩
    rw [rowValue, if_pos hf.1, if_pos hf]
  · rw [Clears, or_iff_right hfail, missingProduct, turns_congr (g := fun i =>
      if ForRoot k i then 1 else k.missing i)]
    intro j _ hj
    have hno : ¬ RootFails k j := fun h => hfail ⟨j, by omega, h⟩
    rw [rowValue, if_neg hno]

/-! ## Runs without a fork -/

/-- No row is for `nobody` alone. -/
def NoNobodyOnly (k : Kernel) : Prop := ∀ i < k.prog.n, ForNobody k i → ForRoot k i

theorem life_of_noNobodyOnly {k : Kernel} (h : NoNobodyOnly k) :
    (k.life.Prints verdict ↔ ¬ Clears k) ∧ k.life.others = [] := by
  have hplain : (loop (mainTurn k.prog) 0 k.prog.n 1).Plain (· ≠ .printed verdict) :=
    loop_plain (by simp) _ _ _ fun j hj ok => (mainTurn_plain (h j (by omega)) ok).1
  have hout : outcome k.world [] (loop (mainTurn k.prog) 0 k.prog.n 1) =
      .back (turns (fun i ok => ok * rowValue k i) 0 k.prog.n 1) :=
    outcome_loop _ _ _ _ _ fun j hj ok => (mainTurn_plain (h j (by omega)) ok).2
  obtain ⟨evs, hevs, hrun⟩ := hplain.run_bind k.world []
  have hsilent : .printed verdict ∉ evs := fun hv => hevs _ hv rfl
  rw [Kernel.life, main, hrun, hout, Outcome.then, ← turns_rowValue, finish]
  by_cases hok : turns (fun i ok => ok * rowValue k i) 0 k.prog.n 1 = 0
  · rw [if_neg (not_not.mpr hok)]
    refine ⟨iff_of_false (fun hp => ?_) (not_not.mpr hok), rfl⟩
    rcases List.mem_append.mp hp with hp | hp
    · exact hsilent hp
    · cases hp
  · rw [if_pos hok]
    exact ⟨iff_of_true (List.mem_append_right _ List.mem_cons_self) hok, rfl⟩

/-! ## The first row for `nobody` alone -/

/-- The loop is in a turn or at its end. -/
theorem turn_mem_loop (k : Kernel) (i m : Nat) (ok : BitVec 32) (p : Path) (kids : List Ended) :
    ∃ j, .turn j ∈ (run k.world (loop (mainTurn k.prog) i m ok >>= finish) p kids).events := by
  cases m with
  | zero => exact ⟨none, List.mem_cons_self⟩
  | succ m => exact ⟨some i, List.mem_cons_self⟩

/-- The child goes on in the loop. -/
theorem child_turns (k : Kernel) {i m : Nat} (ok : BitVec 32) (hroot : ¬ ForRoot k i)
    (hnobody : ForNobody k i) : ∃ q ∈ (run k.world (loop (mainTurn k.prog) i (m + 1) ok >>= finish)
      [] []).others, ∃ j, .turn j ∈ q.events := by
  rw [loop, Proc.turn_bind, run_turn, mainTurn, verifyAccess_eq, if_neg hroot, if_pos hnobody,
    forkNobody]
  simp only [bind_assoc, pure_bind]
  rw [fork_bind, run_fork]
  obtain ⟨j, hj⟩ := turn_mem_loop k (i + 1) m (ok * k.prog.nobody) [0] []
  exact ⟨_, List.mem_cons_self, j, List.mem_cons_of_mem _ hj⟩

theorem not_verdictRight {k : Kernel} (h : ¬ NoNobodyOnly k) : ¬ VerdictRight k := by
  classical
  intro hk
  simp only [NoNobodyOnly, not_forall, exists_prop] at h
  obtain ⟨hn, hnobody, hroot⟩ := Nat.find_spec h
  have hbefore : ∀ j < Nat.find h, ForNobody k j → ForRoot k j := by
    intro j hj hnob
    by_contra hr
    exact Nat.find_min h hj ⟨by omega, hnob, hr⟩
  -- up to the first row for `nobody` alone nothing is forked
  obtain ⟨ok, evs, -, hrun⟩ := run_loop_plain (P := (· ≠ .printed verdict))
    (mainTurn k.prog) k.world [] (by simp) (k.prog.n - Nat.find h) (Nat.find h) 0 1
    fun j hj ok => by
      obtain ⟨hplain, hout⟩ := mainTurn_plain (hbefore j (by omega)) ok
      exact ⟨hplain, _, hout⟩
  obtain ⟨q, hq, j, hj⟩ := child_turns k (m := k.prog.n - Nat.find h - 1) ok hroot hnobody
  refine (hk.2 q ?_).2.1 j hj
  rw [show k.prog.n - Nat.find h - 1 + 1 = k.prog.n - Nat.find h by omega] at hq
  rw [show Nat.find h + (k.prog.n - Nat.find h) = k.prog.n by omega, Nat.zero_add] at hrun
  rw [Kernel.life, main, hrun]
  exact hq

/-! ## The verdict -/

theorem rootFails_iff {k : Kernel} {i : Nat} (hroot : ForRoot k i)
    (h : Expected k i (k.asRoot i)) : RootFails k i ↔ (k.prog.tcases i).expErrno ≠ 0 := by
  rw [RootFails, and_iff_right hroot]
  rw [Expected] at h
  by_cases hexp : (k.prog.tcases i).expErrno = 0
  · rw [if_pos hexp] at h ⊢
    refine iff_of_false (fun hret => ?_) (not_not.mpr hexp)
    rw [h] at hret
    exact absurd hret (by decide)
  · rw [if_neg hexp] at h ⊢
    refine iff_of_true (.inl ?_) hexp
    rw [h.1]
    decide

/-- Where all rows are met, it is the rows with an `errno` that clear `ok`. -/
theorem clears_iff {k : Kernel} (h : AllMet k) :
    ¬ Clears k ↔ (∀ i < k.prog.n, ForRoot k i → (k.prog.tcases i).expErrno = 0) ∧
      missingProduct k ≠ 0 := by
  have hfails : (∃ i < k.prog.n, RootFails k i) ↔
      ¬ ∀ i < k.prog.n, ForRoot k i → (k.prog.tcases i).expErrno = 0 := by
    constructor
    · rintro ⟨i, hi, hf⟩ hall
      exact (rootFails_iff hf.1 ((h i hi).1 hf.1)).mp hf (hall i hi hf.1)
    · intro hall
      simp only [not_forall] at hall
      obtain ⟨i, hi, hroot, hexp⟩ := hall
      exact ⟨i, hi, (rootFails_iff hroot ((h i hi).1 hroot)).mpr hexp⟩
  rw [Clears, hfails, not_or, not_not]

/-- **The verdict of `access01`** is right exactly when no row is for `nobody` alone, and either
all rows are met, all expect success and no missing value spoils the product, or some row is not
met and something clears `ok`. -/
theorem verdictRight_iff (k : Kernel) : VerdictRight k ↔ NoNobodyOnly k ∧
    (AllMet k ∧ (∀ i < k.prog.n, ForRoot k i → (k.prog.tcases i).expErrno = 0) ∧
        missingProduct k ≠ 0 ∨
      ¬ AllMet k ∧ Clears k) := by
  by_cases hno : NoNobodyOnly k
  · obtain ⟨hprint, hothers⟩ := life_of_noNobodyOnly hno
    rw [VerdictRight, hprint, hothers, and_iff_left (by simp), and_iff_right hno]
    by_cases h : AllMet k
    · rw [← clears_iff h, iff_true_right h, and_iff_right h, or_iff_left fun h' => h'.1 h]
    · rw [iff_false_right h, not_not, and_iff_right h, or_iff_right fun h' => h h'.1]
  · exact iff_of_false (not_verdictRight hno) fun h => hno h.1

/-- The row `{FNAME_R, W_OK, "W_OK", EACCES, 1}`, alone, with the result it expects. -/
def Kernel.oneRow : Kernel where
  prog := ⟨fun _ => ⟨"accessfile_r".toList, "W_OK".toList, 13, 1⟩, 0x402000, 1⟩
  asRoot _ := ⟨0, 0⟩
  asNobody _ := ⟨-1, 13⟩
  missing _ := 1

theorem not_verdictRight_oneRow : ¬ VerdictRight Kernel.oneRow :=
  not_verdictRight fun h => absurd (h 0 (by decide) (by decide)) (by decide)

end Syscalls.Access01
