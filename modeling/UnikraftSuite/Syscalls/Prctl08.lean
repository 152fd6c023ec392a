import UnikraftSuite.Lib.Process

/-!
# `prctl08`

Five rows set the timer slack and check what can be read back. The checks are functions
without a result: they print what they found, and `verify_prctl` returns 1 after them. The
last check forks a child, which returns as its parent does and so finishes `main` as well.

The values read back are of type `int` and printed with `%lu`. C leaves the text undefined; here
it is the one of the value converted to `unsigned long`, and the results need no more of it than
that it is a number.
-/

namespace Syscalls.Prctl08

open PyStr CStdio Process

/-! ## The program -/

/-- The calls of `setup`, of the row `n`, and of the child forked in it. -/
inductive Call where
  | access
  | setupGet
  | set (n : Nat)
  | get (n : Nat)
  | childCurrent (n : Nat)
  | childSet (n : Nat)
  | childDefault (n : Nat)
  deriving DecidableEq

/-- Every call returns an `int`. -/
abbrev Reply : Call → Type := fun _ => BitVec 32

/-- An `int` converted to `unsigned long`. -/
def ulong (ret : BitVec 32) : BitVec 64 := ret.signExtend 64

inductive FuncCheck where
  | checkResetTimerslack
  | checkGetTimerslack
  | checkInheritTimerslack

structure Tcase where
  funcCheck : FuncCheck
  setvalue : BitVec 64
  expvalue : BitVec 64
  message : Text

def INT_MAX : BitVec 64 := 0x7fffffff

def tcases : Nat → Tcase
  | 0 => ⟨.checkResetTimerslack, 0, 50000, "Reset".toList⟩
  | 1 => ⟨.checkGetTimerslack, 1, 1, "Min".toList⟩
  | 2 => ⟨.checkGetTimerslack, 70000, 70000, "Middle".toList⟩
  | 3 => ⟨.checkGetTimerslack, INT_MAX, INT_MAX, "Max".toList⟩
  | _ => ⟨.checkInheritTimerslack, 70000, 70000, "Child process".toList⟩

/-- Nothing assigns `origin_value`. -/
def originValue : BitVec 64 := 0

/-- `%lu`. -/
def lu (v : BitVec 64) : Text := str v.toNat

def checkGetTimerslack (n : Nat) (message : Text) (value : BitVec 64) :
    Proc Call Reply Unit := do
  let ret ← call (Call.get n)
  if ulong ret = value then
    printf (message ++ " prctl(PR_GET_TIMERSLACK) got ".toList ++ lu value
      ++ " expectedly\n".toList)
  else
    printf (message ++ " prctl(PR_GET_TIMERSLACK) expected ".toList ++ lu value
      ++ " got ".toList ++ lu (ulong ret) ++ "\n".toList)

/-- The check is made against `origin_value`. -/
def checkResetTimerslack (n : Nat) (message : Text) : Proc Call Reply Unit :=
  checkGetTimerslack n message originValue

/-- The parent does not wait; the child returns like the parent. -/
def checkInheritTimerslack (n : Nat) (message : Text) (value : BitVec 64) :
    Proc Call Reply Unit := do
  match ← fork with
  | none => do
    let currentValue ← call (Call.childCurrent n)
    let _ ← call (Call.childSet n)
    let defaultValue ← call (Call.childDefault n)
    if ulong currentValue = value ∧ ulong defaultValue = value then
      printf (message ++ (" two timer slack values are made the same as the current value(".toList
        ++ lu value ++ ") of the creating thread.".toList))
    else
      printf (message ++ (" current_value is ".toList ++ lu (ulong currentValue)
        ++ ", default value is ".toList ++ lu (ulong defaultValue)
        ++ ", the parent current value is ".toList ++ lu value))
  | some _ => return ()

/-- `tc->func_check(tc->message, tc->expvalue)`. -/
def runCheck (n : Nat) (tc : Tcase) : Proc Call Reply Unit :=
  match tc.funcCheck with
  | .checkResetTimerslack => checkResetTimerslack n tc.message
  | .checkGetTimerslack => checkGetTimerslack n tc.message tc.expvalue
  | .checkInheritTimerslack => checkInheritTimerslack n tc.message tc.expvalue

/-- `verify_prctl(n)`. The `errno` printed after a failed call is an argument. -/
def verifyPrctl (errno : Nat → Int) (n : Nat) : Proc Call Reply Int := do
  let tc := tcases n
  let ret ← call (Call.set n)
  if ret = -1 then do
    printf ("prctl(PR_SET_TIMERSLACK, ".toList ++ lu tc.setvalue ++ ") failed, error number ".toList
      ++ str (errno n) ++ "\n".toList)
    return 0
  else do
    printf ("prctl(PR_SET_TIMERSLACK, ".toList ++ lu tc.setvalue ++ ") succeed\n".toList)
    runCheck n tc
    return 1

def setup : Proc Call Reply Unit := do
  if (← call Call.access) = -1 then do
    printf "proc doesn't support timerslack_ns interface\n".toList
  let ret ← call Call.setupGet
  printf ("[I] current timerslack value is ".toList ++ lu (ulong ret) ++ "\n".toList)

def verdict : Text := "test succeeded\n".toList

/-- A turn of the loop in `main`. -/
def mainTurn (errno : Nat → Int) (i : Nat) (ok : Int) : Proc Call Reply Int := do
  if (← verifyPrctl errno i) = 0 then return 0 else return ok

/-- What is left of `main` behind the loop. -/
def finish (ok : Int) : Proc Call Reply Unit := if ok ≠ 0 then printf verdict else return ()

def main (errno : Nat → Int) : Proc Call Reply Unit := do
  setup
  let ok ← loop (mainTurn errno) 0 5 1
  finish ok

/-! ## Runs -/

/-- The results of the calls of each process, and the `errno` of a failed one. -/
structure Kernel where
  ret : Path → Call → BitVec 32
  errno : Nat → Int

def Kernel.world (k : Kernel) : World Call Reply :=
  ⟨fun p c => .val (k.ret p c), fun _ _ => none, fun _ _ => .ends (.exited 0)⟩

/-- The initial process and all that it forks. -/
def Kernel.life (k : Kernel) : Life Call := run k.world (main k.errno) [] []

/-- Every row is met: the calls that set the slack succeed, and what is read back is the slack
at `setup`, the value of the row, or in the child the value of its parent twice. -/
structure RowsMet (k : Kernel) : Prop where
  set : ∀ n < 5, k.ret [] (.set n) ≠ -1
  reset : ulong (k.ret [] (.get 0)) = ulong (k.ret [] .setupGet)
  get : ∀ n, 1 ≤ n → n ≤ 3 → ulong (k.ret [] (.get n)) = (tcases n).expvalue
  childSet : k.ret [0] (.childSet 4) ≠ -1
  inherited : ulong (k.ret [0] (.childCurrent 4)) = (tcases 4).expvalue
  childReset : ulong (k.ret [0] (.childDefault 4)) = (tcases 4).expvalue

/-- The verdict is printed if and only if every row is met, and the child does not get back
into `main`. -/
def ChecksReach (k : Kernel) : Prop :=
  (k.life.Prints verdict ↔ RowsMet k) ∧
    ∀ q ∈ k.life.others, ∀ i, .turn i ∉ q.events

/-! ## The first four rows -/

theorem apart_message (n : Nat) : apart verdict (tcases n).message := by
  match n with
  | 0 => decide
  | 1 => decide
  | 2 => decide
  | 3 => decide
  | n + 4 => exact (by decide : apart verdict "Child process".toList)

/-- Every line about a row begins with its message. -/
theorem message_line (n : Nat) (x : Text) :
    (.printed ((tcases n).message ++ x) : Event Call).Aside verdict :=
  .line (apart_append (apart_message n) x)

theorem checkGetTimerslack_plain (n m : Nat) (value : BitVec 64) :
    (checkGetTimerslack n (tcases m).message value).Plain (Event.Aside verdict) := by
  refine ⟨.called _, fun ret => ?_⟩
  simp only [List.append_assoc]
  refine Proc.Plain.ite ?_ ?_
  · exact ⟨message_line m _, trivial⟩
  · exact ⟨message_line m _, trivial⟩

theorem runCheck_plain {n : Nat} (hn : n < 4) :
    (runCheck n (tcases n)).Plain (Event.Aside verdict) := by
  match n, hn with
  | 0, _ => exact checkGetTimerslack_plain 0 0 _
  | 1, _ => exact checkGetTimerslack_plain 1 1 _
  | 2, _ => exact checkGetTimerslack_plain 2 2 _
  | 3, _ => exact checkGetTimerslack_plain 3 3 _

theorem set_line (x : Text) :
    (.printed ("prctl(PR_SET_TIMERSLACK, ".toList ++ x) : Event Call).Aside verdict :=
  .line (apart_append (by decide) x)

theorem verifyPrctl_plain (errno : Nat → Int) {n : Nat} (hn : n < 4) :
    (verifyPrctl errno n).Plain (Event.Aside verdict) := by
  refine ⟨.called _, fun ret => ?_⟩
  simp only [List.append_assoc]
  refine Proc.Plain.ite ?_ ?_
  · exact ⟨set_line _, trivial⟩
  · exact ⟨set_line _, (runCheck_plain hn).bind fun _ => trivial⟩

theorem outcome_checkGetTimerslack (k : Kernel) (n : Nat) (message : Text) (value : BitVec 64) :
    outcome k.world [] (checkGetTimerslack n message value) = .back () := by
  simp only [checkGetTimerslack, call_bind, outcome, Kernel.world]
  split <;> rfl

theorem outcome_runCheck (k : Kernel) {n : Nat} (hn : n < 4) :
    outcome k.world [] (runCheck n (tcases n)) = .back () := by
  match n, hn with
  | 0, _ => exact outcome_checkGetTimerslack k 0 _ _
  | 1, _ => exact outcome_checkGetTimerslack k 1 _ _
  | 2, _ => exact outcome_checkGetTimerslack k 2 _ _
  | 3, _ => exact outcome_checkGetTimerslack k 3 _ _

theorem outcome_verifyPrctl (k : Kernel) {n : Nat} (hn : n < 4) :
    ∃ v, outcome k.world [] (verifyPrctl k.errno n) = .back v := by
  simp only [verifyPrctl, call_bind, printf_bind]
  show ∃ v, outcome k.world [] (if k.ret [] (.set n) = -1 then _ else _) = _
  split
  · exact ⟨0, rfl⟩
  · exact ⟨1, outcome_bind k.world [] (outcome_runCheck k hn) _⟩

theorem setup_plain : setup.Plain (· ≠ .printed verdict) := by
  have hline : ∀ x, (.printed ("[I] current timerslack value is ".toList ++ x) : Event Call) ≠
      .printed verdict := fun x =>
    (Event.Aside.line (apart_append (by decide) x)).1
  refine ⟨nofun, fun ret => ?_⟩
  simp only [List.append_assoc]
  refine Proc.Plain.ite ?_ ?_
  · exact ⟨(Event.Aside.line (by decide)).1, nofun,
      fun ret' => ⟨hline _, trivial⟩⟩
  · exact ⟨nofun, fun ret' => ⟨hline _, trivial⟩⟩

theorem outcome_setup (k : Kernel) : outcome k.world [] setup = .back () := by
  simp only [setup, call_bind, outcome, Kernel.world]
  split <;> rfl

theorem mainTurn_plain (errno : Nat → Int) {n : Nat} (hn : n < 4) (ok : Int) :
    (mainTurn errno n ok).Plain (· ≠ .printed verdict) := by
  refine ((verifyPrctl_plain errno hn).mono fun e he => he.1).bind fun v => ?_
  split <;> trivial

theorem outcome_mainTurn (k : Kernel) {n : Nat} (hn : n < 4) (ok : Int) :
    ∃ b, outcome k.world [] (mainTurn k.errno n ok) = .back b := by
  obtain ⟨v, hv⟩ := outcome_verifyPrctl k hn
  rw [mainTurn, outcome_bind _ _ hv]
  split
  · exact ⟨0, rfl⟩
  · exact ⟨ok, rfl⟩

/-- What is left of `main` from the last row on. -/
def fromRow4 (errno : Nat → Int) (ok : Int) : Proc Call Reply Unit :=
  .turn (some 4) (verifyPrctl errno 4 >>= fun v => .turn none (finish (if v = 0 then 0 else ok)))

theorem loop_last (errno : Nat → Int) (ok : Int) :
    loop (mainTurn errno) 4 1 ok >>= finish = fromRow4 errno ok := by
  have hend : ∀ v : Int, ((if v = 0 then return 0 else return ok : Proc Call Reply Int) >>= fun a =>
      .turn none (.ret a)) >>= finish = .turn none (finish (if v = 0 then 0 else ok)) := by
    intro v
    split <;> rfl
  simp only [loop, mainTurn, fromRow4, Proc.turn_bind, bind_assoc, ← hend]

/-- Up to the last row no other process is started and no verdict printed. -/
theorem life_eq (k : Kernel) : ∃ ok evs, .printed verdict ∉ evs ∧
    k.life = (run k.world (fromRow4 k.errno ok) [] []).afterAll evs := by
  obtain ⟨evs, hevs, hrun⟩ := setup_plain.run_bind k.world []
  obtain ⟨ok, evs', hevs', hrun'⟩ := run_loop_plain (P := (· ≠ .printed verdict))
    (mainTurn k.errno) k.world [] (by simp) 1 4 0 1 fun j hj a =>
      ⟨mainTurn_plain k.errno (by omega) a, outcome_mainTurn k (by omega) a⟩
  refine ⟨ok, evs ++ evs', ?_, ?_⟩
  · simp only [List.mem_append, not_or]
    exact ⟨fun h => hevs _ h rfl, fun h => hevs' _ h rfl⟩
  · rw [Kernel.life, main, hrun, outcome_setup, Outcome.then, hrun', loop_last]
    simp [Life.afterAll]

@[simp] theorem run_call_val (k : Kernel) (c : Call) (f : BitVec 32 → Proc Call Reply Unit)
    (p : Path) (kids : List Ended) : run k.world (.call c f) p kids =
      (run k.world (f (k.ret p c)) p kids).after (.called c) := rfl

@[simp] theorem run_print_out (k : Kernel) (x : Text) (f : Proc Call Reply Unit)
    (p : Path) (kids : List Ended) : run k.world (.print x f) p kids =
      (run k.world f p kids).after (.printed x) := rfl

/-- A last row whose call fails forks nothing. -/
theorem run_fromRow4_failed {k : Kernel} (h : k.ret [] (.set 4) = -1) (ok : Int) :
    ∃ evs, .printed verdict ∉ evs ∧
      run k.world (fromRow4 k.errno ok) [] [] = ⟨evs, .exited 0, []⟩ := by
  have hrest : run k.world (.turn none (finish 0)) [] [] = ⟨[.turn none], .exited 0, []⟩ := by
    rw [finish, if_neg (by decide)]
    rfl
  rw [fromRow4, verifyPrctl]
  simp only [call_bind, Proc.call_bind, run_turn, run_call_val, Proc.ite_bind, printf_bind,
    Proc.print_bind, bind_assoc, pure_bind, ite_true, List.append_assoc]
  rw [if_pos h, run_print_out, hrest]
  refine ⟨_, ?_, rfl⟩
  simpa using ((set_line _).1).symm

/-- The child of the last row gets back into `main`. -/
theorem run_fromRow4_forks {k : Kernel} (h : k.ret [] (.set 4) ≠ -1) (ok : Int) :
    ∃ q ∈ (run k.world (fromRow4 k.errno ok) [] []).others, .turn none ∈ q.events := by
  rw [fromRow4, verifyPrctl]
  simp only [call_bind, Proc.call_bind, run_turn, run_call_val, Proc.ite_bind, printf_bind,
    Proc.print_bind, bind_assoc, pure_bind]
  rw [if_neg h, run_print_out]
  simp only [runCheck, tcases, checkInheritTimerslack, fork_bind, Proc.fork_bind,
    call_bind, Proc.call_bind, run_fork, Life.after_others, Life.withChild_others]
  refine ⟨_, List.mem_cons_self, ?_⟩
  simp only [run_call_val, Proc.ite_bind, printf_bind]
  split
  · simp
  · simp

theorem checksReach_of_failed {k : Kernel} (h : k.ret [] (.set 4) = -1) : ChecksReach k := by
  obtain ⟨ok, evs, hevs, hlife⟩ := life_eq k
  obtain ⟨evs', hevs', hrun⟩ := run_fromRow4_failed h ok
  rw [ChecksReach, hlife, hrun]
  refine ⟨iff_of_false ?_ fun hmet => hmet.set 4 (by decide) h, by simp⟩
  simp [Life.Prints, hevs, hevs']

theorem not_checksReach_of_set {k : Kernel} (h : k.ret [] (.set 4) ≠ -1) : ¬ ChecksReach k := by
  intro hk
  obtain ⟨ok, evs, hevs, hlife⟩ := life_eq k
  obtain ⟨q, hq, hturn⟩ := run_fromRow4_forks h ok
  rw [ChecksReach, hlife] at hk
  exact hk.2 q hq none hturn

/-- **The checks of `prctl08` reach its verdict** exactly when the last row cannot set the
slack, so that there is neither a child nor a verdict. -/
theorem checksReach_iff (k : Kernel) : ChecksReach k ↔ k.ret [] (.set 4) = -1 :=
  ⟨fun hk => by_contra fun h => not_checksReach_of_set h hk, checksReach_of_failed⟩

/-- Every call succeeds, and the slack is read back as 123, whatever has been set. -/
def Kernel.deaf : Kernel where
  ret
    | _, .setupGet => 50000
    | _, .get _ => 123
    | _, .childCurrent _ => 123
    | _, .childDefault _ => 123
    | _, _ => 0
  errno _ := 0

example : Kernel.deaf.life.Prints verdict := by
  unfold Life.Prints
  decide +kernel

theorem not_checksReach_deaf : ¬ ChecksReach Kernel.deaf :=
  not_checksReach_of_set (by decide)

end Syscalls.Prctl08
