import UnikraftSuite.Lib.Process

/-!
# `prctl10`

For each of the two states of the time stamp counter, `prctl10` forks a child that sets the
state, reads it back and executes `rdtsc` twice; the parent judges it by its wait status.
The child leaves `verify_prctl` by `return`, so unless a signal ends it first it goes on in
the loop of `main`, where it forks children of its own.
-/

namespace Syscalls.Prctl10

open PyStr CStdio Process

/-! ## The program -/

def PR_TSC_ENABLE : Int := 1

def PR_TSC_SIGSEGV : Int := 2

def SIGSEGV : BitVec 32 := 11

/-- The calls of the child forked for row `n`. -/
inductive Call where
  | setTsc (n : Nat)
  | getTsc (n : Nat)
  | time1 (n : Nat)
  | time2 (n : Nat)
  deriving DecidableEq

/-- What a call returns; for `PR_GET_TSC` what it leaves in `tsc_val`, for `rdtsc` the
counter. -/
abbrev Reply : Call → Type
  | .setTsc _ => Int
  | .getTsc _ => Int
  | .time1 _ => BitVec 64
  | .time2 _ => BitVec 64

structure Tcase where
  name : Text
  readStat : Int

def tcases : Nat → Tcase
  | 0 => ⟨"PR_TSC_ENABLE".toList, PR_TSC_ENABLE⟩
  | _ => ⟨"PR_TSC_SIGSEGV".toList, PR_TSC_SIGSEGV⟩

/-- The array of names; `outside` is what a `%s` behind its end prints. -/
def tscReadStatNames (outside : Int → Text) : Int → Text
  | 0 => "[not set]".toList
  | 1 => "PR_TSC_ENABLE".toList
  | 2 => "PR_TSC_SIGSEGV".toList
  | v => outside v

def expectedStatus (status expStatus : BitVec 32) : Int :=
  if expStatus = 0 ∧ WIFEXITED status then 0
  else if expStatus ≠ 0 ∧ WIFSIGNALED status ∧ WTERMSIG status = expStatus then 0
  else 1

/-- The line for a state that was read back. -/
def currentLine (tc : Tcase) : Text :=
  "current state is ".toList ++ tc.name ++ "(".toList ++ str tc.readStat ++ ")\n".toList

/-- The line for another state. -/
def mismatchLine (outside : Int → Text) (tscVal : Int) (tc : Tcase) : Text :=
  "current state is ".toList ++ tscReadStatNames outside tscVal ++ "(".toList ++ str tscVal
    ++ "), expect ".toList ++ tc.name ++ "(".toList ++ str tc.readStat ++ ")".toList

/-- The line after `rdtsc` has been executed twice. -/
def rdtscLine (time1 time2 : BitVec 64) : Text :=
  (if time1 < time2 then "rdtsc works correctly, ".toList
    else "rdtsc works incorrectly, ".toList)
    ++ str time1.toInt ++ " ->".toList ++ str time2.toInt ++ "\n".toList

/-- The part of `verify_prctl` behind `if (!pid)`. -/
def child (outside : Int → Text) (n : Nat) : Proc Call Reply Int := do
  let tc := tcases n
  let _ ← call (Call.setTsc n)
  let tscVal : Int ← call (Call.getTsc n)
  if tscVal = tc.readStat then do
    printf (currentLine tc)
    let time1 : BitVec 64 ← call (Call.time1 n)
    let time2 : BitVec 64 ← call (Call.time2 n)
    printf (rdtscLine time1 time2)
    return 0
  else do
    printf (mismatchLine outside tscVal tc)
    return 0

/-- `verify_prctl(n)`. -/
def verifyPrctl (outside : Int → Text) (n : Nat) : Proc Call Reply Int := do
  let tc := tcases n
  match ← fork with
  | none => child outside n
  | some pid => do
    let status ← waitpid pid
    if expectedStatus status (if tc.readStat = PR_TSC_SIGSEGV then SIGSEGV else 0) ≠ 0 then do
      printf ("Test ".toList ++ tc.name ++ " failed\n".toList)
      return 0
    else do
      printf ("Test ".toList ++ tc.name ++ " succeeded\n".toList)
      return 1

def verdict : Text := "test succeeded\n".toList

def main (outside : Int → Text) : Proc Call Reply Unit := do
  let ok ← loop (fun i ok => do let v ← verifyPrctl outside i; return ok * v) 0 2 (1 : Int)
  if ok ≠ 0 then printf verdict else return ()

/-! ## Runs -/

/-- The answers to the children, by their paths, and the signals that end them. -/
structure Kernel where
  answer : Path → (c : Call) → Answer (Reply c)
  signal : Path → Text → Option Death
  /-- No signal ends the initial process. -/
  initial : ∀ x, signal [] x = none
  outside : Int → Text

def Kernel.world (k : Kernel) : World Call Reply :=
  ⟨k.answer, k.signal, fun _ _ => .ends (.exited 0)⟩

/-- The initial process and all that it forks. -/
def Kernel.life (k : Kernel) : Life Call := run k.world (main k.outside) [] []

/-- A signal ends the process `p`, forked for row `n`, before it is back in `main`. -/
def Lost (k : Kernel) (p : Path) (n : Nat) : Prop :=
  match k.answer p (.setTsc n), k.answer p (.getTsc n) with
  | .kill _, _ => True
  | _, .kill _ => True
  | .val _, .val (tscVal : Int) =>
    if tscVal = (tcases n).readStat then
      k.signal p (currentLine (tcases n)) ≠ none ∨
        match k.answer p (.time1 n), k.answer p (.time2 n) with
        | .kill _, _ => True
        | _, .kill _ => True
        | .val time1, .val time2 => k.signal p (rdtscLine time1 time2) ≠ none
    else k.signal p (mismatchLine k.outside tscVal (tcases n)) ≠ none

/-- In case `n` the child reads back the state it has set, and ends as that state
requires. -/
def CaseMet (k : Kernel) (n : Nat) : Prop :=
  k.answer [n] (.getTsc n) = .val (tcases n).readStat ∧
    ∃ q ∈ k.life.others, q.path = [n] ∧
      if (tcases n).readStat = PR_TSC_SIGSEGV then
        ∃ d : Death, q.ended = .killed d ∧ BitVec.ofNat 32 d.sig = SIGSEGV
      else
        (∃ code, q.ended = .exited code) ∧ ∃ time1 time2,
          k.answer [n] (.time1 n) = .val time1 ∧ k.answer [n] (.time2 n) = .val time2 ∧
            time1 < time2

/-- The verdict is printed only if both cases have been met, and no child is back in a turn
of the loop. -/
def Propagates (k : Kernel) : Prop :=
  (k.life.Prints verdict → ∀ n < 2, CaseMet k n) ∧
    ∀ q ∈ k.life.others, ∀ i, .turn (some i) ∉ q.events

/-! ## What becomes of a child -/

theorem apart_currentLine (tc : Tcase) : apart verdict (currentLine tc) := by
  unfold currentLine
  simp only [List.append_assoc]
  exact apart_append (by decide) _

theorem apart_mismatchLine (outside : Int → Text) (tscVal : Int) (tc : Tcase) :
    apart verdict (mismatchLine outside tscVal tc) := by
  unfold mismatchLine
  simp only [List.append_assoc]
  exact apart_append (by decide) _

theorem apart_rdtscLine (time1 time2 : BitVec 64) : apart verdict (rdtscLine time1 time2) := by
  unfold rdtscLine
  simp only [List.append_assoc]
  split
  · exact apart_append (by decide) _
  · exact apart_append (by decide) _

theorem child_plain (outside : Int → Text) (n : Nat) :
    (child outside n).Plain (Event.Aside verdict) := by
  refine ⟨.called _, fun _ => ⟨.called _, fun tscVal => ?_⟩⟩
  refine Proc.Plain.ite ?_ ?_
  · exact ⟨.line (apart_currentLine _), .called _, fun time1 => ⟨.called _,
      fun time2 => ⟨.line (apart_rdtscLine time1 time2), trivial⟩⟩⟩
  · exact ⟨.line (apart_mismatchLine outside tscVal _), trivial⟩

theorem verdict_ne_test (x y : Text) : verdict ≠ "Test ".toList ++ x ++ y :=
  (ne_of_apart (apart_append (apart_append (by decide) x) y)).symm

theorem outcome_child (k : Kernel) (p : Path) (n : Nat) :
    (Lost k p n ∧ ∃ d, outcome k.world p (child k.outside n) = .ends (.killed d)) ∨
      (¬ Lost k p n ∧ outcome k.world p (child k.outside n) = .back 0) := by
  simp only [child, call_bind, printf_bind, outcome, Kernel.world, Lost]
  cases k.answer p (.setTsc n) with
  | kill d => exact .inl ⟨trivial, d, rfl⟩
  | val ret =>
    cases k.answer p (.getTsc n) with
    | kill d => exact .inl ⟨trivial, d, rfl⟩
    | val tscVal =>
      dsimp only
      split
      · simp only [outcome]
        cases k.signal p (currentLine (tcases n)) with
        | some d => exact .inl ⟨.inl (by simp), d, rfl⟩
        | none =>
          cases k.answer p (.time1 n) with
          | kill d => exact .inl ⟨.inr trivial, d, rfl⟩
          | val time1 =>
            cases k.answer p (.time2 n) with
            | kill d => exact .inl ⟨.inr trivial, d, rfl⟩
            | val time2 =>
              dsimp only
              cases k.signal p (rdtscLine time1 time2) with
              | some d => exact .inl ⟨.inr (by simp), d, rfl⟩
              | none => exact .inr ⟨by simp, rfl⟩
      · simp only [outcome]
        cases k.signal p (mismatchLine k.outside tscVal (tcases n)) with
        | some d => exact .inl ⟨by simp, d, rfl⟩
        | none => exact .inr ⟨by simp, rfl⟩

/-! ## The parent -/

/-- What the parent makes of a status. -/
def judge (n : Nat) (status : BitVec 32) : Int :=
  if expectedStatus status (if (tcases n).readStat = PR_TSC_SIGSEGV then SIGSEGV else 0) ≠ 0
  then 0 else 1

/-- The parent forks, waits and judges; the child goes on with the same `f`. -/
theorem run_verifyPrctl (k : Kernel) (n : Nat) (f : Int → Proc Call Reply Unit)
    (kids : List Ended) {c : Life Call} {status : BitVec 32}
    (hc : run k.world (child k.outside n >>= f) [kids.length] [] = c)
    (hs : c.ended.status = some status) : ∃ x, verdict ≠ x ∧
      run k.world (verifyPrctl k.outside n >>= f) [] kids =
        ((run k.world (f (judge n status)) [] (kids ++ [c.ended])).after
          (.printed x)).withChild kids.length [kids.length] c := by
  simp only [verifyPrctl, fork_bind, Proc.fork_bind, run_fork, List.nil_append, hc,
    waitpid_bind, Proc.wait_bind, run_wait hs, Proc.ite_bind, printf_bind, Proc.print_bind,
    pure_bind, judge]
  generalize expectedStatus status _ = e
  split
  · exact ⟨_, verdict_ne_test _ _, by rw [run_print (k.initial _)]⟩
  · exact ⟨_, verdict_ne_test _ _, by rw [run_print (k.initial _)]⟩

theorem child_mem_others (k : Kernel) (n : Nat) (f : Int → Proc Call Reply Unit)
    (kids : List Ended) {c : Life Call}
    (hc : run k.world (child k.outside n >>= f) [kids.length] [] = c) :
    ⟨[kids.length], c.events, c.ended⟩ ∈
      (run k.world (verifyPrctl k.outside n >>= f) [] kids).others := by
  rw [verifyPrctl, fork_bind, Proc.fork_bind, run_fork, Life.withChild_others]
  subst hc
  exact List.mem_cons_self

/-- The child of row `n`, in front of the rest `f` of the program. -/
theorem run_child (k : Kernel) (p : Path) (n : Nat) (f : Int → Proc Call Reply Unit) :
    ∃ evs, (∀ e ∈ evs, e.Aside verdict) ∧
      ((Lost k p n ∧ ∃ d, run k.world (child k.outside n >>= f) p [] = ⟨evs, .killed d, []⟩) ∨
        (¬ Lost k p n ∧ run k.world (child k.outside n >>= f) p [] =
          (run k.world (f 0) p []).afterAll evs)) := by
  obtain ⟨evs, hevs, hrun⟩ := (child_plain k.outside n).run_bind k.world p
  refine ⟨evs, hevs, ?_⟩
  rcases outcome_child k p n with ⟨hlost, d, hd⟩ | ⟨hlost, hback⟩
  · refine .inl ⟨hlost, d, ?_⟩
    rw [hrun, hd]
    simp [Outcome.then, Life.afterAll, Life.ends]
  · refine .inr ⟨hlost, ?_⟩
    rw [hrun, hback]
    rfl

/-! ## The two turns -/

/-- What is left of `main` behind the loop. -/
def finish (ok : Int) : Proc Call Reply Unit := if ok ≠ 0 then printf verdict else return ()

/-- What is left of `main` behind the first turn. -/
def fromRow1 (outside : Int → Text) (ok : Int) : Proc Call Reply Unit :=
  .turn (some 1) (verifyPrctl outside 1 >>= fun v => .turn none (finish (ok * v)))

theorem life_eq (k : Kernel) : k.life =
    (run k.world (verifyPrctl k.outside 0 >>= fun v => fromRow1 k.outside (1 * v)) [] []).after
      (.turn (some 0)) := by
  simp only [Kernel.life, main, loop, Proc.turn_bind, run_turn, bind_assoc, pure_bind]
  rfl

theorem judge_killed (d : Death) : judge 0 d.status = 0 := by
  have hne : (tcases 0).readStat ≠ PR_TSC_SIGSEGV := by decide
  have h : expectedStatus d.status 0 ≠ 0 := by
    simp [expectedStatus, d.status_macros.2.2.1]
  rw [judge, if_neg hne, if_pos h]

theorem run_finish_zero (k : Kernel) (p : Path) (kids : List Ended) :
    run k.world (.turn none (finish 0)) p kids = ⟨[.turn none], .exited 0, []⟩ := by
  rw [finish, if_neg (by decide)]
  rfl

/-- A child of row 1 that finds `ok` at 0 is over without another turn. -/
theorem row1_child (k : Kernel) : ∃ c status,
    run k.world (child k.outside 1 >>= fun v => .turn none (finish (0 * v))) [1] [] = c ∧
      c.ended.status = some status ∧ (∀ i, .turn (some i) ∉ c.events) ∧ c.others = [] := by
  obtain ⟨evs, hevs, ⟨-, d, hd⟩ | ⟨-, hback⟩⟩ :=
    run_child k [1] 1 fun v => .turn none (finish (0 * v))
  · exact ⟨_, _, hd, rfl, fun i hi => (hevs _ hi).2 _ rfl, rfl⟩
  · rw [Int.zero_mul, run_finish_zero] at hback
    refine ⟨_, _, hback, rfl, fun i hi => ?_, rfl⟩
    rcases List.mem_append.mp hi with hi | hi
    · exact (hevs _ hi).2 _ rfl
    · simp at hi

/-- Once `ok` is 0, nothing in the second turn brings the verdict back. -/
theorem fromRow1_zero (k : Kernel) (e : Ended) :
    .printed verdict ∉ (run k.world (fromRow1 k.outside 0) [] [e]).events ∧
      ∀ q ∈ (run k.world (fromRow1 k.outside 0) [] [e]).others, ∀ i,
        .turn (some i) ∉ q.events := by
  obtain ⟨c, status, hc, hs, hturn, hothers⟩ := row1_child k
  obtain ⟨x, hne, hx⟩ := run_verifyPrctl k 1 _ [e] hc hs
  rw [fromRow1, run_turn, hx, Int.zero_mul, run_finish_zero]
  constructor
  · simp [hne]
  · simpa [hothers] using hturn

theorem propagates_of_lost {k : Kernel} (h : Lost k [0] 0) : Propagates k := by
  obtain ⟨evs, hevs, ⟨-, d, hd⟩ | ⟨hback, -⟩⟩ :=
    run_child k [0] 0 fun v => fromRow1 k.outside (1 * v)
  · obtain ⟨x, hne, hx⟩ := run_verifyPrctl k 0 _ [] hd rfl
    rw [judge_killed, Int.mul_zero] at hx
    have ⟨hprint, hturn⟩ := fromRow1_zero k (.killed d)
    rw [Propagates, life_eq, hx]
    constructor
    · intro hp
      refine absurd hp ?_
      simpa [Life.Prints, hne] using hprint
    · simp only [Life.after_others, Life.withChild_others, List.nil_append, List.mem_cons]
      rintro q (rfl | hq) i
      · exact fun hi => (hevs _ hi).2 _ rfl
      · exact hturn q hq i
  · exact absurd h hback

theorem not_propagates_of_back {k : Kernel} (h : ¬ Lost k [0] 0) : ¬ Propagates k := by
  intro hk
  obtain ⟨evs, hevs, ⟨hlost, -⟩ | ⟨-, hrun⟩⟩ :=
    run_child k [0] 0 fun v => fromRow1 k.outside (1 * v)
  · exact h hlost
  · have hmem := child_mem_others k 0 _ [] hrun
    refine hk.2 _ (by rw [life_eq]; exact hmem) 1 ?_
    simp [fromRow1]

/-- **`prctl10` keeps to what its children find** exactly when no child of row 0 gets back
into `main`; then that row counts as failed, and the verdict is not printed. -/
theorem propagates_iff (k : Kernel) : Propagates k ↔ Lost k [0] 0 :=
  ⟨fun hk => by_contra fun h => not_propagates_of_back h hk, propagates_of_lost⟩

theorem stuck_initial (x : Text) :
    (fun _ _ => none : Path → Text → Option Death) [] x = none := rfl

/-- A kernel on which `rdtsc` always raises `SIGSEGV`, whatever state has been set. -/
def Kernel.stuck : Kernel where
  answer
    | _, .setTsc _ => .val (0 : Int)
    | _, .getTsc _ => .val PR_TSC_SIGSEGV
    | _, .time1 _ => .kill ⟨11, false, by decide⟩
    | _, .time2 _ => .kill ⟨11, false, by decide⟩
  signal _ _ := none
  initial := stuck_initial
  outside _ := []

example : Kernel.stuck.life.Prints verdict := by
  unfold Life.Prints
  decide +kernel

/-- The child of row 0 reads back another state than it has set, and goes on in `main`. -/
theorem not_propagates_stuck : ¬ Propagates Kernel.stuck := by
  refine not_propagates_of_back ?_
  have hne : PR_TSC_SIGSEGV ≠ (tcases 0).readStat := by decide
  simp [Lost, Kernel.stuck, hne]

end Syscalls.Prctl10
