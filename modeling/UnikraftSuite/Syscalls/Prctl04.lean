import UnikraftSuite.Lib.Process
import Mathlib.Data.Nat.Find

/-!
# `prctl04`

Each row forks a child that enters a seccomp mode and makes a call the mode permits or not.
The parent judges the child by its wait status. A child that is not killed returns from its
check through `verify_prctl`, where no `return` stands, into the loop of `main`.
-/

namespace Syscalls.Prctl04

open PyStr CStdio Process

/-! ## The program -/

def SIGKILL : BitVec 32 := 9

def SIGSYS : BitVec 32 := 31

def EINVAL : Int := 22

/-- The calls of `setup`, of the row `n`, and of a process at its end. -/
inductive Call where
  | setupGet
  | setupSet
  | fork (n : Nat)
  | open (n : Nat)
  | setSeccomp (n : Nat)
  | getSeccomp (n : Nat)
  | write (n : Nat)
  | read (n : Nat)
  | close (n : Nat)
  | exit (n : Nat)
  | forkInherit (n : Nat)
  | exitInherit (n : Nat)
  | wait4 (n : Nat)
  /-- Not a call: what a caller finds where `verify_prctl(n)` returns no value. -/
  | missing (n : Nat)
  | mainExit
  deriving DecidableEq

/-- What a call returns, as far as the program looks at it; with `errno` for the second call
of `setup`. -/
abbrev Reply : Call → Type
  | .setupGet => Int
  | .setupSet => Int × Int
  | .setSeccomp _ => Int
  | .missing _ => Int
  | _ => Unit

inductive FuncCheck where
  | checkStrictMode
  | checkFilterMode
  deriving DecidableEq

structure Tcase where
  funcCheck : FuncCheck
  passFlag : Int
  val : Nat
  expSignal : BitVec 32
  message : Text

def tcases : Nat → Tcase
  | 0 => ⟨.checkStrictMode, 1, 1, SIGKILL,
      "SECCOMP_MODE_STRICT doesn't permit GET_SECCOMP call".toList⟩
  | 1 => ⟨.checkStrictMode, 0, 2, SIGKILL,
      "SECCOMP_MODE_STRICT doesn't permit read(2) write(2) and _exit(2)".toList⟩
  | 2 => ⟨.checkStrictMode, 1, 3, SIGKILL,
      "SECCOMP_MODE_STRICT doesn't permit close(2)".toList⟩
  | 3 => ⟨.checkFilterMode, 1, 1, SIGSYS,
      "SECCOMP_MODE_FILTER doestn't permit GET_SECCOMP call".toList⟩
  | 4 => ⟨.checkFilterMode, 0, 2, SIGSYS,
      "SECCOMP_MODE_FILTER doesn't permit close(2)".toList⟩
  | 5 => ⟨.checkFilterMode, 2, 3, SIGSYS,
      "SECCOMP_MODE_FILTER doesn't permit exit()".toList⟩
  | _ => ⟨.checkFilterMode, 0, 4, SIGSYS,
      "SECCOMP_MODE_FILTER doesn't permit exit()".toList⟩

/-- The line about a failed `PR_SET_SECCOMP`. -/
def failedLine (mode : Text) (errno : Int) : Text :=
  "prctl(PR_SET_SECCOMP) sets ".toList ++ mode ++ " failed, error number ".toList
    ++ str errno ++ "\n".toList

/-- The line about a `PR_SET_SECCOMP` that has succeeded. -/
def succeedLine (mode : Text) : Text :=
  "prctl(PR_SET_SECCOMP) sets ".toList ++ mode ++ " succeed\n".toList

def strictMode : Text := "SECCOMP_MODE_STRICT".toList

def filterMode : Text := "SECCOMP_MODE_FILTER".toList

/-- The `errno` printed after a failed call, by the row. -/
abbrev Errno := Nat → Int

/-- `WIFSIGNALED(status) && WTERMSIG(status) == sig`. -/
def KilledBy (status sig : BitVec 32) : Prop := WIFSIGNALED status ∧ WTERMSIG status = sig

instance (status sig : BitVec 32) : Decidable (KilledBy status sig) :=
  inferInstanceAs (Decidable (_ ∧ _))

/-- What the parent prints about the child of `check_filter_mode_inherit`. -/
def inheritLine (status : BitVec 32) : Text :=
  if KilledBy status SIGSYS then "SECCOMP_MODE_FILTER has been inherited by child\n".toList
  else "SECCOMP_MODE_FILTER isn't been inherited by child\n".toList

def checkFilterModeInherit (n : Nat) : Proc Call Reply Unit := do
  let _ ← call (Call.forkInherit n)
  match ← fork with
  | none => do
    printf "SECCOMP_MODE_FILTER permits fork(2)\n".toList
    let _ ← call (Call.exitInherit n)
    exit 0
  | some pid => do
    let _ ← call (Call.wait4 n)
    let status ← waitpid pid
    printf (inheritLine status)

def checkStrictMode (errno : Errno) (n val : Nat) : Proc Call Reply Unit := do
  let _ ← call (Call.open n)
  let ret : Int ← call (Call.setSeccomp n)
  if ret = -1 then printf (failedLine strictMode (errno n))
  else match val with
    | 1 => do
      printf (succeedLine strictMode)
      let _ ← call (Call.getSeccomp n)
      printf "prctl(PR_GET_SECCOMP) succeed unexpectedly\n".toList
    | 2 => do
      let _ ← call (Call.write n)
      let _ ← call (Call.read n)
      printf "SECCOMP_MODE_STRICT permits read(2) write(2) and _exit(2)\n".toList
    | 3 => do
      let _ ← call (Call.close n)
      printf "SECCOMP_MODE_STRICT permits close(2) unexpectdly\n".toList
    | _ => return ()

def checkFilterMode (modeFilterNotSupported : Int) (errno : Errno) (n val : Nat) :
    Proc Call Reply Unit :=
  if modeFilterNotSupported = 1 then
    printf "kernel doesn't support SECCOMP_MODE_FILTER\n".toList
  else do
    let _ ← call (Call.open n)
    let ret : Int ← call (Call.setSeccomp n)
    if ret = -1 then printf (failedLine filterMode (errno n))
    else match val with
      | 1 => do
        printf (succeedLine filterMode)
        let _ ← call (Call.getSeccomp n)
        printf "prctl(PR_GET_SECCOMP) succeed unexpectedly\n".toList
      | 2 => do
        let _ ← call (Call.close n)
        printf "SECCOMP_MODE_FILTER permits close(2)\n".toList
      | 3 => do
        let _ ← call (Call.exit n)
        exit 0
      | 4 => checkFilterModeInherit n
      | _ => return ()

/-- `tc->func_check(tc->val)`. -/
def funcCheck (modeFilterNotSupported : Int) (errno : Errno) (n : Nat) : Proc Call Reply Unit :=
  match (tcases n).funcCheck with
  | .checkStrictMode => checkStrictMode errno n (tcases n).val
  | .checkFilterMode => checkFilterMode modeFilterNotSupported errno n (tcases n).val

/-- `verify_prctl(n)`. The child, and the parent behind both `if`s, return no value. -/
def verifyPrctl (modeFilterNotSupported : Int) (errno : Errno) (n : Nat) :
    Proc Call Reply Int := do
  let tc := tcases n
  let _ ← call (Call.fork n)
  match ← fork with
  | none => do
    funcCheck modeFilterNotSupported errno n
    call (Call.missing n)
  | some pid => do
    let status ← waitpid pid
    if KilledBy status tc.expSignal then do
      printf (tc.message ++ "\n".toList)
      if tc.passFlag ≠ 0 then return 1 else return 0
    else if tc.passFlag = 2 ∧ modeFilterNotSupported = 0 then do
      printf "SECCOMP_MODE_FILTER permits exit() unexpectedly\n".toList
      return 0
    else call (Call.missing n)

/-- `setup()`, with the value it gives to `mode_filter_not_supported`. -/
def setup (errno : Int) : Proc Call Reply Int := do
  let ret : Int ← call Call.setupGet
  if ret = 0 then do
    printf "[I] kernel supports PR_GET/SET_SECCOMP\n".toList
    let ret : Int × Int ← call Call.setupSet
    if ret.1 = -1 ∧ ret.2 = EINVAL then return 1
    else do
      printf "[I] kernel supports SECCOMP_MODE_FILTER\n".toList
      return 0
  else do
    (if errno = EINVAL then printf "kernel doesn't support PR_GET/SET_SECCOMP\n".toList
      else pure ())
    printf ("current environment doesn't permit PR_GET/SET_SECCOMP, error number ".toList
      ++ str errno ++ "\n".toList)
    return 0

def verdict : Text := "test succeeded\n".toList

/-- A turn of the loop in `main`. -/
def mainTurn (modeFilterNotSupported : Int) (errno : Errno) (i : Nat) (ok : Int) :
    Proc Call Reply Int := do
  if (← verifyPrctl modeFilterNotSupported errno i) = 0 then return 0 else return ok

/-- What is left of `main` behind the loop, and the `exit` that ends it. -/
def finish (ok : Int) : Proc Call Reply Unit := do
  (if ok ≠ 0 then printf verdict else return ())
  let _ ← call Call.mainExit

def main (setupErrno : Int) (errno : Errno) : Proc Call Reply Unit := do
  let modeFilterNotSupported ← setup setupErrno
  let ok ← loop (mainTurn modeFilterNotSupported errno) 0 7 1
  finish ok

/-! ## Runs -/

/-- The answers to each process, and the signals that end it at a line. -/
structure Kernel where
  answer : Path → (c : Call) → Answer (Reply c)
  signal : Path → Text → Option Death
  /-- No signal ends the initial process. -/
  initial : ∀ c, ∃ r, answer [] c = .val r
  initialLine : ∀ x, signal [] x = none
  /-- No process can end where nothing is called. -/
  missing : ∀ p n, ∃ v, answer p (.missing n) = .val v
  setupErrno : Int
  errno : Errno

def Kernel.world (k : Kernel) : World Call Reply :=
  ⟨k.answer, k.signal, fun _ _ => .ends (.exited 0)⟩

/-- The initial process and all that it forks. -/
def Kernel.life (k : Kernel) : Life Call := run k.world (main k.setupErrno k.errno) [] []

/-- What `setup` finds out. -/
def Kernel.modeFilterNotSupported (k : Kernel) : Int :=
  match k.answer [] .setupGet, k.answer [] .setupSet with
  | .val (get : Int), .val (set : Int × Int) =>
    if get = 0 ∧ set.1 = -1 ∧ set.2 = EINVAL then 1 else 0
  | _, _ => 0

/-- The child of row `n` is ended by its `exp_signal`. -/
def ChildKilled (k : Kernel) (n : Nat) : Prop :=
  ∃ q ∈ k.life.others, q.path = [n] ∧
    ∃ d : Death, q.ended = .killed d ∧ BitVec.ofNat 32 d.sig = (tcases n).expSignal

/-- What `pass_flag` asks of row `n`, given whether its child was ended by `exp_signal`. -/
def RowMet (k : Kernel) (n : Nat) (killed : Prop) : Prop :=
  if (tcases n).passFlag = 0 then ¬ killed
  else if (tcases n).passFlag = 1 then killed
  else k.modeFilterNotSupported = 0 → killed

/-- The verdict is printed if and only if every row is met, and no forked process gets into a
turn of the loop or prints the verdict. -/
def VerdictAndDiscipline (k : Kernel) : Prop :=
  (k.life.Prints verdict ↔ ∀ n < 7, RowMet k n (ChildKilled k n)) ∧
    ∀ q ∈ k.life.others, .printed verdict ∉ q.events ∧ ∀ i, .turn (some i) ∉ q.events

/-! ## What the children come to -/

/-- How the process forked by the child of row 6 ends. -/
def grandchildEnd (k : Kernel) : Ended :=
  match [.line "SECCOMP_MODE_FILTER permits fork(2)\n".toList,
      .call (.exitInherit 6)].findSome? (Hurdle.death k.world [6, 0]) with
  | some d => .killed d
  | none => .exited 0

/-- What the child of row `n` does in its seccomp mode. -/
def modeHurdles (k : Kernel) : Nat → List (Hurdle Call)
  | 0 => [.line (succeedLine strictMode), .call (.getSeccomp 0),
      .line "prctl(PR_GET_SECCOMP) succeed unexpectedly\n".toList]
  | 1 => [.call (.write 1), .call (.read 1),
      .line "SECCOMP_MODE_STRICT permits read(2) write(2) and _exit(2)\n".toList]
  | 2 => [.call (.close 2),
      .line "SECCOMP_MODE_STRICT permits close(2) unexpectdly\n".toList]
  | 3 => [.line (succeedLine filterMode), .call (.getSeccomp 3),
      .line "prctl(PR_GET_SECCOMP) succeed unexpectedly\n".toList]
  | 4 => [.call (.close 4), .line "SECCOMP_MODE_FILTER permits close(2)\n".toList]
  | 5 => [.call (.exit 5)]
  | _ => [.call (.forkInherit 6), .call (.wait4 6),
      .line (inheritLine ((grandchildEnd k).status.getD 0))]

/-- `PR_SET_SECCOMP` fails in the child of row `n`. -/
def setFails (k : Kernel) (n : Nat) : Bool :=
  match k.answer [n] (.setSeccomp n) with
  | .val (ret : Int) => ret = -1
  | .kill _ => false

/-- The seccomp mode of the row. -/
def mode (n : Nat) : Text := if n < 3 then strictMode else filterMode

/-- The filter mode is not even tried in row `n`. -/
def skips (k : Kernel) (n : Nat) : Bool := 3 ≤ n ∧ k.modeFilterNotSupported = 1

/-- All that the child of row `n` does. -/
def hurdles (k : Kernel) (n : Nat) : List (Hurdle Call) :=
  if skips k n then [.line "kernel doesn't support SECCOMP_MODE_FILTER\n".toList]
  else .call (.open n) :: .call (.setSeccomp n) ::
    if setFails k n then [.line (failedLine (mode n) (k.errno n))] else modeHurdles k n

/-- The signal that ends the child of row `n` in its check. -/
def death (k : Kernel) (n : Nat) : Option Death :=
  (hurdles k n).findSome? (Hurdle.death k.world [n])

/-- The child of row 5 gets to its `exit(0)`. -/
def exits (k : Kernel) (n : Nat) : Bool := n = 5 ∧ skips k n = false ∧ setFails k n = false

/-- Where a child is when its check is over. -/
def afterCheck (k : Kernel) (n : Nat) : Outcome Unit :=
  match death k n with
  | some d => .ends (.killed d)
  | none => if exits k n then .ends (.exited 0) else .back ()

/-! ## The checks -/

theorem checkStrictMode_eq (k : Kernel) {n : Nat} (hn : n < 3) :
    checkStrictMode k.errno n (tcases n).val = (straight [.call (.open n)] >>= fun _ =>
      .call (.setSeccomp n) fun ret : Int =>
        if ret = -1 then straight [.line (failedLine strictMode (k.errno n))]
        else straight (modeHurdles k n)) := by
  match n, hn with
  | 0, _ => rfl
  | 1, _ => rfl
  | 2, _ => rfl

/-- What the child of row `n` does in the filter mode. -/
def filterRest (k : Kernel) (n : Nat) : Proc Call Reply Unit :=
  match n with
  | 3 => straight (modeHurdles k 3)
  | 4 => straight (modeHurdles k 4)
  | 5 => straight (modeHurdles k 5) >>= fun _ => .exit 0
  | n => checkFilterModeInherit n

theorem checkFilterMode_eq (k : Kernel) {n : Nat} (hn : 3 ≤ n) (hn' : n < 7) :
    checkFilterMode k.modeFilterNotSupported k.errno n (tcases n).val =
      if skips k n then straight [.line "kernel doesn't support SECCOMP_MODE_FILTER\n".toList]
      else straight [.call (.open n)] >>= fun _ => .call (.setSeccomp n) fun ret : Int =>
        if ret = -1 then straight [.line (failedLine filterMode (k.errno n))]
        else filterRest k n := by
  have hskips : skips k n = true ↔ k.modeFilterNotSupported = 1 := by simp [skips, hn]
  unfold checkFilterMode
  by_cases h : k.modeFilterNotSupported = 1
  · rw [if_pos h, if_pos (hskips.mpr h)]
    rfl
  · rw [if_neg h, if_neg (mt hskips.mp h)]
    match n, hn, hn' with
    | 3, _, _ => rfl
    | 4, _, _ => rfl
    | 5, _, _ => rfl
    | 6, _, _ => rfl

/-- A child that is still there after `PR_SET_SECCOMP` is where the rest `y` takes it. -/
theorem outcome_enter (k : Kernel) {n : Nat} {x : Text} {y : Proc Call Reply Unit}
    {hs : List (Hurdle Call)} (o : Outcome Unit)
    (hy : outcome k.world [n] y = match hs.findSome? (Hurdle.death k.world [n]) with
      | some d => .ends (.killed d)
      | none => o) :
    outcome k.world [n] (straight [.call (.open n)] >>= fun _ =>
        .call (.setSeccomp n) fun ret : Int => if ret = -1 then straight [.line x] else y) =
      match (.call (.open n) :: .call (.setSeccomp n) ::
          if setFails k n then [.line x] else hs).findSome? (Hurdle.death k.world [n]) with
        | some d => .ends (.killed d)
        | none => if setFails k n then .back () else o := by
  rw [straight, Proc.call_bind, straight, ret_bind]
  cases hopen : k.answer [n] (.open n) with
  | kill d => rw [outcome_call_kill hopen, List.findSome?, Hurdle.death_kill hopen]
  | val r =>
    rw [outcome_call hopen, List.findSome?, Hurdle.death_val hopen]
    cases hset : k.answer [n] (.setSeccomp n) with
    | kill d => rw [outcome_call_kill hset, List.findSome?, Hurdle.death_kill hset]
    | val ret =>
      rw [outcome_call hset, List.findSome?, Hurdle.death_val hset, setFails, hset]
      by_cases hret : ret = (-1 : Int)
      · simp only [hret, if_true, decide_true]
        exact outcome_straight _ _ _
      · simp only [hret, if_false, decide_false, Bool.false_eq_true]
        exact hy

/-- `afterCheck` of a child that has left the question of `skips` behind. -/
theorem afterCheck_enter {k : Kernel} {n : Nat} (hskip : skips k n = false) : afterCheck k n =
    match (.call (.open n) :: .call (.setSeccomp n) ::
        if setFails k n then [.line (failedLine (mode n) (k.errno n))]
        else modeHurdles k n).findSome? (Hurdle.death k.world [n]) with
      | some d => .ends (.killed d)
      | none =>
        if setFails k n then .back () else if n = 5 then .ends (.exited 0) else .back () := by
  rw [afterCheck, death, hurdles, hskip, if_neg (by decide), exits, hskip]
  by_cases hn : n = 5
  · cases setFails k n with
    | true => simp
    | false => simp [hn]
  · cases setFails k n with
    | true => simp
    | false => simp [hn]

theorem outcome_filterRest (k : Kernel) {n : Nat} (hn : 3 ≤ n) (hn' : n < 6) :
    outcome k.world [n] (filterRest k n) =
      match (modeHurdles k n).findSome? (Hurdle.death k.world [n]) with
        | some d => .ends (.killed d)
        | none => if n = 5 then .ends (.exited 0) else .back () := by
  match n, hn, hn' with
  | 3, _, _ => exact outcome_straight _ _ _
  | 4, _, _ => exact outcome_straight _ _ _
  | 5, _, _ =>
    show outcome k.world [5] (.call (.exit 5) fun _ => .exit 0) = _
    cases h : k.answer [5] (.exit 5) with
    | kill d => rw [outcome_call_kill h, modeHurdles, List.findSome?, Hurdle.death_kill h]
    | val r =>
      rw [outcome_call h, modeHurdles, List.findSome?, Hurdle.death_val h]
      rfl

theorem outcome_skip {k : Kernel} {n : Nat} (hskip : skips k n = true) : outcome k.world [n]
    (straight [.line "kernel doesn't support SECCOMP_MODE_FILTER\n".toList]) = afterCheck k n := by
  have hexits : exits k n = false := by simp [exits, hskip]
  rw [outcome_straight, afterCheck, death, hurdles, hskip, if_pos rfl, hexits]
  rfl

/-- **What the check of a child comes to**, as far as it forks no other. -/
theorem outcome_funcCheck (k : Kernel) {n : Nat} (hn : n < 6) :
    outcome k.world [n] (funcCheck k.modeFilterNotSupported k.errno n) = afterCheck k n := by
  by_cases hstrict : n < 3
  · have hcheck : funcCheck k.modeFilterNotSupported k.errno n =
        checkStrictMode k.errno n (tcases n).val := by
      match n, hstrict with
      | 0, _ => rfl
      | 1, _ => rfl
      | 2, _ => rfl
    have hskip : skips k n = false := by simp [skips]; omega
    rw [hcheck, checkStrictMode_eq k hstrict, afterCheck_enter hskip,
      outcome_enter k (.back ()) (outcome_straight _ _ _), mode, if_pos hstrict,
      if_neg (show ¬ n = 5 by omega)]
  · have hcheck : funcCheck k.modeFilterNotSupported k.errno n =
        checkFilterMode k.modeFilterNotSupported k.errno n (tcases n).val := by
      match n, hstrict, hn with
      | 3, _, _ => rfl
      | 4, _, _ => rfl
      | 5, _, _ => rfl
    rw [hcheck, checkFilterMode_eq k (by omega) (by omega)]
    cases hskip : skips k n with
    | true =>
      rw [if_pos rfl, outcome_skip hskip]
    | false =>
      rw [if_neg (by decide), afterCheck_enter hskip,
        outcome_enter k _ (outcome_filterRest k (by omega) hn), mode, if_neg hstrict]

/-! ## The lines of the children -/

theorem apart_failedLine (m : Text) (errno : Int) : apart verdict (failedLine m errno) := by
  unfold failedLine
  simp only [List.append_assoc]
  exact apart_append (by decide) _

theorem apart_succeedLine (m : Text) : apart verdict (succeedLine m) := by
  unfold succeedLine
  simp only [List.append_assoc]
  exact apart_append (by decide) _

theorem inheritLine_aside (status : BitVec 32) :
    (.printed (inheritLine status) : Event Call).Aside verdict := by
  refine .line ?_
  rw [inheritLine]
  split
  · decide
  · decide

theorem modeHurdles_plain (k : Kernel) (n : Nat) :
    (straight (modeHurdles k n) : Proc Call Reply Unit).Plain (Event.Aside verdict) := by
  have hget : (.printed "prctl(PR_GET_SECCOMP) succeed unexpectedly\n".toList : Event Call).Aside
      verdict := .line (by decide)
  match n with
  | 0 => exact ⟨.line (apart_succeedLine _), .called _, fun _ => ⟨hget, trivial⟩⟩
  | 1 => exact ⟨.called _, fun _ => ⟨.called _, fun _ =>
      ⟨.line (by decide), trivial⟩⟩⟩
  | 2 => exact ⟨.called _, fun _ => ⟨.line (by decide), trivial⟩⟩
  | 3 => exact ⟨.line (apart_succeedLine _), .called _, fun _ => ⟨hget, trivial⟩⟩
  | 4 => exact ⟨.called _, fun _ => ⟨.line (by decide), trivial⟩⟩
  | 5 => exact ⟨.called _, fun _ => trivial⟩
  | n + 6 => exact ⟨.called _, fun _ => ⟨.called _, fun _ => ⟨inheritLine_aside _, trivial⟩⟩⟩

theorem enter_plain (k : Kernel) {n : Nat} {m : Text} {y : Proc Call Reply Unit}
    (hy : y.Plain (Event.Aside verdict)) : (straight [.call (.open n)] >>= fun _ =>
      .call (.setSeccomp n) fun ret : Int =>
        if ret = -1 then straight [.line (failedLine m (k.errno n))] else y :
      Proc Call Reply Unit).Plain (Event.Aside verdict) := by
  refine ⟨.called _, fun _ => ⟨.called _, fun ret => ?_⟩⟩
  refine Proc.Plain.ite ?_ ?_
  · exact ⟨.line (apart_failedLine _ _), trivial⟩
  · exact hy

theorem skip_plain : (straight [.line "kernel doesn't support SECCOMP_MODE_FILTER\n".toList] :
    Proc Call Reply Unit).Plain (Event.Aside verdict) :=
  ⟨.line (by decide), trivial⟩

theorem funcCheck_plain (k : Kernel) {n : Nat} (hn : n < 6) :
    (funcCheck k.modeFilterNotSupported k.errno n).Plain (Event.Aside verdict) := by
  have hstrict : ∀ n < 3, (checkStrictMode k.errno n (tcases n).val).Plain (Event.Aside verdict) :=
    fun n hn => checkStrictMode_eq k hn ▸ enter_plain k (modeHurdles_plain k n)
  have hfilter : ∀ n, 3 ≤ n → n < 6 → (checkFilterMode k.modeFilterNotSupported k.errno n
      (tcases n).val).Plain (Event.Aside verdict) := by
    intro n hn hn'
    rw [checkFilterMode_eq k hn (by omega)]
    split
    · exact skip_plain
    · refine enter_plain k ?_
      match n, hn, hn' with
      | 3, _, _ => exact modeHurdles_plain k 3
      | 4, _, _ => exact modeHurdles_plain k 4
      | 5, _, _ => exact (modeHurdles_plain k 5).bind fun _ => trivial
  match n, hn with
  | 0, _ => exact hstrict 0 (by decide)
  | 1, _ => exact hstrict 1 (by decide)
  | 2, _ => exact hstrict 2 (by decide)
  | 3, _ => exact hfilter 3 (by decide) (by decide)
  | 4, _ => exact hfilter 4 (by decide) (by decide)
  | 5, _ => exact hfilter 5 (by decide) (by decide)

/-! ## The last row -/

/-- What the process forked by the child of row 6 does. -/
def grandchild : Proc Call Reply Unit := do
  printf "SECCOMP_MODE_FILTER permits fork(2)\n".toList
  let _ ← call (Call.exitInherit 6)
  exit 0

theorem outcome_grandchild (k : Kernel) :
    outcome k.world [6, 0] grandchild = .ends (grandchildEnd k) := by
  rw [grandchild, printf_bind, outcome, grandchildEnd, List.findSome?, Hurdle.death]
  cases k.world.signal [6, 0] "SECCOMP_MODE_FILTER permits fork(2)\n".toList with
  | some d => rfl
  | none =>
    dsimp only
    rw [call_bind]
    cases h : k.answer [6, 0] (.exitInherit 6) with
    | kill d => rw [outcome_call_kill h, List.findSome?, Hurdle.death_kill h]
    | val r =>
      rw [outcome_call h, List.findSome?, Hurdle.death_val h]
      rfl

theorem grandchild_plain : grandchild.Plain (Event.Aside verdict) :=
  ⟨.line (by decide), .called _, fun _ => trivial⟩

theorem grandchildEnd_status (k : Kernel) :
    (grandchildEnd k).status = some ((grandchildEnd k).status.getD 0) := by
  rw [grandchildEnd]
  split
  · rfl
  · rfl

/-- The life `l` of the child of row `n`: the check comes to `r`, and `g` is the rest. -/
def Checked (k : Kernel) (g : Unit → Proc Call Reply Unit) (n : Nat) (r : Outcome Unit)
    (l : Life Call) : Prop :=
  ∃ evs others kids, (∀ e ∈ evs, e.Aside verdict) ∧
    (∀ q ∈ others, q.path.length = 2 ∧ ∀ e ∈ q.events, e.Aside verdict) ∧ l = match r with
      | .ends e => ⟨evs, e, others⟩
      | .back () => ⟨evs ++ (run k.world (g ()) [n] kids).events,
          (run k.world (g ()) [n] kids).ended, others ++ (run k.world (g ()) [n] kids).others⟩

/-- What these hurdles come to, with `o` behind them. -/
def behind (k : Kernel) (n : Nat) (hs : List (Hurdle Call)) (o : Outcome Unit) : Outcome Unit :=
  match hs.findSome? (Hurdle.death k.world [n]) with
  | some d => .ends (.killed d)
  | none => o

section Checked

variable {k : Kernel} {g : Unit → Proc Call Reply Unit} {n : Nat} {r o : Outcome Unit}
  {l c : Life Call} {hs : List (Hurdle Call)} {kids : List Ended}

theorem Checked.over (e : Ended) : Checked k g n (.ends e) (.ends e) :=
  ⟨[], [], [], by simp, by simp, rfl⟩

theorem Checked.back (kids : List Ended) :
    Checked k g n (.back ()) (run k.world (g ()) [n] kids) :=
  ⟨[], [], kids, by simp, by simp, rfl⟩

theorem Checked.after (h : Checked k g n r l) {e : Event Call} (he : e.Aside verdict) :
    Checked k g n r (l.after e) := by
  obtain ⟨evs, others, kids, hevs, hothers, rfl⟩ := h
  refine ⟨e :: evs, others, kids, List.forall_mem_cons.mpr ⟨he, hevs⟩, hothers, ?_⟩
  cases r with
  | back a => rfl
  | ends e => rfl

theorem Checked.withChild (h : Checked k g n r l) (m : Nat) {p : Path} (hp : p.length = 2)
    (hevs : ∀ e ∈ c.events, e.Aside verdict) (hnone : c.others = []) :
    Checked k g n r (l.withChild m p c) := by
  obtain ⟨evs, others, kids, hevs', hothers, rfl⟩ := h
  refine ⟨.forked m :: evs, ⟨p, c.events, c.ended⟩ :: others, kids,
    List.forall_mem_cons.mpr ⟨.forked m, hevs'⟩,
    List.forall_mem_cons.mpr ⟨⟨hp, hevs⟩, hothers⟩, ?_⟩
  cases r with
  | back a => simp [Life.withChild, hnone]
  | ends e => simp [Life.withChild, hnone]

/-- A call is a hurdle. -/
theorem Checked.call {s : Call} {f : Reply s → Proc Call Reply Unit}
    (h : ∀ v, k.answer [n] s = .val v →
      Checked k g n (behind k n hs o) (run k.world (f v) [n] kids)) :
    Checked k g n (behind k n (.call s :: hs) o) (run k.world (.call s f) [n] kids) := by
  cases hs' : k.answer [n] s with
  | val v =>
    rw [behind, List.findSome?, Hurdle.death_val hs', run_call hs']
    exact (h v hs').after (.called s)
  | kill d =>
    rw [behind, List.findSome?, Hurdle.death_kill hs', run_call_kill hs']
    exact (Checked.over _).after (.called s)

/-- So is a line. -/
theorem Checked.line {x : Text} {y : Proc Call Reply Unit}
    (hx : (.printed x : Event Call).Aside verdict)
    (h : Checked k g n (behind k n hs o) (run k.world y [n] kids)) :
    Checked k g n (behind k n (.line x :: hs) o) (run k.world (.print x y) [n] kids) := by
  rw [behind, List.findSome?, Hurdle.death]
  cases hline : k.world.signal [n] x with
  | none =>
    rw [run_print hline]
    exact h.after hx
  | some d =>
    rw [run_print_kill hline]
    exact Checked.over _

/-- A check that does not fork. -/
theorem Checked.of_plain {x : Proc Call Reply Unit} (hx : x.Plain (Event.Aside verdict)) :
    Checked k g n (outcome k.world [n] x) (run k.world (x >>= g) [n] []) := by
  obtain ⟨evs, hevs, hrun⟩ := hx.run_bind k.world [n]
  refine ⟨evs, [], [], hevs, by simp, ?_⟩
  rw [hrun]
  cases outcome k.world [n] x with
  | back a => rfl
  | ends e => simp [Outcome.then, Life.ends, Life.afterAll]

end Checked

/-- The check of row 6 with the process it forks. -/
theorem run_inherit (k : Kernel) (g : Unit → Proc Call Reply Unit) :
    Checked k g 6 (behind k 6 (modeHurdles k 6) (.back ()))
      (run k.world (checkFilterModeInherit 6 >>= g) [6] []) := by
  have hmode : modeHurdles k 6 = [.call (.forkInherit 6), .call (.wait4 6),
      .line (inheritLine ((grandchildEnd k).status.getD 0))] := rfl
  obtain ⟨evs, hevs, hrun⟩ := grandchild_plain.run_bind k.world [6, 0]
  have hgrand : run k.world (grandchild >>= g) [6, 0] [] = ⟨evs, grandchildEnd k, []⟩ := by
    rw [hrun, outcome_grandchild]
    simp [Outcome.then, Life.ends, Life.afterAll]
  rw [checkFilterModeInherit, call_bind, Proc.call_bind, hmode]
  refine Checked.call fun v hfork => ?_
  rw [fork_bind, Proc.fork_bind, run_fork]
  show Checked k g 6 _ ((run k.world (.call (.wait4 6) fun _ => .wait 0 fun status =>
    .print (inheritLine status) (g ())) [6] ([] ++ [(run k.world (grandchild >>= g)
      [6, 0] []).ended])).withChild 0 [6, 0] (run k.world (grandchild >>= g) [6, 0] []))
  rw [hgrand]
  refine Checked.withChild ?_ 0 rfl hevs rfl
  refine Checked.call fun v hwait => ?_
  have hstatus : run k.world (.wait 0 fun status => .print (inheritLine status) (g ())) [6]
      [grandchildEnd k] = run k.world (.print (inheritLine
        ((grandchildEnd k).status.getD 0)) (g ())) [6] [grandchildEnd k] :=
    run_wait_first (grandchildEnd_status k) _
  rw [List.nil_append, hstatus]
  exact Checked.line (inheritLine_aside _) (Checked.back _)

/-- A child that enters its mode, in front of what it does there. -/
theorem run_enter {k : Kernel} {g : Unit → Proc Call Reply Unit} {n : Nat} {m : Text}
    {y : Proc Call Reply Unit} {hs : List (Hurdle Call)} {o : Outcome Unit}
    (hy : Checked k g n (behind k n hs o) (run k.world (y >>= g) [n] [])) :
    Checked k g n (behind k n (.call (.open n) :: .call (.setSeccomp n) ::
        if setFails k n then [.line (failedLine m (k.errno n))] else hs)
          (if setFails k n then .back () else o))
      (run k.world ((straight [.call (.open n)] >>= fun _ => .call (.setSeccomp n) fun ret : Int =>
        if ret = -1 then straight [.line (failedLine m (k.errno n))] else y) >>= g) [n] []) := by
  refine Checked.call fun v hopen => Checked.call fun ret hset => ?_
  rw [setFails, hset]
  by_cases hret : ret = (-1 : Int)
  · simp only [hret, if_true, decide_true]
    exact Checked.line (.line (apart_failedLine _ _)) (Checked.back _)
  · simp only [hret, if_false, decide_false, Bool.false_eq_true]
    exact hy

/-- A child in its check, in front of the rest `g`. -/
theorem run_funcCheck (k : Kernel) {n : Nat} (hn : n < 7) (g : Unit → Proc Call Reply Unit) :
    Checked k g n (afterCheck k n)
      (run k.world (funcCheck k.modeFilterNotSupported k.errno n >>= g) [n] []) := by
  by_cases hlast : n < 6
  · rw [← outcome_funcCheck k hlast]
    exact Checked.of_plain (funcCheck_plain k hlast)
  · obtain rfl : n = 6 := by omega
    have hcheck : funcCheck k.modeFilterNotSupported k.errno 6 =
        checkFilterMode k.modeFilterNotSupported k.errno 6 (tcases 6).val := rfl
    rw [hcheck, checkFilterMode_eq k (by decide) (by decide)]
    cases hskip : skips k 6 with
    | true =>
      rw [if_pos rfl, ← outcome_skip hskip]
      exact Checked.of_plain skip_plain
    | false =>
      rw [if_neg (by decide), afterCheck_enter hskip]
      exact run_enter (run_inherit k g)

/-! ## The ends of the children -/

/-- The value that happens to be there where `verify_prctl(n)` returns none. -/
def missingValue (k : Kernel) (p : Path) (n : Nat) : Int :=
  match k.answer p (.missing n) with
  | .val (v : Int) => v
  | .kill _ => 0

theorem answer_missing (k : Kernel) (p : Path) (n : Nat) :
    k.answer p (.missing n) = .val (missingValue k p n) := by
  obtain ⟨v, hv⟩ := k.missing p n
  rw [missingValue, hv]

/-- What `verify_prctl(n)` makes of a status. -/
def rowValue (k : Kernel) (n : Nat) (status : BitVec 32) : Int :=
  if KilledBy status (tcases n).expSignal then if (tcases n).passFlag ≠ 0 then 1 else 0
  else if (tcases n).passFlag = 2 ∧ k.modeFilterNotSupported = 0 then 0
  else missingValue k [] n

theorem message_aside (n : Nat) (x : Text) :
    (.printed ((tcases n).message ++ x) : Event Call).Aside verdict := by
  have hhead : apart verdict (tcases n).message := by
    match n with
    | 0 => decide
    | 1 => decide
    | 2 => decide
    | 3 => decide
    | 4 => decide
    | 5 => decide
    | n + 6 => exact (by decide : apart verdict "SECCOMP_MODE_FILTER doesn't permit exit()".toList)
  exact .line (apart_append hhead x)

/-- The parent forks, waits and judges; the child goes on with the same `f`. -/
theorem run_verifyPrctl (k : Kernel) (n : Nat) (f : Int → Proc Call Reply Unit)
    (kids : List Ended) {c : Life Call} {status : BitVec 32}
    (hc : run k.world (funcCheck k.modeFilterNotSupported k.errno n >>= fun _ =>
      .call (.missing n) f) [kids.length] [] = c)
    (hs : c.ended.status = some status) : ∃ evs, (∀ e ∈ evs, e.Aside verdict) ∧
      run k.world (verifyPrctl k.modeFilterNotSupported k.errno n >>= f) [] kids =
        (((run k.world (f (rowValue k n status)) [] (kids ++ [c.ended])).afterAll evs).withChild
          kids.length [kids.length] c).after (.called (.fork n)) := by
  obtain ⟨r, hr⟩ := k.initial (.fork n)
  rw [verifyPrctl, call_bind, Proc.call_bind, run_call hr, fork_bind, Proc.fork_bind, run_fork]
  simp only [bind_assoc, List.nil_append, call_bind, hc, waitpid_bind, Proc.wait_bind, run_wait hs]
  have hline : ∀ x, k.world.signal [] x = none := k.initialLine
  have hcall : k.world.answer [] (.missing n) = .val (missingValue k [] n) := answer_missing k [] n
  rw [rowValue]
  by_cases hkill : KilledBy status (tcases n).expSignal
  · simp only [hkill, if_true, printf_bind, Proc.print_bind]
    rw [run_print (hline _)]
    refine ⟨[.printed ((tcases n).message ++ "\n".toList)], ?_, ?_⟩
    · exact List.forall_mem_singleton.mpr (message_aside n _)
    · split
      · rfl
      · rfl
  · by_cases hflag : (tcases n).passFlag = 2 ∧ k.modeFilterNotSupported = 0
    · rw [if_neg hkill, if_neg hkill, if_pos hflag, if_pos hflag, printf_bind, Proc.print_bind,
        run_print (hline _)]
      refine ⟨[.printed "SECCOMP_MODE_FILTER permits exit() unexpectedly\n".toList], ?_, rfl⟩
      exact List.forall_mem_singleton.mpr (.line (by decide))
    · rw [if_neg hkill, if_neg hkill, if_neg hflag, if_neg hflag, call_bind, run_call hcall]
      exact ⟨[.called (.missing n)], List.forall_mem_singleton.mpr (.called _), rfl⟩

/-! ## The rows one after the other -/

/-- Neither the verdict nor a turn of the loop that is taken. -/
def Kept (e : Event Call) : Prop := e ≠ .printed verdict ∧ ∀ i, e ≠ .turn (some i)

theorem kept_of_aside {e : Event Call} (h : e.Aside verdict) : Kept e :=
  ⟨h.1, fun i => h.2 (some i)⟩

/-- What is left of `main` in front of row `i`, with `m` rows to go. -/
def rest (k : Kernel) (i m : Nat) (ok : Int) : Proc Call Reply Unit :=
  loop (mainTurn k.modeFilterNotSupported k.errno) i m ok >>= finish

/-- What is left of `main` when `verify_prctl(i)` has returned `v`. -/
def afterRow (k : Kernel) (i m : Nat) (ok v : Int) : Proc Call Reply Unit :=
  rest k (i + 1) m (if v = 0 then 0 else ok)

theorem rest_succ (k : Kernel) (i m : Nat) (ok : Int) : rest k i (m + 1) ok =
    .turn (some i) (verifyPrctl k.modeFilterNotSupported k.errno i >>= afterRow k i m ok) := by
  have hend : ∀ v : Int, ((if v = 0 then return 0 else return ok : Proc Call Reply Int) >>=
      loop (mainTurn k.modeFilterNotSupported k.errno) (i + 1) m) >>= finish =
        afterRow k i m ok v := by
    intro v
    rw [afterRow, rest]
    split
    · rfl
    · rfl
  rw [rest, loop, Proc.turn_bind]
  simp only [mainTurn, bind_assoc] at hend ⊢
  simp only [hend]

/-- The descendants that row `n` leaves behind, its child having ended with `e`. -/
structure Row (n : Nat) (e : Ended) (ds : List (Descendant Call)) : Prop where
  kept : ∀ d ∈ ds, ∀ ev ∈ d.events, Kept ev
  ended : ∀ d ∈ ds, ∀ m, d.path = [m] → m = n ∧ d.ended = e
  child : ∃ d ∈ ds, d.path = [n] ∧ d.ended = e

/-- **One row**: the child's life `c` has to be known, and that it is over. -/
theorem run_row (k : Kernel) (n m : Nat) (ok : Int) {kids : List Ended} (hkids : kids.length = n)
    {c : Life Call} (hc : run k.world (funcCheck k.modeFilterNotSupported k.errno n >>= fun _ =>
      .call (.missing n) (afterRow k n m ok)) [n] [] = c) {status : BitVec 32}
    (hs : c.ended.status = some status) (hkept : ∀ ev ∈ c.events, Kept ev)
    (hothers : ∀ q ∈ c.others, q.path.length = 2 ∧ ∀ ev ∈ q.events, Kept ev) :
    ∃ evs ds, .printed verdict ∉ evs ∧ Row n c.ended ds ∧
      ∃ l, l = run k.world (afterRow k n m ok (rowValue k n status)) [] (kids ++ [c.ended]) ∧
        run k.world (rest k n (m + 1) ok) [] kids = ⟨evs ++ l.events, l.ended, ds ++ l.others⟩ := by
  subst hkids
  obtain ⟨evs, hevs, hrun⟩ := run_verifyPrctl k kids.length _ kids hc hs
  refine ⟨.turn (some kids.length) :: .called (.fork kids.length) :: .forked kids.length :: evs,
    ⟨[kids.length], c.events, c.ended⟩ :: c.others, ?_, ⟨?_, ?_, ?_⟩, _, rfl, ?_⟩
  · simp only [List.mem_cons, reduceCtorEq, false_or]
    exact fun h => (hevs _ h).1 rfl
  · exact List.forall_mem_cons.mpr ⟨hkept, fun q hq => (hothers q hq).2⟩
  · refine List.forall_mem_cons.mpr
      ⟨fun m hm => ⟨(List.cons.inj hm).1.symm, rfl⟩, fun q hq m hm => ?_⟩
    have := (hothers q hq).1
    rw [hm] at this
    simp at this
  · exact ⟨_, List.mem_cons_self, rfl, rfl⟩
  · rw [rest_succ, run_turn, hrun]
    simp [Life.after, Life.afterAll, Life.withChild]

/-- How a process ends by the `exit` behind `main`. -/
def exitEnd (k : Kernel) (p : Path) : Ended :=
  match k.answer p .mainExit with
  | .kill d => .killed d
  | .val _ => .exited 0

/-- How a process ends that has come out of the loop. -/
def mainEnd (k : Kernel) (p : Path) (ok : Int) : Ended :=
  match if ok ≠ 0 then k.signal p verdict else none with
  | some d => .killed d
  | none => exitEnd k p

theorem run_mainExit (k : Kernel) (p : Path) (kids : List Ended) :
    run k.world (call Call.mainExit >>= fun _ => return ()) p kids =
      ⟨[.called .mainExit], exitEnd k p, []⟩ := by
  rw [call_bind, exitEnd]
  cases h : k.answer p .mainExit with
  | val r =>
    rw [run_call h]
    rfl
  | kill d =>
    rw [run_call_kill h]
    rfl

/-- The end of `main`: the verdict is printed if `ok` is set and no signal comes before. -/
theorem run_rest_zero (k : Kernel) (i : Nat) (ok : Int) (p : Path) (kids : List Ended) :
    ∃ evs, (∀ e ∈ evs, ∀ j, e ≠ .turn (some j)) ∧
      (.printed verdict ∈ evs ↔ ok ≠ 0 ∧ k.signal p verdict = none) ∧
      run k.world (rest k i 0 ok) p kids = ⟨evs, mainEnd k p ok, []⟩ := by
  rw [rest, loop, Proc.turn_bind, ret_bind, run_turn, finish, Proc.ite_bind, mainEnd]
  by_cases hok : ok ≠ 0
  · rw [if_pos hok, if_pos hok, printf_bind]
    cases hline : k.signal p verdict with
    | none =>
      refine ⟨[.turn none, .printed verdict, .called .mainExit], by simp, by simp [hok], ?_⟩
      rw [run_print (w := k.world) hline, run_mainExit]
      rfl
    | some d =>
      refine ⟨[.turn none], by simp, by simp, ?_⟩
      rw [run_print_kill (w := k.world) hline]
      rfl
  · rw [if_neg hok, if_neg hok, pure_bind, run_mainExit]
    exact ⟨[.turn none, .called .mainExit], by simp, by simp [hok], rfl⟩

theorem afterCheck_status {k : Kernel} {n : Nat} {e : Ended} (h : afterCheck k n = .ends e) :
    ∃ status, e.status = some status := by
  rw [afterCheck] at h
  split at h
  · cases h
    exact ⟨_, rfl⟩
  · split at h
    · cases h
      exact ⟨_, rfl⟩
    · cases h

/-- A row whose child does not get out of its check. -/
theorem run_row_over (k : Kernel) {n : Nat} (hn : n < 7) (m : Nat) (ok : Int) {kids : List Ended}
    (hkids : kids.length = n) {e : Ended} (he : afterCheck k n = .ends e) :
    ∃ evs ds, .printed verdict ∉ evs ∧ Row n e ds ∧
      ∃ l, l = run k.world (afterRow k n m ok (rowValue k n (e.status.getD 0))) [] (kids ++ [e]) ∧
        run k.world (rest k n (m + 1) ok) [] kids = ⟨evs ++ l.events, l.ended, ds ++ l.others⟩ := by
  obtain ⟨evs, others, _, hevs, hothers, hrun⟩ := run_funcCheck k hn fun _ =>
    .call (.missing n) (afterRow k n m ok)
  obtain ⟨status, hstatus⟩ := afterCheck_status he
  rw [he] at hrun
  rw [hstatus]
  exact run_row k n m ok hkids hrun hstatus (fun ev hev => kept_of_aside (hevs ev hev))
    fun q hq => ⟨(hothers q hq).1, fun ev hev => kept_of_aside ((hothers q hq).2 ev hev)⟩

/-- `ok` in front of row `i`, as long as no child gets out of its check. -/
def okBefore (k : Kernel) : Nat → Int
  | 0 => 1
  | i + 1 =>
    let e := match afterCheck k i with
      | .ends e => e
      | .back () => .running
    if rowValue k i (e.status.getD 0) = 0 then 0 else okBefore k i

/-- How the child of row `n` ends. If it gets out of its check it is at the end of `main`. -/
def endOf (k : Kernel) (n : Nat) : Ended :=
  match afterCheck k n with
  | .ends e => e
  | .back () => mainEnd k [n] (if missingValue k [n] n = 0 then 0 else okBefore k n)

theorem okBefore_succ {k : Kernel} {i : Nat} (h : afterCheck k i ≠ .back ()) :
    okBefore k (i + 1) =
      if rowValue k i ((endOf k i).status.getD 0) = 0 then 0 else okBefore k i := by
  rw [okBefore, endOf]
  cases hc : afterCheck k i with
  | ends e => rfl
  | back a => exact absurd hc h

/-- The descendants that the rows in front of row `i` leave behind. -/
structure Rows (k : Kernel) (i : Nat) (ds : List (Descendant Call)) : Prop where
  kept : ∀ d ∈ ds, ∀ ev ∈ d.events, Kept ev
  ended : ∀ d ∈ ds, ∀ m, d.path = [m] → d.ended = endOf k m
  child : ∀ m < i, ∃ d ∈ ds, d.path = [m] ∧ d.ended = endOf k m

theorem Rows.nil (k : Kernel) : Rows k 0 [] := ⟨by simp, by simp, by simp⟩

theorem Rows.succ {k : Kernel} {i : Nat} {ds ds' : List (Descendant Call)} (h : Rows k i ds)
    (h' : Row i (endOf k i) ds') : Rows k (i + 1) (ds ++ ds') := by
  refine ⟨fun d hd => ?_, fun d hd m hm => ?_, fun m hm => ?_⟩
  · exact (List.mem_append.mp hd).elim (h.kept d) (h'.kept d)
  · rcases List.mem_append.mp hd with hd | hd
    · exact h.ended d hd m hm
    · obtain ⟨rfl, he⟩ := h'.ended d hd m hm
      exact he
  · rcases Nat.lt_succ_iff_lt_or_eq.mp hm with hm | rfl
    · obtain ⟨d, hd, hdm⟩ := h.child m hm
      exact ⟨d, List.mem_append_left _ hd, hdm⟩
    · obtain ⟨d, hd, hdm⟩ := h'.child
      exact ⟨d, List.mem_append_right _ hd, hdm⟩

/-- **The rows in front of row `i`**, whose children stay in their checks. -/
theorem run_rows (k : Kernel) (i : Nat) (hi : i ≤ 6) (h : ∀ n < i, afterCheck k n ≠ .back ()) :
    ∃ evs ds kids, .printed verdict ∉ evs ∧ Rows k i ds ∧ kids.length = i ∧
      ∃ l, l = run k.world (rest k i (7 - i) (okBefore k i)) [] kids ∧
        run k.world (rest k 0 7 1) [] [] = ⟨evs ++ l.events, l.ended, ds ++ l.others⟩ := by
  induction i with
  | zero => exact ⟨[], [], [], by simp, .nil k, rfl, _, rfl, rfl⟩
  | succ i ih =>
    obtain ⟨evs, ds, kids, hevs, hds, hkids, l, hl, hrun⟩ :=
      ih (by omega) fun n hn => h n (by omega)
    cases he : afterCheck k i with
    | back a => exact absurd he (h i (by omega))
    | ends e =>
      obtain ⟨evs', ds', hevs', hds', l', hl', hrun'⟩ :=
        run_row_over k (by omega) (6 - i) (okBefore k i) hkids he
      have hend : endOf k i = e := by rw [endOf, he]
      refine ⟨evs ++ evs', ds ++ ds', kids ++ [e], ?_, hds.succ (hend ▸ hds'), by simp [hkids],
        l', ?_, ?_⟩
      · simpa using ⟨hevs, hevs'⟩
      · rw [hl', afterRow, okBefore_succ (h i (by omega)), hend, show 7 - (i + 1) = 6 - i by omega]
      · rw [hrun, hl, show 7 - i = 6 - i + 1 by omega, hrun']
        simp

theorem mainEnd_status (k : Kernel) (p : Path) (ok : Int) :
    ∃ status, (mainEnd k p ok).status = some status := by
  rw [mainEnd]
  split
  · exact ⟨_, rfl⟩
  · rw [exitEnd]
    split
    · exact ⟨_, rfl⟩
    · exact ⟨_, rfl⟩

theorem endOf_status {k : Kernel} (n : Nat) :
    (endOf k n).status = some ((endOf k n).status.getD 0) := by
  have h : ∃ status, (endOf k n).status = some status := by
    rw [endOf]
    cases he : afterCheck k n with
    | ends e => exact afterCheck_status he
    | back a => exact mainEnd_status k [n] _
  obtain ⟨status, hs⟩ := h
  rw [hs]
  rfl

/-- The `ok` of a child of row 6 that has got out of its check. -/
def lastOk (k : Kernel) : Int := if missingValue k [6] 6 = 0 then 0 else okBefore k 6

/-- **The last row**, whose child may get out of its check if it then keeps silent. -/
theorem run_last (k : Kernel) {kids : List Ended} (hkids : kids.length = 6)
    (h : afterCheck k 6 = .back () → lastOk k = 0 ∨ k.signal [6] verdict ≠ none) :
    ∃ evs ds, .printed verdict ∉ evs ∧ Row 6 (endOf k 6) ds ∧
      ∃ l, l = run k.world (afterRow k 6 0 (okBefore k 6)
          (rowValue k 6 ((endOf k 6).status.getD 0))) [] (kids ++ [endOf k 6]) ∧
        run k.world (rest k 6 1 (okBefore k 6)) [] kids =
          ⟨evs ++ l.events, l.ended, ds ++ l.others⟩ := by
  cases he : afterCheck k 6 with
  | ends e =>
    have hend : endOf k 6 = e := by rw [endOf, he]
    rw [hend]
    exact run_row_over k (by decide) 0 _ hkids he
  | back a =>
    have hend : endOf k 6 = mainEnd k [6] (lastOk k) := by rw [endOf, he, lastOk]
    obtain ⟨evs, others, kids', hevs, hothers, hrun⟩ := run_funcCheck k (n := 6) (by decide)
      fun _ => .call (.missing 6) (afterRow k 6 0 (okBefore k 6))
    obtain ⟨evs', hturn, hprint, hrun'⟩ := run_rest_zero k 7 (lastOk k) [6] kids'
    have hmissing : k.world.answer [6] (.missing 6) = .val (missingValue k [6] 6) :=
      answer_missing k [6] 6
    rw [he] at hrun
    dsimp only at hrun
    rw [run_call hmissing] at hrun
    change run k.world _ [6] [] =
      ⟨evs ++ .called (.missing 6) :: (run k.world (rest k 7 0 (lastOk k)) [6] kids').events,
        (run k.world (rest k 7 0 (lastOk k)) [6] kids').ended,
        others ++ (run k.world (rest k 7 0 (lastOk k)) [6] kids').others⟩ at hrun
    rw [hrun', List.append_nil] at hrun
    have hsilent : .printed verdict ∉ evs' := by
      intro hp
      obtain ⟨hok, hsig⟩ := hprint.mp hp
      rcases h he with h0 | h0
      · exact hok h0
      · exact h0 hsig
    rw [hend]
    refine run_row k 6 0 _ hkids hrun (by rw [← hend]; exact endOf_status 6)
      (fun ev hev => ?_) fun q hq =>
        ⟨(hothers q hq).1, fun ev hev => kept_of_aside ((hothers q hq).2 ev hev)⟩
    rcases List.mem_append.mp hev with hev | hev
    · exact kept_of_aside (hevs ev hev)
    · rcases List.mem_cons.mp hev with rfl | hev
      · exact ⟨nofun, nofun⟩
      · exact ⟨fun heq => hsilent (heq ▸ hev), hturn ev hev⟩

/-! ## The whole run -/

theorem setup_plain (errno : Int) : (setup errno).Plain (Event.Aside verdict) := by
  refine ⟨.called _, fun ret => ?_⟩
  refine Proc.Plain.ite ?_ ?_
  · refine ⟨.line (by decide), .called _, fun ret => ?_⟩
    refine Proc.Plain.ite ?_ ?_
    · trivial
    · exact ⟨.line (by decide), trivial⟩
  · refine Proc.Plain.bind ?_ fun _ => ?_
    · split
      · exact ⟨.line (by decide), trivial⟩
      · trivial
    · simp only [List.append_assoc]
      exact ⟨.line (apart_append (by decide) _), trivial⟩

theorem outcome_setup (k : Kernel) :
    outcome k.world [] (setup k.setupErrno) = .back k.modeFilterNotSupported := by
  have hline : ∀ x, k.world.signal [] x = none := k.initialLine
  obtain ⟨get, hget⟩ := k.initial .setupGet
  obtain ⟨set, hset⟩ := k.initial .setupSet
  rw [setup, call_bind, outcome_call hget, Kernel.modeFilterNotSupported, hget, hset]
  by_cases h0 : get = (0 : Int)
  · rw [if_pos h0, printf_bind, outcome, hline]
    dsimp only
    rw [call_bind, outcome_call hset]
    by_cases hset' : set.1 = -1 ∧ set.2 = EINVAL
    · rw [if_pos hset', if_pos ⟨h0, hset'⟩]
      rfl
    · rw [if_neg hset', if_neg fun h => hset' h.2, printf_bind, outcome, hline]
      rfl
  · have hno : ¬ (get = (0 : Int) ∧ set.1 = -1 ∧ set.2 = EINVAL) := fun h => h0 h.1
    dsimp only
    rw [if_neg h0, if_neg hno, Proc.ite_bind]
    split
    · rw [printf_bind, outcome, hline]
      dsimp only
      rw [printf_bind, outcome, hline]
      rfl
    · rw [pure_bind, printf_bind, outcome, hline]
      rfl

theorem life_eq (k : Kernel) : ∃ evs, .printed verdict ∉ evs ∧
    k.life = (run k.world (rest k 0 7 1) [] []).afterAll evs := by
  obtain ⟨evs, hevs, hrun⟩ := (setup_plain k.setupErrno).run_bind k.world []
  refine ⟨evs, fun h => (hevs _ h).1 rfl, ?_⟩
  rw [Kernel.life, main, hrun, outcome_setup]
  rfl

theorem child_mem_others (k : Kernel) (n : Nat) (f : Int → Proc Call Reply Unit)
    {kids : List Ended} (hkids : kids.length = n) {c : Life Call}
    (hc : run k.world (funcCheck k.modeFilterNotSupported k.errno n >>= fun _ =>
      .call (.missing n) f) [n] [] = c) : ⟨[n], c.events, c.ended⟩ ∈
        (run k.world (verifyPrctl k.modeFilterNotSupported k.errno n >>= f) [] kids).others := by
  obtain ⟨r, hr⟩ := k.initial (.fork n)
  rw [verifyPrctl, call_bind, Proc.call_bind, run_call hr, fork_bind, Proc.fork_bind, run_fork]
  simp only [bind_assoc, List.nil_append, call_bind, hkids, hc]
  exact List.mem_cons_self

/-- The first child that gets out of its check goes on where its parent does. -/
theorem life_of_back (k : Kernel) {n : Nat} (hn : n < 7) (hback : afterCheck k n = .back ())
    (h : ∀ m < n, afterCheck k m ≠ .back ()) : ∃ kids, ∃ q ∈ k.life.others,
      ∀ e ∈ (run k.world (afterRow k n (6 - n) (okBefore k n) (missingValue k [n] n)) [n]
        kids).events, e ∈ q.events := by
  obtain ⟨evs, -, hlife⟩ := life_eq k
  obtain ⟨evs', ds, kids, -, -, hkids, l, hl, hrun⟩ := run_rows k n (by omega) h
  obtain ⟨evs'', others, kids', -, -, hchild⟩ := run_funcCheck k hn fun _ =>
    .call (.missing n) (afterRow k n (6 - n) (okBefore k n))
  have hmissing : k.world.answer [n] (.missing n) = .val (missingValue k [n] n) :=
    answer_missing k [n] n
  rw [hback] at hchild
  dsimp only at hchild
  rw [run_call hmissing] at hchild
  have hmem := child_mem_others k n _ hkids hchild
  generalize hq : (⟨[n], _, _⟩ : Descendant Call) = q at hmem
  refine ⟨kids', q, ?_, fun e he => hq ▸ List.mem_append_right _ (List.mem_cons_of_mem _ he)⟩
  rw [hlife, hrun, hl, show 7 - n = 6 - n + 1 by omega, rest_succ]
  exact List.mem_append_right _ hmem

/-! ## The condition -/

/-- The process that ended with `e` was ended by the `exp_signal` of row `n`. -/
def EndedBy (n : Nat) (e : Ended) : Prop :=
  ∃ d : Death, e = .killed d ∧ BitVec.ofNat 32 d.sig = (tcases n).expSignal

/-- The parent comes to the end of `verify_prctl(n)`, where no `return` stands. -/
def FallsThrough (k : Kernel) (n : Nat) : Prop :=
  ¬ EndedBy n (endOf k n) ∧ ¬ ((tcases n).passFlag = 2 ∧ k.modeFilterNotSupported = 0)

/-- Row `n` clears `ok`: a child was ended that should not have been, or was not that should
have been in row 5, or the value that is missing happens to be 0. -/
def Counts (k : Kernel) (n : Nat) : Prop :=
  EndedBy n (endOf k n) ∧ (tcases n).passFlag = 0 ∨
    ¬ EndedBy n (endOf k n) ∧ (tcases n).passFlag = 2 ∧ k.modeFilterNotSupported = 0 ∨
      FallsThrough k n ∧ missingValue k [] n = 0

/-- A signal, or in row 5 its own `exit`, keeps each child in its check. The last one may get
out if its `ok` is 0 or a signal ends it at the verdict. -/
structure KeepsOut (k : Kernel) : Prop where
  first : ∀ n < 6, afterCheck k n ≠ .back ()
  last : afterCheck k 6 = .back () →
    (∃ n < 6, Counts k n) ∨ missingValue k [6] 6 = 0 ∨ k.signal [6] verdict ≠ none

/-- No child gets into the loop, and the missing values do not spoil the verdict: none that is
used is 0 where all rows are met, and where one is not met another or the same one counts. -/
def Settled (k : Kernel) : Prop :=
  KeepsOut k ∧
    ((∀ n < 7, RowMet k n (EndedBy n (endOf k n))) ∧
        (∀ n < 7, FallsThrough k n → missingValue k [] n ≠ 0) ∨
      (∃ n < 7, ¬ RowMet k n (EndedBy n (endOf k n))) ∧ ∃ n < 7, Counts k n)

theorem killedBy_iff {e : Ended} {status : BitVec 32} (h : e.status = some status) (n : Nat) :
    KilledBy status (tcases n).expSignal ↔ EndedBy n e := by
  cases e with
  | exited code =>
    cases h
    refine iff_of_false (fun h => not_WIFSIGNALED_exitStatus code h.1) ?_
    rintro ⟨d, hd, -⟩
    cases hd
  | killed d =>
    cases h
    obtain ⟨hterm, hsig, -, -⟩ := d.status_macros
    constructor
    · exact fun h => ⟨d, rfl, hterm.symm.trans h.2⟩
    · rintro ⟨d', hd', hexp⟩
      cases hd'
      exact ⟨hsig, hterm.trans hexp⟩
  | running => cases h

theorem rowValue_eq_zero_iff (k : Kernel) (n : Nat) :
    rowValue k n ((endOf k n).status.getD 0) = 0 ↔ Counts k n := by
  rw [rowValue, Counts, FallsThrough]
  have hkilled := killedBy_iff (endOf_status (k := k) n) n
  by_cases h : EndedBy n (endOf k n)
  · rw [if_pos (hkilled.mpr h)]
    by_cases hflag : (tcases n).passFlag = 0
    · simp [h, hflag]
    · simp [h, hflag]
  · rw [if_neg (mt hkilled.mp h)]
    by_cases hflag : (tcases n).passFlag = 2 ∧ k.modeFilterNotSupported = 0
    · simp [h, hflag]
    · rw [if_neg hflag]
      tauto

theorem okBefore_ne_zero_iff (k : Kernel) {i : Nat} (h : ∀ n < i, afterCheck k n ≠ .back ()) :
    okBefore k i ≠ 0 ↔ ∀ n < i, ¬ Counts k n := by
  induction i with
  | zero => simp [okBefore]
  | succ i ih =>
    rw [okBefore_succ (h i (by omega)), Nat.forall_lt_succ_right, ← ih fun n hn => h n (by omega),
      ← rowValue_eq_zero_iff]
    by_cases hv : rowValue k i ((endOf k i).status.getD 0) = 0
    · rw [if_pos hv]
      exact ⟨fun h => absurd rfl h, fun h => absurd hv h.2⟩
    · rw [if_neg hv]
      exact ⟨fun h => ⟨h, hv⟩, And.left⟩

theorem lastOk_eq_zero_iff (k : Kernel) (h : ∀ n < 6, afterCheck k n ≠ .back ()) :
    lastOk k = 0 ↔ (∃ n < 6, Counts k n) ∨ missingValue k [6] 6 = 0 := by
  have hok := okBefore_ne_zero_iff k h
  rw [lastOk]
  by_cases hm : missingValue k [6] 6 = 0
  · simp [hm]
  · rw [if_neg hm, or_iff_left hm, ← not_iff_not, ← ne_eq, hok]
    simp only [not_exists, not_and]

/-- A run in which no child gets into the loop. -/
theorem life_of_keepsOut {k : Kernel} (h : KeepsOut k) :
    (k.life.Prints verdict ↔ ∀ n < 7, ¬ Counts k n) ∧ Rows k 7 k.life.others := by
  obtain ⟨evs₀, hevs₀, hlife⟩ := life_eq k
  obtain ⟨evs, ds, kids, hevs, hds, hkids, l, hl, hrun⟩ := run_rows k 6 (by decide) h.first
  obtain ⟨evs', ds', hevs', hds', l', hl', hrun'⟩ := run_last k hkids fun hback => by
    rw [lastOk_eq_zero_iff k h.first, or_assoc]
    exact h.last hback
  obtain ⟨evs'', -, hprint, hrun''⟩ := run_rest_zero k 7
    (if rowValue k 6 ((endOf k 6).status.getD 0) = 0 then 0 else okBefore k 6) []
      (kids ++ [endOf k 6])
  rw [afterRow, hrun''] at hl'
  subst hl'
  change l = run k.world (rest k 6 1 (okBefore k 6)) [] kids at hl
  rw [hrun'] at hl
  subst hl
  rw [hlife, hrun]
  constructor
  · have hok : (if rowValue k 6 ((endOf k 6).status.getD 0) = 0 then 0 else okBefore k 6) ≠ 0 ↔
        ∀ n < 7, ¬ Counts k n := by
      rw [Nat.forall_lt_succ_right, ← okBefore_ne_zero_iff k h.first, ← rowValue_eq_zero_iff]
      by_cases hv : rowValue k 6 ((endOf k 6).status.getD 0) = 0
      · rw [if_pos hv]
        exact ⟨fun h => absurd rfl h, fun h => absurd hv h.2⟩
      · rw [if_neg hv]
        exact ⟨fun h => ⟨h, hv⟩, And.left⟩
    rw [← hok, ← (hprint.trans (and_iff_left (k.initialLine verdict)))]
    simp [Life.Prints, hevs₀, hevs, hevs']
  · simpa using hds.succ hds'

theorem childKilled_iff {k : Kernel} (h : Rows k 7 k.life.others) {n : Nat} (hn : n < 7) :
    ChildKilled k n ↔ EndedBy n (endOf k n) := by
  constructor
  · rintro ⟨q, hq, hpath, d, hd, hexp⟩
    exact ⟨d, (h.ended q hq n hpath).symm.trans hd, hexp⟩
  · rintro ⟨d, hd, hexp⟩
    obtain ⟨q, hq, hpath, hend⟩ := h.child n hn
    exact ⟨q, hq, hpath, d, hend.trans hd, hexp⟩

theorem counts_iff_of_met {k : Kernel} {n : Nat} (h : RowMet k n (EndedBy n (endOf k n))) :
    Counts k n ↔ FallsThrough k n ∧ missingValue k [] n = 0 := by
  refine ⟨?_, fun h => .inr (.inr h)⟩
  rw [RowMet] at h
  rintro (⟨hend, hflag⟩ | ⟨hend, hflag, hsup⟩ | h)
  · rw [if_pos hflag] at h
    exact absurd hend h
  · rw [if_neg (by rw [hflag]; decide), if_neg (by rw [hflag]; decide)] at h
    exact absurd (h hsup) hend
  · exact h

/-- Where no child gets into the loop, all depends on the values. -/
theorem verdictAndDiscipline_of_keepsOut {k : Kernel} (h : KeepsOut k) :
    VerdictAndDiscipline k ↔ Settled k := by
  obtain ⟨hprint, hrows⟩ := life_of_keepsOut h
  have hmet : (∀ n < 7, RowMet k n (ChildKilled k n)) ↔
      ∀ n < 7, RowMet k n (EndedBy n (endOf k n)) :=
    forall₂_congr fun n hn => by rw [propext (childKilled_iff hrows hn)]
  have hquiet : ∀ q ∈ k.life.others, .printed verdict ∉ q.events ∧
      ∀ i, .turn (some i) ∉ q.events :=
    fun q hq => ⟨fun he => (hrows.kept q hq _ he).1 rfl, fun i he => (hrows.kept q hq _ he).2 i rfl⟩
  rw [VerdictAndDiscipline, Settled, and_iff_left hquiet, and_iff_right h, hprint, hmet]
  by_cases hall : ∀ n < 7, RowMet k n (EndedBy n (endOf k n))
  · have hcounts : (∀ n < 7, ¬ Counts k n) ↔
        ∀ n < 7, FallsThrough k n → missingValue k [] n ≠ 0 :=
      forall₂_congr fun n hn => by rw [counts_iff_of_met (hall n hn), not_and]
    have hno : ¬ ∃ n < 7, ¬ RowMet k n (EndedBy n (endOf k n)) := by
      rintro ⟨n, hn, hmet⟩
      exact hmet (hall n hn)
    rw [iff_true_right hall, hcounts, and_iff_right hall, or_iff_left fun h => hno h.1]
  · have hsome : ∃ n < 7, ¬ RowMet k n (EndedBy n (endOf k n)) := by
      by_contra h
      exact hall fun n hn => by_contra fun hmet => h ⟨n, hn, hmet⟩
    rw [iff_false_right hall, or_iff_right fun h => hall h.1, and_iff_right hsome]
    simp only [not_forall, not_not, exists_prop]

theorem not_verdictAndDiscipline {k : Kernel} (h : ¬ KeepsOut k) : ¬ VerdictAndDiscipline k := by
  intro hk
  by_cases hfirst : ∀ n < 6, afterCheck k n ≠ .back ()
  · -- the child of row 6 is back in `main` and prints the verdict
    have hlast : ¬ (afterCheck k 6 = .back () →
        (∃ n < 6, Counts k n) ∨ missingValue k [6] 6 = 0 ∨ k.signal [6] verdict ≠ none) :=
      fun hlast => h ⟨hfirst, hlast⟩
    rw [Classical.not_imp, ← or_assoc, ← lastOk_eq_zero_iff k hfirst, not_or, not_not] at hlast
    obtain ⟨hback, hok, hsig⟩ := hlast
    obtain ⟨kids, q, hq, hevs⟩ := life_of_back k (by decide) hback hfirst
    obtain ⟨evs, -, hprint, hrun⟩ := run_rest_zero k 7 (lastOk k) [6] kids
    refine (hk.2 q hq).1 (hevs _ ?_)
    show _ ∈ (run k.world (rest k 7 0 (lastOk k)) [6] kids).events
    rw [hrun]
    exact hprint.mpr ⟨hok, hsig⟩
  · -- the first child that is back in `main` takes the next turn
    simp only [not_forall, not_not, exists_prop] at hfirst
    classical
    obtain ⟨hn, hback⟩ := Nat.find_spec hfirst
    obtain ⟨kids, q, hq, hevs⟩ := life_of_back k (by omega) hback fun m hm hb =>
      Nat.find_min hfirst hm ⟨by omega, hb⟩
    refine (hk.2 q hq).2 (Nat.find hfirst + 1) (hevs _ ?_)
    rw [afterRow, show 6 - Nat.find hfirst = 5 - Nat.find hfirst + 1 by omega, rest_succ, run_turn]
    exact List.mem_cons_self

/-- **The verdict and the discipline of `prctl04`** are right exactly when signals keep the
children out of the loop, and the missing values happen to agree with the rows. -/
theorem verdictAndDiscipline_iff (k : Kernel) : VerdictAndDiscipline k ↔ Settled k := by
  by_cases h : KeepsOut k
  · exact verdictAndDiscipline_of_keepsOut h
  · exact iff_of_false (not_verdictAndDiscipline h) fun hk => h hk.1

/-- A call that a seccomp mode does not permit to a child. -/
def endChild (p : Path) (d : Death) : Answer Unit := if p = [] then .val () else .kill d

def byKill : Death := ⟨9, false, by decide⟩

def bySys : Death := ⟨31, true, by decide⟩

/-- A kernel without faults: the strict mode ends a process at each call but `read`, `write` and
`exit`, the filter mode at each call but those in `strict_filter`. -/
def Kernel.faultless : Kernel where
  answer
    | _, .setupGet => .val (0 : Int)
    | _, .setupSet => .val ((-1, 14) : Int × Int)
    | _, .setSeccomp _ => .val (0 : Int)
    | _, .missing _ => .val (1 : Int)
    | p, .fork n => if n < 4 then endChild p byKill else .val ()
    | _, .open _ => .val ()
    | p, .getSeccomp n => endChild p (if n < 3 then byKill else bySys)
    | _, .write _ => .val ()
    | _, .read _ => .val ()
    | p, .close n => if n < 3 then endChild p byKill else .val ()
    | p, .exit _ => endChild p bySys
    | _, .forkInherit _ => .val ()
    | p, .exitInherit _ => endChild p bySys
    | _, .wait4 _ => .val ()
    | p, .mainExit => endChild p bySys
  signal _ _ := none
  initial c := by
    cases c with
    | fork n => by_cases h : n < 4 <;> exact ⟨(), by simp [h, endChild]⟩
    | close n => by_cases h : n < 3 <;> exact ⟨(), by simp [h, endChild]⟩
    | _ => exact ⟨_, rfl⟩
  initialLine _ := rfl
  missing _ _ := ⟨_, rfl⟩
  setupErrno := 0
  errno _ := 0

/-- The child of row 1 may read and write, and gets into the next turn. -/
theorem not_verdictAndDiscipline_faultless : ¬ VerdictAndDiscipline Kernel.faultless :=
  not_verdictAndDiscipline fun h => h.first 1 (by decide) rfl

end Syscalls.Prctl04
