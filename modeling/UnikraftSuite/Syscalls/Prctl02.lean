import UnikraftSuite.Lib.Process

/-!
# `prctl02`

`setup` probes for five features of the kernel, and `verify_prctl` makes a call for each row of
a table that should fail. Both look at `errno` without looking whether the last call has failed,
so it can be that of an earlier call.
-/

namespace Syscalls.Prctl02

open PyStr CStdio Process

/-! ## The program -/

def EPERM : Int := 1

def EACCES : Int := 13

def EFAULT : Int := 14

def EINVAL : Int := 22

/-- The features, in the order in which they are probed. -/
inductive Feature where
  | seccomp
  | nonewprivs
  | thpdisable
  | capambient
  | speculationctrl
  deriving DecidableEq

inductive Call where
  | probe (f : Feature)
  | prctl (n : Nat)
  /-- Not a call: what a caller finds where `verify_prctl(n)` returns no value. -/
  | missing (n : Nat)
  deriving DecidableEq

/-- The return value of `prctl`, and the `errno` it sets if that is -1. -/
structure Result where
  ret : Int
  errno : Int

abbrev Reply : Call → Type
  | .probe _ => Result
  | .prctl _ => Result
  | .missing _ => Int

/-- `errno` after a call. -/
def Result.after (r : Result) (errno : Int) : Int := if r.ret = -1 then r.errno else errno

inductive PrOption where
  | OPTION_INVALID
  | PR_SET_PDEATHSIG
  | PR_SET_DUMPABLE
  | PR_SET_NAME
  | PR_SET_SECCOMP
  | PR_SET_TIMING
  | PR_SET_NO_NEW_PRIVS
  | PR_GET_NO_NEW_PRIVS
  | PR_SET_THP_DISABLE
  | PR_GET_THP_DISABLE
  | PR_CAP_AMBIENT
  | PR_GET_SPECULATION_CTRL
  | PR_SET_SECUREBITS
  | PR_CAPBSET_DROP
  deriving DecidableEq

structure Tcase where
  option : PrOption
  expErrno : Int
  tname : Text

def tcases : Nat → Tcase
  | 0 => ⟨.OPTION_INVALID, EINVAL, "invalid option".toList⟩
  | 1 => ⟨.PR_SET_PDEATHSIG, EINVAL, "PR_SET_PDEATHSIG".toList⟩
  | 2 => ⟨.PR_SET_DUMPABLE, EINVAL, "PR_SET_DUMPABLE".toList⟩
  | 3 => ⟨.PR_SET_NAME, EFAULT, "PR_SET_NAME".toList⟩
  | 4 => ⟨.PR_SET_SECCOMP, EFAULT, "PR_SET_SECCOMP".toList⟩
  | 5 => ⟨.PR_SET_SECCOMP, EACCES, "PR_SET_SECCOMP".toList⟩
  | 6 => ⟨.PR_SET_TIMING, EINVAL, "PR_SET_TIMING".toList⟩
  | 7 => ⟨.PR_SET_NO_NEW_PRIVS, EINVAL, "PR_SET_NO_NEW_PRIVS".toList⟩
  | 8 => ⟨.PR_SET_NO_NEW_PRIVS, EINVAL, "PR_SET_NO_NEW_PRIVS".toList⟩
  | 9 => ⟨.PR_GET_NO_NEW_PRIVS, EINVAL, "PR_GET_NO_NEW_PRIVS".toList⟩
  | 10 => ⟨.PR_SET_THP_DISABLE, EINVAL, "PR_SET_THP_DISABLE".toList⟩
  | 11 => ⟨.PR_GET_THP_DISABLE, EINVAL, "PR_GET_THP_DISABLE".toList⟩
  | 12 => ⟨.PR_CAP_AMBIENT, EINVAL, "PR_CAP_AMBIENT".toList⟩
  | 13 => ⟨.PR_CAP_AMBIENT, EINVAL, "PR_CAP_AMBIENT".toList⟩
  | 14 => ⟨.PR_CAP_AMBIENT, EINVAL, "PR_CAP_AMBIENT".toList⟩
  | 15 => ⟨.PR_GET_SPECULATION_CTRL, EINVAL, "PR_GET_SPECULATION_CTRL".toList⟩
  | 16 => ⟨.PR_SET_SECUREBITS, EPERM, "PR_SET_SECUREBITS".toList⟩
  | _ => ⟨.PR_CAPBSET_DROP, EPERM, "PR_CAPBSET_DROP".toList⟩

/-- The feature an option belongs to: the `switch` of `verify_prctl`. -/
def PrOption.feature : PrOption → Option Feature
  | .PR_SET_SECCOMP => some .seccomp
  | .PR_GET_NO_NEW_PRIVS => some .nonewprivs
  | .PR_SET_NO_NEW_PRIVS => some .nonewprivs
  | .PR_SET_THP_DISABLE => some .thpdisable
  | .PR_GET_THP_DISABLE => some .thpdisable
  | .PR_CAP_AMBIENT => some .capambient
  | .PR_GET_SPECULATION_CTRL => some .speculationctrl
  | _ => none

/-- The `*_nsup` flags. -/
abbrev Nsup := Feature → Bool

def unsupString : Text := "prctl() doesn't support this option, skip it".toList

/-- The switch leaves `verify_prctl` for an option that is not supported. -/
def skips (nsup : Nsup) (option : PrOption) : Bool := option.feature.any nsup

/-- `verify_prctl(n)`, with the `errno` it leaves behind. Behind the last two lines no value is
returned. -/
def verifyPrctl (nsup : Nsup) (n : Nat) (errno : Int) : Proc Call Reply (Int × Int) := do
  let tc := tcases n
  printf ("[I] Test #".toList ++ (str n ++ ": ".toList ++ tc.tname ++ "\n".toList))
  if skips nsup tc.option then do
    printf (unsupString ++ "\n".toList)
    return (0, errno)
  else do
    let r : Result ← call (Call.prctl n)
    let errno := r.after errno
    if r.ret = 0 then do
      printf "prctl() succeeded unexpectedly\n".toList
      return (0, errno)
    else if tc.expErrno = errno then do
      printf "prctl() failed as expected\n".toList
      return (1, errno)
    else do
      printf (if tc.option = .PR_SET_SECCOMP ∧ errno = EINVAL then
          "current system was not built with CONFIG_SECCOMP_FILTER.\n".toList
        else "prctl() failed unexpectedly, expected ".toList ++ (str tc.expErrno ++ ", got ".toList
          ++ str errno ++ "\n".toList))
      let v : Int ← call (Call.missing n)
      return (v, errno)

/-- A probe of `setup`: the call, and the flag set if `errno` is `EINVAL`. -/
def probe (f : Feature) (s : Nsup × Int) : Proc Call Reply (Nsup × Int) := do
  let r : Result ← call (Call.probe f)
  let errno := r.after s.2
  return (if errno = EINVAL then fun g => s.1 g || decide (g = f) else s.1, errno)

/-- `setup()`: the flags, and the `errno` it leaves behind. -/
def setup : Proc Call Reply (Nsup × Int) := do
  let s ← probe .seccomp (fun _ => false, 0)
  let s ← probe .nonewprivs s
  let s ← probe .thpdisable s
  let s ← probe .capambient s
  probe .speculationctrl s

def verdict : Text := "test succeeded\n".toList

/-- A turn of the loop in `main`: `ok` and `errno`. -/
def mainTurn (nsup : Nsup) (i : Nat) (s : Int × Int) : Proc Call Reply (Int × Int) := do
  let (v, errno) ← verifyPrctl nsup i s.2
  return (if v = 0 then 0 else s.1, errno)

def main : Proc Call Reply Unit := do
  let (nsup, errno) ← setup
  let (ok, _) ← loop (mainTurn nsup) 0 18 (1, errno)
  if ok ≠ 0 then printf verdict else return ()

/-! ## Runs -/

/-- The results of all calls, and the values that are missing. -/
structure Kernel where
  probe : Feature → Result
  prctl : Nat → Result
  missing : Nat → Int

def Kernel.world (k : Kernel) : World Call Reply where
  answer
    | _, .probe f => .val (k.probe f)
    | _, .prctl n => .val (k.prctl n)
    | _, .missing n => .val (k.missing n)
  signal _ _ := none
  image _ _ := .ends (.exited 0)

def Kernel.life (k : Kernel) : Life Call := run k.world main [] []

/-- The probe of the feature returns -1 with `EINVAL`. -/
def Unsupported (k : Kernel) (f : Feature) : Prop :=
  (k.probe f).ret = -1 ∧ (k.probe f).errno = EINVAL

/-- The feature of row `n`, if it has one, is supported. -/
def Supported (k : Kernel) (n : Nat) : Prop :=
  ∀ f, (tcases n).option.feature = some f → ¬ Unsupported k f

/-- Row `n` fails with its `errno`. -/
def RowMet (k : Kernel) (n : Nat) : Prop :=
  (k.prctl n).ret = -1 ∧ (k.prctl n).errno = (tcases n).expErrno

/-- `setup` sets the flags of the features that are not supported. -/
def FlagsRight (k : Kernel) : Prop :=
  ∃ nsup errno, outcome k.world [] setup = .back (nsup, errno) ∧
    ∀ f, nsup f = true ↔ Unsupported k f

/-- The flags are right, and the verdict is printed if and only if every supported row is
met. -/
def ProbesAndVerdict (k : Kernel) : Prop :=
  FlagsRight k ∧ (k.life.Prints verdict ↔ ∀ n < 18, Supported k n → RowMet k n)

/-! ## The probes -/

/-- `errno` behind the probe of a feature. -/
def probeErrno (k : Kernel) : Feature → Int
  | .seccomp => (k.probe .seccomp).after 0
  | .nonewprivs => (k.probe .nonewprivs).after ((k.probe .seccomp).after 0)
  | .thpdisable => (k.probe .thpdisable).after ((k.probe .nonewprivs).after
      ((k.probe .seccomp).after 0))
  | .capambient => (k.probe .capambient).after ((k.probe .thpdisable).after
      ((k.probe .nonewprivs).after ((k.probe .seccomp).after 0)))
  | .speculationctrl => (k.probe .speculationctrl).after ((k.probe .capambient).after
      ((k.probe .thpdisable).after ((k.probe .nonewprivs).after ((k.probe .seccomp).after 0))))

/-- The flags that `setup` sets. -/
def nsup (k : Kernel) : Nsup := fun f => probeErrno k f = EINVAL

theorem nsup_eq_true {k : Kernel} {f : Feature} : nsup k f = true ↔ probeErrno k f = EINVAL :=
  decide_eq_true_iff

theorem outcome_probe (k : Kernel) (f : Feature) (s : Nsup × Int) :
    outcome k.world [] (probe f s) =
      .back (fun g => s.1 g || decide ((k.probe f).after s.2 = EINVAL ∧ g = f),
        (k.probe f).after s.2) := by
  have hprobe : outcome k.world [] (probe f s) = .back (if (k.probe f).after s.2 = EINVAL
      then fun g => s.1 g || decide (g = f) else s.1, (k.probe f).after s.2) := rfl
  rw [hprobe]
  by_cases h : (k.probe f).after s.2 = EINVAL <;> simp [h]

theorem outcome_setup (k : Kernel) :
    outcome k.world [] setup = .back (nsup k, probeErrno k .speculationctrl) := by
  rw [setup, outcome_bind _ _ (outcome_probe k .seccomp _),
    outcome_bind _ _ (outcome_probe k .nonewprivs _),
    outcome_bind _ _ (outcome_probe k .thpdisable _),
    outcome_bind _ _ (outcome_probe k .capambient _), outcome_probe]
  refine congrArg Outcome.back (Prod.ext (funext fun f => ?_) rfl)
  rw [Bool.eq_iff_iff, nsup_eq_true]
  cases f <;> simp [probeErrno]

/-- The feature probed next. -/
def Feature.next : Feature → Option Feature
  | .seccomp => some .nonewprivs
  | .nonewprivs => some .thpdisable
  | .thpdisable => some .capambient
  | .capambient => some .speculationctrl
  | .speculationctrl => none

/-- After a feature that is not supported the next probe fails as well. -/
def InOrder (k : Kernel) : Prop :=
  ∀ f g, f.next = some g → Unsupported k f → (k.probe g).ret = -1

theorem after_eq_einval (r : Result) (errno : Int) : r.after errno = EINVAL ↔
    (r.ret = -1 ∧ r.errno = EINVAL) ∨ (r.ret ≠ -1 ∧ errno = EINVAL) := by
  rw [Result.after]
  by_cases h : r.ret = -1 <;> simp [h]

/-- The flag of the feature probed after `f`. -/
theorem probeErrno_next {k : Kernel} {f g : Feature} (h : f.next = some g) :
    probeErrno k g = (k.probe g).after (probeErrno k f) := by
  cases f <;> cases h <;> rfl

/-- In the order of the probes: no `errno` of an earlier one is left to be looked at. -/
theorem probeErrno_iff {k : Kernel} (h : InOrder k) (f : Feature) :
    probeErrno k f = EINVAL ↔ Unsupported k f := by
  have hstep : ∀ f g, f.next = some g → (probeErrno k f = EINVAL ↔ Unsupported k f) →
      (probeErrno k g = EINVAL ↔ Unsupported k g) := by
    intro f g hnext hf
    rw [probeErrno_next hnext, after_eq_einval]
    exact or_iff_left fun hstale => hstale.1 (h f g hnext (hf.mp hstale.2))
  have hfirst : probeErrno k .seccomp = EINVAL ↔ Unsupported k .seccomp := by
    rw [probeErrno, after_eq_einval]
    exact or_iff_left fun hstale => absurd hstale.2 (by decide)
  have h1 := hstep .seccomp .nonewprivs rfl hfirst
  have h2 := hstep .nonewprivs .thpdisable rfl h1
  have h3 := hstep .thpdisable .capambient rfl h2
  have h4 := hstep .capambient .speculationctrl rfl h3
  cases f with
  | seccomp => exact hfirst
  | nonewprivs => exact h1
  | thpdisable => exact h2
  | capambient => exact h3
  | speculationctrl => exact h4

theorem flagsRight_iff (k : Kernel) : FlagsRight k ↔ InOrder k := by
  constructor
  · rintro ⟨flags, errno, hout, hflags⟩ f g hnext hf
    rw [outcome_setup] at hout
    obtain ⟨rfl, -⟩ := Prod.mk.inj (Outcome.back.inj hout)
    by_contra hret
    have hstale : probeErrno k g = EINVAL := by
      rw [probeErrno_next hnext, after_eq_einval]
      exact .inr ⟨hret, nsup_eq_true.mp ((hflags f).mpr hf)⟩
    exact hret ((hflags g).mp (nsup_eq_true.mpr hstale)).1
  · exact fun h => ⟨_, _, outcome_setup k, fun f => nsup_eq_true.trans (probeErrno_iff h f)⟩

/-! ## The rows -/

/-- What `verify_prctl(i)` returns, called with this `errno`. -/
def rowValue (k : Kernel) (i : Nat) (errno : Int) : Int :=
  if skips (nsup k) (tcases i).option then 0
  else if (k.prctl i).ret = 0 then 0
  else if (tcases i).expErrno = (k.prctl i).after errno then 1
  else k.missing i

/-- The `errno` that it leaves behind. -/
def rowErrno (k : Kernel) (i : Nat) (errno : Int) : Int :=
  if skips (nsup k) (tcases i).option then errno else (k.prctl i).after errno

section Outcome

variable {α : Type} (k : Kernel)

theorem outcome_print (x : Text) (f : Proc Call Reply α) :
    outcome k.world [] (.print x f) = outcome k.world [] f := rfl

theorem outcome_prctl (n : Nat) (f : Result → Proc Call Reply α) :
    outcome k.world [] (.call (Call.prctl n) f) = outcome k.world [] (f (k.prctl n)) := rfl

theorem outcome_missing (n : Nat) (f : Int → Proc Call Reply α) :
    outcome k.world [] (.call (Call.missing n) f) = outcome k.world [] (f (k.missing n)) := rfl

theorem outcome_pure (a : α) : outcome k.world [] (pure a : Proc Call Reply α) = .back a := rfl

end Outcome

theorem outcome_verifyPrctl (k : Kernel) (i : Nat) (errno : Int) :
    outcome k.world [] (verifyPrctl (nsup k) i errno) =
      .back (rowValue k i errno, rowErrno k i errno) := by
  rw [verifyPrctl, rowValue, rowErrno, printf_bind, outcome_print]
  by_cases hskip : skips (nsup k) (tcases i).option
  · simp only [hskip, if_true]
    rw [printf_bind, outcome_print, outcome_pure]
  · simp only [hskip, Bool.false_eq_true, if_false]
    rw [call_bind, outcome_prctl]
    by_cases hzero : (k.prctl i).ret = 0
    · rw [if_pos hzero, if_pos hzero, printf_bind, outcome_print, outcome_pure]
    · rw [if_neg hzero, if_neg hzero]
      by_cases hexp : (tcases i).expErrno = (k.prctl i).after errno
      · rw [if_pos hexp, if_pos hexp, printf_bind, outcome_print, outcome_pure]
      · rw [if_neg hexp, if_neg hexp, printf_bind, outcome_print, call_bind, outcome_missing,
          outcome_pure]

/-- `ok` and `errno` after row `i`. -/
def rowTurn (k : Kernel) (i : Nat) (s : Int × Int) : Int × Int :=
  (if rowValue k i s.2 = 0 then 0 else s.1, rowErrno k i s.2)

theorem outcome_mainTurn (k : Kernel) (i : Nat) (s : Int × Int) :
    outcome k.world [] (mainTurn (nsup k) i s) = .back (rowTurn k i s) := by
  rw [mainTurn, outcome_bind _ _ (outcome_verifyPrctl k i s.2)]
  rfl

/-- `errno` in front of row `i`. -/
def errnoAt (k : Kernel) : Nat → Int
  | 0 => probeErrno k .speculationctrl
  | i + 1 => rowErrno k i (errnoAt k i)

/-- A row that returns 0 clears `ok` for good. -/
theorem turns_ok (k : Kernel) (n : Nat) : ∀ (i : Nat) (ok : Int),
    (turns (rowTurn k) i n (ok, errnoAt k i)).1 ≠ 0 ↔
      ok ≠ 0 ∧ ∀ j, i ≤ j → j < i + n → rowValue k j (errnoAt k j) ≠ 0 := by
  induction n with
  | zero =>
    intro i ok
    exact ⟨fun h => ⟨h, fun j hj hlt => by omega⟩, And.left⟩
  | succ n ih =>
    intro i ok
    refine (ih (i + 1) _).trans ⟨fun ⟨hok, hrows⟩ => ?_, fun ⟨hok, hrows⟩ => ?_⟩
    · have hi : rowValue k i (errnoAt k i) ≠ 0 := fun h => hok (if_pos h)
      refine ⟨fun h => hok ?_, fun j hj hlt => ?_⟩
      · simp [h]
      · rcases Nat.eq_or_lt_of_le hj with rfl | hj
        · exact hi
        · exact hrows j hj (by omega)
    · refine ⟨?_, fun j hj hlt => hrows j (by omega) (by omega)⟩
      rw [if_neg (hrows i (by omega) (by omega))]
      exact hok

/-- No line printed for a row is the verdict. -/
theorem verifyPrctl_plain (nsup : Nsup) (i : Nat) (errno : Int) :
    (verifyPrctl nsup i errno).Plain (· ≠ .printed verdict) := by
  have hline : ∀ {x : Text}, apart verdict x → (.printed x : Event Call) ≠ .printed verdict :=
    fun h => (Event.Aside.line h).1
  refine ⟨?_, ?_⟩
  · simp only [List.append_assoc]
    exact hline (apart_append (by decide) _)
  · split
    · exact ⟨hline (apart_append (by decide) _), trivial⟩
    · refine ⟨nofun, fun r => ?_⟩
      refine Proc.Plain.ite ?_ ?_
      · exact ⟨hline (by decide), trivial⟩
      · refine Proc.Plain.ite ?_ ?_
        · exact ⟨hline (by decide), trivial⟩
        · refine ⟨?_, nofun, fun v => trivial⟩
          split
          · exact hline (by decide)
          · simp only [List.append_assoc]
            exact hline (apart_append (by decide) _)

theorem mainTurn_plain (nsup : Nsup) (i : Nat) (s : Int × Int) :
    (mainTurn nsup i s).Plain (· ≠ .printed verdict) :=
  (verifyPrctl_plain nsup i s.2).bind fun _ => trivial

theorem probe_plain (f : Feature) (s : Nsup × Int) :
    (probe f s).Plain (· ≠ .printed verdict) := ⟨nofun, fun _ => trivial⟩

theorem setup_plain : setup.Plain (· ≠ .printed verdict) :=
  (probe_plain _ _).bind fun _ => (probe_plain _ _).bind fun _ => (probe_plain _ _).bind fun _ =>
    (probe_plain _ _).bind fun _ => probe_plain _ _

/-- What `main` does with `ok`. -/
theorem prints_finish (k : Kernel) (ok : Int) (kids : List Ended) :
    (run k.world (if ok ≠ 0 then printf verdict else return ()) [] kids).Prints verdict ↔
      ok ≠ 0 := by
  by_cases hok : ok ≠ 0
  · rw [if_pos hok]
    exact iff_of_true List.mem_cons_self hok
  · rw [if_neg hok]
    exact iff_of_false (fun h => by cases h) hok

/-- **The verdict** is printed when no row returns 0. -/
theorem prints_iff (k : Kernel) :
    k.life.Prints verdict ↔ ∀ n < 18, rowValue k n (errnoAt k n) ≠ 0 := by
  have hplain : (loop (mainTurn (nsup k)) 0 18 (1, errnoAt k 0)).Plain (· ≠ .printed verdict) :=
    loop_plain (by simp) 18 0 _ fun j _ s => mainTurn_plain (nsup k) j s
  have hout := outcome_loop k.world [] 18 0 (1, errnoAt k 0) fun j _ s => outcome_mainTurn k j s
  rw [Kernel.life, main, setup_plain.prints_bind (outcome_setup k)]
  refine (hplain.prints_bind hout _ []).trans ((prints_finish k _ []).trans ?_)
  refine (turns_ok k 18 0 1).trans ⟨fun h n hn => h.2 n (Nat.zero_le n) (by omega), fun h => ?_⟩
  exact ⟨by decide, fun j _ hlt => h j (by omega)⟩

/-! ## The condition -/

/-- `errno` in front of row `n`, if no row is skipped: that of the last failed call. -/
def lastErrno (k : Kernel) : Nat → Int
  | 0 => probeErrno k .speculationctrl
  | n + 1 => (k.prctl n).after (lastErrno k n)

/-- Row `n` succeeds, or it falls off `verify_prctl` and a 0 is found. -/
def ReturnsZero (k : Kernel) (n : Nat) : Prop :=
  (k.prctl n).ret = 0 ∨
    ((k.prctl n).after (lastErrno k n) ≠ (tcases n).expErrno ∧ k.missing n = 0)

theorem skips_iff {k : Kernel} (h : InOrder k) (n : Nat) :
    skips (nsup k) (tcases n).option = true ↔ ¬ Supported k n := by
  have hflags : ∀ f, nsup k f = true ↔ Unsupported k f := fun f =>
    nsup_eq_true.trans ((probeErrno_iff h) f)
  rw [skips, Supported]
  cases (tcases n).option.feature with
  | none => simp
  | some f => simp [hflags]

theorem rowValue_skipped {k : Kernel} (h : InOrder k) {n : Nat} (hn : ¬ Supported k n)
    (errno : Int) : rowValue k n errno = 0 := if_pos ((skips_iff h n).mpr hn)

theorem errnoAt_eq {k : Kernel} (h : InOrder k) (hall : ∀ n < 18, Supported k n) :
    ∀ n ≤ 18, errnoAt k n = lastErrno k n := by
  intro n
  induction n with
  | zero => exact fun _ => rfl
  | succ n ih =>
    intro hn
    rw [errnoAt, rowErrno, if_neg fun hskip => (skips_iff h n).mp hskip (hall n (by omega)),
      ih (by omega), lastErrno]

theorem rowValue_eq_zero {k : Kernel} (h : InOrder k) (hall : ∀ n < 18, Supported k n) {n : Nat}
    (hn : n < 18) : rowValue k n (errnoAt k n) = 0 ↔ ReturnsZero k n := by
  rw [rowValue, if_neg fun hskip => (skips_iff h n).mp hskip (hall n hn),
    errnoAt_eq h hall n (by omega), ReturnsZero]
  by_cases hzero : (k.prctl n).ret = 0
  · simp [hzero]
  · rw [if_neg hzero]
    by_cases hexp : (tcases n).expErrno = (k.prctl n).after (lastErrno k n)
    · simp [hzero, hexp]
    · simp [hzero, hexp, Ne.symm hexp]

theorem not_returnsZero_of_met {k : Kernel} {n : Nat} (hn : RowMet k n) : ¬ ReturnsZero k n := by
  rintro (hzero | ⟨hexp, -⟩)
  · rw [hn.1] at hzero
    cases hzero
  · exact hexp (by rw [Result.after, if_pos hn.1, hn.2])

/-- **The flags and the verdict of `prctl02` are right** exactly when no probe succeeds behind
one that finds its feature unsupported, and either a row is skipped and one that is not has
failed its check, or no row is skipped, and all pass or one returns 0. -/
theorem probesAndVerdict_iff (k : Kernel) : ProbesAndVerdict k ↔ InOrder k ∧
    (((∃ n < 18, ¬ Supported k n) ∧ ∃ n < 18, Supported k n ∧ ¬ RowMet k n) ∨
      ((∀ n < 18, Supported k n) ∧ ((∀ n < 18, RowMet k n) ∨ ∃ n < 18, ReturnsZero k n))) := by
  rw [ProbesAndVerdict, flagsRight_iff, prints_iff]
  refine and_congr_right fun horder => ?_
  by_cases hall : ∀ n < 18, Supported k n
  · have hprints : (∀ n < 18, rowValue k n (errnoAt k n) ≠ 0) ↔ ∀ n < 18, ¬ ReturnsZero k n :=
      forall₂_congr fun n hn => not_congr (rowValue_eq_zero horder hall hn)
    have hmet : (∀ n < 18, Supported k n → RowMet k n) ↔ ∀ n < 18, RowMet k n :=
      forall₂_congr fun n hn => ⟨fun h => h (hall n hn), fun h _ => h⟩
    rw [hprints, hmet, or_iff_right fun h => h.1.elim fun n hn => hn.2 (hall n hn.1),
      and_iff_right hall]
    constructor
    · intro h
      by_cases hzero : ∃ n < 18, ReturnsZero k n
      · exact .inr hzero
      · exact .inl (h.mp fun n hn hz => hzero ⟨n, hn, hz⟩)
    · rintro (h | ⟨n, hn, hz⟩)
      · exact iff_of_true (fun n hn => not_returnsZero_of_met (h n hn)) h
      · exact iff_of_false (fun h => h n hn hz) fun h => not_returnsZero_of_met (h n hn) hz
  · obtain ⟨m, hm, hskip⟩ : ∃ m < 18, ¬ Supported k m := by
      simpa only [not_forall, exists_prop] using hall
    have hnone : ¬ ∀ n < 18, rowValue k n (errnoAt k n) ≠ 0 :=
      fun h => h m hm (rowValue_skipped horder hskip _)
    rw [iff_false_left hnone, or_iff_left fun h => hall h.1, and_iff_right ⟨m, hm, hskip⟩]
    simp only [not_forall, exists_prop]

/-- Seccomp is not supported, all other features are, and all other rows are met. -/
def Kernel.noSeccomp : Kernel where
  probe f := if f = .seccomp then ⟨-1, EINVAL⟩ else ⟨0, 0⟩
  prctl n := ⟨-1, (tcases n).expErrno⟩
  missing _ := 1

example : nsup Kernel.noSeccomp .nonewprivs = true := by decide

theorem not_probesAndVerdict_noSeccomp : ¬ ProbesAndVerdict Kernel.noSeccomp := by
  rw [ProbesAndVerdict, flagsRight_iff]
  intro h
  have hret := h.1 .seccomp .nonewprivs rfl ⟨rfl, rfl⟩
  exact absurd hret (by decide)

end Syscalls.Prctl02
