import UnikraftSuite.Lib.Process

/-!
# `execve05`

`execve05` forks `nchild` children, each of which executes the program `execve_child`. A
child whose `execve` fails clears its own copy of `ok` and goes on in the loop of its parent,
forking children itself; the parent waits for nobody and its `ok` is never cleared.
-/

namespace Syscalls.Execve05

open PyStr CStdio Process

/-! ## The programs -/

/-- The call made by the child of turn `i`. -/
inductive Call where
  | execve (i : Nat)
  deriving DecidableEq

/-- `none` if `execve` succeeds, else `errno`. -/
abbrev Reply : Call → Type := fun _ => Option Int

def TEST_APP : Text := "execve_child".toList

def doChild (i : Nat) : Proc Call Reply Unit := do
  match ← call (Call.execve i) with
  | none => exec [TEST_APP, "canary".toList]
  | some errno =>
    printf ("execve() returned unexpected errno: ".toList ++ (str errno ++ "\n".toList))

/-- A turn of the loop in `verify_execve`. -/
def verifyTurn (i : Nat) (ok : Int) : Proc Call Reply Int := do
  match ← fork with
  | none => do
    doChild i
    return 0
  | some _ => return ok

def verdict : Text := "test succeeded\n".toList

/-- What is left of `verify_execve` behind the loop. -/
def finish (ok : Int) : Proc Call Reply Unit :=
  if ok ≠ 0 then do
    printf verdict
    exit 0
  else return ()

def main (nchild : Nat) : Proc Call Reply Unit := do
  let ok ← loop verifyTurn 0 nchild 1
  finish ok

/-- The lines printed by `execve_child`. -/
def execveChild (argv : List Text) : List Text :=
  if argv[1]? = some "canary".toList then
    ["argv[1] is canary, expected 'canary'\ntest succeeded\n".toList]
  else [argv.headD "(null)".toList ++ " shouldn't be executed\n".toList]

/-! ## Runs -/

/-- The number of children, the outcome of each `execve`, and what the program found under
the name `execve_child` prints. -/
structure Kernel where
  nchild : Nat
  execve : Path → Nat → Option Int
  app : List Text → List Text

def Kernel.world (k : Kernel) : World Call Reply where
  answer := fun p (.execve i) => .val (k.execve p i)
  signal _ _ := none
  image _ argv := ⟨(k.app argv).map .printed, .exited 0, []⟩

/-- The initial process and all that it forks. -/
def Kernel.life (k : Kernel) : Life Call := run k.world (main k.nchild) [] []

/-- In all that is printed, the words stand that `brain.py` looks for. -/
def Says (evs : List (Event Call)) : Prop :=
  "test succeeded".toList <:+: evs.flatMap Event.text

/-- How many processes are forked. -/
def forks (evs : List (Event Call)) : Nat :=
  evs.countP fun
    | .forked _ => true
    | _ => false

/-- Every `execve` made by one of the children succeeds. -/
def AllExec (k : Kernel) : Prop :=
  ∀ q ∈ k.life.others, ∀ i, .called (.execve i) ∈ q.events → k.execve q.path i = none

/-- Only the initial process forks, `nchild` times, and the verdict is printed if and only if
every `execve` succeeds, and by the initial process only. -/
structure CountAndVerdict (k : Kernel) : Prop where
  count : forks k.life.events = k.nchild
  initial : ∀ q ∈ k.life.others, forks q.events = 0
  verdict : (Says k.life.events ∨ ∃ q ∈ k.life.others, Says q.events) ↔ AllExec k
  quiet : ∀ q ∈ k.life.others, ¬ Says q.events

/-! ## One turn -/

/-- What is left of the program in front of turn `i`, with `n` turns to go. -/
def rest (i n : Nat) (ok : Int) : Proc Call Reply Unit := loop verifyTurn i n ok >>= finish

/-- The life of the child of turn `i`. -/
def childLife (k : Kernel) (p : Path) (i n : Nat) : Life Call :=
  run k.world (doChild i >>= fun _ => rest (i + 1) n 0) p []

theorem run_rest_zero (k : Kernel) (i : Nat) (ok : Int) (p : Path) (kids : List Ended) :
    run k.world (rest i 0 ok) p kids =
      ⟨.turn none :: if ok ≠ 0 then [.printed verdict] else [], .exited 0, []⟩ := by
  rw [rest, loop, Proc.turn_bind, run_turn, ret_bind, finish]
  split
  · rfl
  · rfl

/-- One turn: the parent goes on with the same `ok`. -/
theorem run_rest_succ (k : Kernel) (i n : Nat) (ok : Int) (p : Path) (kids : List Ended) :
    run k.world (rest i (n + 1) ok) p kids =
      ((run k.world (rest (i + 1) n ok) p
          (kids ++ [(childLife k (p ++ [kids.length]) i n).ended])).withChild kids.length
        (p ++ [kids.length]) (childLife k (p ++ [kids.length]) i n)).after (.turn (some i)) := by
  rw [rest, loop, Proc.turn_bind, run_turn, bind_assoc, verifyTurn, fork_bind, Proc.fork_bind,
    run_fork]
  simp only [bind_assoc, pure_bind]
  rfl

/-- A child whose `execve` succeeds is another program from then on. -/
theorem childLife_of_exec {k : Kernel} {p : Path} {i : Nat} (h : k.execve p i = none) (n : Nat) :
    childLife k p i n = ⟨.called (.execve i) :: .execed [TEST_APP, "canary".toList] ::
      (k.app [TEST_APP, "canary".toList]).map .printed, .exited 0, []⟩ := by
  rw [childLife, doChild, call_bind, Proc.call_bind, run_call (r := none) (congrArg _ h)]
  rfl

/-- A child whose `execve` fails goes on with the turns of its parent. -/
theorem childLife_of_fail {k : Kernel} {p : Path} {i : Nat} {errno : Int}
    (h : k.execve p i = some errno) (n : Nat) : childLife k p i n =
      ((run k.world (rest (i + 1) n 0) p []).after (.printed
        ("execve() returned unexpected errno: ".toList ++ (str errno ++ "\n".toList)))).after
          (.called (.execve i)) := by
  rw [childLife, doChild, call_bind, Proc.call_bind, run_call (congrArg _ h)]
  rfl

/-! ## All turns -/

theorem forks_rest (k : Kernel) (ok : Int) (p : Path) (n : Nat) : ∀ (i : Nat) (kids : List Ended),
    forks (run k.world (rest i n ok) p kids).events = n := by
  induction n with
  | zero =>
    intro i kids
    rw [run_rest_zero]
    split
    · rfl
    · rfl
  | succ n ih =>
    intro i kids
    have h := ih (i + 1) (kids ++ [(childLife k (p ++ [kids.length]) i n).ended])
    rw [forks] at h
    rw [run_rest_succ, forks, Life.after_events, Life.withChild_events, List.countP_cons,
      List.countP_cons, h]
    rfl

/-- The verdict of a process depends on its own `ok` only. -/
theorem printed_rest (k : Kernel) {ok : Int} (hok : ok ≠ 0) (p : Path) (n : Nat) :
    ∀ (i : Nat) (kids : List Ended),
      .printed verdict ∈ (run k.world (rest i n ok) p kids).events := by
  induction n with
  | zero =>
    intro i kids
    rw [run_rest_zero, if_pos hok]
    simp
  | succ n ih =>
    intro i kids
    rw [run_rest_succ]
    exact List.mem_cons_of_mem _ (List.mem_cons_of_mem _ (ih (i + 1) _))

/-- Each turn leaves a child among the descendants. -/
theorem childLife_mem_others (k : Kernel) (ok : Int) (p : Path) (n : Nat) :
    ∀ (i : Nat) (kids : List Ended), ∀ j < n, ∃ m,
      ⟨p ++ [kids.length + j], (childLife k (p ++ [kids.length + j]) (i + j) m).events,
        (childLife k (p ++ [kids.length + j]) (i + j) m).ended⟩ ∈
          (run k.world (rest i n ok) p kids).others := by
  induction n with
  | zero => exact fun i kids j hj => absurd hj (by omega)
  | succ n ih =>
    intro i kids j hj
    rw [run_rest_succ, Life.after_others, Life.withChild_others]
    cases j with
    | zero => exact ⟨n, List.mem_cons_self⟩
    | succ j =>
      obtain ⟨m, hm⟩ := ih (i + 1) (kids ++ [(childLife k (p ++ [kids.length]) i n).ended]) j
        (by omega)
      rw [List.length_append, List.length_singleton, show i + 1 + j = i + (j + 1) by omega,
        show kids.length + 1 + j = kids.length + (j + 1) by omega] at hm
      exact ⟨m, List.mem_cons_of_mem _ (List.mem_append_right _ hm)⟩

/-- Where every `execve` succeeds the descendants are the children. -/
theorem others_rest_of_exec {k : Kernel} (ok : Int) (p : Path) (n : Nat) :
    ∀ (i : Nat) (kids : List Ended),
      (∀ j < n, k.execve (p ++ [kids.length + j]) (i + j) = none) →
      ∀ q ∈ (run k.world (rest i n ok) p kids).others, ∃ j < n,
        q.path = p ++ [kids.length + j] ∧ q.events =
          .called (.execve (i + j)) :: .execed [TEST_APP, "canary".toList] ::
            (k.app [TEST_APP, "canary".toList]).map .printed := by
  induction n with
  | zero =>
    intro i kids _ q hq
    rw [run_rest_zero] at hq
    cases hq
  | succ n ih =>
    intro i kids h q hq
    have hchild := childLife_of_exec (h 0 (by omega)) n
    rw [Nat.add_zero, Nat.add_zero] at hchild
    rw [run_rest_succ, Life.after_others, Life.withChild_others, hchild] at hq
    rcases List.mem_cons.mp hq with rfl | hq
    · exact ⟨0, by omega, rfl, rfl⟩
    · obtain ⟨j, hj, hpath, hevs⟩ := ih (i + 1) _ (fun j hj => by
        have := h (j + 1) (by omega)
        rwa [List.length_append, List.length_singleton, show i + 1 + j = i + (j + 1) by omega,
          show kids.length + 1 + j = kids.length + (j + 1) by omega]) q hq
      refine ⟨j + 1, by omega, ?_, ?_⟩
      · rw [hpath, List.length_append, List.length_singleton, Nat.add_assoc, Nat.add_comm 1 j]
      · rw [hevs, Nat.add_assoc, Nat.add_comm 1 j]

/-- **Where every `execve` fails** the turns multiply the processes: `2 ^ nchild` in all. -/
theorem others_rest_of_fail {k : Kernel} (h : ∀ p i, k.execve p i ≠ none) (n : Nat) :
    ∀ (ok : Int) (p : Path) (i : Nat) (kids : List Ended),
      (run k.world (rest i n ok) p kids).others.length + 1 = 2 ^ n := by
  induction n with
  | zero =>
    intro ok p i kids
    rw [run_rest_zero]
    rfl
  | succ n ih =>
    intro ok p i kids
    obtain ⟨errno, herrno⟩ := Option.ne_none_iff_exists'.mp (h (p ++ [kids.length]) i)
    have hchild := ih 0 (p ++ [kids.length]) (i + 1) []
    have hparent := ih ok p (i + 1)
      (kids ++ [(childLife k (p ++ [kids.length]) i n).ended])
    rw [run_rest_succ, Life.after_others, Life.withChild_others, List.length_cons,
      List.length_append, childLife_of_fail herrno, Life.after_others, Life.after_others]
    rw [childLife_of_fail herrno] at hparent
    rw [Nat.pow_succ]
    omega

/-! ## The verdict -/

/-- Every child executes a program that does not print the verdict itself. -/
def AllSilent (k : Kernel) : Prop :=
  (∀ i < k.nchild, k.execve [i] i = none) ∧
    ¬ "test succeeded".toList <:+: (k.app [TEST_APP, "canary".toList]).flatten

theorem life_eq (k : Kernel) : k.life = run k.world (rest 0 k.nchild 1) [] [] := rfl

/-- Of its own, the initial process prints the verdict in every case. -/
theorem says_life (k : Kernel) : Says k.life.events := by
  have hwords : "test succeeded".toList <:+: verdict := by decide
  have hprinted : .printed verdict ∈ k.life.events :=
    printed_rest k (by decide) [] k.nchild 0 []
  exact hwords.trans (List.infix_of_mem_flatten (List.mem_map.mpr ⟨_, hprinted, rfl⟩))

/-- What a child says that has become the other program. -/
theorem says_executed (i : Nat) (argv : List Text) (xs : List Text) :
    Says (.called (.execve i) :: .execed argv :: xs.map .printed)
      ↔ "test succeeded".toList <:+: xs.flatten := by
  rw [Says, List.flatMap_cons, List.flatMap_cons, Event.flatMap_text_printed]
  exact .rfl

theorem not_countAndVerdict {k : Kernel} (h0 : k.nchild ≠ 0) (h : ¬ AllSilent k) :
    ¬ CountAndVerdict k := by
  intro hk
  have hall : AllExec k := hk.verdict.mp (.inl (says_life k))
  have hexec : ∀ i < k.nchild, k.execve [i] i = none := by
    intro i hi
    obtain ⟨m, hm⟩ := childLife_mem_others k 1 [] k.nchild 0 [] i hi
    simp only [List.nil_append, List.length_nil, Nat.zero_add] at hm
    cases hi : k.execve [i] i with
    | none => rfl
    | some errno =>
      have hcalled := hall _ hm i (by rw [childLife_of_fail hi]; exact List.mem_cons_self)
      exact absurd (hi.symm.trans hcalled) (by simp)
  refine h ⟨hexec, fun hv => ?_⟩
  obtain ⟨m, hm⟩ := childLife_mem_others k 1 [] k.nchild 0 [] 0 (by omega)
  simp only [List.nil_append, List.length_nil, Nat.add_zero] at hm
  refine hk.quiet _ hm ?_
  rwa [childLife_of_exec (hexec 0 (by omega)), says_executed]

theorem countAndVerdict_of_silent {k : Kernel} (h : AllSilent k) : CountAndVerdict k := by
  have hothers : ∀ q ∈ k.life.others, ∃ j < k.nchild, q.path = [j] ∧ q.events =
      .called (.execve j) :: .execed [TEST_APP, "canary".toList] ::
        (k.app [TEST_APP, "canary".toList]).map .printed := by
    have := others_rest_of_exec (k := k) 1 [] k.nchild 0 [] (by simpa using h.1)
    simpa [life_eq] using this
  have hquiet : ∀ q ∈ k.life.others, ¬ Says q.events := by
    intro q hq
    obtain ⟨j, -, -, hevs⟩ := hothers q hq
    rw [hevs, says_executed]
    exact h.2
  refine ⟨forks_rest k 1 [] k.nchild 0 [], fun q hq => ?_, ?_, hquiet⟩
  · obtain ⟨j, -, -, hevs⟩ := hothers q hq
    rw [hevs, forks, List.countP_eq_zero]
    simp
  · refine iff_of_true (.inl (says_life k)) fun q hq i hi => ?_
    obtain ⟨j, hj, hpath, hevs⟩ := hothers q hq
    rw [hevs] at hi
    have hij : i = j := by simpa using hi
    rw [hpath, hij]
    exact h.1 j hj

theorem countAndVerdict_of_zero {k : Kernel} (h : k.nchild = 0) : CountAndVerdict k := by
  have hothers : k.life.others = [] := by
    rw [life_eq, h, run_rest_zero]
  refine ⟨forks_rest k 1 [] k.nchild 0 [], ?_, iff_of_true (.inl (says_life k)) ?_, ?_⟩
  · simp [hothers]
  · simp [AllExec, hothers]
  · simp [hothers]

/-- **The count and the verdict of `execve05`** are right exactly when there is no child, or
every child becomes another program that does not print the verdict. -/
theorem countAndVerdict_iff (k : Kernel) :
    CountAndVerdict k ↔ k.nchild = 0 ∨ AllSilent k := by
  constructor
  · intro hk
    by_contra h
    rw [not_or] at h
    exact not_countAndVerdict h.1 h.2 hk
  · rintro (h | h)
    · exact countAndVerdict_of_zero h
    · exact countAndVerdict_of_silent h

/-- With the repository's `execve_child`, which prints the verdict, only `nchild = 0` is
left. -/
theorem allSilent_execveChild {k : Kernel} (h : k.app = execveChild) : ¬ AllSilent k := by
  intro hk
  refine hk.2 ?_
  rw [h]
  decide

/-- Two children, neither of which can execute `execve_child`. -/
def Kernel.failing : Kernel := ⟨2, fun _ _ => some 2, execveChild⟩

example : Kernel.failing.life.others.length = 3 := by decide +kernel

theorem not_countAndVerdict_failing : ¬ CountAndVerdict Kernel.failing :=
  not_countAndVerdict (by decide) fun h => absurd (h.1 0 (by decide)) (by decide)

end Syscalls.Execve05
