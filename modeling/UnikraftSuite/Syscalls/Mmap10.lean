import UnikraftSuite.Lib.Process

/-!
# `mmap10`

`mmap10` maps a large area, first anonymously and then from `/dev/zero`, and in each phase
lets three children and itself unmap parts of it. What goes wrong in a child reaches the
parent through an exit status only, and a child that cannot unmap exits with 0.
-/

namespace Syscalls.Mmap10

open PyStr CStdio Process

/-! ## The program -/

/-- The calls; `a` is the phase, and `i` the number of the `fork` in it. -/
inductive Call where
  | sysconf
  | open
  | mmap (a : Nat)
  | fork (a i : Nat)
  | munmap (a i : Nat)
  | munmapAll (a : Nat)
  | exit (a i : Nat)
  /-- The calls of `waitpid` in the loop at the end of a phase. -/
  | waitpid (a : Nat)
  deriving DecidableEq

/-- What a call returns: for `fork` whether it succeeds, and for the loop of `waitpid` the
statuses it stores until it returns -1. -/
abbrev Reply : Call → Type
  | .sysconf => Int
  | .open => Int
  | .mmap _ => BitVec 64
  | .fork _ _ => Bool
  | .munmap _ _ => Int
  | .munmapAll _ => Int
  | .exit _ _ => Unit
  | .waitpid _ => List (BitVec 32)

def MAP_FAILED : BitVec 64 := -1

def verdict : Text := "test succeeded\n".toList

/-- `exit(0)`, at the latest where a signal can end the process. -/
def exit0 (a i : Nat) : Proc Call Reply Int := do
  let _ ← call (Call.exit a i)
  exit 0

/-- `while (waitpid(-1, &n, …) > 0)`, up to `return`. -/
def reap : List (BitVec 32) → Proc Call Reply Int
  | [] => return 1
  | n :: statuses =>
    if WEXITSTATUS n ≠ 0 then do
      printf ("child exit status is ".toList ++ str (WEXITSTATUS n).toInt)
      return 0
    else reap statuses

variable (errno : Call → Int)

/-- A line about a call that has failed. -/
def report (x : Text) (c : Call) : Proc Call Reply Unit :=
  printf (x ++ (str (errno c) ++ "\n".toList))

/-- The line, where the call has failed. -/
def reportIf (failed : Bool) (x : Text) (c : Call) : Proc Call Reply Unit :=
  if failed then report errno x c else return ()

/-- The part of `mmapzero` behind the three `fork`s. -/
def unmapAll (a : Nat) : Proc Call Reply Int := do
  if (← call (Call.munmapAll a)) = -1 then do
    report errno "munmap all failed, erorr number ".toList (.munmapAll a)
    return 0
  else do
    let statuses ← call (Call.waitpid a)
    reap statuses

/-- `munmap` in the third child, or in the parent if there is none. -/
def unmapThird (a : Nat) : Proc Call Reply Int := do
  let ret ← call (Call.munmap a 2)
  reportIf errno (ret = -1) "subsequent munmap #2, error number ".toList (.munmap a 2)
  exit0 a 2

def forkThird (a : Nat) : Proc Call Reply Int := do
  match ← forkIf (← call (Call.fork a 2)) with
  | .failed => do
    -- `case -1` has no `break`
    report errno "fork failed, error number ".toList (.fork a 2)
    unmapThird errno a
  | .child => unmapThird errno a
  | .parent _ => unmapAll errno a

/-- `munmap` in the second child. -/
def unmapSecond (a : Nat) : Proc Call Reply Int := do
  let ret ← call (Call.munmap a 1)
  reportIf errno (ret = -1) "subsequent munmap #1, error number ".toList (.munmap a 1)
  exit0 a 1

def forkSecond (a : Nat) : Proc Call Reply Int := do
  match ← forkIf (← call (Call.fork a 1)) with
  | .failed => do
    report errno "fork failed, error number ".toList (.fork a 1)
    return 0
  | .child => unmapSecond errno a
  | .parent _ => forkThird errno a

/-- `munmap` in the first child, which returns if it fails. -/
def unmapFirst (a : Nat) : Proc Call Reply Int := do
  if (← call (Call.munmap a 0)) = -1 then do
    report errno "munmap failed, erorr number ".toList (.munmap a 0)
    return 0
  else exit0 a 0

def forkFirst (a : Nat) : Proc Call Reply Int := do
  match ← forkIf (← call (Call.fork a 0)) with
  | .failed => do
    report errno "fork failed, error number ".toList (.fork a 0)
    return 0
  | .child => unmapFirst errno a
  | .parent _ => forkSecond errno a

/-- `/dev/zero` is opened in the second phase. -/
def openZero (a : Nat) : Proc Call Reply Unit :=
  if a = 1 then return ()
  else do
    let fd ← call Call.open
    reportIf errno (fd < 0) "open failed, error number ".toList .open

def mmapzero (a : Nat) : Proc Call Reply Int := do
  openZero errno a
  if (← call (Call.mmap a)) = MAP_FAILED then do
    report errno "mmap failed, error number ".toList (.mmap a)
    return 0
  else forkFirst errno a

def setup : Proc Call Reply Unit := do
  if (← call Call.sysconf) = -1 then do
    printf "sysconf(_SC_PAGESIZE)\n".toList
    exit 1

/-- What is left of `main` behind the second phase. -/
def finish (ret : Int) : Proc Call Reply Unit := if ret = 1 then printf verdict else return ()

/-- What is left of `main` behind the first phase. -/
def phase2 (errno : Call → Int) (ret : Int) : Proc Call Reply Unit :=
  if ret = 1 then do
    let ret ← mmapzero errno 2
    finish ret
  else return ()

def main (errno : Call → Int) : Proc Call Reply Unit := do
  setup
  printf "Starting tests\n".toList
  let ret ← mmapzero errno 1
  phase2 errno ret

/-! ## Runs -/

/-- The answers to each process, and the `errno` of a failed call. -/
structure Kernel where
  answer : Path → (c : Call) → Answer (Reply c)
  /-- No signal ends the initial process. -/
  initial : ∀ c, ∃ r, answer [] c = .val r
  errno : Call → Int

def Kernel.world (k : Kernel) : World Call Reply :=
  ⟨k.answer, fun _ _ => none, fun _ _ => .ends (.exited 0)⟩

/-- The initial process and all that it forks. -/
def Kernel.life (k : Kernel) : Life Call := run k.world (main k.errno) [] []

/-- Every `munmap` among these calls of the process `p` returns 0. -/
def Unmaps (k : Kernel) (p : Path) (evs : List (Event Call)) : Prop :=
  (∀ a i, .called (.munmap a i) ∈ evs → k.answer p (.munmap a i) = .val (0 : Int)) ∧
    ∀ a, .called (.munmapAll a) ∈ evs → k.answer p (.munmapAll a) = .val (0 : Int)

/-- The initial process prints the verdict only if every `munmap` made by it and its children
returned 0 and every child ended normally; nobody else prints it. -/
def VerdictSound (k : Kernel) : Prop :=
  (k.life.Prints verdict → Unmaps k [] k.life.events ∧
    ∀ q ∈ k.life.others, Unmaps k q.path q.events ∧ ∃ code, q.ended = .exited code) ∧
      ∀ q ∈ k.life.others, .printed verdict ∉ q.events

/-- A status in the loop has an exit code. -/
def BadStatus (k : Kernel) (a : Nat) : Prop :=
  ∃ statuses : List (BitVec 32), k.answer [] (.waitpid a) = .val statuses ∧
    ∃ n ∈ statuses, WEXITSTATUS n ≠ 0

/-- One of the calls that the initial process makes in phase `a` fails, or a status has an
exit code. -/
def PhaseStops (k : Kernel) (a : Nat) : Prop :=
  k.answer [] (.mmap a) = .val MAP_FAILED ∨
    (∃ i < 3, k.answer [] (.fork a i) = .val false) ∨
      k.answer [] (.munmapAll a) = .val (-1 : Int) ∨ BadStatus k a

/-- The initial process does not get through. -/
def Stops (k : Kernel) : Prop :=
  k.answer [] .sysconf = .val (-1 : Int) ∨ PhaseStops k 1 ∨ PhaseStops k 2

/-- The child `i` of phase `a`, the process `p`, unmaps its part and is not ended by a
signal. -/
def ChildMet (k : Kernel) (p : Path) (a i : Nat) : Prop :=
  k.answer p (.munmap a i) = .val (0 : Int) ∧ k.answer p (.exit a i) = .val ()

/-- All six children and the initial process unmap what they should. -/
def AllMet (k : Kernel) : Prop :=
  (∀ i < 3, ChildMet k [i] 1 i ∧ ChildMet k [3 + i] 2 i) ∧
    k.answer [] (.munmapAll 1) = .val (0 : Int) ∧ k.answer [] (.munmapAll 2) = .val (0 : Int)

/-! ## Lines -/

def Other (e : Event Call) : Prop := e ≠ .printed verdict

theorem Other.called (c : Call) : Other (.called c) := nofun

theorem Other.line {x : Text} (h : apart verdict x) (y : Text) : Other (.printed (x ++ y)) :=
  (Event.Aside.line (apart_append h y)).1

theorem report_other {x : Text} (h : apart verdict x) (errno : Call → Int) (s : Call) :
    (report errno x s).Always Other fun _ => True :=
  ⟨.line h _, trivial⟩

theorem exit0_always (a i : Nat) : (exit0 a i).Always Other fun ret => ret = 0 :=
  ⟨nofun, fun _ => trivial⟩

theorem reportIf_other {x : Text} (h : apart verdict x) (errno : Call → Int) (failed : Bool)
    (s : Call) : (reportIf errno failed x s).Always Other fun _ => True := by
  rw [reportIf]
  split
  · exact report_other h errno s
  · trivial

theorem unmapThird_always (errno : Call → Int) (a : Nat) :
    (unmapThird errno a).Always Other fun ret => ret = 0 :=
  ⟨nofun, fun _ => (reportIf_other (by decide) errno _ _).bind
    fun _ _ => exit0_always a 2⟩

theorem unmapSecond_always (errno : Call → Int) (a : Nat) :
    (unmapSecond errno a).Always Other fun ret => ret = 0 :=
  ⟨nofun, fun _ => (reportIf_other (by decide) errno _ _).bind
    fun _ _ => exit0_always a 1⟩

theorem unmapFirst_always (errno : Call → Int) (a : Nat) :
    (unmapFirst errno a).Always Other fun ret => ret = 0 := by
  refine ⟨nofun, fun ret => ?_⟩
  refine Proc.Always.ite ?_ ?_
  · exact ⟨.line (by decide) _, rfl⟩
  · exact exit0_always a 0

/-! ## The calls of the initial process -/

section Initial

variable {k : Kernel} {a : Nat} (f : Int → Proc Call Reply Unit) (kids : List Ended)

theorem run_forkThird (h : k.answer [] (.fork a 2) = .val true) :
    run k.world (forkThird k.errno a >>= f) [] kids =
      ((run k.world (unmapAll k.errno a >>= f) [] (kids ++
          [(run k.world (unmapThird k.errno a >>= f) [kids.length] []).ended])).withChild
        kids.length [kids.length]
        (run k.world (unmapThird k.errno a >>= f) [kids.length] [])).after
          (.called (.fork a 2)) := by
  rw [forkThird, call_bind, Proc.call_bind, run_call h, bind_assoc, forkIf_true_bind, run_fork]
  rfl

theorem run_forkSecond (h : k.answer [] (.fork a 1) = .val true) :
    run k.world (forkSecond k.errno a >>= f) [] kids =
      ((run k.world (forkThird k.errno a >>= f) [] (kids ++
          [(run k.world (unmapSecond k.errno a >>= f) [kids.length] []).ended])).withChild
        kids.length [kids.length]
        (run k.world (unmapSecond k.errno a >>= f) [kids.length] [])).after
          (.called (.fork a 1)) := by
  rw [forkSecond, call_bind, Proc.call_bind, run_call h, bind_assoc, forkIf_true_bind, run_fork]
  rfl

theorem run_forkFirst (h : k.answer [] (.fork a 0) = .val true) :
    run k.world (forkFirst k.errno a >>= f) [] kids =
      ((run k.world (forkSecond k.errno a >>= f) [] (kids ++
          [(run k.world (unmapFirst k.errno a >>= f) [kids.length] []).ended])).withChild
        kids.length [kids.length]
        (run k.world (unmapFirst k.errno a >>= f) [kids.length] [])).after
          (.called (.fork a 0)) := by
  rw [forkFirst, call_bind, Proc.call_bind, run_call h, bind_assoc, forkIf_true_bind, run_fork]
  rfl

/-- Nothing is printed once `f` has received a 0. -/
def Mute (k : Kernel) (f : Int → Proc Call Reply Unit) : Prop :=
  ∀ p kids, (run k.world (f 0) p kids).All Other

variable {f}

theorem all_of_zero (hf : Mute k f) {x : Proc Call Reply Int}
    (hx : x.Always Other fun ret => ret = 0) (p : Path) (kids : List Ended) :
    (run k.world (x >>= f) p kids).All Other :=
  hx.run_bind k.world (fun _ hret => hret ▸ hf) p kids

theorem reap_zero {statuses : List (BitVec 32)} (h : ∃ n ∈ statuses, WEXITSTATUS n ≠ 0) :
    (reap statuses).Always Other fun ret => ret = 0 := by
  induction statuses with
  | nil => simp at h
  | cons n statuses ih =>
    rw [reap]
    split
    · exact ⟨.line (by decide) _, rfl⟩
    · next hn =>
      refine ih ?_
      obtain ⟨m, hm, hne⟩ := h
      rcases List.mem_cons.mp hm with rfl | hm
      · exact absurd hne hn
      · exact ⟨m, hm, hne⟩

theorem unmapAll_stops (hf : Mute k f)
    (h : k.answer [] (.munmapAll a) = .val (-1 : Int) ∨ BadStatus k a) :
    (run k.world (unmapAll k.errno a >>= f) [] kids).All Other := by
  obtain ⟨ret, hret⟩ := k.initial (.munmapAll a)
  rw [unmapAll, call_bind, Proc.call_bind, run_call hret]
  refine Life.All.after ?_ nofun
  by_cases hfail : ret = (-1 : Int)
  · rw [if_pos hfail]
    refine all_of_zero hf ?_ [] kids
    exact ⟨.line (by decide) _, rfl⟩
  · obtain ⟨statuses, hs, hbad⟩ := h.resolve_left fun heq => hfail (by
      rw [hret] at heq
      exact Answer.val.inj heq)
    rw [if_neg hfail, call_bind, Proc.call_bind, run_call hs]
    exact (all_of_zero hf (reap_zero hbad) [] kids).after nofun

theorem forkThird_stops (hf : Mute k f) (h : k.answer [] (.fork a 2) = .val false ∨
      k.answer [] (.munmapAll a) = .val (-1 : Int) ∨ BadStatus k a) :
    (run k.world (forkThird k.errno a >>= f) [] kids).All Other := by
  obtain ⟨r, hr⟩ := k.initial (.fork a 2)
  cases r with
  | false =>
    rw [forkThird, call_bind, Proc.call_bind, run_call hr, forkIf_false_bind]
    refine (all_of_zero hf ?_ [] kids).after nofun
    exact (report_other (by decide) _ _).bind fun _ _ =>
      unmapThird_always _ _
  | true =>
    rw [run_forkThird f kids hr]
    have h' := h.resolve_left (by rw [hr]; simp)
    exact ((unmapAll_stops _ hf h').withChild (all_of_zero hf (unmapThird_always _ _) _ _)
      nofun _).after nofun

theorem forkSecond_stops (hf : Mute k f) (h : k.answer [] (.fork a 1) = .val false ∨
      k.answer [] (.fork a 2) = .val false ∨
      k.answer [] (.munmapAll a) = .val (-1 : Int) ∨ BadStatus k a) :
    (run k.world (forkSecond k.errno a >>= f) [] kids).All Other := by
  obtain ⟨r, hr⟩ := k.initial (.fork a 1)
  cases r with
  | false =>
    rw [forkSecond, call_bind, Proc.call_bind, run_call hr, forkIf_false_bind]
    refine (all_of_zero hf ?_ [] kids).after nofun
    exact ⟨.line (by decide) _, rfl⟩
  | true =>
    rw [run_forkSecond f kids hr]
    have h' := h.resolve_left (by rw [hr]; simp)
    exact ((forkThird_stops _ hf h').withChild (all_of_zero hf (unmapSecond_always _ _) _ _)
      nofun _).after nofun

theorem forkFirst_stops (hf : Mute k f) (h : k.answer [] (.fork a 0) = .val false ∨
      k.answer [] (.fork a 1) = .val false ∨ k.answer [] (.fork a 2) = .val false ∨
      k.answer [] (.munmapAll a) = .val (-1 : Int) ∨ BadStatus k a) :
    (run k.world (forkFirst k.errno a >>= f) [] kids).All Other := by
  obtain ⟨r, hr⟩ := k.initial (.fork a 0)
  cases r with
  | false =>
    rw [forkFirst, call_bind, Proc.call_bind, run_call hr, forkIf_false_bind]
    refine (all_of_zero hf ?_ [] kids).after nofun
    exact ⟨.line (by decide) _, rfl⟩
  | true =>
    rw [run_forkFirst f kids hr]
    have h' := h.resolve_left (by rw [hr]; simp)
    exact ((forkSecond_stops _ hf h').withChild (all_of_zero hf (unmapFirst_always _ _) _ _)
      nofun _).after nofun

/-- What the initial process itself does in phase `a`. -/
def Own (a : Nat) (e : Event Call) : Prop :=
  Other e ∧ (∀ b i, e ≠ .called (.munmap b i)) ∧ ∀ b, e = .called (.munmapAll b) → b = a

theorem Own.printed {x : Text} (h : Other (.printed x)) (a : Nat) : Own a (.printed x) :=
  ⟨h, nofun, nofun⟩

theorem openZero_plain (errno : Call → Int) (a : Nat) : (openZero errno a).Plain (Own a) := by
  rw [openZero]
  split
  · trivial
  · refine ⟨⟨nofun, nofun, nofun⟩, fun fd => ?_⟩
    refine Proc.Plain.ite ?_ ?_
    · exact ⟨.printed (.line (by decide) _) a, trivial⟩
    · trivial

theorem outcome_openZero (k : Kernel) (a : Nat) :
    outcome k.world [] (openZero k.errno a) = .back () := by
  obtain ⟨fd, hfd⟩ := k.initial .open
  rw [openZero]
  split
  · rfl
  · rw [call_bind, outcome]
    simp only [Kernel.world, hfd, reportIf]
    split
    · rfl
    · rfl

theorem mmapzero_stops (hf : Mute k f) (h : PhaseStops k a) :
    (run k.world (mmapzero k.errno a >>= f) [] kids).All Other := by
  obtain ⟨evs, hevs, hrun⟩ := (openZero_plain k.errno a).run_bind k.world []
  obtain ⟨addr, haddr⟩ := k.initial (.mmap a)
  rw [mmapzero, bind_assoc, hrun, outcome_openZero, Outcome.then, call_bind, Proc.call_bind,
    run_call haddr]
  refine Life.All.afterAll (Life.All.after ?_ (.called _)) fun e he => (hevs e he).1
  by_cases hfail : addr = MAP_FAILED
  · rw [if_pos hfail]
    refine all_of_zero hf ?_ [] kids
    exact ⟨.line (by decide) _, rfl⟩
  · rw [if_neg hfail]
    refine forkFirst_stops kids hf ?_
    rcases h with h | ⟨i, hi, h⟩ | h | h
    · rw [haddr] at h
      exact absurd (Answer.val.inj h) hfail
    · obtain rfl | rfl | rfl : i = 0 ∨ i = 1 ∨ i = 2 := by omega
      · exact .inl h
      · exact .inr (.inl h)
      · exact .inr (.inr (.inl h))
    · exact .inr (.inr (.inr (.inl h)))
    · exact .inr (.inr (.inr (.inr h)))

theorem reap_plain (statuses : List (BitVec 32)) : (reap statuses).Plain (Own a) := by
  induction statuses with
  | nil => trivial
  | cons n statuses ih =>
    rw [reap]
    split
    · exact ⟨.printed (.line (by decide) _) a, trivial⟩
    · exact ih

theorem outcome_reap (w : World Call Reply) {statuses : List (BitVec 32)}
    (h : ∀ n ∈ statuses, WEXITSTATUS n = 0) : outcome w [] (reap statuses) = .back 1 := by
  induction statuses with
  | nil => rfl
  | cons n statuses ih =>
    rw [List.forall_mem_cons] at h
    rw [reap, if_neg (not_not.mpr h.1)]
    exact ih h.2

variable (f)

theorem unmapAll_passes (hall : k.answer [] (.munmapAll a) ≠ .val (-1 : Int))
    (hs : ¬ BadStatus k a) : ∃ evs, (∀ e ∈ evs, Own a e) ∧ .called (.munmapAll a) ∈ evs ∧
      run k.world (unmapAll k.errno a >>= f) [] kids =
        (run k.world (f 1) [] kids).afterAll evs := by
  obtain ⟨ret, hret⟩ := k.initial (.munmapAll a)
  obtain ⟨statuses, hstatuses⟩ := k.initial (.waitpid a)
  have hok : ∀ n ∈ statuses, WEXITSTATUS n = 0 := by
    intro n hn
    by_contra hne
    exact hs ⟨statuses, hstatuses, n, hn, hne⟩
  have hne : ret ≠ (-1 : Int) := fun h => hall (h ▸ hret)
  obtain ⟨evs, hevs, hrun⟩ := (reap_plain (a := a) statuses).run_bind k.world []
  refine ⟨.called (.munmapAll a) :: .called (.waitpid a) :: evs, ?_, List.mem_cons_self, ?_⟩
  · refine List.forall_mem_cons.mpr ⟨⟨nofun, nofun, fun b hb => ?_⟩,
      List.forall_mem_cons.mpr ⟨⟨nofun, nofun, nofun⟩, hevs⟩⟩
    cases hb
    rfl
  · rw [unmapAll, call_bind, Proc.call_bind, run_call hret, if_neg hne, call_bind,
      Proc.call_bind, run_call hstatuses, hrun, outcome_reap _ hok]
    rfl

/-- The child `i` of a phase as one of the descendants. -/
def descendant (p : Path) (c : Life Call) : Descendant Call := ⟨p, c.events, c.ended⟩

/-- **A phase that the initial process gets through** leaves its three children behind. -/
theorem mmapzero_passes (h : ¬ PhaseStops k a) :
    ∃ evs, (∀ e ∈ evs, Own a e) ∧ .called (.munmapAll a) ∈ evs ∧
      ∃ c₀ c₁ c₂,
        c₀ = run k.world (unmapFirst k.errno a >>= f) [kids.length] [] ∧
        c₁ = run k.world (unmapSecond k.errno a >>= f) [kids.length + 1] [] ∧
        c₂ = run k.world (unmapThird k.errno a >>= f) [kids.length + 2] [] ∧
        ∃ l, l = run k.world (f 1) [] (kids ++ [c₀.ended] ++ [c₁.ended] ++ [c₂.ended]) ∧
          run k.world (mmapzero k.errno a >>= f) [] kids =
            ⟨evs ++ l.events, l.ended, descendant [kids.length] c₀ :: (c₀.others ++
              descendant [kids.length + 1] c₁ :: (c₁.others ++
                descendant [kids.length + 2] c₂ :: (c₂.others ++ l.others)))⟩ := by
  simp only [PhaseStops, not_or, not_exists, not_and] at h
  obtain ⟨hmmap, hfork, hall, hs⟩ := h
  have hforks : ∀ i < 3, k.answer [] (.fork a i) = .val true := by
    intro i hi
    obtain ⟨r, hr⟩ := k.initial (.fork a i)
    cases r with
    | false => exact absurd hr (hfork i hi)
    | true => exact hr
  obtain ⟨addr, haddr⟩ := k.initial (.mmap a)
  have hne : addr ≠ MAP_FAILED := fun h => hmmap (h ▸ haddr)
  obtain ⟨evs, hevs, hrun⟩ := (openZero_plain k.errno a).run_bind k.world []
  generalize hc₀ : run k.world (unmapFirst k.errno a >>= f) [kids.length] [] = c₀
  generalize hc₁ : run k.world (unmapSecond k.errno a >>= f) [kids.length + 1] [] = c₁
  generalize hc₂ : run k.world (unmapThird k.errno a >>= f) [kids.length + 2] [] = c₂
  obtain ⟨evs', hevs', hmem, hrun'⟩ := unmapAll_passes f
    (kids ++ [c₀.ended] ++ [c₁.ended] ++ [c₂.ended]) hall hs
  have hlen : (kids ++ [c₀.ended]).length = kids.length + 1 := by simp
  have hlen' : (kids ++ [c₀.ended] ++ [c₁.ended]).length = kids.length + 2 := by simp
  refine ⟨evs ++ ([.called (.mmap a), .called (.fork a 0), .forked kids.length,
    .called (.fork a 1), .forked (kids.length + 1), .called (.fork a 2),
    .forked (kids.length + 2)] ++ evs'), fun e he => ?_, ?_, c₀, c₁, c₂, rfl, rfl, rfl, _, rfl, ?_⟩
  · rcases List.mem_append.mp he with he | he
    · exact hevs e he
    · rcases List.mem_append.mp he with he | he
      · simp only [List.mem_cons, List.not_mem_nil, or_false] at he
        rcases he with rfl | rfl | rfl | rfl | rfl | rfl | rfl <;> exact ⟨nofun, nofun, nofun⟩
      · exact hevs' e he
  · exact List.mem_append_right _ (List.mem_append_right _ hmem)
  · rw [mmapzero, bind_assoc, hrun, outcome_openZero, Outcome.then, call_bind, Proc.call_bind,
      run_call haddr, if_neg hne, run_forkFirst f kids (hforks 0 (by decide)), hc₀,
      run_forkSecond f _ (hforks 1 (by decide)), hlen, hc₁,
      run_forkThird f _ (hforks 2 (by decide)), hlen', hc₂, hrun']
    simp [Life.afterAll, Life.after, Life.withChild, descendant]

end Initial

/-! ## The children -/

section Children

variable {k : Kernel} {a i : Nat} {p : Path} (f : Int → Proc Call Reply Unit)

theorem run_exit0 (a i : Nat) (p : Path) : run k.world (exit0 a i >>= f) p [] =
    ⟨[.called (.exit a i)], match k.answer p (.exit a i) with
      | .val _ => .exited 0
      | .kill d => .killed d, []⟩ := by
  rw [exit0, call_bind, Proc.call_bind]
  cases h : k.answer p (.exit a i) with
  | val r =>
    rw [run_call h]
    rfl
  | kill d =>
    rw [run_call_kill h]
    rfl

/-- A child of which the parent should hear nothing is one that has met its case. -/
theorem child_met_iff {g : Int → Proc Call Reply Int} (hg : g 0 = exit0 a i) {c : Life Call}
    (hc : run k.world (call (Call.munmap a i) >>= g >>= f) p [] = c) :
    (Unmaps k p c.events ∧ ∃ code, c.ended = .exited code) ↔ ChildMet k p a i := by
  rw [call_bind, Proc.call_bind] at hc
  cases hm : k.answer p (.munmap a i) with
  | kill d =>
    rw [run_call_kill hm] at hc
    subst hc
    refine iff_of_false ?_ fun h => ?_
    · rintro ⟨-, code, hcode⟩
      cases hcode
    · have := h.1
      rw [hm] at this
      cases this
  | val ret =>
    rw [run_call hm] at hc
    by_cases hret : ret = (0 : Int)
    · rw [hret, hg, run_exit0] at hc
      rw [hret] at hm
      subst hc
      cases he : k.answer p (.exit a i) with
      | val r =>
        refine iff_of_true ⟨⟨fun b j hbj => ?_, fun b hb => ?_⟩, 0, rfl⟩ ⟨hm, he⟩
        · have hij : b = a ∧ j = i := by simpa using hbj
          rw [hij.1, hij.2, hm]
        · simp at hb
      | kill d =>
        refine iff_of_false ?_ fun h => ?_
        · rintro ⟨-, code, hcode⟩
          cases hcode
        · have := h.2
          rw [he] at this
          cases this
    · refine iff_of_false (fun h => hret ?_) fun h => hret ?_
      · have := h.1.1 a i (by rw [← hc]; exact List.mem_cons_self)
        rw [hm] at this
        exact Answer.val.inj this
      · have := h.1
        rw [hm] at this
        exact Answer.val.inj this

variable {f}

theorem unmapFirst_others (hf : f 0 = return ()) :
    (run k.world (unmapFirst k.errno a >>= f) p []).others = [] := by
  rw [unmapFirst, call_bind, Proc.call_bind]
  cases hm : k.answer p (.munmap a 0) with
  | kill d => rw [run_call_kill hm]; rfl
  | val ret =>
    rw [run_call hm, Proc.ite_bind]
    split
    · show (run k.world (f 0) p []).others = []
      rw [hf]
      rfl
    · rw [run_exit0]
      rfl

theorem unmapSecond_others : (run k.world (unmapSecond k.errno a >>= f) p []).others = [] := by
  rw [unmapSecond, call_bind, Proc.call_bind]
  cases hm : k.answer p (.munmap a 1) with
  | kill d => rw [run_call_kill hm]; rfl
  | val ret =>
    rw [run_call hm, bind_assoc, reportIf, Proc.ite_bind]
    split
    · show (run k.world (exit0 a 1 >>= f) p []).others = []
      rw [run_exit0]
    · show (run k.world (exit0 a 1 >>= f) p []).others = []
      rw [run_exit0]

theorem unmapThird_others : (run k.world (unmapThird k.errno a >>= f) p []).others = [] := by
  rw [unmapThird, call_bind, Proc.call_bind]
  cases hm : k.answer p (.munmap a 2) with
  | kill d => rw [run_call_kill hm]; rfl
  | val ret =>
    rw [run_call hm, bind_assoc, reportIf, Proc.ite_bind]
    split
    · show (run k.world (exit0 a 2 >>= f) p []).others = []
      rw [run_exit0]
    · show (run k.world (exit0 a 2 >>= f) p []).others = []
      rw [run_exit0]

/-- What is to be known of the child `i` of phase `a`. -/
structure IsChild (k : Kernel) (p : Path) (a i : Nat) (c : Life Call) : Prop where
  other : ∀ e ∈ c.events, Other e
  others : c.others = []
  met : (Unmaps k p c.events ∧ ∃ code, c.ended = .exited code) ↔ ChildMet k p a i

theorem isChild_first (hf : f 0 = return ()) :
    IsChild k p a 0 (run k.world (unmapFirst k.errno a >>= f) p []) where
  other := (all_of_zero (fun _ _ => hf ▸ Life.All.ends _) (unmapFirst_always _ a) p []).1
  others := unmapFirst_others hf
  met := child_met_iff f (if_neg (show ¬ (0 : Int) = -1 by decide)) rfl

theorem isChild_second (hf : f 0 = return ()) :
    IsChild k p a 1 (run k.world (unmapSecond k.errno a >>= f) p []) where
  other := (all_of_zero (fun _ _ => hf ▸ Life.All.ends _) (unmapSecond_always _ a) p []).1
  others := unmapSecond_others
  met := child_met_iff f rfl rfl

theorem isChild_third (hf : f 0 = return ()) :
    IsChild k p a 2 (run k.world (unmapThird k.errno a >>= f) p []) where
  other := (all_of_zero (fun _ _ => hf ▸ Life.All.ends _) (unmapThird_always _ a) p []).1
  others := unmapThird_others
  met := child_met_iff f rfl rfl

/-- `mmapzero_passes`, where a child that returns is over. -/
theorem phase_children (kids : List Ended) (hf : f 0 = return ()) (h : ¬ PhaseStops k a) :
    ∃ evs, (∀ e ∈ evs, Own a e) ∧ .called (.munmapAll a) ∈ evs ∧
      ∃ c₀ c₁ c₂, IsChild k [kids.length] a 0 c₀ ∧ IsChild k [kids.length + 1] a 1 c₁ ∧
        IsChild k [kids.length + 2] a 2 c₂ ∧
        ∃ l, l = run k.world (f 1) [] (kids ++ [c₀.ended] ++ [c₁.ended] ++ [c₂.ended]) ∧
          run k.world (mmapzero k.errno a >>= f) [] kids =
            ⟨evs ++ l.events, l.ended, descendant [kids.length] c₀ ::
              descendant [kids.length + 1] c₁ :: descendant [kids.length + 2] c₂ :: l.others⟩ := by
  obtain ⟨evs, hevs, hmem, c₀, c₁, c₂, h₀, h₁, h₂, l, hl, hrun⟩ := mmapzero_passes f kids h
  have d₀ : IsChild k [kids.length] a 0 c₀ := h₀ ▸ isChild_first hf
  have d₁ : IsChild k [kids.length + 1] a 1 c₁ := h₁ ▸ isChild_second hf
  have d₂ : IsChild k [kids.length + 2] a 2 c₂ := h₂ ▸ isChild_third hf
  refine ⟨evs, hevs, hmem, c₀, c₁, c₂, d₀, d₁, d₂, l, hl, ?_⟩
  rw [hrun, d₀.others, d₁.others, d₂.others]
  rfl

end Children

/-! ## The verdict -/

theorem mute_finish (k : Kernel) : Mute k finish := fun _ _ => Life.All.ends _

theorem mute_phase2 (k : Kernel) : Mute k (phase2 k.errno) := fun _ _ => Life.All.ends _

/-- Up to the first phase. -/
theorem life_eq {k : Kernel} (h : k.answer [] .sysconf ≠ .val (-1 : Int)) : k.life =
    (run k.world (mmapzero k.errno 1 >>= phase2 k.errno) [] []).afterAll
      [.called .sysconf, .printed "Starting tests\n".toList] := by
  obtain ⟨ps, hps⟩ := k.initial .sysconf
  have hne : ps ≠ (-1 : Int) := fun heq => h (heq ▸ hps)
  rw [Kernel.life, main, setup, call_bind, Proc.call_bind, run_call hps, if_neg hne]
  rfl

theorem life_of_stops {k : Kernel} (h : Stops k) : k.life.All Other := by
  by_cases hps : k.answer [] .sysconf = .val (-1 : Int)
  · rw [Kernel.life, main, setup, call_bind, Proc.call_bind, run_call hps, if_pos rfl]
    have hline : Other (.printed "sysconf(_SC_PAGESIZE)\n".toList) :=
      (Event.Aside.line (by decide)).1
    exact ((Life.All.ends (.exited 1)).after hline).after nofun
  · rw [life_eq hps]
    refine Life.All.afterAll ?_ (List.forall_mem_cons.mpr ⟨nofun, List.forall_mem_singleton.mpr
      (Event.Aside.line (by decide)).1⟩)
    by_cases h1 : PhaseStops k 1
    · exact mmapzero_stops [] (mute_phase2 k) h1
    · obtain ⟨evs, hevs, -, c₀, c₁, c₂, d₀, d₁, d₂, l, hl, hrun⟩ :=
        phase_children (f := phase2 k.errno) [] rfl h1
      have hall : l.All Other :=
        hl ▸ mmapzero_stops _ (mute_finish k) ((h.resolve_left hps).resolve_left h1)
      rw [hrun]
      refine ⟨fun e he => ?_, ?_⟩
      · exact (List.mem_append.mp he).elim (fun he => (hevs e he).1) (hall.1 e)
      · simp only [List.forall_mem_cons]
        exact ⟨d₀.other, d₁.other, d₂.other, hall.2⟩

/-- **A run that gets through** prints the verdict; what the children did has no part in it. -/
theorem life_of_passes {k : Kernel} (h : ¬ Stops k) : ∃ evs,
    (∀ e ∈ evs, Other e ∧ ∀ b i, e ≠ .called (.munmap b i)) ∧
      (∀ b, .called (.munmapAll b) ∈ evs ↔ b = 1 ∨ b = 2) ∧
      ∃ c₀ c₁ c₂ c₃ c₄ c₅, (IsChild k [0] 1 0 c₀ ∧ IsChild k [1] 1 1 c₁ ∧ IsChild k [2] 1 2 c₂) ∧
        (IsChild k [3] 2 0 c₃ ∧ IsChild k [4] 2 1 c₄ ∧ IsChild k [5] 2 2 c₅) ∧
        k.life = ⟨evs ++ [.printed verdict], .exited 0, [descendant [0] c₀, descendant [1] c₁,
          descendant [2] c₂, descendant [3] c₃, descendant [4] c₄, descendant [5] c₅]⟩ := by
  simp only [Stops, not_or] at h
  obtain ⟨evs, hevs, hmem, c₀, c₁, c₂, d₀, d₁, d₂, l, hl, hrun⟩ :=
    phase_children (f := phase2 k.errno) [] rfl h.2.1
  obtain ⟨evs', hevs', hmem', c₃, c₄, c₅, d₃, d₄, d₅, l', hl', hrun'⟩ :=
    phase_children (f := finish) ([] ++ [c₀.ended] ++ [c₁.ended] ++ [c₂.ended]) rfl h.2.2
  have hlast : l' = ⟨[.printed verdict], .exited 0, []⟩ := hl'
  have hphase2 : l = _ := hl.trans hrun'
  have hstart : Other (.printed "Starting tests\n".toList) :=
    (Event.Aside.line (by decide)).1
  refine ⟨[.called .sysconf, .printed "Starting tests\n".toList] ++ (evs ++ evs'), ?_, ?_, c₀, c₁,
    c₂, c₃, c₄, c₅, ⟨d₀, d₁, d₂⟩, ⟨d₃, d₄, d₅⟩, ?_⟩
  · refine List.forall_mem_cons.mpr ⟨⟨nofun, nofun⟩, List.forall_mem_cons.mpr
      ⟨⟨hstart, nofun⟩, fun e he => ?_⟩⟩
    rcases List.mem_append.mp (show e ∈ evs ++ evs' from he) with he | he
    · exact ⟨(hevs e he).1, (hevs e he).2.1⟩
    · exact ⟨(hevs' e he).1, (hevs' e he).2.1⟩
  · intro b
    constructor
    · intro hb
      simp only [List.cons_append, List.nil_append, List.mem_cons, reduceCtorEq, false_or,
        Event.called.injEq, List.mem_append] at hb
      exact hb.imp (fun hb => (hevs _ hb).2.2 b rfl) fun hb => (hevs' _ hb).2.2 b rfl
    · rintro (rfl | rfl)
      · exact List.mem_append_right _ (List.mem_append_left _ hmem)
      · exact List.mem_append_right _ (List.mem_append_right _ hmem')
  · rw [life_eq h.1, hrun, hphase2, hlast]
    simp [Life.afterAll]

theorem verdictSound_of_stops {k : Kernel} (h : Stops k) : VerdictSound k := by
  have hall := life_of_stops h
  exact ⟨fun hp => absurd rfl (hall.1 _ hp), fun q hq he => hall.2 q hq _ he rfl⟩

theorem verdictSound_of_passes {k : Kernel} (h : ¬ Stops k) : VerdictSound k ↔ AllMet k := by
  obtain ⟨evs, hevs, hall, c₀, c₁, c₂, c₃, c₄, c₅, ⟨d₀, d₁, d₂⟩, ⟨d₃, d₄, d₅⟩, hlife⟩ :=
    life_of_passes h
  have hprints : k.life.Prints verdict := by
    rw [Life.Prints, hlife]
    simp
  have hothers : ∀ q ∈ k.life.others, .printed verdict ∉ q.events := by
    rw [hlife]
    simp only [List.forall_mem_cons]
    exact ⟨fun h => d₀.other _ h rfl, fun h => d₁.other _ h rfl, fun h => d₂.other _ h rfl,
      fun h => d₃.other _ h rfl, fun h => d₄.other _ h rfl, fun h => d₅.other _ h rfl, by simp⟩
  have hown : Unmaps k [] k.life.events ↔ k.answer [] (.munmapAll 1) = .val (0 : Int) ∧
      k.answer [] (.munmapAll 2) = .val (0 : Int) := by
    rw [hlife]
    constructor
    · intro h
      exact ⟨h.2 1 (List.mem_append_left _ ((hall 1).mpr (.inl rfl))),
        h.2 2 (List.mem_append_left _ ((hall 2).mpr (.inr rfl)))⟩
    · rintro ⟨h1, h2⟩
      refine ⟨fun b i hb => ?_, fun b hb => ?_⟩
      · have hb' : .called (.munmap b i) ∈ evs := by simpa using hb
        exact absurd rfl ((hevs _ hb').2 b i)
      · have hb' : .called (.munmapAll b) ∈ evs := by simpa using hb
        rcases (hall b).mp hb' with rfl | rfl
        · exact h1
        · exact h2
  have hchildren : (∀ q ∈ k.life.others, Unmaps k q.path q.events ∧
      ∃ code, q.ended = .exited code) ↔
        ∀ i < 3, ChildMet k [i] 1 i ∧ ChildMet k [3 + i] 2 i := by
    rw [hlife]
    simp only [List.forall_mem_cons]
    constructor
    · rintro ⟨h₀, h₁, h₂, h₃, h₄, h₅, -⟩ i hi
      obtain rfl | rfl | rfl : i = 0 ∨ i = 1 ∨ i = 2 := by omega
      · exact ⟨d₀.met.mp h₀, d₃.met.mp h₃⟩
      · exact ⟨d₁.met.mp h₁, d₄.met.mp h₄⟩
      · exact ⟨d₂.met.mp h₂, d₅.met.mp h₅⟩
    · intro h
      exact ⟨d₀.met.mpr (h 0 (by decide)).1, d₁.met.mpr (h 1 (by decide)).1,
        d₂.met.mpr (h 2 (by decide)).1, d₃.met.mpr (h 0 (by decide)).2,
        d₄.met.mpr (h 1 (by decide)).2, d₅.met.mpr (h 2 (by decide)).2, by simp⟩
  rw [VerdictSound, AllMet, hown, hchildren]
  tauto

/-- **The verdict of `mmap10`** can be relied on exactly when one of the calls of the initial
process fails, or else nothing went wrong in any child. -/
theorem verdictSound_iff (k : Kernel) : VerdictSound k ↔ Stops k ∨ AllMet k := by
  by_cases h : Stops k
  · exact iff_of_true (verdictSound_of_stops h) (.inl h)
  · rw [verdictSound_of_passes h, or_iff_right h]

/-- No child can unmap its part; all of them exit with 0. -/
def Kernel.childrenFail : Kernel where
  answer
    | _, .sysconf => .val (4096 : Int)
    | _, .open => .val (3 : Int)
    | _, .mmap _ => .val (0x7f0000000000 : BitVec 64)
    | _, .fork _ _ => .val true
    | _, .munmap _ _ => .val (-1 : Int)
    | _, .munmapAll _ => .val (0 : Int)
    | _, .exit _ _ => .val ()
    | _, .waitpid _ => .val [exitStatus 0, exitStatus 0, exitStatus 0]
  initial c := by cases c <;> exact ⟨_, rfl⟩
  errno _ := 22

example : Kernel.childrenFail.life.Prints verdict := by
  unfold Life.Prints
  decide +kernel

theorem not_stops_childrenFail : ¬ Stops Kernel.childrenFail := by
  have hphase : ∀ a, ¬ PhaseStops Kernel.childrenFail a := by
    rintro a (h | ⟨i, -, h⟩ | h | ⟨statuses, h, n, hn, hne⟩)
    · exact (show (0x7f0000000000 : BitVec 64) ≠ MAP_FAILED by decide) (Answer.val.inj h)
    · exact Bool.noConfusion (Answer.val.inj h)
    · exact (show (0 : Int) ≠ -1 by decide) (Answer.val.inj h)
    · have hexit : WEXITSTATUS (exitStatus 0) = 0 := by rw [WEXITSTATUS_exitStatus]; rfl
      rw [← Answer.val.inj h] at hn
      simp only [List.mem_cons, List.not_mem_nil, or_false, or_self] at hn
      exact hne (hn ▸ hexit)
  rintro (h | h | h)
  · exact absurd (Answer.val.inj h) (by decide)
  · exact hphase 1 h
  · exact hphase 2 h

theorem not_verdictSound_childrenFail : ¬ VerdictSound Kernel.childrenFail := by
  rw [verdictSound_of_passes not_stops_childrenFail]
  intro h
  exact absurd (Answer.val.inj (h.1 0 (by decide)).1.1) (show (-1 : Int) ≠ 0 by decide)

end Syscalls.Mmap10
