import UnikraftSuite.Lib.Process

/-!
# `fcntl07`

For each of four descriptors `fcntl07` forks a child that executes the same program again with
the arguments `-T` and the descriptor, so that `test_open` can look whether it has been closed.
But `main` does not look at its arguments, and the child forks children of its own.
-/

namespace Syscalls.Fcntl07

open PyStr CStdio Process

/-! ## The program -/

def EBADF : Int := 9

/-- A return value, and the `errno` that is set. -/
structure Result where
  ret : Int
  errno : Int

/-- The calls. The ones of `verify_cloexec` are numbered by the row, `close` by the
descriptor. -/
inductive Call where
  | openFile
  | pipe
  | mkfifo
  | openFifo
  | setfd (i : Nat)
  | fork (i : Nat)
  | execlp (argv : List Text)
  | getfd (fd : Int)
  | close (i : Nat)
  | fprintf (x : Text)
  deriving DecidableEq

/-- What a call returns: `pipe` the two descriptors, `fork` whether it succeeds, and `execlp` the
`errno` unless it succeeds. -/
abbrev Reply : Call → Type
  | .openFile => Int
  | .pipe => Int × Int
  | .mkfifo => Int
  | .openFifo => Int
  | .setfd _ => Result
  | .fork _ => Bool
  | .execlp _ => Option Int
  | .getfd _ => Result
  | .close _ => Result
  | .fprintf _ => Unit

def TCID : Text := "fcntl07".toList

structure Fds where
  fileFd : Int
  pipeFds : Int × Int
  fifoFd : Int

structure Tcase where
  fd : Int
  msg : Text

def tcases (fds : Fds) : Nat → Tcase
  | 0 => ⟨fds.fileFd, "regular file".toList⟩
  | 1 => ⟨fds.pipeFds.1, "pipe (write end)".toList⟩
  | 2 => ⟨fds.pipeFds.2, "pipe (read end)".toList⟩
  | _ => ⟨fds.fifoFd, "fifo".toList⟩

def TST_TOTAL : Nat := 4

/-- `%o`. -/
def oct (v : BitVec 32) : Text := Nat.toDigits 8 v.toNat

/-- What the parent makes of the status of a child. -/
def checkStatus (msg : Text) (status : BitVec 32) : Proc Call Reply Int :=
  if ¬ WIFEXITED status then do
    printf ("waitpid return was 0".toList ++ (oct status ++ "\n".toList))
    return 0
  else if WEXITSTATUS status = 2 then do
    printf "exec failed\n".toList
    return 0
  else if WEXITSTATUS status = 0 then do
    printf (msg ++ " CLOEXEC fd was closed after exec()\n".toList)
    return 1
  else do
    printf (msg ++ (" child exited non-zero, ".toList ++ str (WEXITSTATUS status).toInt
      ++ "\n".toList))
    return 0

variable (strerror : Int → Text)

/-- The child: `execlp(TCID, TCID, "-T", pidname, NULL)`. -/
def execChild {α : Type} (pidname : Text) : Proc Call Reply α := do
  match ← call (Call.execlp [TCID, "-T".toList, pidname]) with
  | none => exec [TCID, "-T".toList, pidname]
  | some errno => do
    let _ ← call (Call.fprintf ("exec(".toList ++ TCID ++ ", ".toList ++ TCID ++ ", -T, ".toList
      ++ pidname ++ ") failed.  Errno ".toList ++ strerror errno ++ " [".toList ++ str errno
      ++ "]\n".toList))
    exit 2

def verifyCloexec (i : Nat) (tc : Tcase) : Proc Call Reply Int := do
  let ret ← call (Call.setfd i)
  if ret.ret = -1 then do
    printf ("fcntl(".toList ++ (tc.msg ++ "[".toList ++ str tc.fd
      ++ "], F_SETFD, FD_CLOEXEC) failed, error number ".toList ++ str ret.errno ++ "\n".toList))
    return 0
  else do
    let pidname := str tc.fd
    match ← forkIf (← call (Call.fork i)) with
    | .failed => do
      printf "fork() failed\n".toList
      return 0
    | .child => execChild strerror pidname
    | .parent pid => do
      let status ← waitpid pid
      checkStatus tc.msg status

def setup : Proc Call Reply Fds := do
  let fileFd ← call Call.openFile
  let pipeFds ← call Call.pipe
  let _ ← call Call.mkfifo
  let fifoFd ← call Call.openFifo
  return ⟨fileFd, pipeFds, fifoFd⟩

/-- `if (fd > 0 && close(fd)) printf(…)`. -/
def closeFd (i : Nat) (fd : Int) (message : Int → Text) : Proc Call Reply Unit :=
  if fd > 0 then do
    let r ← call (Call.close i)
    if r.ret ≠ 0 then printf (message r.errno) else return ()
  else return ()

def cleanup (fds : Fds) : Proc Call Reply Unit := do
  closeFd 0 fds.fileFd fun _ => "close(file_fd) failed\n".toList
  closeFd 1 fds.pipeFds.1 fun errno =>
    "close(pipe_fds[0]) failed, error number ".toList ++ (str errno ++ "\n".toList)
  closeFd 2 fds.pipeFds.2 fun errno =>
    "close(pipe_fds[1]) failed, error number ".toList ++ (str errno ++ "\n".toList)
  closeFd 3 fds.fifoFd fun errno =>
    "close(fifo_fd) failed, error number ".toList ++ (str errno ++ "\n".toList)

def verdict : Text := "test succeeded\n".toList

/-- A turn of the loop in `main`. -/
def mainTurn (fds : Fds) (i : Nat) (ok : Int) : Proc Call Reply Int := do
  let v ← verifyCloexec strerror i (tcases fds i)
  return ok * v

/-- What is left of `main` behind the loop. -/
def finish (fds : Fds) (ok : Int) : Proc Call Reply Unit :=
  if ok ≠ 0 then do
    printf verdict
    cleanup fds
  else cleanup fds

/-- `main(ac, av)`, which uses neither. -/
def main (_av : List Text) : Proc Call Reply Unit := do
  let fds ← setup
  let ok ← loop (mainTurn strerror fds) 0 TST_TOTAL 1
  finish fds ok

def isspace (c : Char) : Bool := c == ' ' || (9 ≤ c.toNat && c.toNat ≤ 13)

/-- `atoi`, up to overflow. -/
def atoi (x : Text) : Int :=
  let value (ds : Text) : Nat := Nat.ofDigitChars 10 (ds.takeWhile Char.isDigit) 0
  match x.dropWhile isspace with
  | '-' :: ds => -(value ds : Int)
  | '+' :: ds => value ds
  | ds => value ds

/-- `test_open(arg)`, which nothing calls. -/
def testOpen (arg : Text) : Proc Call Reply Int := do
  let fd := atoi arg
  let rc ← call (Call.getfd fd)
  if rc.ret = -1 ∧ rc.errno = EBADF then return 0
  else do
    let _ ← call (Call.fprintf ("fcntl() returned ".toList ++ str rc.ret ++ ", errno ".toList
      ++ str rc.errno ++ "\n".toList))
    return 1

/-! ## Runs -/

/-- The answers to each process, before and after it has executed the program again. -/
structure Kernel where
  answer : Path → (c : Call) → Answer (Reply c)
  strerror : Int → Text

/-- A process that calls `execlp` goes on with `main`, but for the generation `n`, of which
nothing more is known than that it is running. -/
def Kernel.world (k : Kernel) : Nat → World Call Reply
  | 0 => ⟨k.answer, fun _ _ => none, fun _ _ => .ends .running⟩
  | n + 1 => ⟨k.answer, fun _ _ => none, fun p av => run (k.world n) (main k.strerror av) p []⟩

/-- The initial process with its descendants, as far as the generation `n`. -/
def Kernel.life (k : Kernel) (n : Nat) : Life Call :=
  run (k.world n) (main k.strerror [TCID]) [] []

/-- The process has executed the program with a descriptor, and this descriptor is closed. -/
def Closed (k : Kernel) (q : Descendant Call) : Prop :=
  ∃ fd : Int, .execed [TCID, "-T".toList, str fd] ∈ q.events ∧
    k.answer q.path (.getfd fd) = .val (⟨-1, EBADF⟩ : Result)

/-- With the arguments `-T fd` only `test_open` is evaluated, and its result is the exit status;
there are as many children as rows, and the verdict is printed if and only if each of them finds
its descriptor closed. -/
structure FiniteTree (k : Kernel) : Prop where
  dispatch : ∀ n p (fd : Int), run (k.world n) (main k.strerror [TCID, "-T".toList, str fd]) p [] =
    run (k.world n) (testOpen (str fd) >>= exit : Proc Call Reply Unit) p []
  count : ∃ n, ∀ m ≥ n, (k.life m).others.length = TST_TOTAL
  verdict : ∃ n, ∀ m ≥ n, (k.life m).Prints verdict ↔ ∀ q ∈ (k.life m).others, Closed k q

/-! ## The arguments -/

/-- A program that begins with a call. -/
theorem head?_call (w : World Call Reply) {α : Type} (c : Call) (f : Reply c → Proc Call Reply α)
    (p : Path) (kids : List Ended) :
    (run w (.call c f) p kids).events.head? = some (.called c) := by
  cases h : w.answer p c with
  | val r =>
    rw [run_call h]
    rfl
  | kill d =>
    rw [run_call_kill h]
    rfl

/-- Whatever its arguments are, `main` begins with `setup`. -/
theorem head?_main (w : World Call Reply) (strerror : Int → Text) (av : List Text) (p : Path) :
    (run w (main strerror av) p []).events.head? = some (.called .openFile) :=
  head?_call w _ _ p []

theorem head?_testOpen (w : World Call Reply) (arg : Text) (p : Path) :
    (run w (testOpen arg >>= exit : Proc Call Reply Unit) p []).events.head? =
      some (.called (.getfd (atoi arg))) :=
  head?_call w _ _ p []

/-- **`fcntl07` is never what it should be**: with `-T` it does not call `test_open`. -/
theorem not_finiteTree (k : Kernel) : ¬ FiniteTree k := by
  intro h
  have hhead := congrArg (fun l => l.events.head?) (h.dispatch 0 [] 0)
  simp only [head?_main, head?_testOpen] at hhead
  cases hhead

/-! ## The processes -/

/-- In the process `p` the calls up to the first `fork` succeed, and the `execlp` that has made
it. -/
structure Succeeds (k : Kernel) (p : Path) : Prop where
  openFile : ∃ fd, k.answer p .openFile = .val fd
  pipe : ∃ fds, k.answer p .pipe = .val fds
  mkfifo : ∃ ret, k.answer p .mkfifo = .val ret
  openFifo : ∃ fd, k.answer p .openFifo = .val fd
  setfd : ∃ r, k.answer p (.setfd 0) = .val r ∧ r.ret ≠ -1
  fork : k.answer p (.fork 0) = .val true
  execlp : ∀ argv, k.answer p (.execlp argv) = .val none

theorem world_answer (k : Kernel) (n : Nat) : (k.world n).answer = k.answer := by
  cases n with
  | zero => rfl
  | succ n => rfl

/-- The process of a child from `fork` on: it executes the program again. -/
def again (k : Kernel) (n : Nat) (p : Path) (av : List Text) : Life Call :=
  (((k.world n).image p av).after (.execed av)).after (.called (.execlp av))

theorem run_execChild {k : Kernel} {p : Path} (h : Succeeds k p) (n : Nat) (pidname : Text)
    {α β : Type} (f : α → Proc Call Reply β) :
    run (k.world n) (execChild k.strerror pidname >>= f) p [] =
      again k n p [TCID, "-T".toList, pidname] := by
  rw [execChild, call_bind, Proc.call_bind, run_call (by rw [world_answer, h.execlp])]
  rfl

/-- The first row: the process waits for a child that does not end. -/
theorem run_verifyCloexec {k : Kernel} {p : Path} (h : Succeeds k p)
    (hchild : Succeeds k (p ++ [0])) (n : Nat) (tc : Tcase)
    (hrun : ∀ av, ((k.world n).image (p ++ [0]) av).ended = .running)
    {β : Type} (f : Int → Proc Call Reply β) :
    run (k.world n) (verifyCloexec k.strerror 0 tc >>= f) p [] =
      ((Life.ends .running).withChild 0 (p ++ [0])
        (again k n (p ++ [0]) [TCID, "-T".toList, str tc.fd])).afterAll
          [.called (.setfd 0), .called (.fork 0)] := by
  obtain ⟨r, hr, hret⟩ := h.setfd
  rw [verifyCloexec, call_bind, Proc.call_bind, run_call (by rw [world_answer, hr]), if_neg hret,
    call_bind, Proc.call_bind, run_call (by rw [world_answer, h.fork]), bind_assoc,
    forkIf_true_bind, run_fork]
  have hlife := run_execChild hchild n (str tc.fd) f
  show (((run (k.world n) (.wait 0 _) p ([] ++ [(run (k.world n) (execChild k.strerror _ >>= f) _
    []).ended])).withChild 0 _ (run (k.world n) (execChild k.strerror _ >>= f) _ [])).after _).after
      _ = _
  rw [List.length_nil, hlife]
  have hended : (again k n (p ++ [0]) [TCID, "-T".toList, str tc.fd]).ended = .running := hrun _
  rw [hended]
  rfl

theorem setup_plain : setup.Plain (· ≠ .printed verdict) :=
  ⟨nofun, fun _ => ⟨nofun, fun _ => ⟨nofun, fun _ => ⟨nofun, fun _ => trivial⟩⟩⟩⟩

theorem outcome_setup {k : Kernel} {p : Path} (h : Succeeds k p) (n : Nat) :
    ∃ fds, outcome (k.world n) p setup = .back fds := by
  obtain ⟨fileFd, hfile⟩ := h.openFile
  obtain ⟨pipeFds, hpipe⟩ := h.pipe
  obtain ⟨ret, hmkfifo⟩ := h.mkfifo
  obtain ⟨fifoFd, hfifo⟩ := h.openFifo
  refine ⟨⟨fileFd, pipeFds, fifoFd⟩, ?_⟩
  simp only [setup, call_bind]
  rw [outcome_call (by rw [world_answer, hfile]), outcome_call (by rw [world_answer, hpipe]),
    outcome_call (by rw [world_answer, hmkfifo]), outcome_call (by rw [world_answer, hfifo])]
  rfl

/-- A process whose child does not end waits for it, without a verdict. -/
theorem run_main {k : Kernel} {p : Path} (h : Succeeds k p) (hchild : Succeeds k (p ++ [0]))
    (n : Nat) (av : List Text)
    (hrun : ∀ av, ((k.world n).image (p ++ [0]) av).ended = .running) :
    ∃ evs av', .printed verdict ∉ evs ∧ run (k.world n) (main k.strerror av) p [] =
      ((Life.ends .running).withChild 0 (p ++ [0]) (again k n (p ++ [0]) av')).afterAll evs := by
  obtain ⟨fds, hfds⟩ := outcome_setup h n
  obtain ⟨evs, hevs, hsetup⟩ := setup_plain.run_bind (k.world n) p
  refine ⟨evs ++ [.turn (some 0), .called (.setfd 0), .called (.fork 0)],
    [TCID, "-T".toList, str fds.fileFd], ?_, ?_⟩
  · simpa using fun hmem => hevs _ hmem rfl
  · rw [main, hsetup, hfds, Outcome.then, TST_TOTAL, loop, Proc.turn_bind, run_turn, mainTurn,
      bind_assoc, bind_assoc, run_verifyCloexec h hchild n _ hrun]
    simp only [Life.after, Life.afterAll, List.append_assoc, List.cons_append, List.nil_append]
    rfl

/-- The process is waiting, has more than `n` descendants, and has not printed the verdict. -/
structure Waiting (n : Nat) (l : Life Call) : Prop where
  ended : l.ended = .running
  others : n < l.others.length
  quiet : ¬ l.Prints verdict

/-- One generation more. -/
theorem Waiting.step {k : Kernel} {p : Path} (h : Succeeds k p) (hchild : Succeeds k (p ++ [0]))
    {n : Nat} (himage : ∀ av, ((k.world n).image (p ++ [0]) av).ended = .running ∧
      n ≤ ((k.world n).image (p ++ [0]) av).others.length) (av : List Text) :
    Waiting n (run (k.world n) (main k.strerror av) p []) := by
  obtain ⟨evs, av', hevs, hmain⟩ := run_main h hchild n av fun av => (himage av).1
  rw [hmain]
  refine ⟨rfl, ?_, ?_⟩
  · simp only [Life.afterAll_others, Life.withChild_others, Life.ends_others, List.append_nil,
      List.length_cons]
    exact Nat.lt_succ_of_le (himage av').2
  · simp [Life.Prints, hevs]

/-- **The tree of processes has no end**: where the calls succeed, each process waits for a child
that executes the program again. -/
theorem waiting_main {k : Kernel} (h : ∀ p, Succeeds k p) (n : Nat) : ∀ p av,
    Waiting n (run (k.world n) (main k.strerror av) p []) := by
  induction n with
  | zero => exact fun p => Waiting.step (h p) (h _) fun av => ⟨rfl, le_refl _⟩
  | succ n ih =>
    exact fun p => Waiting.step (h p) (h _) fun av => ⟨(ih _ av).ended, (ih _ av).others⟩

/-- All calls of all processes succeed, and every descriptor has been closed. -/
def Kernel.faultless : Kernel where
  answer
    | _, .openFile => .val (3 : Int)
    | _, .pipe => .val ((4, 5) : Int × Int)
    | _, .mkfifo => .val (0 : Int)
    | _, .openFifo => .val (6 : Int)
    | _, .setfd _ => .val (⟨0, 0⟩ : Result)
    | _, .fork _ => .val true
    | _, .execlp _ => .val none
    | _, .getfd _ => .val (⟨-1, EBADF⟩ : Result)
    | _, .close _ => .val (⟨0, 0⟩ : Result)
    | _, .fprintf _ => .val ()
  strerror _ := "Success".toList

theorem succeeds_faultless (p : Path) : Succeeds Kernel.faultless p where
  openFile := ⟨_, rfl⟩
  pipe := ⟨_, rfl⟩
  mkfifo := ⟨_, rfl⟩
  openFifo := ⟨_, rfl⟩
  setfd := ⟨_, rfl, by decide⟩
  fork := rfl
  execlp _ := rfl

/-- The number of children is not 4. -/
theorem not_finiteTree_faultless : ¬ FiniteTree Kernel.faultless := by
  intro h
  obtain ⟨n, hn⟩ := h.count
  have hcount := hn (n + 4) (by omega)
  have hmany := (waiting_main succeeds_faultless (n + 4) [] [TCID]).others
  rw [Kernel.life] at hcount
  rw [hcount, TST_TOTAL] at hmany
  omega

end Syscalls.Fcntl07
